import MclLink.Frame.Stream
import MclLink.Lib.Traced

/-!
# The frame codec stays inside its buffers

The encoder and the decoder once more, with every byte they touch recorded. They compute the same
as the functions without a record; the encoder writes each byte of the frame and no other, and the
decoder reads none that it has not been given.
-/

namespace MclLink

open Bytes

/-- `mcl_link_crc32` with its reads. -/
def mclLinkCrc32Traced (data : List UInt8) (size : Nat) : Traced UInt32 := do
  let data ← loadAll data 0 size
  return mclLinkCrc32 (some data) size

def MclLinkFrame.storeFields (frame : MclLinkFrame) (c : Cursor) : Traced Cursor := do
  let c ← c.store (mclLinkPutU32 frame.sourceRef)
  let c ← c.storeIf (frame.has mclLinkFlagDestination) (mclLinkPutU32 frame.destinationRef)
  let c ← c.storeIf (frame.has mclLinkFlagSession) (mclLinkPutU32 frame.sessionRef)
  let c ← c.storeIf (frame.has mclLinkFlagSequence) (mclLinkPutU16 frame.sequence)
  c.storeIf (frame.has mclLinkFlagFreshness) (mclLinkPutU16 frame.freshnessMs)

/-- The frame up to its check. -/
def MclLinkFrame.storeUnchecked (frame : MclLinkFrame) (major : UInt8) (c : Cursor) :
    Traced Cursor := do
  let c ← c.store [(major.toUInt32 <<< 4 ||| frame.frameClass.toUInt32).toUInt8]
  let c ← c.store [frame.flags]
  let c ← frame.storeFields c
  let c ← c.store (mclLinkPutU16 frame.payloadLen)
  c.store (frame.payload.getD [])

/-- The check behind what has been written. -/
def MclLinkFrame.storeCheck (frame : MclLinkFrame) (c : Cursor) : Traced Cursor :=
  if frame.has mclLinkFlagFrameCheck then do
    let check ← mclLinkCrc32Traced c.bytes c.pos
    c.store (mclLinkPutU32 check)
  else return c

/-- `mcl_link_frame_encode_at_major` with its accesses to the buffer. -/
def mclLinkFrameEncodeTraced (major : UInt8) (frame : Option MclLinkFrame)
    (out : Option (List UInt8)) (written : Option Nat) :
    Traced (MclLinkStatus × Option (List UInt8) × Option Nat) :=
  match frame, out, written with
  | some frame, some out, some _ =>
    if major ≠ mclLinkFrameMajor ∧ major ≠ mclLinkStableMajor then
      return (.errIncompatibleVersion, some out, written)
    else if mclLinkFrameEncodable (some frame) = false then return (.errRange, some out, written)
    else if out.length < mclLinkFrameEncodedSize (some frame) then
      return (.errRange, some out, written)
    else do
      let c ← frame.storeUnchecked major ⟨out, 0⟩
      let c ← frame.storeCheck c
      return (.ok, some c.bytes, some c.pos)
  | _, _, _ => return (.errInvalidArgument, out, written)

def MclLinkFrame.loadFields (frame : MclLinkFrame) (c : Cursor) : Traced (MclLinkFrame × Cursor) := do
  let source ← mclLinkU32.load c
  let destination ← mclLinkU32.loadIf (frame.has mclLinkFlagDestination) 0 source.2
  let session ← mclLinkU32.loadIf (frame.has mclLinkFlagSession) 0 destination.2
  let sequence ← mclLinkU16.loadIf (frame.has mclLinkFlagSequence) 0 session.2
  let freshness ← mclLinkU16.loadIf (frame.has mclLinkFlagFreshness) 0 sequence.2
  return ({ frame with
    sourceRef := source.1
    destinationRef := destination.1
    sessionRef := session.1
    sequence := sequence.1
    freshnessMs := freshness.1 }, freshness.2)

def MclLinkFrame.checkTraced (frame : MclLinkFrame) (c : Cursor) (consumed : Nat) :
    Traced (MclLinkStatus × MclLinkFrame × Nat) :=
  if frame.has mclLinkFlagFrameCheck then do
    let left ← c.countLeft
    if left.val < 4 then return (.errTruncated, frame, consumed)
    else
      let received ← mclLinkU32.load c
      let check ← mclLinkCrc32Traced c.bytes c.pos
      if received.1 ≠ check then return (.errFrameCheck, frame, consumed)
      else return (.ok, frame, received.2.pos)
  else return (.ok, frame, c.pos)

/-- The decoder behind the payload length. -/
def MclLinkFrame.loadPayload (frame : MclLinkFrame) (payloadLen : UInt16) (c : Cursor)
    (consumed : Nat) : Traced (MclLinkStatus × MclLinkFrame × Nat) :=
  if payloadLen > mclLinkFrameMaxPayload then return (.errRange, frame, consumed)
  else do
    let left ← c.countLeft
    if h : left.val < payloadLen.toNat then return (.errTruncated, frame, consumed)
    else
      if payloadLen ≠ 0 then c.lend payloadLen.toNat
      let frame := frame.borrow payloadLen (c.ahead.take payloadLen.toNat)
        (Cursor.length_take_ahead (left.property ▸ h))
      frame.checkTraced (c.skip payloadLen.toNat) consumed

/-- The decoder from the source reference on. -/
def MclLinkFrame.loadBody (frame : MclLinkFrame) (c : Cursor) (consumed : Nat) :
    Traced (MclLinkStatus × MclLinkFrame × Nat) := do
  let fields ← frame.loadFields c
  let length ← mclLinkU16.load fields.2
  fields.1.loadPayload length.1 length.2 consumed

/-- `mcl_link_frame_decode` with its accesses to the buffer. -/
def mclLinkFrameDecodeTraced (input : Option (List UInt8)) (frame : Option MclLinkFrame)
    (consumed : Option Nat) : Traced (MclLinkStatus × Option MclLinkFrame × Option Nat) :=
  match input, frame, consumed with
  | some input, some frame, some size =>
    if input.length < mclLinkFrameMinSize then return (.errTruncated, some frame, consumed)
    else do
      let first ← load input 0
      let major := (first >>> 4) &&& 0x0F
      if major ≠ mclLinkFrameMajor ∧ major ≠ mclLinkStableMajor then
        return (.errIncompatibleVersion, some frame, consumed)
      else
        let again ← load input 0
        let frame := { frame with linkMajor := major, frameClass := again &&& 0x0F }
        if frame.frameClass ≥ mclLinkClassCount then return (.errRange, some frame, consumed)
        else if frame.frameClass = mclLinkClassAdapt then return (.errRange, some frame, consumed)
        else
          let flags ← load input 1
          if flags &&& mclLinkFlagReserved ≠ 0 then return (.errRange, some frame, consumed)
          else
            let frame := { frame with flags := flags }
            if input.length < mclLinkFrameMinSize + mclLinkOptionalSize flags then
              return (.errTruncated, some frame, consumed)
            else
              let r ← frame.loadBody ⟨input, 2⟩ size
              return (r.1, some r.2.1, some r.2.2)
  | _, _, _ => return (.errInvalidArgument, frame, consumed)

variable {f g : MclLinkFrame} {major : UInt8} {c : Cursor} {done rest out : List UInt8} {n : Nat}

section Encoder

private theorem MclLinkFrame.storeFields_at (h : c.At done (out.drop done.length))
    (hfit : (done ++ f.fieldBytes).length ≤ out.length) :
    (f.storeFields c).Stores out done f.fieldBytes := by
  simp only [MclLinkFrame.fieldBytes, List.length_append] at hfit
  have hsource := h.store (mclLinkPutU32 f.sourceRef) (by rw [List.length_append]; omega)
  have hdestination := hsource.value.storeIf (f.has mclLinkFlagDestination)
    (mclLinkPutU32 f.destinationRef) (by simp only [List.length_append]; omega)
  have hsession := hdestination.value.storeIf (f.has mclLinkFlagSession)
    (mclLinkPutU32 f.sessionRef) (by simp only [List.length_append]; omega)
  have hsequence := hsession.value.storeIf (f.has mclLinkFlagSequence)
    (mclLinkPutU16 f.sequence) (by simp only [List.length_append]; omega)
  have hfreshness := hsequence.value.storeIf (f.has mclLinkFlagFreshness)
    (mclLinkPutU16 f.freshnessMs) (by simp only [List.length_append]; omega)
  simp only [MclLinkFrame.storeFields, MclLinkFrame.fieldBytes, List.append_assoc]
  apply hsource.bind
  apply hdestination.bind
  apply hsession.bind
  apply hsequence.bind
  exact hfreshness

private theorem MclLinkFrame.storeUnchecked_at (hfit : (f.unchecked major).length ≤ out.length) :
    (f.storeUnchecked major ⟨out, 0⟩).Stores out [] (f.unchecked major) := by
  have hstart : Cursor.At ⟨out, 0⟩ [] (out.drop ([] : List UInt8).length) := ⟨rfl, rfl⟩
  simp only [MclLinkFrame.unchecked, MclLinkFrame.bodyBytes, List.length_append] at hfit
  have hnil : ([] : List UInt8).length = 0 := rfl
  have hversion := hstart.store [f.versionByte major]
    (by simp only [List.length_append]; omega)
  have hflags := hversion.value.store [f.flags] (by simp only [List.length_append]; omega)
  have hfields := MclLinkFrame.storeFields_at (f := f) hflags.value
    (by simp only [List.length_append]; omega)
  have hlength := hfields.value.store (mclLinkPutU16 f.payloadLen)
    (by simp only [List.length_append]; omega)
  have hpayload := hlength.value.store (f.payload.getD [])
    (by simp only [List.length_append]; omega)
  simp only [MclLinkFrame.storeUnchecked, MclLinkFrame.unchecked, MclLinkFrame.bodyBytes,
    List.append_assoc]
  apply hversion.bind
  apply hflags.bind
  apply hfields.bind
  apply hlength.bind
  exact hpayload

private theorem value_mclLinkCrc32Traced (h : n ≤ done.length) :
    (mclLinkCrc32Traced done n).value = mclLinkCrc32 (some done) n := by
  rw [mclLinkCrc32Traced, Traced.value_bind, Traced.value_pure, value_loadAll (by omega)]
  simp only [mclLinkCrc32, List.drop_zero, List.take_take, Nat.min_self]

private theorem log_mclLinkCrc32Traced : (mclLinkCrc32Traced done n).log = reads 0 n := by
  rw [mclLinkCrc32Traced, Traced.log_bind, log_loadAll, Traced.log_pure, List.append_nil]

private theorem MclLinkFrame.storeCheck_at (h : c.At done (out.drop done.length))
    (hfit : (done ++ f.checkBytes done).length ≤ out.length) :
    (f.storeCheck c).value.At (done ++ f.checkBytes done)
        (out.drop (done ++ f.checkBytes done).length) ∧
      (f.storeCheck c).log =
        if f.has mclLinkFlagFrameCheck then reads 0 done.length ++ writes done.length 4 else [] := by
  have hbytes := h.bytes
  rw [MclLinkFrame.checkBytes] at hfit ⊢
  rw [MclLinkFrame.storeCheck]
  cases hcheck : f.has mclLinkFlagFrameCheck with
  | false => simpa [only] using h
  | true =>
    have hvalue : (mclLinkCrc32Traced c.bytes done.length).value =
        mclLinkCrc32 (some done) done.length := by
      rw [value_mclLinkCrc32Traced, ← mclLinkCrc32_at h, h.pos]
      rw [hbytes, List.length_append]
      omega
    rw [hcheck] at hfit
    have hstore := h.store _ hfit
    simp only [if_true, Traced.value_bind, Traced.log_bind, hvalue, log_mclLinkCrc32Traced, h.pos]
    exact ⟨hstore.value, congrArg (_ ++ ·) hstore.log⟩

private theorem mclLinkFrameEncodeTraced_ok {written : Nat}
    (hmajor : major = mclLinkFrameMajor ∨ major = mclLinkStableMajor)
    (hf : mclLinkFrameEncodable (some f) = true)
    (hout : mclLinkFrameEncodedSize (some f) ≤ out.length) :
    (mclLinkFrameEncodeTraced major (some f) (some out) (some written)).value =
        (.ok, some (f.layout major ++ out.drop (f.layout major).length),
          some (f.layout major).length) ∧
      (mclLinkFrameEncodeTraced major (some f) (some out) (some written)).log =
        writes 0 (f.unchecked major).length ++
          if f.has mclLinkFlagFrameCheck then
            reads 0 (f.unchecked major).length ++ writes (f.unchecked major).length 4
          else [] := by
  have hlength := @MclLinkFrame.length_layout f major hf
  have hfit : (f.unchecked major ++ f.checkBytes (f.unchecked major)).length ≤ out.length :=
    hlength.trans_le hout
  have hfront : (f.unchecked major).length ≤ out.length :=
    (List.length_append ▸ Nat.le_add_right _ _).trans hfit
  have hunchecked := MclLinkFrame.storeUnchecked_at hfront
  obtain ⟨hvalue, hlog⟩ := MclLinkFrame.storeCheck_at hunchecked.value hfit
  simp only [mclLinkFrameEncodeTraced]
  rw [if_neg (by tauto), if_neg (by simp [hf]), if_neg (by omega)]
  constructor
  · exact Prod.ext rfl (Prod.ext (congrArg some hvalue.bytes) (congrArg some hvalue.pos))
  · rw [Traced.log_bind, Traced.log_bind, hunchecked.log, hlog, Traced.log_pure, List.append_nil]
    rfl

end Encoder

section Decoder

private theorem MclLinkFrame.loadFields_at
    (h : c.pos + mclLinkFieldsSize g.flags ≤ c.bytes.length) :
    (g.loadFields c).value = g.readFields c ∧
      (g.loadFields c).log = reads c.pos (mclLinkFieldsSize g.flags) := by
  rw [← g.length_fields, g.length_fieldBytes] at h ⊢
  have hlong : mclLinkU32.size = 4 := rfl
  have hshort : mclLinkU16.size = 2 := rfl
  have hpos : ∀ n, (c.skip n).pos = c.pos + n := fun _ => rfl
  have hbytes : ∀ n, (c.skip n).bytes = c.bytes := fun _ => rfl
  have hskip : (mclLinkU32.read c).2 = c.skip 4 := rfl
  have hsource := mclLinkU32.value_load (c := c) (by rw [hlong]; omega)
  have hdestination := mclLinkU32.value_loadIf (g.has mclLinkFlagDestination) 0 (c := c.skip 4)
    (by rw [hpos, hbytes, hlong]; omega)
  have hsession := mclLinkU32.value_loadIf (g.has mclLinkFlagSession) 0
    (c := c.skip (4 + if g.has mclLinkFlagDestination then 4 else 0))
    (by rw [hpos, hbytes, hlong]; omega)
  have hsequence := mclLinkU16.value_loadIf (g.has mclLinkFlagSequence) 0
    (c := c.skip (4 + (if g.has mclLinkFlagDestination then 4 else 0) +
      if g.has mclLinkFlagSession then 4 else 0)) (by rw [hpos, hbytes, hshort]; omega)
  have hfreshness := mclLinkU16.value_loadIf (g.has mclLinkFlagFreshness) 0
    (c := c.skip (4 + (if g.has mclLinkFlagDestination then 4 else 0) +
      (if g.has mclLinkFlagSession then 4 else 0) +
      if g.has mclLinkFlagSequence then 2 else 0)) (by rw [hpos, hbytes, hshort]; omega)
  simp only [MclLinkFrame.loadFields, MclLinkFrame.readFields, Traced.value_bind, Traced.log_bind,
    Traced.value_pure, Traced.log_pure, hsource, hskip, hdestination, Codec.readIf_skip,
    Cursor.skip_skip, hlong, hshort, hsession, hsequence, hfreshness, Codec.log_load,
    Codec.log_loadIf, hpos, List.append_nil, ← Nat.add_assoc, reads_append, true_and]

private theorem mclLinkCrc32Traced_computes (h : n ≤ done.length) :
    (mclLinkCrc32Traced done n).Computes done.length (mclLinkCrc32 (some done) n) :=
  ⟨value_mclLinkCrc32Traced h, log_mclLinkCrc32Traced ▸ within_reads (by omega)⟩

private theorem MclLinkFrame.checkTraced_computes (h : c.pos ≤ c.bytes.length) :
    (f.checkTraced c n).Computes c.bytes.length (f.checkFrame c n) := by
  apply Traced.Computes.ite
  · intro _
    apply (Cursor.countLeft_computes h).bind
    apply Traced.Computes.ite
    · exact fun _ => .pure _ _
    intro (hlong : ¬ c.bytes.length - c.pos < 4)
    have hfour : c.pos + mclLinkU32.size ≤ c.bytes.length := by
      show c.pos + 4 ≤ _
      omega
    apply (mclLinkU32.load_computes hfour).bind
    apply (mclLinkCrc32Traced_computes h).bind
    apply Traced.Computes.ite
    · exact fun _ => .pure _ _
    · exact fun _ => .pure _ _
  · exact fun _ => .pure _ _

/-- The decoder behind the payload length, without its accesses. -/
def MclLinkFrame.readPayload (frame : MclLinkFrame) (payloadLen : UInt16) (c : Cursor)
    (consumed : Nat) : MclLinkStatus × MclLinkFrame × Nat :=
  if payloadLen > mclLinkFrameMaxPayload then (.errRange, frame, consumed)
  else if h : c.bytes.length - c.pos < payloadLen.toNat then (.errTruncated, frame, consumed)
  else
    (frame.borrow payloadLen (c.ahead.take payloadLen.toNat)
      (Cursor.length_take_ahead h)).checkFrame
        (c.skip payloadLen.toNat) consumed

private theorem MclLinkFrame.loadPayload_computes (payloadLen : UInt16)
    (h : c.pos ≤ c.bytes.length) :
    (f.loadPayload payloadLen c n).Computes c.bytes.length (f.readPayload payloadLen c n) := by
  apply Traced.Computes.ite
  · exact fun _ => .pure _ _
  intro _
  apply (Cursor.countLeft_computes h).bind
  apply Traced.Computes.dite
  · exact fun _ => .pure _ _
  intro (hlong : ¬ c.bytes.length - c.pos < payloadLen.toNat)
  have hend : c.pos + payloadLen.toNat ≤ c.bytes.length := by omega
  have hcheck := fun f : MclLinkFrame =>
    MclLinkFrame.checkTraced_computes (f := f) (n := n) (c := c.skip payloadLen.toNat) hend
  split_ifs
  · apply (Cursor.lend_computes hend).bind
    exact hcheck _
  · exact hcheck _

private theorem MclLinkFrame.loadBody_computes
    (h : c.pos + mclLinkFieldsSize g.flags + 2 ≤ c.bytes.length) :
    (g.loadBody c n).Computes c.bytes.length (g.readBody c n) := by
  have hskip := MclLinkFrame.readFields_skip (g := g) (c := c)
  obtain ⟨hfields, hlog⟩ := MclLinkFrame.loadFields_at (g := g) (c := c) (by omega)
  have hlength := mclLinkU16.value_load (c := (g.readFields c).2) (by rw [hskip]; exact h)
  have hpast : (mclLinkU16.read (g.readFields c).2).2 =
      ⟨c.bytes, c.pos + mclLinkFieldsSize g.flags + 2⟩ := by
    rw [hskip]
    rfl
  have hpayload := MclLinkFrame.loadPayload_computes (f := (g.readFields c).1) (n := n)
    (mclLinkU16.read (g.readFields c).2).1 (c := (mclLinkU16.read (g.readFields c).2).2)
    (by rw [hpast]; exact h)
  have hbody : g.readBody c n = (g.readFields c).1.readPayload
      (mclLinkU16.read (g.readFields c).2).1 (mclLinkU16.read (g.readFields c).2).2 n := rfl
  rw [hpast] at hpayload hbody
  rw [MclLinkFrame.loadBody, hbody]
  apply Traced.Computes.bind ⟨hfields, _⟩
  · apply Traced.Computes.bind ⟨hlength, _⟩
    · rw [hpast]
      exact hpayload
    · rw [Codec.log_load, hskip]
      exact within_reads h
  · rw [hlog]
    exact within_reads (by omega)

/-- The decoder with its accesses computes what the decoder computes, inside the buffer. -/
theorem mclLinkFrameDecodeTraced_computes {b : List UInt8} :
    (mclLinkFrameDecodeTraced (some b) (some g) (some n)).Computes b.length
      (mclLinkFrameDecode (some b) (some g) (some n)) := by
  apply Traced.Computes.ite
  · exact fun _ => .pure _ _
  intro hmin
  have hsize : 8 ≤ b.length := Nat.le_of_not_lt hmin
  apply (load_computes (by omega)).bind
  apply Traced.Computes.ite
  · exact fun _ => .pure _ _
  intro _
  apply (load_computes (by omega)).bind
  apply Traced.Computes.ite
  · exact fun _ => .pure _ _
  intro _
  apply Traced.Computes.ite
  · exact fun _ => .pure _ _
  intro _
  apply (load_computes (by omega)).bind
  apply Traced.Computes.ite
  · exact fun _ => .pure _ _
  intro _
  apply Traced.Computes.ite
  · exact fun _ => .pure _ _
  intro hheader
  have hfields : 2 + mclLinkFieldsSize (b.getD 1 0) + 2 ≤ b.length :=
    mclLinkHeaderSize_fields.trans (Nat.le_of_not_lt hheader)
  have hbody : ∀ g : MclLinkFrame, g.flags = b.getD 1 0 →
      (g.loadBody ⟨b, 2⟩ n).Computes b.length (g.readBody ⟨b, 2⟩ n) := by
    intro g hflags
    apply MclLinkFrame.loadBody_computes
    rw [hflags]
    exact hfields
  apply Traced.Computes.bind (hbody _ rfl)
  exact .pure _ _

private theorem MclLinkFrame.checkFrame_past {m : Nat} (h : f.checkFrame c n = (.ok, g, m)) :
    g = f ∧ c.pos ≤ m := by
  simp only [MclLinkFrame.checkFrame] at h
  split_ifs at h with hcheck hshort hreceived
  · simp at h
  · simp at h
  · obtain ⟨rfl, rfl⟩ : f = g ∧ (mclLinkU32.read c).2.pos = m := by simpa using h
    exact ⟨rfl, Nat.le_add_right _ _⟩
  · obtain ⟨rfl, rfl⟩ : f = g ∧ c.pos = m := by simpa using h
    exact ⟨rfl, Nat.le_refl _⟩

/-- The payload lies between the length and the end of the frame, and is lent from there. -/
structure MclLinkFrame.Lent (f : MclLinkFrame) (bytes : List UInt8) (pos consumed : Nat)
    (log : List Access) : Prop where
  inside : pos + f.payloadLen.toNat ≤ consumed
  payload : f.payload =
    if f.payloadLen ≠ 0 then some ((bytes.drop pos).take f.payloadLen.toNat) else none
  lend : f.payloadLen ≠ 0 → .lend pos f.payloadLen.toNat ∈ log

private theorem MclLinkFrame.loadPayload_lent {payloadLen : UInt16} {m : Nat}
    (h : f.readPayload payloadLen c n = (.ok, g, m)) :
    g.Lent c.bytes c.pos m (f.loadPayload payloadLen c n).log := by
  rw [MclLinkFrame.readPayload] at h
  split_ifs at h with hmax hshort
  · simp at h
  · simp at h
  · obtain ⟨rfl, hpast⟩ := MclLinkFrame.checkFrame_past h
    refine ⟨hpast, rfl, fun hsome => ?_⟩
    have hsome : payloadLen ≠ 0 := hsome
    apply Traced.mem_else hmax
    apply Traced.mem_then
    have hleft : ¬ c.countLeft.value.val < payloadLen.toNat := hshort
    rw [dif_neg hleft, if_pos hsome]
    apply Traced.mem_first
    exact List.mem_singleton_self _

private theorem MclLinkFrame.loadBody_lent {m : Nat}
    (hsize : c.pos + mclLinkFieldsSize g.flags + 2 ≤ c.bytes.length)
    (h : g.readBody c n = (.ok, f, m)) :
    f.Lent c.bytes (c.pos + mclLinkFieldsSize g.flags + 2) m (g.loadBody c n).log := by
  have hskip := MclLinkFrame.readFields_skip (g := g) (c := c)
  obtain ⟨hfields, -⟩ := MclLinkFrame.loadFields_at (g := g) (c := c) (by omega)
  have hlength := mclLinkU16.value_load (c := (g.readFields c).2) (by rw [hskip]; exact hsize)
  have hpast : (mclLinkU16.read (g.readFields c).2).2 =
      ⟨c.bytes, c.pos + mclLinkFieldsSize g.flags + 2⟩ := by
    rw [hskip]
    rfl
  have hbody : (g.readFields c).1.readPayload (mclLinkU16.read (g.readFields c).2).1
      (mclLinkU16.read (g.readFields c).2).2 n = (.ok, f, m) := h
  obtain ⟨hinside, hpayload, hlend⟩ := MclLinkFrame.loadPayload_lent hbody
  rw [hpast] at hinside hpayload hlend
  refine ⟨hinside, hpayload, fun hsome => ?_⟩
  apply Traced.mem_then
  apply Traced.mem_then
  rw [hfields, hlength, hpast]
  exact hlend hsome

private theorem mclLinkFrameDecodeTraced_lent {b : List UInt8} {m : Nat}
    (h : mclLinkFrameDecode (some b) (some g) (some n) = (.ok, some f, some m)) :
    f.Lent b (2 + mclLinkFieldsSize (b.getD 1 0) + 2) m
      (mclLinkFrameDecodeTraced (some b) (some g) (some n)).log := by
  simp only [mclLinkFrameDecode] at h
  split_ifs at h with hmin hmajor hclass hadapt hreserved hheader
  · simp at h
  · simp at h
  · simp at h
  · simp at h
  · simp at h
  · simp at h
  have hfields : 2 + mclLinkFieldsSize (b.getD 1 0) + 2 ≤ b.length :=
    mclLinkHeaderSize_fields.trans (Nat.le_of_not_lt hheader)
  have hbody : ∀ g : MclLinkFrame, g.flags = b.getD 1 0 →
      ((g.readBody ⟨b, 2⟩ n).1, some (g.readBody ⟨b, 2⟩ n).2.1, some (g.readBody ⟨b, 2⟩ n).2.2) =
        (.ok, some f, some m) →
      f.Lent b (2 + mclLinkFieldsSize (b.getD 1 0) + 2) m (g.loadBody ⟨b, 2⟩ n).log := by
    intro g hflags hok
    have hread : g.readBody ⟨b, 2⟩ n = (.ok, f, m) := by
      simp only [Prod.mk.injEq, Option.some.injEq] at hok
      exact Prod.ext hok.1 (Prod.ext hok.2.1 hok.2.2)
    rw [← hflags] at hfields ⊢
    exact MclLinkFrame.loadBody_lent hfields hread
  obtain ⟨hinside, hpayload, hlend⟩ := hbody _ rfl h
  refine ⟨hinside, hpayload, fun hsome => ?_⟩
  apply Traced.mem_else hmin
  apply Traced.mem_then
  apply Traced.mem_else hmajor
  apply Traced.mem_then
  apply Traced.mem_else hclass
  apply Traced.mem_else hadapt
  apply Traced.mem_then
  apply Traced.mem_else hreserved
  apply Traced.mem_else hheader
  apply Traced.mem_first
  exact hlend hsome

end Decoder

theorem mclLinkFrameEncodeAtMajor_ok_iff {written : Nat} :
    (mclLinkFrameEncodeAtMajor major (some f) (some out) (some written)).1 = .ok ↔
      (major = mclLinkFrameMajor ∨ major = mclLinkStableMajor) ∧
        mclLinkFrameEncodable (some f) = true ∧ mclLinkFrameEncodedSize (some f) ≤ out.length := by
  constructor
  · intro h
    rw [mclLinkFrameEncodeAtMajor] at h
    by_cases hmajor : major ≠ mclLinkFrameMajor ∧ major ≠ mclLinkStableMajor
    · rw [if_pos hmajor] at h
      simp at h
    by_cases hf : mclLinkFrameEncodable (some f) = false
    · rw [if_neg hmajor, if_pos hf] at h
      simp at h
    by_cases hout : out.length < mclLinkFrameEncodedSize (some f)
    · rw [if_neg hmajor, if_neg hf, if_pos hout] at h
      simp at h
    exact ⟨by tauto, Bool.not_eq_false _ ▸ hf, Nat.le_of_not_lt hout⟩
  · rintro ⟨hmajor, hf, hout⟩
    rw [mclLinkFrameEncodeAtMajor_ok written hmajor hf hout]

private theorem value_mclLinkFrameEncodeTraced (written : Nat) :
    (mclLinkFrameEncodeTraced major (some f) (some out) (some written)).value =
      mclLinkFrameEncodeAtMajor major (some f) (some out) (some written) := by
  by_cases hmajor : major ≠ mclLinkFrameMajor ∧ major ≠ mclLinkStableMajor
  · simp only [mclLinkFrameEncodeTraced, mclLinkFrameEncodeAtMajor]
    rw [if_pos hmajor, if_pos hmajor]
    rfl
  by_cases hf : mclLinkFrameEncodable (some f) = false
  · simp only [mclLinkFrameEncodeTraced, mclLinkFrameEncodeAtMajor]
    rw [if_neg hmajor, if_neg hmajor, if_pos hf, if_pos hf]
    rfl
  by_cases hout : out.length < mclLinkFrameEncodedSize (some f)
  · simp only [mclLinkFrameEncodeTraced, mclLinkFrameEncodeAtMajor]
    rw [if_neg hmajor, if_neg hmajor, if_neg hf, if_neg hf, if_pos hout, if_pos hout]
    rfl
  · have hmajor : major = mclLinkFrameMajor ∨ major = mclLinkStableMajor := by tauto
    have hf : mclLinkFrameEncodable (some f) = true := Bool.not_eq_false _ ▸ hf
    rw [(mclLinkFrameEncodeTraced_ok hmajor hf (Nat.le_of_not_lt hout)).1,
      mclLinkFrameEncodeAtMajor_ok written hmajor hf (Nat.le_of_not_lt hout)]

private theorem MclLinkFrame.length_unchecked_add (f : MclLinkFrame) (major : UInt8) :
    (f.layout major).length =
      (f.unchecked major).length + if f.has mclLinkFlagFrameCheck then 4 else 0 := by
  rw [MclLinkFrame.layout, List.length_append, MclLinkFrame.checkBytes, length_only]
  rfl

private theorem mclLinkFrameEncodeTraced_writes {written : Nat}
    (hmajor : major = mclLinkFrameMajor ∨ major = mclLinkStableMajor)
    (hf : mclLinkFrameEncodable (some f) = true)
    (hout : mclLinkFrameEncodedSize (some f) ≤ out.length) (p : Nat) :
    .write p ∈ (mclLinkFrameEncodeTraced major (some f) (some out) (some written)).log ↔
      p < mclLinkFrameEncodedSize (some f) := by
  rw [(mclLinkFrameEncodeTraced_ok hmajor hf hout).2, ← @MclLinkFrame.length_layout f major hf,
    MclLinkFrame.length_unchecked_add]
  split_ifs with hcheck
  · simp [mem_writes, mem_reads]
    omega
  · simp [mem_writes]

/-- The frame codec stays inside its buffers. The encoder writes the positions of the frame and no
others, reports the size that was computed in advance, and computes the check over bytes that it
has written; the decoder reads no byte behind its input, subtracts no position from a smaller size
and lends a payload that lies inside what it consumed. -/
theorem mclLinkFrame_stays_inside :
    (∀ (major : UInt8) (f : MclLinkFrame) (out : List UInt8) (written : Nat),
      let traced := mclLinkFrameEncodeTraced major (some f) (some out) (some written)
      let size := mclLinkFrameEncodedSize (some f)
      traced.value = mclLinkFrameEncodeAtMajor major (some f) (some out) (some written) ∧
        (traced.value.1 = .ok ↔ (major = mclLinkFrameMajor ∨ major = mclLinkStableMajor) ∧
          mclLinkFrameEncodable (some f) = true ∧ size ≤ out.length) ∧
        (traced.value.1 = .ok → (∀ p, .write p ∈ traced.log ↔ p < size) ∧
          traced.value.2.2 = some size ∧ size ≤ 1048 ∧
          ∀ past p rest, traced.log = past ++ .read p :: rest → .write p ∈ past)) ∧
    ∀ (b : List UInt8) (g : MclLinkFrame) (consumed : Nat),
      let traced := mclLinkFrameDecodeTraced (some b) (some g) (some consumed)
      traced.value = mclLinkFrameDecode (some b) (some g) (some consumed) ∧
        (∀ a ∈ traced.log, a.Within b.length) ∧
        ∀ f n, traced.value = (.ok, some f, some n) → (8 ≤ n ∧ n ≤ min 1048 b.length) ∧
          ∃ pos, f.Lent b pos n traced.log := by
  constructor
  · intro major f out written traced size
    have hvalue := @value_mclLinkFrameEncodeTraced f major out written
    have hok : traced.value.1 = .ok ↔ _ := hvalue ▸ mclLinkFrameEncodeAtMajor_ok_iff
    refine ⟨hvalue, hok, fun h => ?_⟩
    obtain ⟨hmajor, hf, hout⟩ := hok.mp h
    obtain ⟨hresult, hlog⟩ := @mclLinkFrameEncodeTraced_ok f major out written hmajor hf hout
    refine ⟨mclLinkFrameEncodeTraced_writes hmajor hf hout, ?_, ?_, fun past p rest hread => ?_⟩
    · rw [hresult, MclLinkFrame.length_layout hf]
    · obtain ⟨-, -, -, hmax, -⟩ := mclLinkFrameEncodable_iff.mp hf
      have hpayload : f.payloadLen.toNat ≤ 1024 := UInt16.le_iff_toNat_le.mp hmax
      have hoptional := mclLinkOptionalSize_le f.flags
      show mclLinkFrameEncodedSize (some f) ≤ 1048
      rw [mclLinkFrameEncodedSize_eq hf, mclLinkFrameMinSize]
      omega
    · apply read_behind_writes _ (hlog.symm.trans hread)
      intro q hq
      split_ifs at hq with hcheck
      · rcases List.mem_append.mp hq with hq | hq
        · obtain ⟨k, ⟨-, hk⟩, hsame⟩ := mem_reads.mp hq
          obtain rfl := Access.read.inj hsame
          omega
        · obtain ⟨k, -, hk⟩ := mem_writes.mp hq
          exact absurd hk (by simp)
      · simp at hq
  · intro b g consumed traced
    obtain ⟨hvalue, hwithin⟩ := @mclLinkFrameDecodeTraced_computes g consumed b
    refine ⟨hvalue, hwithin, fun f n hok => ?_⟩
    rw [hvalue] at hok
    exact ⟨mclLinkFrameDecode_bounds hok, _, mclLinkFrameDecodeTraced_lent hok⟩

/-- A checked frame in a buffer of its size, and the payload of a bare one. -/
theorem mclLinkFrame_stays_inside_checked :
    let f : MclLinkFrame := ⟨1, 3, 0x10, 0xA0, 0, 0, 0, 0, some [1, 2, 3], 3, by simp⟩
    let g : MclLinkFrame := ⟨1, 0, 0, 7, 0, 0, 0, 0, some [0x55], 1, by simp⟩
    (∀ p, .write p ∈
      (mclLinkFrameEncodeTraced 1 (some f) (some (List.replicate 15 0)) (some 0)).log ↔ p < 15) ∧
    ∃ pos, g.Lent [0x10, 0, 0, 0, 0, 7, 0, 1, 0x55] pos 9
      (mclLinkFrameDecodeTraced (some [0x10, 0, 0, 0, 0, 7, 0, 1, 0x55]) (some f) (some 0)).log := by
  intro f g
  have hencode := mclLinkFrame_stays_inside.1 1 f (List.replicate 15 0) 0
  have hdecode := mclLinkFrame_stays_inside.2 [0x10, 0, 0, 0, 0, 7, 0, 1, 0x55] f 0
  have hok : (mclLinkFrameEncodeTraced 1 (some f) (some (List.replicate 15 0)) (some 0)).value.1 =
      .ok := by decide +kernel
  have hsize : mclLinkFrameEncodedSize (some f) = 15 := by decide
  rw [hsize] at hencode
  exact ⟨(hencode.2.2 hok).1, (hdecode.2.2 g 9 (by decide +kernel)).2⟩

end MclLink
