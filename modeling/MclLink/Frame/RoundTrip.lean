import MclLink.Frame.Codec

/-!
# The frame codec is exact

The encoder and the decoder walk over the same layout: the encoder writes it, and what the
decoder accepts begins with it.
-/

namespace MclLink

open Bytes

/-- The first byte of a frame. -/
def MclLinkFrame.versionByte (f : MclLinkFrame) (major : UInt8) : UInt8 :=
  (major.toUInt32 <<< 4 ||| f.frameClass.toUInt32).toUInt8

def MclLinkFrame.fieldBytes (f : MclLinkFrame) : List UInt8 :=
  mclLinkPutU32 f.sourceRef ++
    only (f.has mclLinkFlagDestination) (mclLinkPutU32 f.destinationRef) ++
    only (f.has mclLinkFlagSession) (mclLinkPutU32 f.sessionRef) ++
    only (f.has mclLinkFlagSequence) (mclLinkPutU16 f.sequence) ++
    only (f.has mclLinkFlagFreshness) (mclLinkPutU16 f.freshnessMs)

/-- What lies between the first two bytes of a frame and its check. -/
def MclLinkFrame.bodyBytes (f : MclLinkFrame) : List UInt8 :=
  f.fieldBytes ++ mclLinkPutU16 f.payloadLen ++ f.payload.getD []

/-- The frame without its check. -/
def MclLinkFrame.unchecked (f : MclLinkFrame) (major : UInt8) : List UInt8 :=
  [f.versionByte major] ++ [f.flags] ++ f.bodyBytes

/-- The check of a frame whose other bytes are `done`. -/
def MclLinkFrame.checkBytes (f : MclLinkFrame) (done : List UInt8) : List UInt8 :=
  only (f.has mclLinkFlagFrameCheck) (mclLinkPutU32 (mclLinkCrc32 (some done) done.length))

/-- The canonical byte layout of a frame. -/
def MclLinkFrame.layout (f : MclLinkFrame) (major : UInt8) : List UInt8 :=
  f.unchecked major ++ f.checkBytes (f.unchecked major)

/-- What arrives of a frame: an absent field reads as 0. -/
def MclLinkFrame.received (f : MclLinkFrame) (major : UInt8) : MclLinkFrame :=
  { f with
    linkMajor := major
    destinationRef := if f.has mclLinkFlagDestination then f.destinationRef else 0
    sessionRef := if f.has mclLinkFlagSession then f.sessionRef else 0
    sequence := if f.has mclLinkFlagSequence then f.sequence else 0
    freshnessMs := if f.has mclLinkFlagFreshness then f.freshnessMs else 0
    payload := if f.payloadLen ≠ 0 then f.payload else none
    readable := by
      intro bytes hbytes
      obtain ⟨-, hpayload⟩ : f.payloadLen ≠ 0 ∧ f.payload = some bytes := by
        simpa using hbytes
      exact f.readable bytes hpayload }

variable {f g : MclLinkFrame} {major : UInt8} {c : Cursor} {done rest : List UInt8} {n : Nat}

theorem mclLinkFrameEncodable_iff : mclLinkFrameEncodable (some f) = true ↔
    f.frameClass < mclLinkClassCount ∧ f.frameClass ≠ mclLinkClassAdapt ∧
      f.flags &&& mclLinkFlagReserved = 0 ∧ f.payloadLen ≤ mclLinkFrameMaxPayload ∧
      (f.payloadLen ≠ 0 → f.payload ≠ none) := by
  simp only [mclLinkFrameEncodable]
  split_ifs <;> simp_all

theorem length_payload (h : mclLinkFrameEncodable (some f) = true) :
    (f.payload.getD []).length = f.payloadLen.toNat := by
  obtain ⟨-, -, -, -, hpayload⟩ := mclLinkFrameEncodable_iff.mp h
  cases hp : f.payload with
  | some bytes => exact f.readable bytes hp
  | none =>
    have hzero : f.payloadLen = 0 := not_not.mp fun hne => hpayload hne hp
    rw [hzero]
    rfl

theorem MclLinkFrame.length_fieldBytes : f.fieldBytes.length =
    4 + (if f.has mclLinkFlagDestination then 4 else 0) +
      (if f.has mclLinkFlagSession then 4 else 0) +
      (if f.has mclLinkFlagSequence then 2 else 0) +
      (if f.has mclLinkFlagFreshness then 2 else 0) := by
  simp [MclLinkFrame.fieldBytes, Nat.add_assoc]

private theorem MclLinkFrame.optionalSize_eq (f : MclLinkFrame) : 4 + mclLinkOptionalSize f.flags =
    f.fieldBytes.length + (if f.has mclLinkFlagFrameCheck then 4 else 0) := by
  rw [MclLinkFrame.length_fieldBytes]
  simp only [mclLinkOptionalSize, MclLinkFrame.has, decide_eq_true_eq]
  split_ifs <;> rfl

theorem mclLinkOptionalSize_le (flags : UInt8) : mclLinkOptionalSize flags ≤ 16 := by
  simp only [mclLinkOptionalSize]
  split_ifs <;> decide

theorem mclLinkFrameEncodedSize_eq (h : mclLinkFrameEncodable (some f) = true) :
    mclLinkFrameEncodedSize (some f) =
      mclLinkFrameMinSize + mclLinkOptionalSize f.flags + f.payloadLen.toNat :=
  if_neg (by simp [h])

theorem MclLinkFrame.length_layout (h : mclLinkFrameEncodable (some f) = true) :
    (f.layout major).length = mclLinkFrameEncodedSize (some f) := by
  have hpayload := length_payload h
  have hsize := f.optionalSize_eq
  rw [mclLinkFrameEncodedSize_eq h]
  simp only [MclLinkFrame.layout, MclLinkFrame.unchecked, MclLinkFrame.bodyBytes,
    MclLinkFrame.checkBytes, List.length_append, length_only, length_mclLinkPutU16,
    length_mclLinkPutU32, hpayload, List.length_cons, List.length_nil, mclLinkFrameMinSize]
  omega

theorem mclLinkCrc32_at (h : c.At done rest) :
    mclLinkCrc32 (some c.bytes) c.pos = mclLinkCrc32 (some done) done.length := by
  simp only [mclLinkCrc32, h.behind, List.take_length]

private theorem MclLinkFrame.writeFields_at {out : List UInt8}
    (h : c.At done (out.drop done.length)) :
    (f.writeFields c).At (done ++ f.fieldBytes) (out.drop (done ++ f.fieldBytes).length) := by
  have hwritten := ((((h.write (mclLinkPutU32 f.sourceRef)).writeIf
    (f.has mclLinkFlagDestination) (mclLinkPutU32 f.destinationRef)).writeIf
    (f.has mclLinkFlagSession) (mclLinkPutU32 f.sessionRef)).writeIf
    (f.has mclLinkFlagSequence) (mclLinkPutU16 f.sequence)).writeIf
    (f.has mclLinkFlagFreshness) (mclLinkPutU16 f.freshnessMs)
  simp only [MclLinkFrame.fieldBytes, ← List.append_assoc]
  exact hwritten

theorem mclLinkFrameEncodeAtMajor_ok {out : List UInt8} (written : Nat)
    (hmajor : major = mclLinkFrameMajor ∨ major = mclLinkStableMajor)
    (hf : mclLinkFrameEncodable (some f) = true)
    (hout : mclLinkFrameEncodedSize (some f) ≤ out.length) :
    mclLinkFrameEncodeAtMajor major (some f) (some out) (some written) =
      (.ok, some (f.layout major ++ out.drop (f.layout major).length),
        some (f.layout major).length) := by
  simp only [mclLinkFrameEncodeAtMajor]
  rw [if_neg (by tauto), if_neg (by simp [hf]), if_neg (by omega)]
  have hstart : Cursor.At ⟨out, 0⟩ [] (out.drop ([] : List UInt8).length) := ⟨rfl, rfl⟩
  have hfields := MclLinkFrame.writeFields_at (f := f)
    ((hstart.write [f.versionByte major]).write [f.flags])
  have hunchecked := (hfields.write (mclLinkPutU16 f.payloadLen)).write (f.payload.getD [])
  have hbytes : [] ++ [f.versionByte major] ++ [f.flags] ++ f.fieldBytes ++
      mclLinkPutU16 f.payloadLen ++ f.payload.getD [] = f.unchecked major := by
    simp [MclLinkFrame.unchecked, MclLinkFrame.bodyBytes]
  rw [hbytes] at hunchecked
  have hlayout : Cursor.At _ (f.layout major) (out.drop (f.layout major).length) :=
    hunchecked.writeIf (f.has mclLinkFlagFrameCheck)
      (mclLinkPutU32 (mclLinkCrc32 (some (f.unchecked major)) (f.unchecked major).length))
  rw [← mclLinkCrc32_at hunchecked] at hlayout
  exact Prod.ext rfl (Prod.ext (congrArg some hlayout.bytes) (congrArg some hlayout.pos))

theorem MclLinkFrame.versionByte_nibbles
    (hmajor : major = mclLinkFrameMajor ∨ major = mclLinkStableMajor)
    (hclass : f.frameClass < mclLinkClassCount) :
    (f.versionByte major >>> 4) &&& 0x0F = major ∧ f.versionByte major &&& 0x0F = f.frameClass := by
  have hm : major.toNat < 16 := by rcases hmajor with rfl | rfl <;> decide
  have hc : f.frameClass.toNat < 16 := Nat.lt_trans (UInt8.lt_iff_toNat_lt.mp hclass) (by decide)
  have hbyte := toNat_nibbles major f.frameClass hm hc
  constructor
  · rw [← UInt8.toNat_inj]
    simp only [MclLinkFrame.versionByte, UInt8.toNat_and, UInt8.toNat_shiftRight,
      UInt8.reduceToNat, Nat.reduceMod, Nat.shiftRight_eq_div_pow, and_nibble, hbyte]
    omega
  · rw [← UInt8.toNat_inj]
    simp only [MclLinkFrame.versionByte, UInt8.toNat_and, UInt8.reduceToNat, and_nibble, hbyte]
    omega

private theorem versionByte_join (b : UInt8) :
    (((b >>> 4) &&& 0x0F).toUInt32 <<< 4 ||| (b &&& 0x0F).toUInt32).toUInt8 = b := by
  have hb := b.toNat_lt
  have hhigh : ((b >>> 4) &&& 0x0F).toNat = b.toNat / 2 ^ 4 := by
    simp only [UInt8.toNat_and, UInt8.toNat_shiftRight, UInt8.reduceToNat, Nat.reduceMod,
      Nat.shiftRight_eq_div_pow, and_nibble]
    omega
  have hlow : (b &&& 0x0F).toNat = b.toNat % 2 ^ 4 := by
    simp only [UInt8.toNat_and, UInt8.reduceToNat, and_nibble]
  rw [← UInt8.toNat_inj, toNat_nibbles _ _ (by omega) (by omega), hhigh, hlow]
  omega

private theorem MclLinkFrame.readFields_at (h : c.At done (f.fieldBytes ++ rest))
    (hflags : g.flags = f.flags) :
    (g.readFields c).1 = { g with
      sourceRef := f.sourceRef
      destinationRef := if f.has mclLinkFlagDestination then f.destinationRef else 0
      sessionRef := if f.has mclLinkFlagSession then f.sessionRef else 0
      sequence := if f.has mclLinkFlagSequence then f.sequence else 0
      freshnessMs := if f.has mclLinkFlagFreshness then f.freshnessMs else 0 } ∧
    (g.readFields c).2.At (done ++ f.fieldBytes) rest := by
  have hhas : g.has = f.has := by
    funext flag
    simp only [MclLinkFrame.has, hflags]
  simp only [MclLinkFrame.fieldBytes, List.append_assoc] at h
  obtain ⟨hsource, h⟩ := h.read mclLinkU32
  obtain ⟨hdestination, h⟩ := h.readIf mclLinkU32 (f.has mclLinkFlagDestination) 0
  obtain ⟨hsession, h⟩ := h.readIf mclLinkU32 (f.has mclLinkFlagSession) 0
  obtain ⟨hsequence, h⟩ := h.readIf mclLinkU16 (f.has mclLinkFlagSequence) 0
  obtain ⟨hfreshness, h⟩ := h.readIf mclLinkU16 (f.has mclLinkFlagFreshness) 0
  simp only [MclLinkFrame.readFields, hhas, hsource, hdestination, hsession, hsequence,
    hfreshness, true_and]
  simp only [MclLinkFrame.fieldBytes, ← List.append_assoc]
  exact h

private theorem MclLinkFrame.readFields_again (h : c.At done rest)
    (hsize : g.fieldBytes.length ≤ rest.length) :
    (g.readFields c).2.At (done ++ (g.readFields c).1.fieldBytes)
      (rest.drop g.fieldBytes.length) := by
  have hlong : mclLinkU32.size = 4 := rfl
  have hshort : mclLinkU16.size = 2 := rfl
  rw [MclLinkFrame.length_fieldBytes] at hsize ⊢
  have h := h.reread mclLinkU32 (by omega)
  have h := h.rereadIf mclLinkU32 (g.has mclLinkFlagDestination) 0
    (by simp only [List.length_drop, hlong]; omega)
  have h := h.rereadIf mclLinkU32 (g.has mclLinkFlagSession) 0
    (by simp only [List.length_drop, hlong]; omega)
  have h := h.rereadIf mclLinkU16 (g.has mclLinkFlagSequence) 0
    (by simp only [List.length_drop, hlong, hshort]; omega)
  have h := h.rereadIf mclLinkU16 (g.has mclLinkFlagFreshness) 0
    (by simp only [List.length_drop, hlong, hshort]; omega)
  simp only [List.drop_drop] at h
  simp only [MclLinkFrame.fieldBytes, ← List.append_assoc]
  exact h

private theorem MclLinkFrame.checkFrame_at (h : c.At done (f.checkBytes done ++ rest)) :
    f.checkFrame c n = (.ok, f, (done ++ f.checkBytes done).length) := by
  have hleft := h.left
  cases hcheck : f.has mclLinkFlagFrameCheck with
  | false => simp [MclLinkFrame.checkFrame, MclLinkFrame.checkBytes, hcheck, only, h.pos]
  | true =>
    simp only [MclLinkFrame.checkBytes, hcheck] at h hleft ⊢
    obtain ⟨hreceived, hpast⟩ := h.read mclLinkU32
    simp only [MclLinkFrame.checkFrame, hcheck, if_true]
    rw [if_neg (by simp [hleft]), if_neg (by rw [hreceived, mclLinkCrc32_at h]; simp), hpast.pos]
    rfl

private theorem MclLinkFrame.checkFrame_ok {m : Nat} (h : c.At done rest)
    (hok : f.checkFrame c n = (.ok, g, m)) :
    g = f ∧ ∃ rest', Cursor.At ⟨c.bytes, m⟩ (done ++ f.checkBytes done) rest' := by
  have hleft := h.left
  cases hcheck : f.has mclLinkFlagFrameCheck with
  | false =>
    obtain ⟨rfl, rfl⟩ : f = g ∧ c.pos = m := by
      simpa [MclLinkFrame.checkFrame, hcheck] using hok
    exact ⟨rfl, rest, by simpa [MclLinkFrame.checkBytes, hcheck, only] using h⟩
  | true =>
    simp only [MclLinkFrame.checkFrame, hcheck, if_true] at hok
    split_ifs at hok with hshort hreceived
    · simp at hok
    · simp at hok
    · obtain ⟨rfl, rfl⟩ : f = g ∧ (mclLinkU32.read c).2.pos = m := by simpa using hok
      have hpast := h.reread mclLinkU32 (by rw [← hleft]; exact Nat.le_of_not_lt hshort)
      rw [not_not.mp hreceived, mclLinkCrc32_at h] at hpast
      refine ⟨rfl, rest.drop mclLinkU32.size, ?_⟩
      simp only [MclLinkFrame.checkBytes, hcheck]
      exact hpast

private theorem MclLinkFrame.borrow_received (f : MclLinkFrame) (major : UInt8)
    {payloadLen : UInt16} {bytes : List UInt8} (hlen : bytes.length = payloadLen.toNat)
    (hhead : g.linkMajor = major ∧ g.frameClass = f.frameClass ∧ g.flags = f.flags)
    (hfields : g.sourceRef = f.sourceRef ∧
      g.destinationRef = (f.received major).destinationRef ∧
      g.sessionRef = (f.received major).sessionRef ∧ g.sequence = (f.received major).sequence ∧
      g.freshnessMs = (f.received major).freshnessMs)
    (hnull : f.payloadLen ≠ 0 → f.payload ≠ none) (hpayloadLen : payloadLen = f.payloadLen)
    (hbytes : bytes = f.payload.getD []) : g.borrow payloadLen bytes hlen = f.received major := by
  subst hpayloadLen hbytes
  have hpayload : (if f.payloadLen ≠ 0 then some (f.payload.getD []) else none) =
      if f.payloadLen ≠ 0 then f.payload else none := by
    cases hp : f.payload with
    | some bytes => rfl
    | none => rw [if_neg (fun hne => hnull hne hp), if_neg (fun hne => hnull hne hp)]
  exact MclLinkFrame.ext hhead.1 hhead.2.1 hhead.2.2 hfields.1 hfields.2.1 hfields.2.2.1
    hfields.2.2.2.1 hfields.2.2.2.2 hpayload rfl

private theorem MclLinkFrame.readBody_at (hf : mclLinkFrameEncodable (some f) = true)
    (h : c.At done (f.bodyBytes ++ f.checkBytes (done ++ f.bodyBytes) ++ rest))
    (hhead : g.linkMajor = major ∧ g.frameClass = f.frameClass ∧ g.flags = f.flags) :
    g.readBody c n = (.ok, f.received major,
      (done ++ f.bodyBytes ++ f.checkBytes (done ++ f.bodyBytes)).length) := by
  obtain ⟨-, -, -, hmax, hnull⟩ := mclLinkFrameEncodable_iff.mp hf
  have hpayload := length_payload hf
  have hsplit : ∀ tail, f.bodyBytes ++ tail =
      f.fieldBytes ++ (mclLinkU16.put f.payloadLen ++ (f.payload.getD [] ++ tail)) := by
    intro tail
    simp only [MclLinkFrame.bodyBytes, List.append_assoc]
    rfl
  have hdone : done ++ f.fieldBytes ++ mclLinkU16.put f.payloadLen ++ f.payload.getD [] =
      done ++ f.bodyBytes := by
    simp only [MclLinkFrame.bodyBytes, List.append_assoc]
    rfl
  rw [List.append_assoc, hsplit] at h
  obtain ⟨hfields, h⟩ := MclLinkFrame.readFields_at h hhead.2.2
  obtain ⟨hlength, h⟩ := h.read mclLinkU16
  have hleft := h.left
  have hbytes := h.ahead
  have hsize : (f.payload.getD []).length = (mclLinkU16.read (g.readFields c).2).1.toNat := by
    rw [hpayload, hlength]
  have hpast := h.skip
  rw [hsize, hdone] at hpast
  simp only [MclLinkFrame.readBody]
  rw [if_neg (by rw [hlength]; exact UInt16.not_lt.mpr hmax),
    dif_neg (by rw [hleft, hlength, List.length_append, hpayload]; omega),
    MclLinkFrame.borrow_received f major]
  · exact MclLinkFrame.checkFrame_at (f := f.received major) hpast
  · rw [hfields]
    exact hhead
  · rw [hfields]
    exact ⟨rfl, rfl, rfl, rfl, rfl⟩
  · exact hnull
  · exact hlength
  · rw [hbytes, hlength, ← hpayload]
    exact List.take_left

private theorem MclLinkFrame.readFields_bytes : (g.readFields c).2.bytes = c.bytes := by
  simp only [MclLinkFrame.readFields, Codec.readIf_bytes]
  rfl

private theorem MclLinkFrame.borrow_getD {payloadLen : UInt16} {bytes : List UInt8}
    (hlen : bytes.length = payloadLen.toNat) :
    (g.borrow payloadLen bytes hlen).payload.getD [] = bytes := by
  by_cases hzero : payloadLen = 0
  · rw [hzero] at hlen
    simp [MclLinkFrame.borrow, hzero, List.eq_nil_of_length_eq_zero hlen]
  · simp [MclLinkFrame.borrow, hzero]

private theorem MclLinkFrame.readBody_ok {m : Nat} (h : c.At done rest)
    (hok : g.readBody c n = (.ok, f, m)) (hsize : g.fieldBytes.length + 2 ≤ rest.length) :
    (f.linkMajor = g.linkMajor ∧ f.frameClass = g.frameClass ∧ f.flags = g.flags ∧
      f.payloadLen ≤ mclLinkFrameMaxPayload ∧ (f.payloadLen ≠ 0 → f.payload ≠ none)) ∧
    ∃ rest', Cursor.At ⟨c.bytes, m⟩
      (done ++ f.bodyBytes ++ f.checkBytes (done ++ f.bodyBytes)) rest' := by
  have hshort : mclLinkU16.size = 2 := rfl
  have hfields := MclLinkFrame.readFields_again (g := g) h (by omega)
  have hlength := hfields.reread mclLinkU16 (by rw [List.length_drop]; omega)
  have hleft := hlength.left
  have hahead := hlength.ahead
  generalize List.drop mclLinkU16.size (List.drop _ rest) = ahead at hlength hleft hahead
  simp only [MclLinkFrame.readBody] at hok
  split_ifs at hok with hmax hlong
  · simp at hok
  · simp at hok
  · have hsize := (List.length_take_of_le (Nat.le_of_not_lt (hleft ▸ hlong)))
    rw [← List.take_append_drop (mclLinkU16.read (g.readFields c).2).1.toNat ahead] at hlength
    have hpast := hlength.skip
    rw [hsize, ← hahead] at hpast
    obtain ⟨rfl, rest', hend⟩ := MclLinkFrame.checkFrame_ok hpast hok
    have hbytes : ((mclLinkU16.read (g.readFields c).2).2.skip
        (mclLinkU16.read (g.readFields c).2).1.toNat).bytes = c.bytes :=
      MclLinkFrame.readFields_bytes
    rw [hbytes] at hend
    refine ⟨⟨rfl, rfl, rfl, UInt16.not_lt.mp hmax, fun hne => ?_⟩, rest', ?_⟩
    · have hsome : (mclLinkU16.read (g.readFields c).2).1 ≠ 0 := hne
      simp [MclLinkFrame.borrow, hsome]
    · simp only [MclLinkFrame.bodyBytes, MclLinkFrame.borrow_getD, ← List.append_assoc]
      exact hend

/-- The decoder takes a frame from the front of any byte string that begins with one. -/
theorem mclLinkFrameDecode_layout (suffix : List UInt8) (consumed : Nat)
    (hmajor : major = mclLinkFrameMajor ∨ major = mclLinkStableMajor)
    (hf : mclLinkFrameEncodable (some f) = true) :
    mclLinkFrameDecode (some (f.layout major ++ suffix)) (some g) (some consumed) =
      (.ok, some (f.received major), some (f.layout major).length) := by
  obtain ⟨hclass, hadapt, hreserved, -, -⟩ := mclLinkFrameEncodable_iff.mp hf
  obtain ⟨hhigh, hlow⟩ := MclLinkFrame.versionByte_nibbles hmajor hclass
  have hlen : (f.layout major ++ suffix).length =
      mclLinkFrameMinSize + mclLinkOptionalSize f.flags + f.payloadLen.toNat + suffix.length := by
    rw [List.length_append, MclLinkFrame.length_layout hf, mclLinkFrameEncodedSize_eq hf]
  have hfirst : (f.layout major ++ suffix).getD 0 0 = f.versionByte major := rfl
  have hsecond : (f.layout major ++ suffix).getD 1 0 = f.flags := rfl
  have hstart : Cursor.At ⟨f.layout major ++ suffix, 2⟩ ([f.versionByte major] ++ [f.flags])
      (f.bodyBytes ++ f.checkBytes (f.unchecked major) ++ suffix) :=
    ⟨by simp only [MclLinkFrame.layout, MclLinkFrame.unchecked, List.append_assoc], rfl⟩
  simp only [mclLinkFrameDecode, hfirst, hsecond, hhigh, hlow]
  rw [if_neg (by omega), if_neg (by tauto), if_neg (UInt8.not_le.mpr hclass), if_neg hadapt,
    if_neg (not_not.mpr hreserved), if_neg (by omega), MclLinkFrame.readBody_at hf hstart]
  · rfl
  · exact ⟨rfl, rfl, rfl⟩

private theorem result_eq {r : MclLinkStatus × MclLinkFrame × Nat} {status : MclLinkStatus}
    (h : (r.1, some r.2.1, some r.2.2) = (status, some f, some n)) : r = (status, f, n) := by
  simp only [Prod.mk.injEq, Option.some.injEq] at h
  exact Prod.ext h.1 (Prod.ext h.2.1 h.2.2)

/-- The decoder accepts nothing but a layout at the front of its input. -/
theorem mclLinkFrameDecode_ok {b : List UInt8} {consumed m : Nat}
    (hok : mclLinkFrameDecode (some b) (some g) (some consumed) = (.ok, some f, some m)) :
    mclLinkFrameEncodable (some f) = true ∧
      (f.linkMajor = mclLinkFrameMajor ∨ f.linkMajor = mclLinkStableMajor) ∧
      ∃ suffix, b = f.layout f.linkMajor ++ suffix ∧ m = (f.layout f.linkMajor).length := by
  simp only [mclLinkFrameDecode] at hok
  split_ifs at hok with hshort hmajor hclass hadapt hreserved htruncated
  · simp at hok
  · simp at hok
  · simp at hok
  · simp at hok
  · simp at hok
  · simp at hok
  · rcases b with _ | ⟨first, _ | ⟨second, rest⟩⟩
    · simp at hshort
    · simp at hshort
    · have hbody := result_eq hok
      have hsize := MclLinkFrame.optionalSize_eq { g with flags := second }
      have hfields : ({ g with flags := second } : MclLinkFrame).fieldBytes.length + 2 ≤
          rest.length := by
        simp only [List.length_cons, List.getD_cons_succ, List.getD_cons_zero,
          mclLinkFrameMinSize] at htruncated hsize
        omega
      have hstart : Cursor.At ⟨first :: second :: rest, 2⟩ ([first] ++ [second]) rest := ⟨rfl, rfl⟩
      obtain ⟨⟨hm, hc, hflags, hmax, hnull⟩, rest', hend⟩ :=
        MclLinkFrame.readBody_ok hstart hbody hfields
      have hfirst : f.versionByte f.linkMajor = first := by
        rw [MclLinkFrame.versionByte, hm, hc]
        exact versionByte_join first
      refine ⟨mclLinkFrameEncodable_iff.mpr ⟨?_, ?_, ?_, hmax, hnull⟩, ?_, rest', ?_, ?_⟩
      · rw [hc]
        exact UInt8.not_le.mp hclass
      · rw [hc]
        exact hadapt
      · rw [hflags]
        exact not_not.mp hreserved
      · rw [hm]
        tauto
      · rw [MclLinkFrame.layout, MclLinkFrame.unchecked, hfirst, hflags]
        exact hend.bytes
      · rw [MclLinkFrame.layout, MclLinkFrame.unchecked, hfirst, hflags]
        exact hend.pos

/-- The encoder writes exactly `bytes`, into any buffer that is large enough. -/
def MclLinkFrame.EncodesTo (f : MclLinkFrame) (major : UInt8) (bytes : List UInt8) : Prop :=
  ∀ out written, mclLinkFrameEncodedSize (some f) ≤ out.length →
    mclLinkFrameEncodeAtMajor major (some f) (some out) (some written) =
      (.ok, some (bytes ++ out.drop bytes.length), some bytes.length)

theorem MclLinkFrame.EncodesTo.eq_layout {bytes : List UInt8} (h : f.EncodesTo major bytes)
    (hmajor : major = mclLinkFrameMajor ∨ major = mclLinkStableMajor)
    (hf : mclLinkFrameEncodable (some f) = true) : bytes = f.layout major := by
  have hout : mclLinkFrameEncodedSize (some f) ≤ (f.layout major).length :=
    (MclLinkFrame.length_layout hf).ge
  have hsame := (h _ 0 hout).symm.trans (mclLinkFrameEncodeAtMajor_ok 0 hmajor hf hout)
  simp only [Prod.mk.injEq, Option.some.injEq, true_and] at hsame
  exact (List.append_inj hsame.1 hsame.2).1

/-- The frame codec is exact in both directions: what is encoded is decoded again, what is
decoded was encoded so, the decoder accepts the outputs of the encoder and nothing else, and
different complete frames decode to different values. -/
theorem mclLinkFrame_exact :
    (∀ major f suffix g consumed, major = mclLinkFrameMajor ∨ major = mclLinkStableMajor →
      mclLinkFrameEncodable (some f) = true → ∃ bytes, f.EncodesTo major bytes ∧
        mclLinkFrameDecode (some (bytes ++ suffix)) (some g) (some consumed) =
          (.ok, some (f.received major), some (mclLinkFrameEncodedSize (some f)))) ∧
    (∀ b g consumed f n,
      mclLinkFrameDecode (some b) (some g) (some consumed) = (.ok, some f, some n) →
        n ≤ b.length ∧ f.EncodesTo f.linkMajor (b.take n)) ∧
    (∀ b g consumed,
      (∃ f n, mclLinkFrameDecode (some b) (some g) (some consumed) = (.ok, some f, some n)) ↔
        ∃ major f bytes suffix, (major = mclLinkFrameMajor ∨ major = mclLinkStableMajor) ∧
          mclLinkFrameEncodable (some f) = true ∧ f.EncodesTo major bytes ∧ b = bytes ++ suffix) ∧
    ∀ b b' g g' consumed consumed' f,
      mclLinkFrameDecode (some b) (some g) (some consumed) = (.ok, some f, some b.length) →
      mclLinkFrameDecode (some b') (some g') (some consumed') = (.ok, some f, some b'.length) →
        b = b' := by
  refine ⟨?_, ?_, ?_, ?_⟩
  · intro major f suffix g consumed hmajor hf
    refine ⟨f.layout major, fun out written hout => ?_, ?_⟩
    · exact mclLinkFrameEncodeAtMajor_ok written hmajor hf hout
    · rw [← MclLinkFrame.length_layout hf]
      exact mclLinkFrameDecode_layout suffix consumed hmajor hf
  · intro b g consumed f n hok
    obtain ⟨hf, hmajor, suffix, rfl, rfl⟩ := mclLinkFrameDecode_ok hok
    rw [List.take_left, List.length_append]
    refine ⟨Nat.le_add_right _ _, fun out written hout => ?_⟩
    exact mclLinkFrameEncodeAtMajor_ok written hmajor hf hout
  · intro b g consumed
    constructor
    · rintro ⟨f, n, hok⟩
      obtain ⟨hf, hmajor, suffix, rfl, -⟩ := mclLinkFrameDecode_ok hok
      refine ⟨f.linkMajor, f, f.layout f.linkMajor, suffix, hmajor, hf, fun out written hout => ?_, rfl⟩
      exact mclLinkFrameEncodeAtMajor_ok written hmajor hf hout
    · rintro ⟨major, f, bytes, suffix, hmajor, hf, henc, rfl⟩
      obtain rfl := henc.eq_layout hmajor hf
      exact ⟨_, _, mclLinkFrameDecode_layout suffix consumed hmajor hf⟩
  · intro b b' g g' consumed consumed' f hok hok'
    obtain ⟨-, -, suffix, hb, hlen⟩ := mclLinkFrameDecode_ok hok
    obtain ⟨-, -, suffix', hb', hlen'⟩ := mclLinkFrameDecode_ok hok'
    have hwhole : f.layout f.linkMajor = b :=
      (hb ▸ List.prefix_append _ _ : f.layout f.linkMajor <+: b).eq_of_length hlen.symm
    have hwhole' : f.layout f.linkMajor = b' :=
      (hb' ▸ List.prefix_append _ _ : f.layout f.linkMajor <+: b').eq_of_length hlen'.symm
    exact hwhole.symm.trans hwhole'

/-- A checked frame with a destination and a sequence number, and a bare one off the wire. -/
theorem mclLinkFrame_exact_checked :
    let f : MclLinkFrame := ⟨0, 3, 0x15, 0xA0, 0xB0, 0x11, 9, 500, some [1, 2, 3], 3, by simp⟩
    let g : MclLinkFrame := ⟨1, 0, 0, 7, 0, 0, 0, 0, some [0x55], 1, by simp⟩
    (∃ bytes, f.EncodesTo 1 bytes ∧
      mclLinkFrameDecode (some (bytes ++ [0xFF])) (some g) (some 0) =
        (.ok, some ⟨1, 3, 0x15, 0xA0, 0xB0, 0, 9, 0, some [1, 2, 3], 3, by simp⟩, some 21)) ∧
      g.EncodesTo 1 [0x10, 0, 0, 0, 0, 7, 0, 1, 0x55] := by
  intro f g
  have hreceived : f.received 1 =
      ⟨1, 3, 0x15, 0xA0, 0xB0, 0, 9, 0, some [1, 2, 3], 3, by simp⟩ := by decide
  have hsize : mclLinkFrameEncodedSize (some f) = 21 := by decide
  rw [← hreceived, ← hsize]
  refine ⟨mclLinkFrame_exact.1 1 f [0xFF] g 0 (Or.inr rfl) (by decide), ?_⟩
  exact (mclLinkFrame_exact.2.1 [0x10, 0, 0, 0, 0, 7, 0, 1, 0x55, 0xFF] f 0 g 9 (by decide)).2

end MclLink
