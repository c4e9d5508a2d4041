import MclLink.Frame.RoundTrip
import MclLink.Lib.Scan

/-!
# The verdict on a frame that is still arriving

The decoder tests how many bytes are there between its looks at them. Each look is at bytes that
were tested to be there, so that a verdict is not changed by the bytes that follow.
-/

namespace MclLink

open Bytes

/-- What the first two bytes decide. -/
def mclLinkHeadStatus (bytes : List UInt8) : MclLinkStatus :=
  let major := (bytes.getD 0 0 >>> 4) &&& 0x0F
  let frameClass := bytes.getD 0 0 &&& 0x0F
  if major ≠ mclLinkFrameMajor ∧ major ≠ mclLinkStableMajor then .errIncompatibleVersion
  else if frameClass ≥ mclLinkClassCount then .errRange
  else if frameClass = mclLinkClassAdapt then .errRange
  else if bytes.getD 1 0 &&& mclLinkFlagReserved ≠ 0 then .errRange
  else .ok

/-- The longest frame; all optional fields and the frame check take 16 bytes. -/
abbrev mclLinkFrameMaxSize : Nat := mclLinkFrameMinSize + 16 + mclLinkFrameMaxPayload.toNat

/-- The size of the fields in front of the payload length. -/
def mclLinkFieldsSize (flags : UInt8) : Nat :=
  4 + (if flags &&& mclLinkFlagDestination ≠ 0 then 4 else 0) +
    (if flags &&& mclLinkFlagSession ≠ 0 then 4 else 0) +
    (if flags &&& mclLinkFlagSequence ≠ 0 then 2 else 0) +
    (if flags &&& mclLinkFlagFreshness ≠ 0 then 2 else 0)

/-- The header, with the frame check that the flags announce. -/
def mclLinkHeaderSize (bytes : List UInt8) : Nat :=
  mclLinkFrameMinSize + mclLinkOptionalSize (bytes.getD 1 0)

/-- The payload length as far as it has arrived. -/
def mclLinkAnnounced (bytes : List UInt8) : UInt16 :=
  mclLinkGetU16 (bytes.drop (2 + mclLinkFieldsSize (bytes.getD 1 0)))

/-- Where the payload ends. -/
def mclLinkPayloadEnd (bytes : List UInt8) : Nat :=
  2 + mclLinkFieldsSize (bytes.getD 1 0) + 2 + (mclLinkAnnounced bytes).toNat

def mclLinkChecked (bytes : List UInt8) : Bool :=
  bytes.getD 1 0 &&& mclLinkFlagFrameCheck ≠ 0

/-- The frame check that belongs behind the payload. -/
def mclLinkExpectedCheck (bytes : List UInt8) : UInt32 :=
  mclLinkCrc32 (some bytes) (mclLinkPayloadEnd bytes)

/-- The looks of the decoder, each at the bytes it has tested to be there. -/
def mclLinkFrameScan : Scan MclLinkStatus :=
  .wait mclLinkFrameMinSize fun head =>
    if mclLinkHeadStatus head ≠ .ok then .answer (mclLinkHeadStatus head)
    else .wait (mclLinkHeaderSize head) fun header =>
      if mclLinkAnnounced header > mclLinkFrameMaxPayload then .answer .errRange
      else .wait (mclLinkPayloadEnd header) fun unchecked =>
        if mclLinkChecked unchecked then
          .wait (mclLinkPayloadEnd unchecked + 4) fun all =>
            if mclLinkGetU32 (all.drop (mclLinkPayloadEnd all)) ≠ mclLinkExpectedCheck all then
              .answer .errFrameCheck
            else .answer .ok
        else .answer .ok

variable {a bytes front suffix : List UInt8} {n n' m : Nat} {f g g' : MclLinkFrame}
  {st : MclLinkStatus}

section Looks

private theorem mclLinkHeadStatus_take (h : 2 ≤ n) :
    mclLinkHeadStatus (bytes.take n) = mclLinkHeadStatus bytes := by
  unfold mclLinkHeadStatus
  rw [getD_of_take (by omega), getD_of_take (by omega)]

private theorem mclLinkHeaderSize_take (h : 2 ≤ n) :
    mclLinkHeaderSize (bytes.take n) = mclLinkHeaderSize bytes := by
  rw [mclLinkHeaderSize, getD_of_take h, mclLinkHeaderSize]

/-- The same header. -/
structure MclLinkLooksAlike (a bytes : List UInt8) : Prop where
  flags : a.getD 1 0 = bytes.getD 1 0
  head : mclLinkHeadStatus a = mclLinkHeadStatus bytes
  announced : mclLinkAnnounced a = mclLinkAnnounced bytes

theorem MclLinkLooksAlike.of_getD
    (h : ∀ k < 2 + mclLinkFieldsSize (bytes.getD 1 0) + 2, a.getD k 0 = bytes.getD k 0) :
    MclLinkLooksAlike a bytes := by
  have hfirst := h 0 (by omega)
  have hflags := h 1 (by omega)
  refine ⟨hflags, ?_, ?_⟩
  · rw [mclLinkHeadStatus, hfirst, hflags, mclLinkHeadStatus]
  · simp only [mclLinkAnnounced, mclLinkGetU16, getD_of_drop, hflags]
    rw [h _ (by omega), h _ (by omega)]

private theorem MclLinkLooksAlike.of_take (h : 2 + mclLinkFieldsSize (bytes.getD 1 0) + 2 ≤ n) :
    MclLinkLooksAlike (bytes.take n) bytes :=
  .of_getD fun _ hk => getD_of_take (lt_of_lt_of_le hk h)

theorem MclLinkLooksAlike.payloadEnd (h : MclLinkLooksAlike a bytes) :
    mclLinkPayloadEnd a = mclLinkPayloadEnd bytes := by
  rw [mclLinkPayloadEnd, h.flags, h.announced, mclLinkPayloadEnd]

theorem MclLinkLooksAlike.checked (h : MclLinkLooksAlike a bytes) :
    mclLinkChecked a = mclLinkChecked bytes := by
  rw [mclLinkChecked, h.flags, mclLinkChecked]

theorem MclLinkLooksAlike.expectedCheck (h : MclLinkLooksAlike a bytes)
    (htake : a.take (mclLinkPayloadEnd bytes) = bytes.take (mclLinkPayloadEnd bytes)) :
    mclLinkExpectedCheck a = mclLinkExpectedCheck bytes := by
  simp only [mclLinkExpectedCheck, mclLinkCrc32, h.payloadEnd, htake]

private theorem mclLinkReceivedCheck_take {k : Nat} (h : k + 4 ≤ n) :
    mclLinkGetU32 ((bytes.take n).drop k) = mclLinkGetU32 (bytes.drop k) := by
  simp only [mclLinkGetU32, getD_of_drop]
  rw [getD_of_take (by omega), getD_of_take (by omega), getD_of_take (by omega),
    getD_of_take (by omega)]

theorem mclLinkPayloadEnd_min :
    2 + mclLinkFieldsSize (bytes.getD 1 0) + 2 ≤ mclLinkPayloadEnd bytes :=
  Nat.le_add_right _ _

theorem mclLinkHeaderSize_eq : mclLinkHeaderSize bytes =
    2 + mclLinkFieldsSize (bytes.getD 1 0) + 2 + (if mclLinkChecked bytes then 4 else 0) := by
  simp only [mclLinkHeaderSize, mclLinkFieldsSize, mclLinkOptionalSize, mclLinkChecked,
    decide_eq_true_eq]
  split_ifs <;> rfl

theorem mclLinkHeaderSize_fields :
    2 + mclLinkFieldsSize (bytes.getD 1 0) + 2 ≤ mclLinkHeaderSize bytes := by
  rw [mclLinkHeaderSize_eq]
  exact Nat.le_add_right _ _

theorem mclLinkPayload_left (hsize : mclLinkHeaderSize bytes ≤ bytes.length) :
    bytes.length - (2 + mclLinkFieldsSize (bytes.getD 1 0) + 2) <
      (mclLinkAnnounced bytes).toNat ↔ bytes.length < mclLinkPayloadEnd bytes := by
  have hfields := (@mclLinkHeaderSize_fields bytes).trans hsize
  rw [mclLinkPayloadEnd]
  omega

theorem MclLinkFrame.length_fields (f : MclLinkFrame) :
    f.fieldBytes.length = mclLinkFieldsSize f.flags := by
  rw [MclLinkFrame.length_fieldBytes]
  simp only [MclLinkFrame.has, mclLinkFieldsSize, decide_eq_true_eq]

end Looks

theorem mclLinkFrameScan_run : mclLinkFrameScan.run bytes =
    if bytes.length < mclLinkFrameMinSize then none
    else if mclLinkHeadStatus bytes ≠ .ok then some (mclLinkHeadStatus bytes)
    else if bytes.length < mclLinkHeaderSize bytes then none
    else if mclLinkAnnounced bytes > mclLinkFrameMaxPayload then some .errRange
    else if bytes.length < mclLinkPayloadEnd bytes then none
    else if mclLinkChecked bytes then
      if bytes.length < mclLinkPayloadEnd bytes + 4 then none
      else if mclLinkGetU32 (bytes.drop (mclLinkPayloadEnd bytes)) ≠
          mclLinkExpectedCheck bytes then some .errFrameCheck
      else some .ok
    else some .ok := by
  have hmin : 2 ≤ mclLinkFrameMinSize := by decide
  have hheader : MclLinkLooksAlike (bytes.take (mclLinkHeaderSize bytes)) bytes := by
    exact .of_take mclLinkHeaderSize_fields
  have hend : MclLinkLooksAlike (bytes.take (mclLinkPayloadEnd bytes)) bytes :=
    .of_take mclLinkPayloadEnd_min
  have hall : MclLinkLooksAlike (bytes.take (mclLinkPayloadEnd bytes + 4)) bytes :=
    .of_take (mclLinkPayloadEnd_min.trans (Nat.le_add_right _ _))
  have hchecked : mclLinkExpectedCheck (bytes.take (mclLinkPayloadEnd bytes + 4)) =
      mclLinkExpectedCheck bytes := by
    apply hall.expectedCheck
    rw [List.take_take, Nat.min_eq_left (Nat.le_add_right _ _)]
  rw [mclLinkFrameScan, Scan.run_wait]
  refine ite_congr rfl (fun _ => rfl) fun _ => ?_
  rw [mclLinkHeadStatus_take hmin, mclLinkHeaderSize_take hmin, Scan.run_ite, Scan.run_wait]
  refine ite_congr rfl (fun _ => rfl) fun _ => ?_
  refine ite_congr rfl (fun _ => rfl) fun _ => ?_
  rw [hheader.announced, hheader.payloadEnd, Scan.run_ite, Scan.run_wait]
  refine ite_congr rfl (fun _ => rfl) fun _ => ?_
  refine ite_congr rfl (fun _ => rfl) fun _ => ?_
  rw [hend.checked, hend.payloadEnd, Scan.run_ite, Scan.run_wait]
  refine ite_congr rfl (fun _ => ?_) fun _ => rfl
  refine ite_congr rfl (fun _ => rfl) fun _ => ?_
  rw [hall.payloadEnd, hchecked, mclLinkReceivedCheck_take (Nat.le_refl _), Scan.run_ite]
  rfl

theorem MclLinkFrame.readFields_skip {c : Cursor} :
    (g.readFields c).2 = c.skip (mclLinkFieldsSize g.flags) := by
  have hhas : ∀ flag, g.has flag = decide (g.flags &&& flag ≠ 0) := fun _ => rfl
  simp only [MclLinkFrame.readFields, Codec.readIf_skip, Codec.read, Cursor.skip_skip,
    mclLinkFieldsSize, hhas, decide_eq_true_eq]
  rfl

private theorem mclLinkFrameDecode_head : ∃ g' : MclLinkFrame, g'.flags = bytes.getD 1 0 ∧
    (mclLinkFrameDecode (some bytes) (some g) (some n)).1 =
      if bytes.length < mclLinkFrameMinSize then .errTruncated
      else if mclLinkHeadStatus bytes ≠ .ok then mclLinkHeadStatus bytes
      else if bytes.length < mclLinkHeaderSize bytes then .errTruncated
      else (g'.readBody ⟨bytes, 2⟩ n).1 := by
  refine ⟨{ g with
    linkMajor := (bytes.getD 0 0 >>> 4) &&& 0x0F
    frameClass := bytes.getD 0 0 &&& 0x0F
    flags := bytes.getD 1 0 }, rfl, ?_⟩
  simp only [mclLinkFrameDecode]
  rw [apply_ite Prod.fst]
  refine ite_congr rfl (fun _ => rfl) fun _ => ?_
  rw [mclLinkHeadStatus]
  split_ifs <;> first | rfl | contradiction

theorem MclLinkFrame.checkFrame_status {k : Nat} : (g.checkFrame ⟨bytes, k⟩ n).1 =
    if g.has mclLinkFlagFrameCheck then
      if bytes.length < k + 4 then .errTruncated
      else if mclLinkGetU32 (bytes.drop k) ≠ mclLinkCrc32 (some bytes) k then .errFrameCheck
      else .ok
    else .ok := by
  have hleft : bytes.length - k < 4 ↔ bytes.length < k + 4 := by omega
  simp only [MclLinkFrame.checkFrame, hleft]
  split_ifs <;> first | rfl | contradiction

private theorem MclLinkFrame.readBody_status (hflags : g.flags = bytes.getD 1 0)
    (hsize : mclLinkHeaderSize bytes ≤ bytes.length) :
    (g.readBody ⟨bytes, 2⟩ n).1 =
      if mclLinkAnnounced bytes > mclLinkFrameMaxPayload then .errRange
      else if bytes.length < mclLinkPayloadEnd bytes then .errTruncated
      else if mclLinkChecked bytes then
        if bytes.length < mclLinkPayloadEnd bytes + 4 then .errTruncated
        else if mclLinkGetU32 (bytes.drop (mclLinkPayloadEnd bytes)) ≠
            mclLinkExpectedCheck bytes then .errFrameCheck
        else .ok
      else .ok := by
  have hfields := MclLinkFrame.readFields_skip (g := g) (c := ⟨bytes, 2⟩)
  rw [hflags] at hfields
  have hlength : mclLinkU16.read (g.readFields ⟨bytes, 2⟩).2 =
      (mclLinkAnnounced bytes, ⟨bytes, 2 + mclLinkFieldsSize (bytes.getD 1 0) + 2⟩) := by
    rw [hfields]
    rfl
  have hchecked : (g.readFields ⟨bytes, 2⟩).1.has mclLinkFlagFrameCheck =
      mclLinkChecked bytes := by
    show decide (g.flags &&& mclLinkFlagFrameCheck ≠ 0) = mclLinkChecked bytes
    rw [hflags]
    rfl
  simp only [MclLinkFrame.readBody, hlength, mclLinkPayload_left hsize]
  rw [apply_ite Prod.fst]
  refine ite_congr rfl (fun _ => rfl) fun _ => ?_
  rw [apply_dite Prod.fst, ← dite_eq_ite]
  refine dite_congr rfl (fun _ => rfl) fun _ => ?_
  refine MclLinkFrame.checkFrame_status.trans ?_
  rw [← hchecked]
  rfl

/-- The decoder answers as its looks do, and says of a wait that the frame is truncated. -/
theorem mclLinkFrameDecode_scan : (mclLinkFrameDecode (some bytes) (some g) (some n)).1 =
    (mclLinkFrameScan.run bytes).getD .errTruncated := by
  obtain ⟨g', hflags, hhead⟩ := @mclLinkFrameDecode_head bytes n g
  rw [hhead, mclLinkFrameScan_run]
  by_cases hsize : bytes.length < mclLinkHeaderSize bytes
  · split_ifs <;> rfl
  · rw [MclLinkFrame.readBody_status hflags (Nat.le_of_not_lt hsize)]
    split_ifs <;> rfl

theorem mclLinkFrameScan_answers (hst : st ≠ .errTruncated) :
    (mclLinkFrameDecode (some bytes) (some g) (some n)).1 = st ↔
      mclLinkFrameScan.run bytes = some st := by
  rw [mclLinkFrameDecode_scan]
  cases hrun : mclLinkFrameScan.run bytes with
  | none => exact iff_of_false hst.symm (by simp)
  | some answer => simp

theorem mclLinkFrameDecode_result :
    ∃ f m, mclLinkFrameDecode (some bytes) (some g) (some n) =
      ((mclLinkFrameDecode (some bytes) (some g) (some n)).1, some f, some m) := by
  simp only [mclLinkFrameDecode]
  split_ifs <;> exact ⟨_, _, rfl⟩

theorem mclLinkFrameDecode_status_append (hst : st ≠ .errTruncated)
    (h : (mclLinkFrameDecode (some bytes) (some g) (some n)).1 = st) :
    (mclLinkFrameDecode (some (bytes ++ suffix)) (some g') (some n')).1 = st := by
  rw [mclLinkFrameScan_answers hst] at h ⊢
  exact Scan.run_append h suffix

theorem mclLinkFrameDecode_append
    (h : mclLinkFrameDecode (some bytes) (some g) (some n) = (.ok, some f, some m)) :
    mclLinkFrameDecode (some (bytes ++ suffix)) (some g') (some n') = (.ok, some f, some m) := by
  obtain ⟨hf, hmajor, rest, rfl, rfl⟩ := mclLinkFrameDecode_ok h
  have hreceived : f.received f.linkMajor = f := by
    have hsame := (mclLinkFrameDecode_layout rest n hmajor hf).symm.trans h
    simp only [Prod.mk.injEq, Option.some.injEq, true_and, and_true] at hsame
    exact hsame
  rw [List.append_assoc, mclLinkFrameDecode_layout _ n' hmajor hf, hreceived]

theorem mclLinkFrameDecode_size
    (h : mclLinkFrameDecode (some bytes) (some g) (some n) = (.ok, some f, some m)) :
    m ≤ bytes.length := by
  obtain ⟨-, -, rest, rfl, rfl⟩ := mclLinkFrameDecode_ok h
  rw [List.length_append]
  exact Nat.le_add_right _ _

theorem mclLinkFrameDecode_front
    (h : mclLinkFrameDecode (some bytes) (some g) (some n) = (.ok, some f, some m))
    (hfront : front <+: bytes) (hshort : front.length < m) :
    (mclLinkFrameDecode (some front) (some g') (some n')).1 = .errTruncated := by
  have hne : MclLinkStatus.ok ≠ .errTruncated := by decide
  have hok := (mclLinkFrameScan_answers hne).mp (congrArg Prod.fst h)
  rcases Scan.run_prefix hok hfront with hwait | hanswer
  · rw [mclLinkFrameDecode_scan, hwait]
    rfl
  · -- a frame decoded from less would be the same frame, of the same size
    have hstatus := (mclLinkFrameScan_answers (g := g') (n := n') hne).mpr hanswer
    obtain ⟨f', m', hresult⟩ := @mclLinkFrameDecode_result front n' g'
    rw [hstatus] at hresult
    obtain ⟨rest, rfl⟩ := hfront
    have hsame := (mclLinkFrameDecode_append hresult).symm.trans h
    obtain rfl : m' = m := Option.some.inj (congrArg (fun r => r.2.2) hsame)
    exact absurd (mclLinkFrameDecode_size hresult) (by omega)

/-- The verdict of the decoder is stable: a frame stays the same frame however many bytes follow,
nothing less than it is decoded, and what is refused stays refused for the same reason. -/
theorem mclLinkFrameDecode_stable (b s : List UInt8) (g g' : MclLinkFrame)
    (consumed consumed' : Nat) :
    (∀ f n, mclLinkFrameDecode (some b) (some g) (some consumed) = (.ok, some f, some n) →
      mclLinkFrameDecode (some (b ++ s)) (some g') (some consumed') = (.ok, some f, some n) ∧
        ∀ front, front <+: b.take n → front ≠ b.take n →
          (mclLinkFrameDecode (some front) (some g') (some consumed')).1 = .errTruncated) ∧
    ∀ st, st = .errRange ∨ st = .errIncompatibleVersion ∨ st = .errFrameCheck →
      (mclLinkFrameDecode (some b) (some g) (some consumed)).1 = st →
        (mclLinkFrameDecode (some (b ++ s)) (some g') (some consumed')).1 = st := by
  constructor
  · intro f n hok
    refine ⟨mclLinkFrameDecode_append hok, fun front hfront hproper => ?_⟩
    have hlength : front.length < n := by
      have htake := List.length_take_of_le (mclLinkFrameDecode_size hok)
      have hle := hfront.length_le
      have hne : front.length ≠ (b.take n).length := fun heq => hproper (hfront.eq_of_length heq)
      omega
    exact mclLinkFrameDecode_front hok (hfront.trans (List.take_prefix n b)) hlength
  · intro st hst hrefused
    apply mclLinkFrameDecode_status_append _ hrefused
    rintro rfl
    simp at hst

/-- A frame with one more byte, and a first byte that no frame begins with. -/
theorem mclLinkFrameDecode_stable_checked :
    let g : MclLinkFrame := ⟨0, 0, 0, 0, 0, 0, 0, 0, none, 0, by simp⟩
    let b : List UInt8 := [0x10, 0, 0, 0, 0, 7, 0, 1, 0x55]
    mclLinkFrameDecode (some (b ++ [0xFF])) (some g) (some 3) =
        (.ok, some ⟨1, 0, 0, 7, 0, 0, 0, 0, some [0x55], 1, by simp⟩, some 9) ∧
      (mclLinkFrameDecode (some [0x10, 0, 0]) (some g) (some 3)).1 = .errTruncated ∧
      (mclLinkFrameDecode (some (List.replicate 8 0xF0 ++ b)) (some g) (some 3)).1 =
        .errIncompatibleVersion := by
  intro g b
  have hframe := (mclLinkFrameDecode_stable b [0xFF] g g 0 3).1
    ⟨1, 0, 0, 7, 0, 0, 0, 0, some [0x55], 1, by simp⟩ 9 (by decide)
  refine ⟨hframe.1, hframe.2 [0x10, 0, 0] (by decide) (by decide), ?_⟩
  exact (mclLinkFrameDecode_stable (List.replicate 8 0xF0) b g g 0 3).2 .errIncompatibleVersion
    (by decide) (by decide)

end MclLink
