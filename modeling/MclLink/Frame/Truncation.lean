import MclLink.Frame.Prefix

/-!
# Truncated bytes that cannot become a frame

What has arrived of a frame may show a fault before the decoder looks at it. Bytes without a
visible fault can always be completed; bytes with one are still called truncated until there are
as many as the decoder waits for.
-/

namespace MclLink

open Bytes

/-- The first two bytes, as far as they have arrived, are those of a frame. -/
def MclLinkHeadLegal (bytes : List UInt8) : Prop :=
  ((bytes.getD 0 0 >>> 4) &&& 0x0F = mclLinkFrameMajor ∨
      (bytes.getD 0 0 >>> 4) &&& 0x0F = mclLinkStableMajor) ∧
    bytes.getD 0 0 &&& 0x0F < mclLinkClassCount ∧ bytes.getD 0 0 &&& 0x0F ≠ mclLinkClassAdapt ∧
    bytes.getD 1 0 &&& mclLinkFlagReserved = 0

instance (bytes : List UInt8) : Decidable (MclLinkHeadLegal bytes) :=
  inferInstanceAs (Decidable ((_ ∨ _) ∧ _ ∧ _ ∧ _))

/-- The size from which the decoder sees the first fault that the bytes show. -/
def mclLinkFrameFault (bytes : List UInt8) : Option Nat :=
  if ¬ MclLinkHeadLegal bytes then some mclLinkFrameMinSize
  else if mclLinkAnnounced bytes > mclLinkFrameMaxPayload then some (mclLinkHeaderSize bytes)
  else if mclLinkChecked bytes = true ∧ ¬ (bytes.drop (mclLinkPayloadEnd bytes)).take 4 <+:
      mclLinkPutU32 (mclLinkExpectedCheck bytes) then some (mclLinkPayloadEnd bytes + 4)
  else none

variable {a bytes suffix : List UInt8} {n : Nat} {g : MclLinkFrame}

/-- No fault can be seen. -/
structure MclLinkFaultless (bytes : List UInt8) : Prop where
  head : MclLinkHeadLegal bytes
  announced : mclLinkAnnounced bytes ≤ mclLinkFrameMaxPayload
  check : mclLinkChecked bytes = true → (bytes.drop (mclLinkPayloadEnd bytes)).take 4 <+:
    mclLinkPutU32 (mclLinkExpectedCheck bytes)

theorem mclLinkHeadStatus_ok_iff : mclLinkHeadStatus bytes = .ok ↔ MclLinkHeadLegal bytes := by
  simp only [mclLinkHeadStatus, MclLinkHeadLegal]
  split_ifs <;> simp_all
  tauto

private theorem mclLinkFrameFault_eq_none :
    mclLinkFrameFault bytes = none ↔ MclLinkFaultless bytes := by
  rw [mclLinkFrameFault]
  constructor
  · intro h
    split_ifs at h with hhead hmax hcheck
    exact ⟨hhead, UInt16.not_lt.mp hmax, fun hchecked => by tauto⟩
  · intro h
    rw [if_neg (not_not.mpr h.head), if_neg (UInt16.not_lt.mpr h.announced),
      if_neg (fun hcheck => hcheck.2 (h.check hcheck.1))]

theorem mclLinkHeaderSize_min : mclLinkFrameMinSize ≤ mclLinkHeaderSize bytes :=
  Nat.le_add_right _ _

theorem mclLinkHeaderSize_le : mclLinkHeaderSize bytes ≤
    mclLinkPayloadEnd bytes + (if mclLinkChecked bytes then 4 else 0) := by
  have hend := @mclLinkPayloadEnd_min bytes
  rw [mclLinkHeaderSize_eq]
  omega

/-- The decoder waits exactly for the bytes that it needs to see the fault. -/
theorem mclLinkFrameScan_waits (h : mclLinkFrameFault bytes = some n) :
    mclLinkFrameScan.run bytes = none ↔ bytes.length < n := by
  have hmin := @mclLinkHeaderSize_min bytes
  have hheader := @mclLinkHeaderSize_le bytes
  rw [mclLinkFrameFault] at h
  rw [mclLinkFrameScan_run]
  split_ifs at h with hhead hmax hcheck
  · obtain rfl := Option.some.inj h
    have hstatus := mclLinkHeadStatus_ok_iff.mpr hhead
    by_cases hshort : bytes.length < mclLinkHeaderSize bytes
    · simp [hshort, hstatus]
    · have hlong : ¬ bytes.length < mclLinkFrameMinSize := by omega
      simp [hshort, hlong, hstatus, hmax]
  · obtain rfl := Option.some.inj h
    have hstatus := mclLinkHeadStatus_ok_iff.mpr hhead
    rw [if_pos hcheck.1] at hheader
    by_cases hshort : bytes.length < mclLinkPayloadEnd bytes + 4
    · simp [hshort, hstatus, hmax, hcheck.1]
    · have hbehind : ¬ bytes.length < mclLinkPayloadEnd bytes := by omega
      have hfields : ¬ bytes.length < mclLinkHeaderSize bytes := by omega
      have hlong : ¬ bytes.length < mclLinkFrameMinSize := by omega
      rw [if_neg hlong, if_neg (not_not.mpr hstatus), if_neg hfields, if_neg hmax, if_neg hbehind,
        if_pos hcheck.1, if_neg hshort, ite_eq_iff]
      simp [hshort]
  · obtain rfl := Option.some.inj h
    have hstatus := mt mclLinkHeadStatus_ok_iff.mp hhead
    by_cases hshort : bytes.length < mclLinkFrameMinSize <;> simp [hshort, hstatus]

theorem mclLinkFrameScan_faultless (h : mclLinkFrameScan.run bytes = some .ok) :
    MclLinkFaultless bytes := by
  rw [mclLinkFrameScan_run] at h
  split_ifs at h with hshort hhead hfields hmax hpayload hchecked hall hcheck
  · exact absurd (Option.some.inj h) hhead
  · simp at h
  · simp at h
  · refine ⟨mclLinkHeadStatus_ok_iff.mp (not_not.mp hhead), UInt16.not_lt.mp hmax, fun _ => ?_⟩
    have hput := mclLinkU32.put_get (bytes.drop (mclLinkPayloadEnd bytes))
      (by rw [List.length_drop]; show 4 ≤ _; omega)
    have hreceived : mclLinkU32.get (bytes.drop (mclLinkPayloadEnd bytes)) =
        mclLinkExpectedCheck bytes := not_not.mp hcheck
    rw [hreceived] at hput
    have hfour : (mclLinkU32.put (mclLinkExpectedCheck bytes)).length = 4 := rfl
    rw [← hput, List.take_left' hfour]
    exact List.prefix_rfl
  · exact ⟨mclLinkHeadStatus_ok_iff.mp (not_not.mp hhead), UInt16.not_lt.mp hmax,
      fun h => absurd h hchecked⟩

private theorem MclLinkHeadLegal.front (h : MclLinkHeadLegal (bytes ++ suffix)) :
    MclLinkHeadLegal bytes := by
  obtain ⟨hmajor, hclass, hadapt, hflags⟩ := h
  refine ⟨?_, ?_, ?_, ?_⟩
  · exact getD_front (fun b => (b >>> 4) &&& 0x0F = mclLinkFrameMajor ∨
      (b >>> 4) &&& 0x0F = mclLinkStableMajor) (by decide) hmajor
  · exact getD_front (fun b => b &&& 0x0F < mclLinkClassCount) (by decide) hclass
  · exact getD_front (fun b => b &&& 0x0F ≠ mclLinkClassAdapt) (by decide) hadapt
  · exact getD_front (fun b => b &&& mclLinkFlagReserved = 0) (by decide) hflags

private theorem mclLinkAnnounced_front :
    (mclLinkAnnounced bytes).toNat ≤ (mclLinkAnnounced (bytes ++ suffix)).toNat := by
  have hword : ∀ bytes : List UInt8, ∀ k, (mclLinkGetU16 (bytes.drop k)).toNat =
      (bytes.getD k 0).toNat * 2 ^ 8 + (bytes.getD (k + 1) 0).toNat := by
    intro bytes k
    rw [mclLinkGetU16, toNat_word16, getD_of_drop, getD_of_drop]
    rfl
  have hbyte : ∀ k, (bytes.getD k 0).toNat ≤ ((bytes ++ suffix).getD k 0).toNat := by
    intro k
    exact getD_front (fun b => b.toNat ≤ ((bytes ++ suffix).getD k 0).toNat) (Nat.zero_le _)
      (Nat.le_refl _)
  by_cases hflags : 1 < bytes.length
  · have hsame := List.getD_append bytes suffix 0 1 hflags
    simp only [mclLinkAnnounced, hsame, hword]
    have hhigh := hbyte (2 + mclLinkFieldsSize (bytes.getD 1 0))
    have hlow := hbyte (2 + mclLinkFieldsSize (bytes.getD 1 0) + 1)
    omega
  · rw [mclLinkAnnounced, hword, getD_past (by omega), getD_past (by omega)]
    exact Nat.zero_le _

private theorem MclLinkFaultless.front (h : MclLinkFaultless (bytes ++ suffix)) :
    MclLinkFaultless bytes := by
  have hmax := mclLinkAnnounced_front.trans (UInt16.le_iff_toNat_le.mp h.announced)
  refine ⟨h.head.front, UInt16.le_iff_toNat_le.mpr hmax, fun hchecked => ?_⟩
  by_cases hpayload : bytes.length ≤ mclLinkPayloadEnd bytes
  · rw [List.drop_eq_nil_of_le hpayload]
    exact List.nil_prefix
  · have hlength := @mclLinkPayloadEnd_min bytes
    have halike : MclLinkLooksAlike (bytes ++ suffix) bytes :=
      .of_getD fun k hk => List.getD_append _ _ _ _ (by omega)
    have hcheck := h.check (halike.checked.trans hchecked)
    rw [halike.payloadEnd, halike.expectedCheck (List.take_append_of_le_length (by omega)),
      List.drop_append_of_le_length (by omega)] at hcheck
    exact ((List.prefix_append _ _).take 4).trans hcheck

/-- What the bytes announce, continued by zeros. -/
def mclLinkPadded (bytes : List UInt8) : List UInt8 :=
  (bytes ++ List.replicate (mclLinkPayloadEnd bytes) 0).take (mclLinkPayloadEnd bytes)

/-- The same with the check that belongs behind it. -/
def mclLinkCompletion (bytes : List UInt8) : List UInt8 :=
  mclLinkPadded bytes ++ only (mclLinkChecked bytes)
    (mclLinkPutU32 (mclLinkCrc32 (some (mclLinkPadded bytes)) (mclLinkPayloadEnd bytes)))

private theorem length_mclLinkPadded : (mclLinkPadded bytes).length = mclLinkPayloadEnd bytes := by
  rw [mclLinkPadded, List.length_take_of_le]
  rw [List.length_append, List.length_replicate]
  exact Nat.le_add_left _ _

private theorem mclLinkCompletion_take :
    (mclLinkCompletion bytes).take (mclLinkPayloadEnd bytes) = mclLinkPadded bytes :=
  List.take_left' length_mclLinkPadded

private theorem mclLinkCompletion_drop : (mclLinkCompletion bytes).drop (mclLinkPayloadEnd bytes) =
    only (mclLinkChecked bytes)
      (mclLinkPutU32 (mclLinkCrc32 (some (mclLinkPadded bytes)) (mclLinkPayloadEnd bytes))) :=
  List.drop_left' length_mclLinkPadded

private theorem mclLinkCompletion_alike : MclLinkLooksAlike (mclLinkCompletion bytes) bytes := by
  have hlength := @mclLinkPayloadEnd_min bytes
  apply MclLinkLooksAlike.of_getD
  intro k hk
  rw [mclLinkCompletion, List.getD_append _ _ _ _ (by rw [length_mclLinkPadded]; omega),
    mclLinkPadded, getD_of_take (by omega), getD_zeros]

private theorem mclLinkCompletion_ok (h : MclLinkFaultless bytes) :
    mclLinkFrameScan.run (mclLinkCompletion bytes) = some .ok := by
  have halike := @mclLinkCompletion_alike bytes
  have hsize : (mclLinkCompletion bytes).length =
      mclLinkPayloadEnd bytes + (if mclLinkChecked bytes then 4 else 0) := by
    rw [mclLinkCompletion, List.length_append, length_mclLinkPadded, length_only]
    rfl
  have hmin := @mclLinkHeaderSize_min (mclLinkCompletion bytes)
  have hheader := @mclLinkHeaderSize_le (mclLinkCompletion bytes)
  have hstatus := mclLinkHeadStatus_ok_iff.mpr h.head
  rw [halike.payloadEnd, halike.checked, ← hsize] at hheader
  rw [mclLinkFrameScan_run, halike.head, halike.announced, halike.payloadEnd, halike.checked,
    if_neg (by omega), if_neg (not_not.mpr hstatus), if_neg (by omega),
    if_neg (UInt16.not_lt.mpr h.announced), if_neg (by omega)]
  cases hchecked : mclLinkChecked bytes with
  | false => rfl
  | true =>
    rw [hchecked] at hsize
    have hexpected : mclLinkExpectedCheck (mclLinkCompletion bytes) =
        mclLinkCrc32 (some (mclLinkPadded bytes)) (mclLinkPayloadEnd bytes) := by
      simp only [mclLinkExpectedCheck, mclLinkCrc32, halike.payloadEnd, mclLinkCompletion_take]
      rw [List.take_of_length_le length_mclLinkPadded.le]
    have hreceived : mclLinkGetU32 ((mclLinkCompletion bytes).drop (mclLinkPayloadEnd bytes)) =
        mclLinkCrc32 (some (mclLinkPadded bytes)) (mclLinkPayloadEnd bytes) := by
      rw [mclLinkCompletion_drop, hchecked, ← List.append_nil (only true _)]
      exact mclLinkU32.get_put _ []
    rw [if_pos rfl, if_neg (by rw [hsize]; exact Nat.lt_irrefl _), hreceived, hexpected,
      if_neg (not_not.mpr rfl)]

private theorem mclLinkFrameScan_waits_check (h : MclLinkFaultless bytes)
    (hwait : mclLinkFrameScan.run bytes = none) (hpast : mclLinkPayloadEnd bytes < bytes.length) :
    mclLinkChecked bytes = true ∧ bytes.length < mclLinkPayloadEnd bytes + 4 := by
  have hmin := @mclLinkHeaderSize_min bytes
  have hheader := @mclLinkHeaderSize_le bytes
  have hstatus := mclLinkHeadStatus_ok_iff.mpr h.head
  by_contra hnot
  have hlong : mclLinkHeaderSize bytes ≤ bytes.length := by
    split_ifs at hheader with hchecked
    · have hall : ¬ bytes.length < mclLinkPayloadEnd bytes + 4 :=
        fun hshort => hnot ⟨hchecked, hshort⟩
      omega
    · omega
  rw [mclLinkFrameScan_run, if_neg (by omega), if_neg (not_not.mpr hstatus), if_neg (by omega),
    if_neg (UInt16.not_lt.mpr h.announced), if_neg (by omega)] at hwait
  split_ifs at hwait with hchecked hshort
  exact hnot ⟨hchecked, hshort⟩

private theorem mclLinkCompletion_prefix (h : MclLinkFaultless bytes)
    (hwait : mclLinkFrameScan.run bytes = none) : bytes <+: mclLinkCompletion bytes := by
  by_cases hpayload : bytes.length ≤ mclLinkPayloadEnd bytes
  · have hpadded : bytes <+: mclLinkPadded bytes := by
      apply List.prefix_of_prefix_length_le (List.prefix_append _ _) (List.take_prefix _ _)
      rw [← mclLinkPadded, length_mclLinkPadded]
      exact hpayload
    exact hpadded.trans (List.prefix_append _ _)
  · have hpast := Nat.lt_of_not_le hpayload
    obtain ⟨hchecked, hshort⟩ := mclLinkFrameScan_waits_check h hwait hpast
    have hpadded : mclLinkPadded bytes = bytes.take (mclLinkPayloadEnd bytes) :=
      List.take_append_of_le_length hpast.le
    have hcheck := h.check hchecked
    rw [List.take_of_length_le (by rw [List.length_drop]; omega)] at hcheck
    have hexpected : mclLinkExpectedCheck bytes =
        mclLinkCrc32 (some (mclLinkPadded bytes)) (mclLinkPayloadEnd bytes) := by
      simp only [mclLinkExpectedCheck, mclLinkCrc32, hpadded, List.take_take, Nat.min_self]
    rw [hexpected] at hcheck
    rw [mclLinkCompletion, hchecked]
    nth_rewrite 1 [← List.take_append_drop (mclLinkPayloadEnd bytes) bytes]
    rw [← hpadded]
    exact (List.prefix_append_right_inj _).mpr hcheck

theorem mclLinkFrameDecode_waits :
    (mclLinkFrameDecode (some bytes) (some g) (some n)).1 = .errTruncated ↔
      mclLinkFrameScan.run bytes = none := by
  have hhead : mclLinkHeadStatus bytes ≠ .errTruncated := by
    rw [mclLinkHeadStatus]
    split_ifs <;> decide
  have hanswer : mclLinkFrameScan.run bytes ≠ some .errTruncated := by
    rw [mclLinkFrameScan_run]
    split_ifs <;> simp [hhead]
  rw [mclLinkFrameDecode_scan]
  cases hrun : mclLinkFrameScan.run bytes with
  | none => simp
  | some st =>
    rw [hrun] at hanswer
    simpa using hanswer

theorem mclLinkFrameDecode_ok_iff :
    (mclLinkFrameDecode (some bytes) (some g) (some n)).1 = .ok ↔
      mclLinkFrameScan.run bytes = some .ok :=
  mclLinkFrameScan_answers (by decide)

private theorem MclLinkFaultless.completes (h : MclLinkFaultless bytes)
    (hwait : mclLinkFrameScan.run bytes = none) :
    ∃ s, mclLinkFrameScan.run (bytes ++ s) = some .ok := by
  obtain ⟨s, hs⟩ := mclLinkCompletion_prefix h hwait
  exact ⟨s, hs ▸ mclLinkCompletion_ok h⟩

private theorem mclLinkFrameFault_hopeless (h : mclLinkFrameFault bytes = some n) (s : List UInt8) :
    mclLinkFrameScan.run (bytes ++ s) ≠ some .ok := by
  intro hok
  have hnone := mclLinkFrameFault_eq_none.mpr (mclLinkFrameScan_faultless hok).front
  rw [hnone] at h
  simp at h

/-- What is truncated can be completed to a frame, unless it shows a fault that the decoder still
waits to look at: nothing completes that. -/
theorem mclLinkFrameDecode_truncated_iff (b : List UInt8) (g : MclLinkFrame) (consumed : Nat) :
    ((mclLinkFrameDecode (some b) (some g) (some consumed)).1 = .errTruncated →
      ∃ s, (mclLinkFrameDecode (some (b ++ s)) (some g) (some consumed)).1 = .ok) ↔
    ∀ n, mclLinkFrameFault b = some n → n ≤ b.length := by
  simp only [mclLinkFrameDecode_waits, mclLinkFrameDecode_ok_iff]
  constructor
  · intro hcompletes n hfault
    by_contra hshort
    have hwait := (mclLinkFrameScan_waits hfault).mpr (Nat.lt_of_not_le hshort)
    obtain ⟨s, hs⟩ := hcompletes hwait
    exact mclLinkFrameFault_hopeless hfault s hs
  · intro hseen hwait
    cases hfault : mclLinkFrameFault b with
    | none => exact (mclLinkFrameFault_eq_none.mp hfault).completes hwait
    | some n =>
      have hshort := (mclLinkFrameScan_waits hfault).mp hwait
      exact absurd (hseen n hfault) (Nat.not_le_of_lt hshort)

/-- One byte of a major that no frame has is called truncated, and nothing completes it. -/
theorem mclLinkFrameDecode_truncated_hopeless :
    let g : MclLinkFrame := ⟨0, 0, 0, 0, 0, 0, 0, 0, none, 0, by simp⟩
    (mclLinkFrameDecode (some [0xF0]) (some g) (some 0)).1 = .errTruncated ∧
      ¬ ∃ s, (mclLinkFrameDecode (some ([0xF0] ++ s)) (some g) (some 0)).1 = .ok := by
  intro g
  have hfault : mclLinkFrameFault [0xF0] = some 8 := by decide
  refine ⟨by decide, ?_⟩
  rintro ⟨s, hs⟩
  exact mclLinkFrameFault_hopeless hfault s (mclLinkFrameDecode_ok_iff.mp hs)

end MclLink
