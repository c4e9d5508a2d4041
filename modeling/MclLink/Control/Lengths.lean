import MclLink.Control.Payloads
import MclLink.Lib.Delimited

/-!
# Short and long controls

A carriage waits on a control that is cut off and resynchronises on one that is too long, so a
decoder has to tell them apart at every cut and every extension of what it accepts.
-/

namespace MclLink

open Bytes

variable {α : Type*} {decode : Option (List UInt8) → Option α → MclLinkStatus × Option α}
  {bytes : List UInt8}

/-- Every proper prefix of an accepted control is truncated, every extension is out of range, and
nothing that is out of range can be completed; whatever the object held before each call. -/
structure MclTellsLengths
    (decode : Option (List UInt8) → Option α → MclLinkStatus × Option α) : Prop where
  truncated : ∀ {bytes front : List UInt8} {prior : α} (prior' : α),
    (decode (some bytes) (some prior)).1 = .ok → front <+: bytes → front ≠ bytes →
      (decode (some front) (some prior')).1 = .errTruncated
  range : ∀ {bytes suffix : List UInt8} {prior : α} (prior' : α),
    (decode (some bytes) (some prior)).1 = .ok → suffix ≠ [] →
      (decode (some (bytes ++ suffix)) (some prior')).1 = .errRange
  hopeless : ∀ {bytes : List UInt8} {prior : α} (suffix : List UInt8) (prior' : α),
    (decode (some bytes) (some prior)).1 = .errRange →
      (decode (some (bytes ++ suffix)) (some prior')).1 ≠ .ok

private theorem MclTellsLengths.of_delimited {header : Nat} {announced : List UInt8 → Option Nat}
    (hsame : ∀ bytes prior prior',
      (decode (some bytes) (some prior)).1 = (decode (some bytes) (some prior')).1)
    (h : ∀ prior, Delimited .ok .errTruncated .errRange header announced
      fun bytes => (decode (some bytes) (some prior)).1) : MclTellsLengths decode where
  truncated := by
    intro bytes front prior prior' hok hfront hne
    rw [hsame bytes prior prior'] at hok
    exact (h prior').of_cut hok hfront hne
  range := by
    intro bytes suffix prior prior' hok hsuffix
    rw [hsame bytes prior prior'] at hok
    exact (h prior').of_extended hok hsuffix
  hopeless := by
    intro bytes prior suffix prior' hrange
    rw [hsame bytes prior prior'] at hrange
    exact (h prior').of_long (by decide) (by decide) hrange

section ExactLength

variable {n : Nat} {content : List UInt8 → α → MclLinkStatus × Option α}

private theorem delimited_exactLength (prior : α) (hdecode : ∀ bytes,
    decode (some bytes) (some prior) = if mclLinkExactLength bytes.length n ≠ .ok
      then (mclLinkExactLength bytes.length n, some prior) else content bytes prior) :
    Delimited .ok .errTruncated .errRange 0 (fun _ => some n)
      fun bytes => (decode (some bytes) (some prior)).1 where
  waits := fun h => absurd h (Nat.not_lt_zero _)
  misses := by
    intro bytes n' _ hn hshort
    obtain rfl := Option.some.inj hn
    have hstatus : mclLinkExactLength bytes.length n = .errTruncated := if_pos hshort
    rw [hdecode, hstatus, if_pos (by decide)]
  exceeds := by
    intro bytes n' _ hn hlong
    obtain rfl := Option.some.inj hn
    have hstatus : mclLinkExactLength bytes.length n = .errRange :=
      (if_neg hlong.not_gt).trans (if_pos hlong)
    rw [hdecode, hstatus, if_pos (by decide)]
  accepted := by
    intro bytes hok
    refine ⟨Nat.zero_le _, congrArg some ?_⟩
    rw [hdecode] at hok
    split_ifs at hok with hlength
    · exact absurd hok hlength
    · exact (mclLinkExactLength_ok.mp (not_not.mp hlength)).symm

private theorem MclTellsLengths.of_exactLength
    (hdecode : ∀ bytes prior, decode (some bytes) (some prior) =
      if mclLinkExactLength bytes.length n ≠ .ok
      then (mclLinkExactLength bytes.length n, some prior) else content bytes prior)
    (hsame : ∀ bytes prior prior', (content bytes prior).1 = (content bytes prior').1) :
    MclTellsLengths decode := by
  refine .of_delimited (fun bytes prior prior' => ?_) fun prior =>
    delimited_exactLength prior fun bytes => hdecode bytes prior
  rw [hdecode, hdecode]
  split_ifs with hlength
  · rfl
  · exact hsame bytes prior prior'

end ExactLength

private theorem mclLinkAckDecode_tellsLengths (isAck : UInt8) :
    MclTellsLengths fun data => mclLinkAckDecode data isAck := by
  refine .of_exactLength (fun _ _ => rfl) fun bytes prior prior' => ?_
  dsimp only
  split_ifs <;> rfl

private theorem mclLinkCloseDecode_tellsLengths : MclTellsLengths mclLinkCloseDecode := by
  refine .of_exactLength (fun _ _ => rfl) fun bytes prior prior' => ?_
  split_ifs <;> rfl

private theorem mclLinkCapabilityDecode_tellsLengths : MclTellsLengths mclLinkCapabilityDecode := by
  refine .of_exactLength (fun _ _ => rfl) fun bytes prior prior' => ?_
  dsimp only
  split_ifs <;> rfl

private theorem mclLinkNegotiationDecode_tellsLengths :
    MclTellsLengths mclLinkNegotiationDecode := by
  refine .of_exactLength (fun _ _ => rfl) fun bytes prior prior' => ?_
  dsimp only
  split_ifs <;> rfl

section Handoff

/-- The length of a handoff control, where its header is one that this version knows. -/
def mclHandoffAnnounced (header : List UInt8) : Option Nat :=
  if header.getD 0 0 = mclHandoffControlVersion ∧ mclHandoffOpAssigned (header.getD 1 0) = true
  then some (mclHandoffControlEncodedSize (header.getD 1 0)) else none

private theorem mclHandoffAnnounced_take : mclHandoffAnnounced (bytes.take mclHandoffHeaderSize) =
    mclHandoffAnnounced bytes := by
  simp [mclHandoffAnnounced, List.getD_eq_getElem?_getD]

private theorem mclHandoffAnnounced_eq_some {n : Nat} : mclHandoffAnnounced bytes = some n ↔
    bytes.getD 0 0 = mclHandoffControlVersion ∧ mclHandoffOpAssigned (bytes.getD 1 0) = true ∧
      mclHandoffControlEncodedSize (bytes.getD 1 0) = n := by
  rw [mclHandoffAnnounced, Option.ite_none_right_eq_some, Option.some.injEq, and_assoc]

private theorem mclHandoffControlDecode_delimited (prior : MclHandoffControl) :
    Delimited .ok .errTruncated .errRange mclHandoffHeaderSize mclHandoffAnnounced
      fun bytes => (mclHandoffControlDecode (some bytes) (some prior)).1 where
  waits := by
    intro bytes hshort
    simp only [mclHandoffControlDecode]
    rw [if_pos hshort]
  misses := by
    intro bytes n hheader hannounced hless
    rw [mclHandoffAnnounced_take] at hannounced
    obtain ⟨hversion, hassigned, rfl⟩ := mclHandoffAnnounced_eq_some.mp hannounced
    simp only [mclHandoffControlDecode]
    rw [if_neg (Nat.not_lt.mpr hheader), if_neg (not_not.mpr hversion), hassigned,
      if_neg (by decide), if_pos hless]
  exceeds := by
    intro bytes n hheader hannounced hmore
    rw [mclHandoffAnnounced_take] at hannounced
    obtain ⟨hversion, hassigned, rfl⟩ := mclHandoffAnnounced_eq_some.mp hannounced
    simp only [mclHandoffControlDecode]
    rw [if_neg (Nat.not_lt.mpr hheader), if_neg (not_not.mpr hversion), hassigned,
      if_neg (by decide), if_neg hmore.not_gt, if_pos hmore]
  accepted := by
    intro bytes hok
    rw [mclHandoffAnnounced_take]
    simp only [mclHandoffControlDecode] at hok
    split_ifs at hok with hshort hversion hassigned hless hmore
    all_goals
      refine ⟨Nat.not_lt.mp hshort, mclHandoffAnnounced_eq_some.mpr
        ⟨not_not.mp hversion, by simpa using hassigned, ?_⟩⟩
      omega

/-- The front of a path challenge has the length of a commit, and waits for the challenge. -/
example (prior : MclHandoffControl) : (mclHandoffControlDecode
    (some [0, 1, 0, 0, 0x50, 1, 0, 0, 0, 0x77]) (some prior)).1 = .errTruncated := by
  rfl

private theorem mclHandoffControlDecode_tellsLengths : MclTellsLengths mclHandoffControlDecode := by
  refine .of_delimited (fun bytes prior prior' => ?_) mclHandoffControlDecode_delimited
  simp only [mclHandoffControlDecode]
  split_ifs <;> rfl

end Handoff

/-- Every control decoder tells what is cut off from what is too long. -/
theorem mclControl_tells_lengths :
    (∀ isAck, MclTellsLengths fun data => mclLinkAckDecode data isAck) ∧
    MclTellsLengths mclLinkCloseDecode ∧ MclTellsLengths mclLinkCapabilityDecode ∧
    MclTellsLengths mclLinkNegotiationDecode ∧ MclTellsLengths mclHandoffControlDecode :=
  ⟨mclLinkAckDecode_tellsLengths, mclLinkCloseDecode_tellsLengths,
    mclLinkCapabilityDecode_tellsLengths, mclLinkNegotiationDecode_tellsLengths,
    mclHandoffControlDecode_tellsLengths⟩

end MclLink
