import MclLink.Basic
import MclLink.Lib.Serial

/-!
# The acknowledgement window

`mcl_link_sequence_is_live` of `src/control.c` is given the sequence that was sent last and one that
is acknowledged, and no count of the frames that were sent. The frames of a contact are numbered
from 0 on, and the sequence of a frame is its number modulo 65536.
-/

namespace MclLink

abbrev mclLinkSequenceWindowMax : UInt16 := 16384

def mclLinkSequenceIsLive (highestSent ackedSequence : UInt16) (live : Option UInt8) :
    MclLinkStatus × Option UInt8 :=
  match live with
  | none => (.errInvalidArgument, live)
  | some _ =>
    let distance := (highestSent.toUInt32 - ackedSequence.toUInt32).toUInt16
    (.ok, some (if distance < mclLinkSequenceWindowMax then 1 else 0))

/-- Frame `k` is one of the last 16384 of the `n` frames that were sent, and `a` is its sequence. -/
def MclLinkSentLately (n : Nat) (a : UInt16) (k : Nat) : Prop :=
  k < n ∧ n ≤ k + 16384 ∧ UInt16.ofNat k = a

variable {n k : Nat} {a : UInt16}

theorem MclLinkSentLately.iff_recent :
    MclLinkSentLately n a k ↔ Serial.Recent (2 ^ 16) 16384 n a.toNat k := by
  rw [MclLinkSentLately, Serial.Recent, ← UInt16.toNat_inj, UInt16.toNat_ofNat']

private theorem mclLinkSequence_distance (highestSent ackedSequence : UInt16) :
    (highestSent.toUInt32 - ackedSequence.toUInt32).toUInt16.toNat =
      Serial.distance (2 ^ 16) highestSent.toNat ackedSequence.toNat := by
  have hhighest := highestSent.toNat_lt
  have hacked := ackedSequence.toNat_lt
  rw [UInt32.toNat_toUInt16, UInt32.toNat_sub, UInt16.toNat_toUInt32, UInt16.toNat_toUInt32,
    Serial.distance]
  omega

theorem mclLinkSequenceIsLive_iff {highestSent : UInt16} {live : UInt8} :
    (mclLinkSequenceIsLive highestSent a (some live)).2 = some 1 ↔
      Serial.distance (2 ^ 16) highestSent.toNat a.toNat < 16384 := by
  rw [← mclLinkSequence_distance]
  simp only [mclLinkSequenceIsLive]
  split_ifs with hlive
  · exact iff_of_true rfl (UInt16.lt_iff_toNat_lt.mp hlive)
  · exact iff_of_false (by decide) fun hlt => hlive (UInt16.lt_iff_toNat_lt.mpr hlt)

/-- After `n` frames a sequence is judged live if it is that of one of the last 16384 frames, which
then is the only one, or if counting back from frame 0 leads to it. From 16384 frames on the
second case does not arise. -/
theorem mclLinkSequenceIsLive_window (n : Nat) (hn : 1 ≤ n) (a : UInt16) (live : UInt8) :
    let answer := mclLinkSequenceIsLive (UInt16.ofNat (n - 1)) a (some live)
    (answer = (.ok, some 1) ∨ answer = (.ok, some 0)) ∧
      (answer.2 = some 1 ↔ (∃! k, MclLinkSentLately n a k) ∨ 65536 + n ≤ a.toNat + 16384) ∧
      ((∃ k, MclLinkSentLately n a k) → ∃! k, MclLinkSentLately n a k) ∧
      (65536 + n ≤ a.toNat + 16384 → ∀ k < n, UInt16.ofNat k ≠ a) ∧
      (16384 ≤ n → (answer.2 = some 1 ↔ ∃! k, MclLinkSentLately n a k)) := by
  intro answer
  have ha := a.toNat_lt
  have hunique : (∃ k, MclLinkSentLately n a k) → ∃! k, MclLinkSentLately n a k := by
    rintro ⟨k, hk⟩
    refine ⟨k, hk, fun k' hk' => ?_⟩
    rw [MclLinkSentLately.iff_recent] at hk hk'
    exact hk'.unique (by decide) hk
  have hlive : answer.2 = some 1 ↔
      (∃! k, MclLinkSentLately n a k) ∨ 65536 + n ≤ a.toNat + 16384 := by
    have hhighest : Serial.distance (2 ^ 16) (UInt16.ofNat (n - 1)).toNat a.toNat =
        Serial.distance (2 ^ 16) (n - 1) a.toNat := by
      rw [UInt16.toNat_ofNat', Serial.distance, Serial.distance, Nat.mod_add_mod]
    rw [mclLinkSequenceIsLive_iff, hhighest, Serial.distance_lt_iff (by decide) hn ha]
    simp only [← MclLinkSentLately.iff_recent]
    exact or_congr_left ⟨hunique, ExistsUnique.exists⟩
  refine ⟨?_, hlive, hunique, fun hbefore k hk heq => ?_, fun hmany => ?_⟩
  · show (_, some (ite _ _ _)) = _ ∨ (_, some (ite _ _ _)) = _
    split_ifs
    · exact Or.inl rfl
    · exact Or.inr rfl
  · apply Serial.not_given (by decide) hbefore hk
    rw [← heq, UInt16.toNat_ofNat']
  · rw [hlive, or_iff_left]
    omega

/-- When one frame was sent, with sequence 0, an acknowledgement of 65535 is judged live. -/
theorem mclLinkSequenceIsLive_before_first :
    (mclLinkSequenceIsLive (UInt16.ofNat (1 - 1)) 65535 (some 0)).2 = some 1 ∧
      ¬ ∃ k, MclLinkSentLately 1 65535 k := by
  refine ⟨by decide, ?_⟩
  rintro ⟨k, hk, -, heq⟩
  obtain rfl : k = 0 := by omega
  exact absurd heq (by decide)

/-- Across the wrap: of 65538 frames the last has sequence 1, and 65535 names the one before 0. -/
theorem mclLinkSequenceIsLive_wrapped :
    ∃! k, MclLinkSentLately 65538 65535 k :=
  ((mclLinkSequenceIsLive_window 65538 (by decide) 65535 0).2.2.2.2 (by decide)).mp
    (by decide +kernel)

end MclLink
