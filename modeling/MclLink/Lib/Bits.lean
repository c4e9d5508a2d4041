import Mathlib.Tactic

/-!
# Sets of small numbers as bit masks

Bit `i` of a mask stands for the number `i`. A mask is tested with one bit, the bits of two masks
are met by `&&&`, and the greatest element is found by looking from the top.
-/

namespace Bits

/-- `(uint16_t)(1u << i)`. -/
def bit (i : UInt32) : UInt16 := ((1 : UInt32) <<< i).toUInt16

/-- The number is in the set. -/
def Has (mask : UInt16) (i : ℕ) : Prop := mask.toNat.testBit i = true

instance (mask : UInt16) (i : ℕ) : Decidable (Has mask i) :=
  inferInstanceAs (Decidable (mask.toNat.testBit i = true))

variable {mask a b : UInt16} {i k n : ℕ} {j : UInt32}

private theorem toNat_bit (h : j.toNat < 16) : (bit j).toNat = 2 ^ j.toNat := by
  have hpow : 2 ^ j.toNat < 2 ^ 16 := Nat.pow_lt_pow_right (by decide) h
  have hshift : j.toNat % 32 = j.toNat := Nat.mod_eq_of_lt (by omega)
  simp only [bit, UInt32.toNat_toUInt16, UInt32.toNat_shiftLeft, UInt32.reduceToNat, hshift,
    Nat.shiftLeft_eq, Nat.one_mul]
  rw [Nat.mod_mod_of_dvd _ (by decide), Nat.mod_eq_of_lt hpow]

private theorem ext (h : ∀ i, Has a i ↔ Has b i) : a = b := by
  rw [← UInt16.toNat_inj]
  apply Nat.eq_of_testBit_eq
  intro i
  exact Bool.eq_iff_iff.mpr (h i)

theorem not_has_zero : ¬ Has 0 i := by
  simp [Has]

theorem has_bit (h : j.toNat < 16) : Has (bit j) i ↔ i = j.toNat := by
  rw [Has, toNat_bit h, Nat.testBit_two_pow, decide_eq_true_eq]
  exact eq_comm

theorem has_and : Has (a &&& b) i ↔ Has a i ∧ Has b i := by
  simp [Has, Nat.testBit_and]

private theorem has_not : Has (~~~a) i ↔ i < 16 ∧ ¬ Has a i := by
  show (~~~a.toBitVec).getLsbD i = true ↔ i < 16 ∧ ¬ a.toBitVec.getLsbD i = true
  rw [BitVec.getLsbD_not]
  simp

theorem Has.lt (h : Has mask i) : i < 16 := by
  by_contra hge
  have hpow : 2 ^ 16 ≤ 2 ^ i := Nat.pow_le_pow_right (by decide) (by omega)
  have hzero : mask.toNat.testBit i = false :=
    Nat.testBit_lt_two_pow (lt_of_lt_of_le mask.toNat_lt hpow)
  rw [Has, hzero] at h
  exact absurd h (by decide)

theorem ne_zero_iff : mask ≠ 0 ↔ ∃ i, Has mask i := by
  constructor
  · intro h
    by_contra hnone
    exact h (ext fun i => iff_of_false (fun hi => hnone ⟨i, hi⟩) not_has_zero)
  · rintro ⟨i, hi⟩ rfl
    exact not_has_zero hi

theorem and_bit_ne_zero (h : j.toNat < 16) : mask &&& bit j ≠ 0 ↔ Has mask j.toNat := by
  simp only [ne_zero_iff, has_and, has_bit h, exists_eq_right]

theorem and_not_eq_zero : a &&& ~~~b = 0 ↔ b &&& a = a := by
  constructor
  · intro h
    apply ext
    intro i
    rw [has_and]
    refine ⟨And.right, fun ha => ⟨?_, ha⟩⟩
    by_contra hb
    exact ne_zero_iff.mpr ⟨i, has_and.mpr ⟨ha, has_not.mpr ⟨ha.lt, hb⟩⟩⟩ h
  · intro h
    by_contra hne
    obtain ⟨i, hi⟩ := ne_zero_iff.mp hne
    obtain ⟨ha, hnot⟩ := has_and.mp hi
    rw [← h] at ha
    exact (has_not.mp hnot).2 (has_and.mp ha).1

/-- Looks for a number below `n` from the top. -/
def searchDown (p : ℕ → Bool) : ℕ → Option ℕ
  | 0 => none
  | n + 1 => if p n then some n else searchDown p n

variable {p : ℕ → Bool}

theorem searchDown_eq_none (h : searchDown p n = none) : ∀ i < n, p i = false := by
  induction n with
  | zero => simp
  | succ n ih =>
    unfold searchDown at h
    split_ifs at h with hp
    intro i hi
    rcases Nat.lt_succ_iff_lt_or_eq.mp hi with hlt | rfl
    · exact ih h i hlt
    · simpa using hp

theorem searchDown_eq_some (h : searchDown p n = some k) :
    IsGreatest {i | i < n ∧ p i = true} k := by
  induction n with
  | zero => simp [searchDown] at h
  | succ n ih =>
    unfold searchDown at h
    split_ifs at h with hp
    · obtain rfl := Option.some.inj h
      exact ⟨⟨Nat.lt_succ_self n, hp⟩, fun i hi => Nat.lt_succ_iff.mp hi.1⟩
    · obtain ⟨⟨hk, hpk⟩, hgreatest⟩ := ih h
      refine ⟨⟨Nat.lt_succ_of_lt hk, hpk⟩, fun i hi => ?_⟩
      rcases Nat.lt_succ_iff_lt_or_eq.mp hi.1 with hlt | rfl
      · exact hgreatest ⟨hlt, hi.2⟩
      · exact absurd hi.2 hp

end Bits
