import Mathlib.Data.List.TakeWhile
import Mathlib.Data.Nat.Digits.Defs
import Mathlib.Tactic

/-!
# Byte strings as texts

What the character and string functions of C make of bytes: white space, decimal digits, the text up
to a terminating zero, and the first place at which a pattern stands.
-/

namespace Text

/-- The bytes of a text of one-byte characters. -/
def bytes (s : String) : List UInt8 := s.toList.map fun c => UInt8.ofNat c.toNat

def isSpace (b : UInt8) : Bool := b = 32 ∨ 9 ≤ b ∧ b ≤ 13

def isDigit (b : UInt8) : Bool := 48 ≤ b ∧ b ≤ 57

def digitValue (b : UInt8) : ℕ := b.toNat - 48

/-- The number that a row of digits writes. -/
def number (digits : List UInt8) : ℕ := Nat.ofDigits 10 (digits.reverse.map digitValue)

/-- The text that an array of characters holds. -/
def untilZero (s : List UInt8) : List UInt8 := s.takeWhile (· ≠ 0)

/-- From the first place on at which the pattern stands, unless the text stops before. -/
def search {α : Type*} [DecidableEq α] (stop : α) (pattern : List α) : List α → Option (List α)
  | [] => none
  | a :: text =>
    if pattern <+: a :: text then some (a :: text)
    else if a = stop then none
    else search stop pattern text

/-- `rest` begins at the first place at which the pattern stands, and the text does not stop
before. -/
def FirstAt {α : Type*} (stop : α) (pattern text rest : List α) : Prop :=
  ∃ skipped, text = skipped ++ rest ∧ stop ∉ skipped ∧ pattern <+: rest ∧
    ∀ k < skipped.length, ¬ pattern <+: text.drop k

variable {α : Type*} {stop : α} {pattern text rest : List α}
  {b : UInt8} {d s t : List UInt8} {n : ℕ}

theorem FirstAt.found (h : FirstAt stop pattern text rest) : pattern <+: rest := by
  obtain ⟨-, -, -, hfound, -⟩ := h
  exact hfound

private theorem firstAt_cons {a : α} : FirstAt stop pattern (a :: text) rest ↔
    (pattern <+: a :: text ∧ rest = a :: text) ∨
      (¬ pattern <+: a :: text ∧ a ≠ stop ∧ FirstAt stop pattern text rest) := by
  constructor
  · rintro ⟨skipped, heq, hstop, hfound, hfirst⟩
    cases skipped with
    | nil => exact Or.inl ⟨heq ▸ hfound, heq.symm⟩
    | cons c skipped =>
      obtain ⟨rfl, rfl⟩ := List.cons.inj heq
      obtain ⟨hc, hstop⟩ := List.ne_and_not_mem_of_not_mem_cons hstop
      refine Or.inr ⟨hfirst 0 (Nat.succ_pos _), Ne.symm hc, skipped, rfl, hstop, hfound, ?_⟩
      intro k hk
      exact hfirst (k + 1) (Nat.succ_lt_succ hk)
  · rintro (⟨hfound, rfl⟩ | ⟨hnot, ha, skipped, rfl, hstop, hfound, hfirst⟩)
    · exact ⟨[], rfl, List.not_mem_nil, hfound, fun k hk => absurd hk (Nat.not_lt_zero k)⟩
    · refine ⟨a :: skipped, rfl, List.not_mem_cons_of_ne_of_not_mem (Ne.symm ha) hstop, hfound, ?_⟩
      intro k hk
      cases k with
      | zero => exact hnot
      | succ k => exact hfirst k (Nat.lt_of_succ_lt_succ hk)

theorem search_eq_some [DecidableEq α] (hne : pattern ≠ []) :
    search stop pattern text = some rest ↔ FirstAt stop pattern text rest := by
  induction text with
  | nil =>
    refine iff_of_false (by simp [search]) ?_
    rintro ⟨skipped, heq, -, hfound, -⟩
    obtain ⟨-, rfl⟩ := List.append_eq_nil_iff.mp heq.symm
    exact hne (List.prefix_nil.mp hfound)
  | cons a text ih =>
    rw [firstAt_cons, search]
    by_cases hfound : pattern <+: a :: text
    · simp [hfound, eq_comm]
    · rw [if_neg hfound]
      by_cases ha : a = stop
      · rw [if_pos ha]
        refine iff_of_false (by simp) ?_
        rintro (⟨h, -⟩ | ⟨-, hgoes, -⟩)
        · exact hfound h
        · exact hgoes ha
      · rw [if_neg ha, ih]
        refine ⟨fun h => Or.inr ⟨hfound, ha, h⟩, ?_⟩
        rintro (⟨h, -⟩ | ⟨-, -, h⟩)
        · exact absurd h hfound
        · exact h

theorem number_snoc : number (d ++ [b]) = number d * 10 + digitValue b := by
  simp only [number, List.reverse_append, List.reverse_singleton, List.singleton_append,
    List.map_cons, Nat.ofDigits_cons]
  omega

theorem number_le_append : number d ≤ number (d ++ s) := by
  induction s generalizing d with
  | nil => rw [List.append_nil]
  | cons b s ih =>
    calc number d ≤ number (d ++ [b]) := by rw [number_snoc]; omega
      _ ≤ number (d ++ [b] ++ s) := ih
      _ = number (d ++ b :: s) := by rw [List.append_assoc, List.singleton_append]

theorem isDigit_not_space (h : isDigit b = true) : isSpace b = false := by
  simp only [isDigit, isSpace, decide_eq_true_eq, decide_eq_false_iff_not,
    UInt8.le_iff_toNat_le, ← UInt8.toNat_inj] at h ⊢
  change 48 ≤ b.toNat ∧ b.toNat ≤ 57 at h
  change ¬ (b.toNat = 32 ∨ 9 ≤ b.toNat ∧ b.toNat ≤ 13)
  omega

theorem isSpace_not_digit (h : isSpace b = true) : isDigit b = false := by
  by_contra hdigit
  rw [isDigit_not_space (Bool.not_eq_false _ ▸ hdigit)] at h
  cases h

end Text
