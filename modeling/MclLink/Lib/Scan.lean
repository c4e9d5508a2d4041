import Mathlib.Tactic

/-!
# Deciding on bytes that are still arriving

A scan waits until enough bytes are there, looks at those and at no others, and answers or waits
for more. What it once answered it answers again however many bytes follow.
-/

namespace Bytes

/-- A decision that waits for bytes. -/
inductive Scan (ρ : Type*) where
  | answer (r : ρ)
  | wait (need : Nat) (look : List UInt8 → Scan ρ)

/-- The answer on the bytes that have arrived, if they are enough for one. -/
def Scan.run {ρ : Type*} : Scan ρ → List UInt8 → Option ρ
  | .answer r, _ => some r
  | .wait need look, bytes =>
    if bytes.length < need then none else (look (bytes.take need)).run bytes

variable {ρ : Type*} {scan : Scan ρ} {bytes front : List UInt8} {r : ρ}

theorem Scan.run_wait (need : Nat) (look : List UInt8 → Scan ρ) : (Scan.wait need look).run bytes =
    if bytes.length < need then none else (look (bytes.take need)).run bytes := rfl

theorem Scan.run_ite {p : Prop} [Decidable p] {other : Scan ρ} :
    (if p then scan else other).run bytes = if p then scan.run bytes else other.run bytes :=
  apply_ite (fun s => Scan.run s bytes) p scan other

theorem Scan.run_append (h : scan.run bytes = some r) (suffix : List UInt8) :
    scan.run (bytes ++ suffix) = some r := by
  induction scan with
  | answer r' => exact h
  | wait need look ih =>
    simp only [Scan.run] at h ⊢
    split_ifs at h with hshort
    have htake : (bytes ++ suffix).take need = bytes.take need :=
      List.take_append_of_le_length (Nat.le_of_not_lt hshort)
    rw [if_neg (by rw [List.length_append]; omega), htake]
    exact ih _ h

theorem Scan.run_prefix (h : scan.run bytes = some r) (hfront : front <+: bytes) :
    scan.run front = none ∨ scan.run front = some r := by
  obtain ⟨suffix, rfl⟩ := hfront
  cases hrun : scan.run front with
  | none => exact Or.inl rfl
  | some r' => exact Or.inr ((Scan.run_append hrun suffix).symm.trans h)

end Bytes
