import Mathlib.Tactic

/-!
# Operations that commit last

An operation reports a status beside the variables it was given. It is atomic when it hands them
back as they were unless the status is `ok`; then a history is the one of its accepted calls.
-/

namespace Atomic

variable {σ β γ : Type*} {ok st : σ} {v : β} {w : γ}

/-- Unless the report is `ok`, the variables are as they were. -/
def Keeps (ok : σ) (v : β) (r : σ × β) : Prop := r.1 ≠ ok → r.2 = v

theorem Keeps.refused (st : σ) : Keeps ok v (st, v) := fun _ => rfl

theorem Keeps.committed (v' : β) : Keeps ok v (ok, v') := fun h => absurd rfl h

theorem Keeps.ite {p : Prop} [Decidable p] {r r' : σ × β} (h : Keeps ok v r)
    (h' : Keeps ok v r') : Keeps ok v (if p then r else r') := by
  by_cases hp : p
  · rw [if_pos hp]
    exact h
  · rw [if_neg hp]
    exact h'

theorem Keeps.check {p : Prop} [Decidable p] {r : σ × β} (h : Keeps ok v r) :
    Keeps ok v (if p then (st, v) else r) :=
  .ite (.refused st) h

theorem keeps_refused_iff {v' : β} (h : st ≠ ok) : Keeps ok v (st, v') ↔ v' = v :=
  ⟨fun hkeeps => hkeeps h, fun hsame _ => hsame⟩

theorem keeps_map_iff {f : β → γ} (hf : f.Injective) {v' : β} :
    Keeps ok (f v) (st, f v') ↔ Keeps ok v (st, v') :=
  imp_congr_right fun _ => hf.eq_iff

theorem Keeps.prod {v' : β} {w' : γ} (h : Keeps ok v (st, v')) (h' : Keeps ok w (st, w')) :
    Keeps ok (v, w) (st, v', w') := fun hst => Prod.ext (h hst) (h' hst)

theorem Keeps.of_eq_or {v' : β} (h : v' = v ∨ st = ok) : Keeps ok v (st, v') := by
  intro hst
  rcases h with h | h
  · exact h
  · exact absurd h hst

/-- The inputs an operation accepts, one after the other. -/
def acceptedInputs {α : Type*} (ok : σ) [DecidableEq σ] (exec : β → α → σ × β) : β → List α → List α
  | _, [] => []
  | s, a :: as =>
    if (exec s a).1 = ok then a :: acceptedInputs ok exec (exec s a).2 as
    else acceptedInputs ok exec (exec s a).2 as

theorem foldl_acceptedInputs {α : Type*} [DecidableEq σ] {exec : β → α → σ × β}
    (h : ∀ s a, Keeps ok s (exec s a)) (s : β) (as : List α) :
    (acceptedInputs ok exec s as).foldl (fun s a => (exec s a).2) s =
      as.foldl (fun s a => (exec s a).2) s := by
  induction as generalizing s with
  | nil => rfl
  | cons a as ih =>
    rw [acceptedInputs, List.foldl_cons]
    split_ifs with hok
    · rw [List.foldl_cons]
      exact ih (exec s a).2
    · rw [h s a hok]
      exact ih s

end Atomic
