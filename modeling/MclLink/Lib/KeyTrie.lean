import Mathlib.Logic.Function.Iterate
import Mathlib.Tactic

/-!
# Trees of numbers without repetition

A binary tree that branches on the bits of its keys, the lowest first, and refuses a key that it
holds already. Feeding it the keys of a state machine, one state after the other, decides by
evaluation that a long orbit never comes back to a key.
-/

inductive KeyTrie where
  | empty
  | leaf (key : ℕ)
  | node (even odd : KeyTrie)

namespace KeyTrie

def evens (j : ℕ) : KeyTrie := if j % 2 = 0 then .leaf (j / 2) else .empty

def odds (j : ℕ) : KeyTrie := if j % 2 = 0 then .empty else .leaf (j / 2)

/-- Inserts a key of at most as many bits as the first argument says. -/
def insert : ℕ → ℕ → KeyTrie → Option KeyTrie
  | 0, _, _ => none
  | _ + 1, k, .empty => some (.leaf k)
  | n + 1, k, .leaf j =>
    if k = j then none
    else if k % 2 = 0 then (insert n (k / 2) (evens j)).map fun t => .node t (odds j)
    else (insert n (k / 2) (odds j)).map fun t => .node (evens j) t
  | n + 1, k, .node even odd =>
    if k % 2 = 0 then (insert n (k / 2) even).map fun t => .node t odd
    else (insert n (k / 2) odd).map fun t => .node even t

def Holds : KeyTrie → ℕ → Prop
  | .empty, _ => False
  | .leaf j, k => k = j
  | .node even odd, k => if k % 2 = 0 then even.Holds (k / 2) else odd.Holds (k / 2)

variable {t t' : KeyTrie} {k : ℕ}

private theorem holds_evens {j : ℕ} (hk : k % 2 = 0) : (evens j).Holds (k / 2) ↔ k = j := by
  rw [evens]
  split_ifs with hj
  · exact ⟨fun h : k / 2 = j / 2 => by omega, fun h => congrArg (· / 2) h⟩
  · refine iff_of_false id ?_
    rintro rfl
    exact hj hk

private theorem holds_odds {j : ℕ} (hk : k % 2 ≠ 0) : (odds j).Holds (k / 2) ↔ k = j := by
  rw [odds]
  split_ifs with hj
  · refine iff_of_false id ?_
    rintro rfl
    exact hk hj
  · exact ⟨fun h : k / 2 = j / 2 => by omega, fun h => congrArg (· / 2) h⟩

private theorem holds_split {j : ℕ} : (KeyTrie.node (evens j) (odds j)).Holds k ↔ k = j := by
  rw [Holds]
  split_ifs with hk
  · exact holds_evens hk
  · exact holds_odds hk

private theorem holds_node_even {even odd : KeyTrie} (hk : k % 2 = 0)
    (h : ¬ even.Holds (k / 2) ∧ ∀ i, t.Holds i ↔ i = k / 2 ∨ even.Holds i) :
    ¬ (KeyTrie.node even odd).Holds k ∧
      ∀ i, (KeyTrie.node t odd).Holds i ↔ i = k ∨ (KeyTrie.node even odd).Holds i := by
  obtain ⟨hnew, hold⟩ := h
  constructor
  · rw [Holds, if_pos hk]
    exact hnew
  · intro i
    rw [Holds, Holds]
    split_ifs with hi
    · rw [hold]
      have hhalf : i / 2 = k / 2 ↔ i = k := by omega
      rw [hhalf]
    · have hne : i ≠ k := by
        rintro rfl
        exact hi hk
      simp [hne]

private theorem holds_node_odd {even odd : KeyTrie} (hk : k % 2 ≠ 0)
    (h : ¬ odd.Holds (k / 2) ∧ ∀ i, t.Holds i ↔ i = k / 2 ∨ odd.Holds i) :
    ¬ (KeyTrie.node even odd).Holds k ∧
      ∀ i, (KeyTrie.node even t).Holds i ↔ i = k ∨ (KeyTrie.node even odd).Holds i := by
  obtain ⟨hnew, hold⟩ := h
  constructor
  · rw [Holds, if_neg hk]
    exact hnew
  · intro i
    rw [Holds, Holds]
    split_ifs with hi
    · have hne : i ≠ k := by
        rintro rfl
        exact hk hi
      simp [hne]
    · rw [hold]
      have hhalf : i / 2 = k / 2 ↔ i = k := by omega
      rw [hhalf]

/-- A key that enters was not there before, and is the only one that is new. -/
theorem insert_spec {n : ℕ} (h : insert n k t = some t') :
    ¬ t.Holds k ∧ ∀ i, t'.Holds i ↔ i = k ∨ t.Holds i := by
  induction n generalizing k t t' with
  | zero => simp [insert] at h
  | succ n ih =>
    cases t with
    | empty =>
      obtain rfl := Option.some.inj h
      simp [Holds]
    | leaf j =>
      have hleaf : ∀ i, (KeyTrie.leaf j).Holds i ↔
          (KeyTrie.node (evens j) (odds j)).Holds i := fun i => holds_split.symm
      simp only [hleaf]
      rw [insert] at h
      split_ifs at h with heq hk
      · obtain ⟨branch, hbranch, rfl⟩ := Option.map_eq_some_iff.mp h
        exact holds_node_even hk (ih hbranch)
      · obtain ⟨branch, hbranch, rfl⟩ := Option.map_eq_some_iff.mp h
        exact holds_node_odd hk (ih hbranch)
    | node even odd =>
      rw [insert] at h
      split_ifs at h with hk
      · obtain ⟨branch, hbranch, rfl⟩ := Option.map_eq_some_iff.mp h
        exact holds_node_even hk (ih hbranch)
      · obtain ⟨branch, hbranch, rfl⟩ := Option.map_eq_some_iff.mp h
        exact holds_node_odd hk (ih hbranch)

section Orbit

variable (step key : ℕ → ℕ) (width : ℕ)

/-- The keys of the first `n` states from `x` on are new to the tree and differ from each other.
A state zero ends the search, so that each state is a numeral before the next one is computed. -/
def freshOrbit : ℕ → ℕ → KeyTrie → Bool
  | 0, _, _ => true
  | _ + 1, 0, _ => false
  | n + 1, x + 1, t =>
    match insert width (key (x + 1)) t with
    | none => false
    | some t' => freshOrbit n (step (x + 1)) t'

variable {step key width}

theorem freshOrbit_spec {n x : ℕ} (h : freshOrbit step key width n x t = true) :
    (∀ i < n, ¬ t.Holds (key (step^[i] x))) ∧
      ∀ i j, i < j → j < n → key (step^[i] x) ≠ key (step^[j] x) := by
  induction n generalizing x t with
  | zero => simp
  | succ n ih =>
    cases x with
    | zero => simp [freshOrbit] at h
    | succ x =>
      rw [freshOrbit] at h
      split at h
      · simp at h
      · next t' hinsert =>
        obtain ⟨hnew, hold⟩ := insert_spec hinsert
        obtain ⟨hfresh, hdistinct⟩ := ih h
        have hfirst : ∀ j < n, key (step^[j] (step (x + 1))) ≠ key (x + 1) := by
          intro j hj heq
          exact hfresh j hj ((hold _).mpr (Or.inl heq))
        constructor
        · intro i hi
          cases i with
          | zero => exact hnew
          | succ i =>
            rw [Function.iterate_succ_apply]
            exact fun hi' => hfresh i (by omega) ((hold _).mpr (Or.inr hi'))
        · intro i j hij hj
          obtain ⟨j, rfl⟩ : ∃ j', j = j' + 1 := ⟨j - 1, by omega⟩
          rw [Function.iterate_succ_apply]
          cases i with
          | zero => exact (hfirst j (by omega)).symm
          | succ i =>
            rw [Function.iterate_succ_apply]
            exact hdistinct i j (by omega) (by omega)

end Orbit

end KeyTrie
