import Mathlib.Tactic

/-!
# Serial numbers

Things are numbered 0, 1, 2, and so on, and named by their number modulo `M`. Among the last `W` of
them a name is unique as long as `W` is not above `M`, and the distance on the circle of names tells
whether it is one of theirs, or one that was never given because the numbering had a beginning.
-/

namespace Serial

variable {M W n k k' x y d : ℕ}

/-- How many steps lead from the name `y` to the name `x`. -/
def distance (M x y : ℕ) : ℕ := (x + (M - y)) % M

/-- `k` is one of the last `W` numbers below `n`, and its name is `y`. -/
def Recent (M W n y k : ℕ) : Prop := k < n ∧ n ≤ k + W ∧ k % M = y

theorem Recent.unique (hW : W ≤ M) (h : Recent M W n y k) (h' : Recent M W n y k') : k = k' := by
  have hle : ∀ {i j}, Recent M W n y i → Recent M W n y j → i ≤ j → i = j := by
    intro i j hi hj hij
    have hsame : j % M = i % M := hj.2.2.trans hi.2.2.symm
    have hdvd : M ∣ j - i := (Nat.modEq_iff_dvd' hij).mp hsame.symm
    have hlow := hi.2.1
    have hhigh := hj.1
    have hzero : j - i = 0 := Nat.eq_zero_of_dvd_of_lt hdvd (by omega)
    omega
  rcases Nat.le_total k k' with hk | hk
  · exact hle h h' hk
  · exact (hle h' h hk).symm

private theorem distance_lt (hM : 0 < M) : distance M x y < M := Nat.mod_lt _ hM

private theorem add_distance (hy : y ≤ M) : y + distance M x y ≡ x [MOD M] := by
  have hmod : distance M x y ≡ x + (M - y) [MOD M] := Nat.mod_modEq _ _
  have hsum : y + (x + (M - y)) = x + M := by omega
  calc y + distance M x y ≡ y + (x + (M - y)) [MOD M] := hmod.add_left y
    _ = x + M := hsum
    _ ≡ x [MOD M] := Nat.add_modEq_right

private theorem distance_eq (hy : y ≤ M) (hd : d < M) (h : y + d ≡ x [MOD M]) :
    distance M x y = d := by
  have hsame : distance M x y ≡ d [MOD M] :=
    Nat.ModEq.add_left_cancel' y ((add_distance hy).trans h.symm)
  exact hsame.eq_of_lt_of_lt (distance_lt (by omega)) hd

theorem distance_lt_iff (hW : W ≤ M) (hn : 1 ≤ n) (hy : y < M) :
    distance M (n - 1) y < W ↔ (∃ k, Recent M W n y k) ∨ M + n ≤ y + W := by
  have hsum := add_distance (x := n - 1) hy.le
  constructor
  · intro hd
    by_cases hback : distance M (n - 1) y ≤ n - 1
    · left
      refine ⟨n - 1 - distance M (n - 1) y, by omega, by omega, ?_⟩
      have hname : y ≡ n - 1 - distance M (n - 1) y [MOD M] := by
        apply Nat.ModEq.add_right_cancel' (distance M (n - 1) y)
        rw [Nat.sub_add_cancel hback]
        exact hsum
      rw [← hname, Nat.mod_eq_of_lt hy]
    · right
      have hdvd : M ∣ y + distance M (n - 1) y - (n - 1) :=
        (Nat.modEq_iff_dvd' (by omega)).mp hsum.symm
      have hM : M ≤ y + distance M (n - 1) y - (n - 1) := Nat.le_of_dvd (by omega) hdvd
      omega
  · rintro (⟨k, hk, hrecent, hname⟩ | hbefore)
    · have hstep : y + (n - 1 - k) ≡ n - 1 [MOD M] := by
        have hk' : k + (n - 1 - k) = n - 1 := by omega
        have hkname : y ≡ k [MOD M] := hname ▸ Nat.mod_modEq k M
        have hshift := hkname.add_right (n - 1 - k)
        rwa [hk'] at hshift
      rw [distance_eq hy.le (by omega) hstep]
      omega
    · have hstep : y + (M + n - 1 - y) ≡ n - 1 [MOD M] := by
        have hround : y + (M + n - 1 - y) = n - 1 + M := by omega
        rw [hround]
        exact Nat.add_modEq_right
      rw [distance_eq hy.le (by omega) hstep]
      omega

theorem recent_iff (hW : W ≤ M) (hy : y < M) : Recent M W n y k ↔
    (distance M (n - 1) y < W ∧ distance M (n - 1) y < n) ∧ n - 1 - distance M (n - 1) y = k := by
  have hsum := add_distance (x := n - 1) hy.le
  constructor
  · rintro ⟨hk, hrecent, hname⟩
    have hshift := (hname ▸ Nat.mod_modEq k M : y ≡ k [MOD M]).add_right (n - 1 - k)
    have hround : k + (n - 1 - k) = n - 1 := by omega
    rw [hround] at hshift
    rw [distance_eq hy.le (by omega) hshift]
    omega
  · rintro ⟨⟨hnear, hback⟩, rfl⟩
    refine ⟨by omega, by omega, ?_⟩
    have hname : y ≡ n - 1 - distance M (n - 1) y [MOD M] := by
      apply Nat.ModEq.add_right_cancel' (distance M (n - 1) y)
      rw [Nat.sub_add_cancel (by omega)]
      exact hsum
    rw [← hname, Nat.mod_eq_of_lt hy]

theorem not_given (hW : W ≤ M) (hbefore : M + n ≤ y + W) (hk : k < n) : k % M ≠ y := by
  have hle := Nat.mod_le k M
  omega

end Serial
