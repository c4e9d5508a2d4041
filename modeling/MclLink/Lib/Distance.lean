import MclLink.Lib.Crc
import MclLink.Lib.KeyTrie

/-!
# Few errors

Messages that leave the same register differ by a multiple of the modulus. Where the powers of `X`
stay apart modulo the modulus, even when the constant term is ignored, a multiple of it that is
short enough has no terms at all or more than three. So messages that differ in up to three bits,
those of the register included, are told apart, wherever the bits are.
-/

namespace Crc

open Polynomial

variable {w : ℕ} {pattern r s : BitVec w} {message : List Bool} {n : ℕ}

/-- The number of places at which two sequences of bits differ. -/
def distance (xs ys : List Bool) : ℕ := (List.zipWith xor xs ys).count true

theorem distance_append {xs ys xs' ys' : List Bool} (h : xs.length = ys.length) :
    distance (xs ++ xs') (ys ++ ys') = distance xs ys + distance xs' ys' := by
  rw [distance, List.zipWith_append h, List.count_append]
  rfl

theorem distance_not {xs ys : List Bool} :
    distance (xs.map Bool.not) (ys.map Bool.not) = distance xs ys := by
  have hnot : ∀ a b : Bool, (!a ^^ !b) = (a ^^ b) := by decide
  simp only [distance, List.zipWith_map, hnot]

private theorem eq_of_distance_zero {xs ys : List Bool} (hlen : xs.length = ys.length)
    (h : distance xs ys = 0) : xs = ys := by
  induction xs generalizing ys with
  | nil => exact (List.length_eq_zero_iff.mp hlen.symm).symm
  | cons x xs ih =>
    cases ys with
    | nil => simp at hlen
    | cons y ys =>
      rw [distance, List.zipWith_cons_cons, List.count_eq_zero, List.mem_cons, not_or] at h
      obtain ⟨hfirst, hrest⟩ := h
      rw [ih (by simpa using hlen) (List.count_eq_zero.mpr hrest)]
      cases x <;> cases y <;> simp_all

section Terms

private theorem ofBits_zipWith {xs ys : List Bool} (h : xs.length = ys.length) :
    ofBits (List.zipWith xor xs ys) = ofBits xs + ofBits ys := by
  induction xs generalizing ys with
  | nil =>
    obtain rfl := List.length_eq_zero_iff.mp h.symm
    simp [ofBits]
  | cons x xs ih =>
    cases ys with
    | nil => simp at h
    | cons y ys =>
      have hlen : xs.length = ys.length := by simpa using h
      simp only [List.zipWith_cons_cons, ofBits, ih hlen, List.length_zipWith, hlen, min_self,
        toNat_xor, C_add]
      ring

private theorem card_support_ofBits : (ofBits message).support.card = message.count true := by
  induction message with
  | nil => simp [ofBits]
  | cons b message ih =>
    cases b with
    | false => simpa [ofBits] using ih
    | true =>
      have hhigh : (ofBits message).coeff message.length = 0 :=
        coeff_eq_zero_of_degree_lt degree_ofBits
      have hsupport : (ofBits (true :: message)).support =
          insert message.length (ofBits message).support := by
        ext k
        rw [mem_support_iff, ofBits, coeff_add, coeff_C_mul, coeff_X_pow, Finset.mem_insert,
          mem_support_iff]
        by_cases hk : k = message.length
        · simp [hk, hhigh]
        · simp [hk]
      rw [hsupport, Finset.card_insert_of_notMem (by simpa using hhigh), ih, List.count_cons_self]

end Terms

section Powers

/-- The register of the constant one. -/
def unit (w : ℕ) : BitVec w := BitVec.intMin w

/-- The register of a power of `X`. -/
def power (pattern : BitVec w) (k : ℕ) : BitVec w := (shift pattern)^[k] (unit w)

/-- The coefficients of a register without the constant one. -/
def tail (r : BitVec w) : ℕ := r.toNat % 2 ^ (w - 1)

/-- The first `n` powers of `X` differ in more than the constant coefficient. -/
def Spread (pattern : BitVec w) (n : ℕ) : Prop :=
  ∀ i j, i < j → j < n → tail (power pattern i) ≠ tail (power pattern j)

private theorem ofReg_unit (hw : 0 < w) : ofReg (unit w) = 1 := by
  apply Polynomial.ext
  intro k
  rw [coeff_ofReg, unit, BitVec.getMsbD_intMin, coeff_one]
  by_cases hk : k = 0
  · simp [hk, hw]
  · simp [hk]

private theorem dvd_power (hw : 0 < w) (k : ℕ) :
    modulus pattern ∣ X ^ k - ofReg (power pattern k) := by
  induction k with
  | zero => simp [power, ofReg_unit hw]
  | succ k ih =>
    have hnext : power pattern (k + 1) = shift pattern (power pattern k) :=
      Function.iterate_succ_apply' _ _ _
    have hshift := @ofReg_shift w pattern (power pattern k)
    rw [← hnext] at hshift
    have hstep : X ^ (k + 1) - ofReg (power pattern (k + 1)) =
        X * (X ^ k - ofReg (power pattern k)) +
          C (((power pattern k).getLsbD 0).toNat : ZMod 2) * modulus pattern := by
      linear_combination -hshift
    rw [hstep]
    exact dvd_add (ih.mul_left X) (dvd_mul_left _ _)

private theorem ofReg_eq_zero (h : modulus pattern ∣ ofReg r) : r = 0 := by
  have hzero : ofReg r = 0 := by
    apply eq_zero_of_dvd_of_degree_lt h
    rw [degree_modulus]
    exact degree_ofReg
  apply BitVec.eq_of_getMsbD_eq
  intro k _
  have hcoeff := congrArg (fun p : (ZMod 2)[X] => p.coeff k) hzero
  have hbit : ((r.getMsbD k).toNat : ZMod 2) = (false.toNat : ZMod 2) := by
    simpa [coeff_ofReg] using hcoeff
  simpa using toNat_inj hbit

private theorem tail_xor_unit : tail (r ^^^ unit w) = tail r := by
  apply Nat.eq_of_testBit_eq
  intro k
  rw [tail, tail, Nat.testBit_mod_two_pow, Nat.testBit_mod_two_pow, BitVec.testBit_toNat,
    BitVec.testBit_toNat, BitVec.getLsbD_xor]
  by_cases hk : k < w - 1
  · have hunit : (unit w).getLsbD k = false := by
      rw [unit, BitVec.getLsbD_intMin]
      simp
      omega
    rw [hunit, Bool.xor_false]
  · simp [hk]

/-- A shift of the register as a number. -/
def shiftNat (pattern r : ℕ) : ℕ := if r % 2 = 0 then r / 2 else (r / 2) ^^^ pattern

private theorem toNat_shift : (shift pattern r).toNat = shiftNat pattern.toNat r.toNat := by
  have hlow : r.getLsbD 0 = decide (r.toNat % 2 = 1) := by
    rw [← BitVec.testBit_toNat, Nat.testBit_zero]
  rw [shift, shiftNat, BitVec.toNat_xor, BitVec.toNat_ushiftRight, Nat.shiftRight_one, hlow]
  rcases Nat.mod_two_eq_zero_or_one r.toNat with h | h
  · simp [h]
  · simp [h]

theorem spread_of_freshOrbit (hw : 0 < w) (h : KeyTrie.freshOrbit (shiftNat pattern.toNat)
    (fun r => r % 2 ^ (w - 1)) (w + 1) n (2 ^ (w - 1)) .empty = true) : Spread pattern n := by
  have hstart : (unit w).toNat = 2 ^ (w - 1) := by
    rw [unit, BitVec.toNat_intMin, Nat.mod_eq_of_lt (Nat.pow_lt_pow_right (by omega) (by omega))]
  have hpower : ∀ k, (power pattern k).toNat = (shiftNat pattern.toNat)^[k] (2 ^ (w - 1)) := by
    intro k
    induction k with
    | zero => exact hstart
    | succ k ih =>
      rw [Function.iterate_succ_apply', ← ih, ← toNat_shift, power, Function.iterate_succ_apply']
      rfl
  intro i j hij hj
  rw [tail, tail, hpower, hpower]
  exact (KeyTrie.freshOrbit_spec h).2 i j hij hj

variable (hspread : Spread pattern n) (hp : pattern.msb = true)
include hspread hp

private theorem Spread.not_dvd_pair {d : ℕ} (hd : 0 < d) (hdn : d < n) :
    ¬ modulus pattern ∣ X ^ d + 1 := by
  intro hdvd
  have hw := pos_of_msb hp
  have hreg : modulus pattern ∣ ofReg (power pattern d ^^^ unit w) := by
    have hsum := dvd_sub hdvd (dvd_power hw d)
    rw [ofReg_xor, ofReg_unit hw]
    convert hsum using 1
    ring
  have hzero := congrArg tail (ofReg_eq_zero hreg)
  rw [tail_xor_unit] at hzero
  have hunit : tail (unit w) = tail (0 : BitVec w) := by
    rw [← tail_xor_unit, BitVec.xor_self]
    rfl
  exact hspread 0 d hd hdn (hunit.trans hzero.symm)

private theorem Spread.not_dvd_triple {d e : ℕ} (hde : d < e) (hen : e < n) :
    ¬ modulus pattern ∣ X ^ e + X ^ d + 1 := by
  intro hdvd
  have hw := pos_of_msb hp
  have hreg : modulus pattern ∣ ofReg (power pattern d ^^^ unit w ^^^ power pattern e) := by
    have hsum := dvd_sub (dvd_sub hdvd (dvd_power hw d)) (dvd_power hw e)
    rw [ofReg_xor, ofReg_xor, ofReg_unit hw]
    convert hsum using 1
    ring
  have hsame : power pattern d ^^^ unit w = power pattern e :=
    BitVec.xor_eq_zero_iff.mp (ofReg_eq_zero hreg)
  exact hspread d e hde hen (by rw [← hsame, tail_xor_unit])

private theorem Spread.eq_zero {q : (ZMod 2)[X]} (hcard : q.support.card ≤ 3) (hdeg : q.degree < n)
    (hdvd : modulus pattern ∣ q) : q = 0 := by
  have hone : ∀ x : ZMod 2, x ≠ 0 → x = 1 := by decide
  have hcoprime : ∀ (k : ℕ) (p : (ZMod 2)[X]), modulus pattern ∣ p * X ^ k → modulus pattern ∣ p :=
    fun k p h => ((isCoprime_modulus hp).pow_right (n := k)).dvd_of_dvd_mul_right h
  have hlt : ∀ k, q.coeff k ≠ 0 → k < n := by
    intro k hk
    exact_mod_cast (le_degree_of_ne_zero hk).trans_lt hdeg
  obtain hcard | hcard | hcard | hcard :
      q.support.card = 0 ∨ q.support.card = 1 ∨ q.support.card = 2 ∨ q.support.card = 3 := by omega
  · exact card_support_eq_zero.mp hcard
  · obtain ⟨k, x, hx, rfl⟩ := card_support_eq_one.mp hcard
    rw [hone x hx, C_1] at hdvd
    have hunit := hcoprime k 1 hdvd
    have hdegree : (modulus pattern).degree = 0 := degree_eq_zero_of_isUnit (isUnit_of_dvd_one hunit)
    rw [degree_modulus] at hdegree
    exact absurd (by exact_mod_cast hdegree) (pos_of_msb hp).ne'
  · obtain ⟨k, m, hkm, x, y, hx, hy, hq⟩ := card_support_eq_two.mp hcard
    have hm : m < n := hlt m (by simp [hq, hkm.ne', hy])
    have hfactor : q = (X ^ (m - k) + 1) * X ^ k := by
      rw [hq, hone x hx, hone y hy, C_1, add_mul, ← pow_add, Nat.sub_add_cancel hkm.le]
      ring
    rw [hfactor] at hdvd
    exact absurd (hcoprime k _ hdvd) (hspread.not_dvd_pair hp (by omega) (by omega))
  · obtain ⟨k, m, l, hkm, hml, x, y, z, hx, hy, hz, hq⟩ := card_support_eq_three.mp hcard
    have hl : l < n := hlt l (by simp [hq, hml.ne', (hkm.trans hml).ne', hz])
    have hfactor : q = (X ^ (l - k) + X ^ (m - k) + 1) * X ^ k := by
      rw [hq, hone x hx, hone y hy, hone z hz, C_1, add_mul, add_mul, ← pow_add, ← pow_add,
        Nat.sub_add_cancel hkm.le, Nat.sub_add_cancel (hkm.trans hml).le]
      ring
    rw [hfactor] at hdvd
    exact absurd (hcoprime k _ hdvd) (hspread.not_dvd_triple hp (by omega) (by omega))

/-- Messages and registers that differ in up to three bits in all do not both fit together. -/
theorem Spread.feedAll_distance {start : BitVec w} {xs ys : List Bool}
    (hlen : xs.length = ys.length) (hshort : xs.length + w ≤ n)
    (hfew : distance xs ys + distance ((List.range w).map (feedAll pattern start xs).getLsbD)
      ((List.range w).map (feedAll pattern start ys).getLsbD) ≤ 3) : xs = ys := by
  have hw := pos_of_msb hp
  let regs (zs : List Bool) : List Bool := (List.range w).map (feedAll pattern start zs).getLsbD
  have hregs : ∀ zs, ofBits (regs zs) = ofReg (feedAll pattern start zs) := fun zs =>
    ofReg_eq_ofBits.symm
  have hbits : ∀ zs, (regs zs).length = w := fun zs => by simp [regs]
  let e := List.zipWith xor (xs ++ regs xs) (ys ++ regs ys)
  have hwhole : (xs ++ regs xs).length = (ys ++ regs ys).length := by simp [hbits, hlen]
  have hcount : e.count true ≤ 3 := (distance_append hlen).trans_le hfew
  have hdvd : modulus pattern ∣ ofBits e := by
    have hsum := dvd_sub (@ofReg_feedAll w pattern start xs hw) (@ofReg_feedAll w pattern start ys hw)
    rw [ofBits_zipWith hwhole, ofBits_append, ofBits_append, hregs, hregs, hbits, hbits]
    have htwo : (2 : (ZMod 2)[X]) = 0 := CharTwo.two_eq_zero
    convert hsum using 1
    rw [hlen]
    linear_combination (ofBits xs * X ^ w + ofReg (feedAll pattern start ys)) * htwo
  have hzero : ofBits e = 0 := by
    apply hspread.eq_zero hp (card_support_ofBits.trans_le hcount) _ hdvd
    apply degree_ofBits.trans_le
    have hlength : e.length = xs.length + w := by simp [e, hbits, hlen]
    exact_mod_cast hlength ▸ hshort
  have hnone : distance (xs ++ regs xs) (ys ++ regs ys) = 0 := by
    rw [distance, ← card_support_ofBits]
    exact card_support_eq_zero.mpr hzero
  rw [distance_append hlen] at hnone
  exact eq_of_distance_zero hlen (by omega)

end Powers

end Crc
