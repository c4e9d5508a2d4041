import Mathlib.Algebra.CharP.Two
import Mathlib.Algebra.Polynomial.OfFn
import Mathlib.Algebra.Polynomial.RingDivision
import Mathlib.Data.ZMod.Basic
import Mathlib.Tactic

/-!
# Registers that divide by a polynomial

A register shifts towards its lowest bit and folds the bit it loses back in through a fixed
pattern. Over the field of two elements its bits are the coefficients of a polynomial, the highest
power in the lowest bit, and a shift multiplies by `X` modulo the polynomial of the pattern. What
is left of a message is its remainder, so that messages which differ in few enough neighbouring
bits leave different registers.
-/

namespace Crc

open Polynomial

variable {w : ℕ} {pattern r s : BitVec w} {b : Bool} {message : List Bool}

/-- The bit that falls out is folded back in through the pattern. -/
def shift (pattern r : BitVec w) : BitVec w :=
  (r >>> 1) ^^^ (if r.getLsbD 0 then pattern else 0)

/-- A message bit enters at the lowest bit, and the register shifts. -/
def feed (pattern r : BitVec w) (b : Bool) : BitVec w :=
  shift pattern (r ^^^ (BitVec.ofBool b).setWidth w)

def feedAll (pattern r : BitVec w) (message : List Bool) : BitVec w := message.foldl (feed pattern) r

/-- The lowest bit is the highest power. -/
noncomputable def ofReg (r : BitVec w) : (ZMod 2)[X] :=
  ofFn w fun k => ((r.getMsbD k).toNat : ZMod 2)

/-- The first bit is the highest power. -/
noncomputable def ofBits : List Bool → (ZMod 2)[X]
  | [] => 0
  | b :: message => C (b.toNat : ZMod 2) * X ^ message.length + ofBits message

/-- The polynomial that a pattern stands for, with its highest power. -/
noncomputable def modulus (pattern : BitVec w) : (ZMod 2)[X] := X ^ w + ofReg pattern

/-- The number with the coefficient of `X ^ k` in bit `k`. -/
noncomputable def word (w : ℕ) (p : (ZMod 2)[X]) : BitVec w :=
  (BitVec.ofBoolListLE ((List.range w).map fun k => decide (p.coeff k = 1))).cast (by simp)

/-- The message with its first bits inverted. -/
def complementFirst (n : ℕ) (message : List Bool) : List Bool :=
  (message.take n).map Bool.not ++ message.drop n

section Polynomials

theorem toNat_xor (a b : Bool) : ((a ^^ b).toNat : ZMod 2) = a.toNat + b.toNat := by
  cases a <;> cases b <;> decide

theorem toNat_inj {a b : Bool} (h : (a.toNat : ZMod 2) = b.toNat) : a = b := by
  revert h
  cases a <;> cases b <;> decide

theorem coeff_ofReg (k : ℕ) : (ofReg r).coeff k = ((r.getMsbD k).toNat : ZMod 2) := by
  rcases Nat.lt_or_ge k w with h | h
  · exact ofFn_coeff_eq_val_of_lt _ h
  · rw [ofReg, ofFn_coeff_eq_zero_of_ge _ h, BitVec.getMsbD_of_ge r k h]
    rfl

private theorem ofReg_zero : ofReg (0 : BitVec w) = 0 := by
  apply Polynomial.ext
  intro k
  simp [coeff_ofReg]

theorem ofReg_xor : ofReg (r ^^^ s) = ofReg r + ofReg s := by
  apply Polynomial.ext
  intro k
  rw [coeff_add, coeff_ofReg, coeff_ofReg, coeff_ofReg, BitVec.getMsbD_xor, toNat_xor]

theorem degree_ofReg : (ofReg r).degree < w := ofFn_degree_lt _

private theorem monic_modulus : (modulus pattern).Monic := monic_X_pow_add degree_ofReg

theorem degree_modulus : (modulus pattern).degree = w := by
  rw [modulus, degree_add_eq_left_of_degree_lt (by rw [degree_X_pow]; exact degree_ofReg),
    degree_X_pow]

theorem ofBits_append (front back : List Bool) :
    ofBits (front ++ back) = ofBits front * X ^ back.length + ofBits back := by
  induction front with
  | nil => simp [ofBits]
  | cons b front ih =>
    rw [List.cons_append, ofBits, ih, ofBits, List.length_append, pow_add]
    ring

theorem degree_ofBits : (ofBits message).degree < message.length := by
  induction message with
  | nil => simp [ofBits]
  | cons b message ih =>
    have hlast : (message.length : WithBot ℕ) < (b :: message).length := by
      exact_mod_cast Nat.lt_succ_self message.length
    apply (degree_add_le _ _).trans_lt
    apply max_lt
    · exact (degree_C_mul_X_pow_le _ _).trans_lt hlast
    · exact ih.trans hlast

private theorem coeff_ofBits (k : ℕ) :
    (ofBits message).coeff k = ((message.reverse.getD k false).toNat : ZMod 2) := by
  induction message with
  | nil => simp [ofBits]
  | cons b message ih =>
    rw [ofBits, coeff_add, ih, coeff_C_mul, coeff_X_pow, List.reverse_cons]
    rcases Nat.lt_trichotomy k message.length with hk | rfl | hk
    · simp [hk.ne, List.getElem?_append_left, hk]
    · simp
    · simp [hk.ne', hk.le, List.getElem?_append_right, Nat.sub_ne_zero_of_lt hk]

private theorem ofBits_inj {message' : List Bool} (hlen : message.length = message'.length)
    (h : ofBits message = ofBits message') : message = message' := by
  have hbits : ∀ k, message.reverse.getD k false = message'.reverse.getD k false := by
    intro k
    apply toNat_inj
    rw [← coeff_ofBits, h, coeff_ofBits]
  apply List.reverse_injective
  apply List.ext_getElem
  · rw [List.length_reverse, List.length_reverse, hlen]
  · intro k hk hk'
    rw [← List.getD_eq_getElem _ false hk, hbits, List.getD_eq_getElem _ false hk']

theorem ofReg_eq_ofBits : ofReg r = ofBits ((List.range w).map r.getLsbD) := by
  apply Polynomial.ext
  intro k
  rw [coeff_ofReg, coeff_ofBits, BitVec.getMsbD_eq_getLsbD]
  by_cases hk : k < w
  · simp [hk, Nat.sub_sub]
  · simp [hk]

private theorem getLsbD_word (p : (ZMod 2)[X]) (k : ℕ) :
    (word w p).getLsbD k = decide (k < w ∧ p.coeff k = 1) := by
  rw [word, BitVec.getLsbD_cast, BitVec.getLsbD_ofBoolListLE]
  by_cases hk : k < w
  · simp [hk]
  · simp [hk]

theorem reverse_word_ofReg : (word w (ofReg r)).reverse = r := by
  apply BitVec.eq_of_getLsbD_eq
  intro k hk
  have hmirror : r.getMsbD (w - 1 - k) = r.getLsbD k := by
    have hback : w - 1 - (w - 1 - k) = k := by omega
    simp [BitVec.getMsbD_eq_getLsbD, hback]
    omega
  have hlast : w - 1 - k < w := by omega
  rw [BitVec.getLsbD_reverse, BitVec.getMsbD_eq_getLsbD, getLsbD_word, coeff_ofReg, hmirror]
  cases r.getLsbD k with
  | true => simp [hk, hlast]
  | false => simp

end Polynomials

section Complement

private theorem ofBits_replicate_false (n : ℕ) : ofBits (List.replicate n false) = 0 := by
  induction n with
  | zero => rfl
  | succ n ih => simp [List.replicate_succ, ofBits, ih]

private theorem ofBits_map_not : ofBits (message.map Bool.not) =
    ofBits (List.replicate message.length true) + ofBits message := by
  induction message with
  | nil => simp [ofBits]
  | cons b message ih =>
    have hnot : ((!b).toNat : ZMod 2) = true.toNat + b.toNat := by
      cases b <;> decide
    simp only [List.map_cons, List.length_cons, List.replicate_succ, ofBits, ih, hnot,
      List.length_map, List.length_replicate, C_add]
    ring

private theorem ofReg_allOnes : ofReg (BitVec.allOnes w) = ofBits (List.replicate w true) := by
  have hbits : (List.range w).map (BitVec.allOnes w).getLsbD = List.replicate w true := by
    refine List.eq_replicate_iff.mpr ⟨by simp, fun b hb => ?_⟩
    obtain ⟨k, hk, rfl⟩ := List.mem_map.mp hb
    simpa using hk
  rw [ofReg_eq_ofBits, hbits]

private theorem ofBits_complementFirst (message : List Bool) :
    ofBits (complementFirst w (message ++ List.replicate w false)) =
      ofReg (BitVec.allOnes w) * X ^ message.length + ofBits message * X ^ w := by
  have hfront : ((message ++ List.replicate w false).take w).length = w := by simp
  have hback : ((message ++ List.replicate w false).drop w).length = message.length := by simp
  have hsplit : ofBits message * X ^ w = ofBits ((message ++ List.replicate w false).take w) *
      X ^ message.length + ofBits ((message ++ List.replicate w false).drop w) := by
    rw [← hback, ← ofBits_append, List.take_append_drop, ofBits_append, ofBits_replicate_false,
      List.length_replicate, add_zero]
  rw [complementFirst, ofBits_append, ofBits_map_not, hfront, hback, hsplit, ofReg_allOnes]
  ring

end Complement

section Division

private theorem entering_shift (b : Bool) : (BitVec.ofBool b).setWidth w >>> 1 = 0 := by
  apply BitVec.eq_of_getLsbD_eq
  intro k _
  simp

private theorem entering_low (b : Bool) (hw : 0 < w) :
    ((BitVec.ofBool b).setWidth w).getLsbD 0 = b := by
  simp [hw]

private theorem ofReg_ushiftRight : ofReg (r >>> 1) + C ((r.getLsbD 0).toNat : ZMod 2) * X ^ w =
    X * ofReg r := by
  apply Polynomial.ext
  intro k
  rw [coeff_add, coeff_ofReg, BitVec.getMsbD_ushiftRight, coeff_C_mul, coeff_X_pow]
  cases k with
  | zero =>
    rw [coeff_X_mul_zero]
    cases w with
    | zero => simp
    | succ w => simp
  | succ k =>
    rw [coeff_X_mul, coeff_ofReg]
    rcases Nat.lt_trichotomy (k + 1) w with h | h | h
    · simp [h, h.ne]
    · have hlow : r.getMsbD k = r.getLsbD 0 := by
        rw [BitVec.getMsbD_eq_getLsbD]
        simp [← h]
      simp [h, hlow]
    · simp [h.ne', not_lt.mpr h.le, BitVec.getMsbD_of_ge r k (Nat.le_of_lt_succ h)]

theorem ofReg_shift : ofReg (shift pattern r) + C ((r.getLsbD 0).toNat : ZMod 2) * modulus pattern =
    X * ofReg r := by
  have hfold : ofReg (if r.getLsbD 0 then pattern else 0) =
      C ((r.getLsbD 0).toNat : ZMod 2) * ofReg pattern := by
    cases r.getLsbD 0 with
    | true => simp
    | false => simpa using ofReg_zero
  rw [← ofReg_ushiftRight, shift, ofReg_xor, hfold, modulus]
  linear_combination CharTwo.add_self_eq_zero (C ((r.getLsbD 0).toNat : ZMod 2) * ofReg pattern)

variable (hw : 0 < w)
include hw

private theorem ofReg_feed : modulus pattern ∣
    ofReg (feed pattern r b) - (X * ofReg r + C (b.toNat : ZMod 2) * X ^ w) := by
  have hbit : X * ofReg ((BitVec.ofBool b).setWidth w) = C (b.toNat : ZMod 2) * X ^ w := by
    rw [← ofReg_ushiftRight, entering_shift, entering_low b hw, ofReg_zero, zero_add]
  have hshift := @ofReg_shift w pattern (r ^^^ (BitVec.ofBool b).setWidth w)
  rw [ofReg_xor, mul_add, hbit] at hshift
  rw [← hshift, feed]
  exact ⟨-C _, by ring⟩

/-- What is left of a message, up to multiples of the modulus. -/
theorem ofReg_feedAll : modulus pattern ∣
    ofReg (feedAll pattern r message) - (ofReg r * X ^ message.length + ofBits message * X ^ w) := by
  induction message generalizing r with
  | nil => simp [feedAll, ofBits]
  | cons b message ih =>
    have hrest := ih (r := feed pattern r b)
    have hfirst := (@ofReg_feed w pattern r b hw).mul_right
      (X ^ message.length)
    have hsum := dvd_add hrest hfirst
    rw [feedAll, List.foldl_cons, ofBits, List.length_cons, pow_succ]
    rw [feedAll] at hsum
    convert hsum using 1
    ring

theorem ofReg_feedAll_allOnes : ofReg (feedAll pattern (BitVec.allOnes w) message) =
    ofBits (complementFirst w (message ++ List.replicate w false)) %ₘ modulus pattern := by
  obtain ⟨q, hq⟩ := @ofReg_feedAll w pattern (BitVec.allOnes w) message hw
  rw [← ofBits_complementFirst] at hq
  refine ((div_modByMonic_unique (-q) _ monic_modulus ⟨?_, ?_⟩).2).symm
  · rw [mul_neg, ← hq]
    ring
  · rw [degree_modulus]
    exact degree_ofReg

end Division

section Bursts

theorem pos_of_msb (hp : pattern.msb = true) : 0 < w := by
  apply Nat.pos_of_ne_zero
  rintro rfl
  simp [BitVec.msb, BitVec.getMsbD] at hp

theorem isCoprime_modulus (hp : pattern.msb = true) : IsCoprime (modulus pattern) X := by
  have hw := pos_of_msb hp
  apply IsCoprime.symm
  apply prime_X.irreducible.coprime_iff_not_dvd.mpr
  rw [X_dvd_iff, modulus, coeff_add, coeff_X_pow, if_neg hw.ne, coeff_ofReg,
    ← BitVec.msb_eq_getMsbD_zero, hp]
  decide

private theorem dvd_of_feedAll_eq (hp : pattern.msb = true) {message' : List Bool}
    (hlen : message.length = message'.length)
    (h : feedAll pattern r message = feedAll pattern r message') :
    modulus pattern ∣ ofBits message - ofBits message' := by
  have hw := pos_of_msb hp
  have hfirst := @ofReg_feedAll w pattern r message hw
  have hsecond := @ofReg_feedAll w pattern r message' hw
  have hdiff := dvd_sub hsecond hfirst
  rw [h, ← hlen] at hdiff
  apply ((isCoprime_modulus hp).pow_right (n := w)).dvd_of_dvd_mul_right
  convert hdiff using 1
  ring

private theorem feedAll_burst (hp : pattern.msb = true) {front u v back : List Bool}
    (hlen : u.length = v.length) (hshort : u.length ≤ w)
    (h : feedAll pattern r (front ++ u ++ back) = feedAll pattern r (front ++ v ++ back)) :
    u = v := by
  have hdiff := dvd_of_feedAll_eq hp (by simp [hlen]) h
  have hburst : ofBits (front ++ u ++ back) - ofBits (front ++ v ++ back) =
      (ofBits u - ofBits v) * X ^ back.length := by
    simp only [ofBits_append, hlen]
    ring
  rw [hburst] at hdiff
  have hdvd := ((isCoprime_modulus hp).pow_right (n := back.length)).dvd_of_dvd_mul_right hdiff
  apply ofBits_inj hlen
  apply sub_eq_zero.mp
  apply eq_zero_of_dvd_of_degree_lt hdvd
  rw [degree_modulus]
  have hu : (ofBits u).degree < w := degree_ofBits.trans_le (by exact_mod_cast hshort)
  have hv : (ofBits v).degree < w := degree_ofBits.trans_le (by exact_mod_cast hlen ▸ hshort)
  exact (degree_sub_le _ _).trans_lt (max_lt hu hv)

private theorem exists_window {α : Type*} {xs ys : List α} {k n : ℕ} (hlen : xs.length = ys.length)
    (h : ∀ p, xs[p]? ≠ ys[p]? → k ≤ p ∧ p < k + n) :
    ∃ front u v back, xs = front ++ u ++ back ∧ ys = front ++ v ++ back ∧
      u.length = v.length ∧ u.length ≤ n := by
  have hsame : ∀ p, p < k ∨ k + n ≤ p → xs[p]? = ys[p]? := by
    intro p hp
    by_contra hne
    have hwindow := h p hne
    omega
  have hfront : ys.take k = xs.take k := by
    apply List.ext_getElem?
    intro p
    by_cases hp : p < k
    · rw [List.getElem?_take_of_lt hp, List.getElem?_take_of_lt hp, hsame p (Or.inl hp)]
    · rw [List.getElem?_take_eq_none (not_lt.mp hp), List.getElem?_take_eq_none (not_lt.mp hp)]
  have hback : ys.drop (k + n) = xs.drop (k + n) := by
    apply List.ext_getElem?
    intro p
    rw [List.getElem?_drop, List.getElem?_drop, hsame _ (Or.inr (Nat.le_add_right _ _))]
  have hsplit : ∀ zs : List α, zs = zs.take k ++ (zs.drop k).take n ++ zs.drop (k + n) := by
    intro zs
    rw [List.append_assoc, ← List.drop_drop, List.take_append_drop, List.take_append_drop]
  refine ⟨xs.take k, (xs.drop k).take n, (ys.drop k).take n, xs.drop (k + n), hsplit xs, ?_, ?_,
    List.length_take_le _ _⟩
  · rw [← hfront, ← hback]
    exact hsplit ys
  · simp [hlen]

/-- Messages of one length that differ inside a window of the register's width only. -/
theorem feedAll_window (hp : pattern.msb = true) {xs ys : List Bool} {k : ℕ}
    (hlen : xs.length = ys.length) (hwindow : ∀ p, xs[p]? ≠ ys[p]? → k ≤ p ∧ p < k + w)
    (h : feedAll pattern r xs = feedAll pattern r ys) : xs = ys := by
  obtain ⟨front, u, v, back, rfl, rfl, huv, hshort⟩ := exists_window hlen hwindow
  rw [feedAll_burst hp huv hshort h]

end Bursts

section Bytes

/-- The bits of a byte, the lowest first. -/
def byteBits (byte : UInt8) : List Bool := (List.range 8).map byte.toBitVec.getLsbD

/-- The bits of a byte string in the order in which they are sent. -/
def bits (bytes : List UInt8) : List Bool := bytes.flatMap byteBits

/-- The byte string with bit `p` inverted. -/
def flip (bytes : List UInt8) (p : ℕ) : List UInt8 :=
  bytes.modify (p / 8) fun byte => byte ^^^ UInt8.ofNat (2 ^ (p % 8))

private theorem shift_xor (hw : 0 < w) :
    shift pattern (r ^^^ s) = feed pattern r (s.getLsbD 0) ^^^ (s >>> 1) := by
  simp only [shift, feed, BitVec.getLsbD_xor, BitVec.ushiftRight_xor_distrib, entering_shift,
    entering_low _ hw]
  ac_rfl

theorem shift_iterate (hw : 0 < w) (n : ℕ) : (shift pattern)^[n] (r ^^^ s) =
    feedAll pattern r ((List.range n).map s.getLsbD) ^^^ (s >>> n) := by
  induction n generalizing r s with
  | zero => simp [feedAll]
  | succ n ih =>
    have hbits : (List.range (n + 1)).map s.getLsbD =
        s.getLsbD 0 :: (List.range n).map (s >>> 1).getLsbD := by
      rw [List.range_succ_eq_map, List.map_cons, List.map_map]
      congr 1
      apply List.map_congr_left
      intro k _
      simp [Nat.add_comm]
    rw [Function.iterate_succ_apply, shift_xor hw, ih, hbits, ← BitVec.shiftRight_add,
      Nat.add_comm 1 n]
    rfl

theorem length_bits (bytes : List UInt8) : (bits bytes).length = 8 * bytes.length := by
  induction bytes with
  | nil => rfl
  | cons byte bytes ih =>
    rw [bits, List.flatMap_cons, List.length_append, ← bits, ih, List.length_cons]
    simp [byteBits]
    omega

theorem getElem?_bits (bytes : List UInt8) (p : ℕ) :
    (bits bytes)[p]? = bytes[p / 8]?.map fun byte => byte.toBitVec.getLsbD (p % 8) := by
  induction bytes generalizing p with
  | nil => rfl
  | cons byte bytes ih =>
    rw [bits, List.flatMap_cons, ← bits]
    rcases Nat.lt_or_ge p 8 with hp | hp
    · rw [List.getElem?_append_left (by simpa [byteBits] using hp), Nat.div_eq_of_lt hp,
        Nat.mod_eq_of_lt hp]
      simp [byteBits, hp]
    · rw [List.getElem?_append_right (by simpa [byteBits] using hp), ih]
      have hdiv : p / 8 = (p - 8) / 8 + 1 := by omega
      have hmod : (p - 8) % 8 = p % 8 := by omega
      simp [byteBits, hdiv, hmod]

private theorem byteBits_inj {a b : UInt8} (h : byteBits a = byteBits b) : a = b := by
  apply UInt8.toBitVec_inj.mp
  apply BitVec.eq_of_getLsbD_eq
  intro k hk
  have hbit := congrArg (fun bs : List Bool => bs[k]?) h
  simpa [byteBits, hk] using hbit

theorem bits_inj {a b : List UInt8} (h : bits a = bits b) : a = b := by
  induction a generalizing b with
  | nil =>
    have hlen := congrArg List.length h
    rw [length_bits, length_bits, List.length_nil] at hlen
    exact (List.length_eq_zero_iff.mp (by omega)).symm
  | cons byte bytes ih =>
    cases b with
    | nil =>
      have hlen := congrArg List.length h
      rw [length_bits, length_bits, List.length_cons, List.length_nil] at hlen
      omega
    | cons byte' bytes' =>
      obtain ⟨hbyte, hbytes⟩ := List.append_inj (h : byteBits byte ++ bits bytes =
        byteBits byte' ++ bits bytes') rfl
      rw [byteBits_inj hbyte, ih hbytes]

theorem length_flip (bytes : List UInt8) (p : ℕ) : (flip bytes p).length = bytes.length :=
  List.length_modify _ _ _

theorem getElem?_flip (bytes : List UInt8) (p : ℕ) : (flip bytes p)[p / 8]? =
    bytes[p / 8]?.map fun byte => byte ^^^ UInt8.ofNat (2 ^ (p % 8)) := by
  simp only [flip, List.getElem?_modify, if_true]
  rfl

theorem getElem?_flip_ne {bytes : List UInt8} {k p : ℕ} (h : k ≠ p / 8) :
    (flip bytes p)[k]? = bytes[k]? := by
  simp only [flip, List.getElem?_modify, if_neg h.symm]
  exact Option.map_id_apply

private theorem getLsbD_flip (byte : UInt8) (p k : ℕ) :
    (byte ^^^ UInt8.ofNat (2 ^ (p % 8))).toBitVec.getLsbD k =
      (byte.toBitVec.getLsbD k ^^ decide (p % 8 = k)) := by
  have hbit : (UInt8.ofNat (2 ^ (p % 8))).toBitVec.getLsbD k = decide (p % 8 = k) := by
    rw [UInt8.toBitVec_ofNat', BitVec.getLsbD_ofNat, Nat.testBit_two_pow]
    by_cases hk : p % 8 = k
    · simp [hk]
      omega
    · simp [hk]
  rw [UInt8.toBitVec_xor, BitVec.getLsbD_xor, hbit]

theorem getElem?_bits_flip {bytes : List UInt8} {k p : ℕ} (h : k ≠ p) :
    (bits (flip bytes p))[k]? = (bits bytes)[k]? := by
  rw [getElem?_bits, getElem?_bits]
  by_cases hbyte : k / 8 = p / 8
  · have hmod : p % 8 ≠ k % 8 := by omega
    rw [hbyte, getElem?_flip, Option.map_map]
    congr 1
    funext byte
    show (byte ^^^ UInt8.ofNat (2 ^ (p % 8))).toBitVec.getLsbD (k % 8) = _
    rw [getLsbD_flip, decide_eq_false hmod, Bool.xor_false]
  · rw [getElem?_flip_ne hbyte]

theorem flip_ne {bytes : List UInt8} {p : ℕ} (h : p < 8 * bytes.length) : flip bytes p ≠ bytes := by
  intro heq
  have hp : p / 8 < bytes.length := by omega
  have hbyte := getElem?_flip bytes p
  rw [heq, List.getElem?_eq_getElem hp, Option.map_some, Option.some.injEq] at hbyte
  have hbit := congrArg (fun byte => byte.toBitVec.getLsbD (p % 8)) hbyte
  simp only [getLsbD_flip] at hbit
  simp at hbit

end Bytes

end Crc
