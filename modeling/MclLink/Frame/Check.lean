import MclLink.Frame.Prefix
import MclLink.Lib.Crc

/-!
# What the frame check detects

The check is the register of `mclLinkCrc32Byte`, inverted. As a linear register with a pattern that
has the lowest power it tells apart any two byte strings that differ inside 32 neighbouring bits,
so that a frame damaged inside such a window is not accepted.
-/

namespace MclLink

open Bytes

/-- The pattern that is folded back in. -/
def mclLinkCrcPattern : BitVec 32 := 0xEDB88320

variable {a b : List UInt8} {crc : UInt32} {f g : MclLinkFrame} {major : UInt8} {n : Nat}

section Register

private theorem mask_eq (x : BitVec 32) :
    mclLinkCrcPattern &&& (0 - (x &&& 1)) = if x.getLsbD 0 then mclLinkCrcPattern else 0 := by
  have hlow : x &&& 1 = BitVec.setWidth 32 (BitVec.ofBool (x.getLsbD 0)) :=
    BitVec.and_one_eq_setWidth_ofBool_getLsbD
  rw [hlow]
  cases x.getLsbD 0 <;> decide

private theorem mclLinkCrc32Bit_eq :
    (mclLinkCrc32Bit crc).toBitVec = Crc.shift mclLinkCrcPattern crc.toBitVec := by
  rw [Crc.shift, ← mask_eq]
  rfl

private theorem mclLinkCrc32Byte_eq (byte : UInt8) : (mclLinkCrc32Byte crc byte).toBitVec =
    Crc.feedAll mclLinkCrcPattern crc.toBitVec (Crc.byteBits byte) := by
  have hsteps : ∀ n, ∀ crc : UInt32, (mclLinkCrc32Bit^[n] crc).toBitVec =
      (Crc.shift mclLinkCrcPattern)^[n] crc.toBitVec := by
    intro n
    induction n with
    | zero => exact fun crc => rfl
    | succ n ih =>
      intro crc
      rw [Function.iterate_succ_apply, Function.iterate_succ_apply, ih, mclLinkCrc32Bit_eq]
  have hout : byte.toUInt32.toBitVec >>> 8 = 0 := by
    apply BitVec.eq_of_toNat_eq
    have hbyte := byte.toNat_lt
    simp [Nat.shiftRight_eq_div_pow]
    omega
  have hbits : (List.range 8).map byte.toUInt32.toBitVec.getLsbD = Crc.byteBits byte := by
    apply List.map_congr_left
    intro k hk
    simp at hk ⊢
    omega
  have hfold : mclLinkCrc32Byte crc byte = mclLinkCrc32Bit^[8] (crc ^^^ byte.toUInt32) := rfl
  rw [hfold, hsteps, UInt32.toBitVec_xor, Crc.shift_iterate (by decide), hbits, hout]
  exact BitVec.xor_zero

/-- The check is the inverted register that the message leaves. -/
theorem mclLinkCrc32_eq : (mclLinkCrc32 (some a) a.length).toBitVec =
    ~~~ Crc.feedAll mclLinkCrcPattern (0xFFFFFFFF : UInt32).toBitVec (Crc.bits a) := by
  have hfold : ∀ crc : UInt32, (a.foldl mclLinkCrc32Byte crc).toBitVec =
      Crc.feedAll mclLinkCrcPattern crc.toBitVec (Crc.bits a) := by
    induction a with
    | nil => exact fun crc => rfl
    | cons byte bytes ih =>
      intro crc
      rw [List.foldl_cons, ih, mclLinkCrc32Byte_eq]
      exact List.foldl_append.symm
  rw [mclLinkCrc32, List.take_length, UInt32.toBitVec_not, hfold]

/-- The byte strings differ at no bits but those of `P`, each byte counted from its lowest bit. -/
def MclLinkDiffersOnly (P : Nat → Prop) (a b : List UInt8) : Prop :=
  ∀ p, (Crc.bits a)[p]? ≠ (Crc.bits b)[p]? → P p

/-- No bit lies behind the end of both. -/
instance (P : Nat → Prop) [DecidablePred P] (a b : List UInt8) :
    Decidable (MclLinkDiffersOnly P a b) :=
  decidable_of_iff
    (∀ p < 8 * max a.length b.length, (Crc.bits a)[p]? ≠ (Crc.bits b)[p]? → P p) <| by
    constructor
    · intro h p hne
      apply h p _ hne
      by_contra hpast
      apply hne
      rw [List.getElem?_eq_none (by rw [Crc.length_bits]; omega),
        List.getElem?_eq_none (by rw [Crc.length_bits]; omega)]
    · exact fun h p _ => h p

theorem mclLinkCrc32_window {k : Nat} (hlen : a.length = b.length)
    (hwindow : MclLinkDiffersOnly (fun p => k ≤ p ∧ p < k + 32) a b)
    (h : mclLinkCrc32 (some a) a.length = mclLinkCrc32 (some b) b.length) : a = b := by
  have hreg := congrArg UInt32.toBitVec h
  rw [mclLinkCrc32_eq, mclLinkCrc32_eq, BitVec.not_inj] at hreg
  have hlength : (Crc.bits a).length = (Crc.bits b).length := by
    rw [Crc.length_bits, Crc.length_bits, hlen]
  exact Crc.bits_inj (Crc.feedAll_window (by decide) hlength hwindow hreg)

end Register

section Damage

theorem mclLinkFrameDecode_checked {consumed : Nat} (hchecked : mclLinkChecked a = true)
    (h : (mclLinkFrameDecode (some a) (some g) (some consumed)).1 = .ok) :
    mclLinkPayloadEnd a + 4 ≤ a.length ∧
      mclLinkGetU32 (a.drop (mclLinkPayloadEnd a)) = mclLinkExpectedCheck a := by
  have hrun := (mclLinkFrameScan_answers (by decide)).mp h
  rw [mclLinkFrameScan_run] at hrun
  split_ifs at hrun with hshort hhead hfields hmax hpayload hall hcheck
  · exact absurd (Option.some.inj hrun) hhead
  · simp at hrun
  · simp at hrun
  · exact ⟨Nat.le_of_not_lt hall, not_not.mp hcheck⟩

private theorem MclLinkFrame.announced_layout (f : MclLinkFrame) (major : UInt8)
    (suffix : List UInt8) : mclLinkAnnounced (f.layout major ++ suffix) = f.payloadLen := by
  have hflags : (f.layout major ++ suffix).getD 1 0 = f.flags := rfl
  have hdrop : (f.layout major ++ suffix).drop (2 + mclLinkFieldsSize f.flags) =
      mclLinkPutU16 f.payloadLen ++
        (f.payload.getD [] ++ (f.checkBytes (f.unchecked major) ++ suffix)) := by
    rw [← f.length_fields]
    have hfront : 2 + f.fieldBytes.length =
        ([f.versionByte major] ++ [f.flags] ++ f.fieldBytes).length := by
      simp
      omega
    rw [hfront]
    simp only [MclLinkFrame.layout, MclLinkFrame.unchecked, MclLinkFrame.bodyBytes,
      List.append_assoc]
    simp only [← List.append_assoc [f.versionByte major], ← List.append_assoc _ f.fieldBytes]
    exact List.drop_left
  rw [mclLinkAnnounced, hflags, hdrop]
  exact mclLinkU16.get_put _ _

private theorem MclLinkFrame.payloadEnd_layout (hf : mclLinkFrameEncodable (some f) = true) :
    mclLinkPayloadEnd (f.layout major) = (f.unchecked major).length := by
  have hannounced := f.announced_layout major []
  rw [List.append_nil] at hannounced
  have hflags : (f.layout major).getD 1 0 = f.flags := rfl
  rw [mclLinkPayloadEnd, hannounced, hflags, ← f.length_fields, ← length_payload hf]
  simp only [MclLinkFrame.unchecked, MclLinkFrame.bodyBytes, List.length_append,
    length_mclLinkPutU16, List.length_cons, List.length_nil]
  omega

theorem MclLinkFrame.length_checked (hf : mclLinkFrameEncodable (some f) = true)
    (hcheck : f.has mclLinkFlagFrameCheck = true) :
    (f.layout major).length = mclLinkPayloadEnd (f.layout major) + 4 := by
  rw [MclLinkFrame.payloadEnd_layout hf, MclLinkFrame.layout, List.length_append,
    MclLinkFrame.checkBytes, hcheck]
  rfl

/-- The bytes that say how the others are read: the flags and the payload length. -/
def MclLinkSameShape (a b : List UInt8) : Prop :=
  a[1]? = b[1]? ∧ ∀ k, k = 2 + mclLinkFieldsSize (b.getD 1 0) ∨
    k = 3 + mclLinkFieldsSize (b.getD 1 0) → a[k]? = b[k]?

theorem MclLinkSameShape.flags (h : MclLinkSameShape a b) : a.getD 1 0 = b.getD 1 0 := by
  rw [List.getD_eq_getElem?_getD, h.1, List.getD_eq_getElem?_getD]

private theorem MclLinkSameShape.announced (h : MclLinkSameShape a b) :
    mclLinkAnnounced a = mclLinkAnnounced b := by
  have hbyte : ∀ k, a[k]? = b[k]? → a.getD k 0 = b.getD k 0 := by
    intro k hk
    rw [List.getD_eq_getElem?_getD, hk, List.getD_eq_getElem?_getD]
  simp only [mclLinkAnnounced, mclLinkGetU16, getD_of_drop, h.flags]
  rw [hbyte _ (h.2 _ (Or.inl (Nat.add_zero _))), hbyte _ (h.2 _ (Or.inr (by omega)))]

theorem MclLinkSameShape.payloadEnd (h : MclLinkSameShape a b) :
    mclLinkPayloadEnd a = mclLinkPayloadEnd b := by
  rw [mclLinkPayloadEnd, h.flags, h.announced, mclLinkPayloadEnd]

private theorem MclLinkDiffersOnly.bytes {P : Nat → Prop} (h : MclLinkDiffersOnly P a b)
    (hlen : a.length = b.length) {k : Nat} (hk : ∀ p, p / 8 = k → ¬ P p) : a[k]? = b[k]? := by
  have hbits : ∀ p, p / 8 = k → (Crc.bits a)[p]? = (Crc.bits b)[p]? := by
    intro p hp
    by_contra hne
    exact hk p hp (h p hne)
  by_cases hshort : k < a.length
  · have hshort' : k < b.length := hlen ▸ hshort
    rw [List.getElem?_eq_getElem hshort, List.getElem?_eq_getElem hshort']
    congr 1
    apply UInt8.toBitVec_inj.mp
    apply BitVec.eq_of_getLsbD_eq
    intro j hj
    have hdiv : (8 * k + j) / 8 = k := by omega
    have hmod : (8 * k + j) % 8 = j := by omega
    have hbit := hbits (8 * k + j) hdiv
    rw [Crc.getElem?_bits, Crc.getElem?_bits, hdiv, hmod, List.getElem?_eq_getElem hshort,
      List.getElem?_eq_getElem hshort'] at hbit
    exact Option.some.inj hbit
  · rw [List.getElem?_eq_none (Nat.le_of_not_lt hshort),
      List.getElem?_eq_none (hlen ▸ Nat.le_of_not_lt hshort)]

theorem mclLinkFrameDecode_tail {consumed : Nat} (hchecked : mclLinkChecked a = true)
    (hsize : a.length = mclLinkPayloadEnd a + 4)
    (h : (mclLinkFrameDecode (some a) (some g) (some consumed)).1 = .ok) :
    a.drop (mclLinkPayloadEnd a) =
      mclLinkPutU32 (mclLinkCrc32 (some (a.take (mclLinkPayloadEnd a)))
        (a.take (mclLinkPayloadEnd a)).length) := by
  have hcheck := (mclLinkFrameDecode_checked hchecked h).2
  have hfour : (a.drop (mclLinkPayloadEnd a)).length = mclLinkU32.size := by
    rw [List.length_drop, hsize, Nat.add_sub_cancel_left]
    rfl
  have hput := mclLinkU32.put_get (a.drop (mclLinkPayloadEnd a)) hfour.ge
  rw [List.drop_eq_nil_of_le hfour.le, List.append_nil] at hput
  have hget : mclLinkU32.get (a.drop (mclLinkPayloadEnd a)) = mclLinkExpectedCheck a := hcheck
  rw [← hput, hget, mclLinkExpectedCheck, mclLinkCrc32, mclLinkCrc32, List.take_length]
  rfl

theorem mclLinkPutU32_inj {u v : UInt32} (h : mclLinkPutU32 u = mclLinkPutU32 v) : u = v := by
  have hu := mclLinkU32.get_put u []
  have hv := mclLinkU32.get_put v []
  rw [List.append_nil] at hu hv
  rw [← hu, ← hv]
  exact congrArg mclLinkGetU32 h

/-- The damage is confined to the check, or to 32 neighbouring bits in front of it. -/
def MclLinkShortDamage (a b : List UInt8) : Prop :=
  MclLinkDiffersOnly (fun p => 8 * (b.length - 4) ≤ p) a b ∨
    ∃ k, MclLinkDiffersOnly (fun p => (k ≤ p ∧ p < k + 32) ∧ p < 8 * (b.length - 4)) a b

theorem mclLinkFrame_undamaged {consumed consumed' : Nat} {g' : MclLinkFrame}
    (hchecked : mclLinkChecked b = true) (hlen : a.length = b.length)
    (hsize : b.length = mclLinkPayloadEnd b + 4) (hshape : MclLinkSameShape a b)
    (ha : (mclLinkFrameDecode (some a) (some g) (some consumed)).1 = .ok)
    (hb : (mclLinkFrameDecode (some b) (some g') (some consumed')).1 = .ok)
    (hdamage : MclLinkShortDamage a b) : a = b := by
  have hchecked' : mclLinkChecked a = true := by
    rw [mclLinkChecked, hshape.flags]
    exact hchecked
  have htail := mclLinkFrameDecode_tail hchecked' (by rw [hshape.payloadEnd, hlen, hsize]) ha
  have htail' := mclLinkFrameDecode_tail hchecked hsize hb
  rw [hshape.payloadEnd] at htail
  have hend : b.length - 4 = mclLinkPayloadEnd b := by omega
  rw [MclLinkShortDamage, hend] at hdamage
  generalize mclLinkPayloadEnd b = e at htail htail' hdamage
  have hsplit : a.take e = b.take e → a.drop e = b.drop e → a = b := by
    intro htake hdrop
    rw [← List.take_append_drop e a, htake, hdrop, List.take_append_drop]
  rcases hdamage with hdiff | ⟨k, hdiff⟩
  · -- the same bytes before it have the same check
    have htake : a.take e = b.take e := by
      apply List.ext_getElem?
      intro i
      by_cases hi : i < e
      · rw [List.getElem?_take_of_lt hi, List.getElem?_take_of_lt hi]
        exact hdiff.bytes hlen fun p hp => by omega
      · rw [List.getElem?_take_eq_none (not_lt.mp hi), List.getElem?_take_eq_none (not_lt.mp hi)]
    apply hsplit htake
    rw [htail, htake, htail']
  · -- the same check belongs to the same bytes
    have hdrop : a.drop e = b.drop e := by
      apply List.ext_getElem?
      intro i
      rw [List.getElem?_drop, List.getElem?_drop]
      exact hdiff.bytes hlen fun p hp => by omega
    apply hsplit _ hdrop
    rw [htail, htail'] at hdrop
    have hlength : (a.take e).length = (b.take e).length := by
      rw [List.length_take, List.length_take, hlen]
    apply mclLinkCrc32_window (k := k) hlength _ (mclLinkPutU32_inj hdrop)
    intro p hp
    apply (hdiff p _).1
    intro hsame
    apply hp
    rw [Crc.getElem?_bits, Crc.getElem?_bits] at hsame ⊢
    by_cases hi : p / 8 < e
    · rw [List.getElem?_take_of_lt hi, List.getElem?_take_of_lt hi]
      exact hsame
    · rw [List.getElem?_take_eq_none (not_lt.mp hi), List.getElem?_take_eq_none (not_lt.mp hi)]

/-- The frame check catches every short burst: a frame whose flags and payload length are intact
is not accepted when it is damaged in its check only, or inside 32 neighbouring bits before it.
Byte strings that differ inside such a window have different checks. -/
theorem mclLinkFrameCheck_catches_bursts :
    (∀ major f b b' g consumed, major = mclLinkFrameMajor ∨ major = mclLinkStableMajor →
      mclLinkFrameEncodable (some f) = true → f.has mclLinkFlagFrameCheck = true →
      f.EncodesTo major b → b'.length = b.length → b' ≠ b → MclLinkSameShape b' b →
      MclLinkShortDamage b' b →
        (mclLinkFrameDecode (some b') (some g) (some consumed)).1 ≠ .ok) ∧
    ∀ (a b : List UInt8) (k : Nat), a.length = b.length → a ≠ b →
      MclLinkDiffersOnly (fun p => k ≤ p ∧ p < k + 32) a b →
        mclLinkCrc32 (some a) a.length ≠ mclLinkCrc32 (some b) b.length := by
  constructor
  · intro major f b b' g consumed hmajor hf hcheck henc hlen hne hshape hdamage hok
    obtain rfl := henc.eq_layout hmajor hf
    have hdecode := mclLinkFrameDecode_layout (g := g) [] consumed hmajor hf
    rw [List.append_nil] at hdecode
    apply hne
    exact mclLinkFrame_undamaged hcheck hlen (MclLinkFrame.length_checked hf hcheck) hshape hok
      (congrArg Prod.fst hdecode) hdamage
  · intro a b k hlen hne hwindow hcrc
    exact hne (mclLinkCrc32_window hlen hwindow hcrc)

/-- A frame whose three payload bytes are overwritten. -/
theorem mclLinkFrameCheck_catches_payload :
    let f : MclLinkFrame := ⟨1, 3, 0x10, 0xA0, 0, 0, 0, 0, some [1, 2, 3], 3, by simp⟩
    let b' : List UInt8 :=
      [0x13, 0x10, 0, 0, 0, 0xA0, 0, 3, 0xFF, 2, 0] ++ (f.layout 1).drop 11
    (mclLinkFrameDecode (some b') (some f) (some 0)).1 ≠ .ok ∧
      mclLinkCrc32 (some [1, 2, 3]) 3 ≠ mclLinkCrc32 (some [0xFF, 2, 0]) 3 := by
  intro f b'
  have henc : f.EncodesTo 1 (f.layout 1) := by
    intro out written hout
    exact mclLinkFrameEncodeAtMajor_ok written (Or.inr rfl) (by decide) hout
  have hshape : MclLinkSameShape b' (f.layout 1) := by
    refine ⟨rfl, ?_⟩
    rintro k (rfl | rfl)
    · decide +kernel
    · decide +kernel
  have hdamage : MclLinkShortDamage b' (f.layout 1) := Or.inr ⟨64, by decide +kernel⟩
  constructor
  · exact mclLinkFrameCheck_catches_bursts.1 1 f (f.layout 1) b' f 0 (Or.inr rfl) (by decide)
      (by decide) henc (by decide +kernel) (by decide +kernel) hshape hdamage
  · exact mclLinkFrameCheck_catches_bursts.2 [1, 2, 3] [0xFF, 2, 0] 0 rfl (by decide) (by decide)

end Damage

end MclLink
