import MclLink.Frame.Check
import MclLink.Lib.Distance

/-!
# The distance of checked frames

Up to three inverted bits are always detected, wherever they stand among the message and its check:
the powers of `X` that the bits of the longest frame stand for are too few to cancel three at a
time. With the bursts of 32 bits this is what the frame check promises of a frame whose flags and
payload length are intact.
-/

namespace MclLink

open Bytes

variable {a b : List UInt8} {f g : MclLinkFrame} {major : UInt8}

private theorem mclLinkCrcPattern_spread : Crc.Spread mclLinkCrcPattern (8 * mclLinkFrameMaxSize) :=
  Crc.spread_of_freshOrbit (by decide) (by decide +kernel)

section Check

private theorem byteBits_part (v : UInt32) {k : Nat} (hk : k < 4) :
    Crc.byteBits (v >>> UInt32.ofNat (8 * k)).toUInt8 =
      (List.range 8).map fun j => v.toBitVec.getLsbD (8 * k + j) := by
  apply List.map_congr_left
  intro j hj
  have hj : j < 8 := List.mem_range.mp hj
  interval_cases k <;> simp [hj]

private theorem distance_putU32 (u v : UInt32) :
    Crc.distance (Crc.bits (mclLinkPutU32 u)) (Crc.bits (mclLinkPutU32 v)) =
      Crc.distance ((List.range 32).map u.toBitVec.getLsbD)
        ((List.range 32).map v.toBitVec.getLsbD) := by
  have hmask : ∀ x : UInt32, (x &&& 0xFF).toUInt8 = x.toUInt8 := by
    intro x
    rw [UInt32.toUInt8_and]
    exact UInt8.and_neg_one
  have hbits : ∀ x : UInt32, Crc.bits (mclLinkPutU32 x) =
      Crc.byteBits (x >>> UInt32.ofNat (8 * 3)).toUInt8 ++
        (Crc.byteBits (x >>> UInt32.ofNat (8 * 2)).toUInt8 ++
          (Crc.byteBits (x >>> UInt32.ofNat (8 * 1)).toUInt8 ++
            Crc.byteBits (x >>> UInt32.ofNat (8 * 0)).toUInt8)) := by
    intro x
    simp [Crc.bits, mclLinkPutU32, hmask]
  have hword : ∀ x : UInt32, (List.range 32).map x.toBitVec.getLsbD =
      ((List.range 8).map fun j => x.toBitVec.getLsbD (8 * 0 + j)) ++
        (((List.range 8).map fun j => x.toBitVec.getLsbD (8 * 1 + j)) ++
          (((List.range 8).map fun j => x.toBitVec.getLsbD (8 * 2 + j)) ++
            ((List.range 8).map fun j => x.toBitVec.getLsbD (8 * 3 + j)))) := fun x => rfl
  rw [hbits, hbits, hword, hword, byteBits_part u (by decide), byteBits_part u (by decide),
    byteBits_part u (by decide), byteBits_part u (by decide), byteBits_part v (by decide),
    byteBits_part v (by decide), byteBits_part v (by decide), byteBits_part v (by decide)]
  simp only [Crc.distance_append, List.length_map, List.length_range]
  omega

/-- The register that a message leaves. -/
def mclLinkCrcRegister (a : List UInt8) : BitVec 32 :=
  Crc.feedAll mclLinkCrcPattern (0xFFFFFFFF : UInt32).toBitVec (Crc.bits a)

private theorem distance_crc32 (a b : List UInt8) :
    Crc.distance (Crc.bits (mclLinkPutU32 (mclLinkCrc32 (some a) a.length)))
        (Crc.bits (mclLinkPutU32 (mclLinkCrc32 (some b) b.length))) =
      Crc.distance ((List.range 32).map (mclLinkCrcRegister a).getLsbD)
        ((List.range 32).map (mclLinkCrcRegister b).getLsbD) := by
  have hnot : ∀ c : List UInt8, (List.range 32).map (mclLinkCrc32 (some c) c.length).toBitVec.getLsbD =
      ((List.range 32).map (mclLinkCrcRegister c).getLsbD).map Bool.not := by
    intro c
    rw [List.map_map]
    apply List.map_congr_left
    intro k hk
    rw [mclLinkCrc32_eq, BitVec.getLsbD_not, decide_eq_true (List.mem_range.mp hk)]
    rfl
  rw [distance_putU32, hnot, hnot, Crc.distance_not]

private theorem mclLinkCrc32_distance (hlen : a.length = b.length)
    (hmax : 8 * a.length + 32 ≤ 8 * mclLinkFrameMaxSize)
    (hfew : Crc.distance (Crc.bits a) (Crc.bits b) +
      Crc.distance (Crc.bits (mclLinkPutU32 (mclLinkCrc32 (some a) a.length)))
        (Crc.bits (mclLinkPutU32 (mclLinkCrc32 (some b) b.length))) ≤ 3) : a = b := by
  rw [distance_crc32] at hfew
  apply Crc.bits_inj
  apply mclLinkCrcPattern_spread.feedAll_distance (by decide) _ _ hfew
  · rw [Crc.length_bits, Crc.length_bits, hlen]
  · rw [Crc.length_bits]
    exact hmax

theorem mclLinkFrame_near {consumed consumed' : Nat} {g' : MclLinkFrame}
    (hchecked : mclLinkChecked b = true) (hlen : a.length = b.length)
    (hsize : b.length = mclLinkPayloadEnd b + 4) (hmax : b.length ≤ mclLinkFrameMaxSize)
    (hshape : MclLinkSameShape a b)
    (ha : (mclLinkFrameDecode (some a) (some g) (some consumed)).1 = .ok)
    (hb : (mclLinkFrameDecode (some b) (some g') (some consumed')).1 = .ok)
    (hfew : Crc.distance (Crc.bits a) (Crc.bits b) ≤ 3) : a = b := by
  have hchecked' : mclLinkChecked a = true := by
    rw [mclLinkChecked, hshape.flags]
    exact hchecked
  have htail := mclLinkFrameDecode_tail hchecked' (by rw [hshape.payloadEnd, hlen, hsize]) ha
  have htail' := mclLinkFrameDecode_tail hchecked hsize hb
  rw [hshape.payloadEnd] at htail
  generalize mclLinkPayloadEnd b = e at hsize htail htail'
  have htake : (a.take e).length = (b.take e).length := by
    rw [List.length_take, List.length_take, hlen]
  have hbits : ∀ c : List UInt8, Crc.bits c = Crc.bits (c.take e) ++ Crc.bits (c.drop e) := by
    intro c
    rw [Crc.bits, Crc.bits, Crc.bits, ← List.flatMap_append, List.take_append_drop]
  rw [hbits, hbits b, Crc.distance_append (by rw [Crc.length_bits, Crc.length_bits, htake]), htail,
    htail'] at hfew
  have hshort : 8 * (a.take e).length + 32 ≤ 8 * mclLinkFrameMaxSize := by
    have hle : (b.take e).length ≤ e := b.length_take_le e
    rw [htake]
    omega
  have hfront := mclLinkCrc32_distance htake hshort hfew
  rw [← List.take_append_drop e a, htail, hfront, ← htail', List.take_append_drop]

theorem MclLinkFrame.length_layout_le (hf : mclLinkFrameEncodable (some f) = true) :
    (f.layout major).length ≤ mclLinkFrameMaxSize := by
  have hoptional := mclLinkOptionalSize_le f.flags
  have hpayload := UInt16.le_iff_toNat_le.mp (mclLinkFrameEncodable_iff.mp hf).2.2.2.1
  rw [MclLinkFrame.length_layout hf, mclLinkFrameEncodedSize_eq hf]
  simp only [mclLinkFrameMaxSize]
  omega

end Check

/-- A frame whose flags and payload length are intact is not accepted when up to three of its other
bits are inverted, in front of its check or in it. -/
theorem mclLinkFrameCheck_catches_three_bits {b' : List UInt8} {consumed : Nat}
    (hmajor : major = mclLinkFrameMajor ∨ major = mclLinkStableMajor)
    (hf : mclLinkFrameEncodable (some f) = true) (hcheck : f.has mclLinkFlagFrameCheck = true)
    (henc : f.EncodesTo major b) (hlen : b'.length = b.length) (hne : b' ≠ b)
    (hshape : MclLinkSameShape b' b) (hfew : Crc.distance (Crc.bits b') (Crc.bits b) ≤ 3) :
    (mclLinkFrameDecode (some b') (some g) (some consumed)).1 ≠ .ok := by
  intro hok
  obtain rfl := henc.eq_layout hmajor hf
  have hdecode := @mclLinkFrameDecode_layout f g major [] consumed hmajor hf
  rw [List.append_nil] at hdecode
  exact hne (mclLinkFrame_near hcheck hlen (MclLinkFrame.length_checked hf hcheck)
    (MclLinkFrame.length_layout_le hf) hshape hok (congrArg Prod.fst hdecode) hfew)

/-- A frame that lost a bit of its payload, gained one, and has one of its check inverted. -/
theorem mclLinkFrameCheck_catches_three_bits_spread :
    let f : MclLinkFrame := ⟨1, 3, 0x10, 0xA0, 0, 0, 0, 0, some [1, 2, 3], 3, by simp⟩
    let b' := Crc.flip (Crc.flip (Crc.flip (f.layout 1) 64) 87) 119
    Crc.distance (Crc.bits b') (Crc.bits (f.layout 1)) = 3 ∧
      (mclLinkFrameDecode (some b') (some f) (some 0)).1 ≠ .ok := by
  intro f b'
  have henc : f.EncodesTo 1 (f.layout 1) := by
    intro out written hout
    exact mclLinkFrameEncodeAtMajor_ok written (Or.inr rfl) (by decide) hout
  have hshape : MclLinkSameShape b' (f.layout 1) := by
    refine ⟨rfl, ?_⟩
    rintro k (rfl | rfl)
    · decide +kernel
    · decide +kernel
  have hthree : Crc.distance (Crc.bits b') (Crc.bits (f.layout 1)) = 3 := by decide +kernel
  exact ⟨hthree, mclLinkFrameCheck_catches_three_bits (Or.inr rfl) (by decide) (by decide) henc
    (by decide +kernel) (by decide +kernel) hshape hthree.le⟩

end MclLink
