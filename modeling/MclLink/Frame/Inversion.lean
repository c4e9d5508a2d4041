import MclLink.Frame.Check
import MclLink.Frame.Stream
import MclLink.Frame.Truncation

/-!
# A checked frame with one bit inverted

The flags and the payload length say where the check is looked for, and whether it is. One inverted
bit elsewhere is always detected; one that moves the check is detected unless the bytes of the frame
are their own check at the place where it is looked for then. Without its flag the check is not
looked for at all, and its bytes are left to the next frame.
-/

namespace MclLink

open Bytes

/-- The bit decides where the frame check is looked for, so that it is looked for in the frame. -/
def MclLinkReshapes (b : List UInt8) (p : Nat) : Prop :=
  p / 8 = 1 ∧ p % 8 < 4 ∨
    (p / 8 = 2 + mclLinkFieldsSize (b.getD 1 0) ∨ p / 8 = 3 + mclLinkFieldsSize (b.getD 1 0)) ∧
      (b.getD (p / 8) 0).toBitVec.getLsbD (p % 8) = true

/-- The payload that the header announces has its check behind it. -/
def MclLinkCarriesCheck (b : List UInt8) : Prop :=
  mclLinkAnnounced b ≤ mclLinkFrameMaxPayload ∧ mclLinkPayloadEnd b + 4 ≤ b.length ∧
    mclLinkGetU32 (b.drop (mclLinkPayloadEnd b)) = mclLinkExpectedCheck b

instance (b : List UInt8) (p : Nat) : Decidable (MclLinkReshapes b p) :=
  inferInstanceAs (Decidable (_ ∨ _))

instance (b : List UInt8) : Decidable (MclLinkCarriesCheck b) :=
  inferInstanceAs (Decidable (_ ∧ _))

/-- The frame with the flag of its check inverted. -/
def MclLinkFrame.withoutCheck (f : MclLinkFrame) : MclLinkFrame :=
  { f with flags := f.flags ^^^ mclLinkFlagFrameCheck }

variable {b : List UInt8} {f g : MclLinkFrame} {major : UInt8} {p k consumed : Nat}

private theorem mclLinkFrameDecode_carries (hhead : MclLinkHeadLegal b)
    (hchecked : mclLinkChecked b = true) :
    (mclLinkFrameDecode (some b) (some g) (some consumed)).1 = .ok ↔ MclLinkCarriesCheck b := by
  have hstatus := mclLinkHeadStatus_ok_iff.mpr hhead
  have hmin := @mclLinkHeaderSize_min b
  have hheader := @mclLinkHeaderSize_le b
  rw [if_pos hchecked] at hheader
  rw [mclLinkFrameDecode_ok_iff]
  constructor
  · intro hok
    have hfaultless := mclLinkFrameScan_faultless hok
    exact ⟨hfaultless.announced,
      mclLinkFrameDecode_checked hchecked ((mclLinkFrameDecode_ok_iff (g := g) (n := 0)).mpr hok)⟩
  · rintro ⟨hmax, hsize, hcheck⟩
    rw [mclLinkFrameScan_run, if_neg (by omega), if_neg (not_not.mpr hstatus), if_neg (by omega),
      if_neg (UInt16.not_lt.mpr hmax), if_neg (by omega), if_pos hchecked, if_neg (by omega),
      if_neg (not_not.mpr hcheck)]

section Bytes

private theorem getD_flip (h : p < 8 * b.length) : (Crc.flip b p).getD (p / 8) 0 =
    b.getD (p / 8) 0 ^^^ UInt8.ofNat (2 ^ (p % 8)) := by
  have hp : p / 8 < b.length := by omega
  rw [List.getD_eq_getElem?_getD, Crc.getElem?_flip, List.getD_eq_getElem?_getD,
    List.getElem?_eq_getElem hp]
  rfl

private theorem getD_flip_ne (h : k ≠ p / 8) : (Crc.flip b p).getD k 0 = b.getD k 0 := by
  rw [List.getD_eq_getElem?_getD, Crc.getElem?_flip_ne h, List.getD_eq_getElem?_getD]

private theorem forall_byte {P : UInt8 → Prop} (h : ∀ i : Fin 256, P ⟨⟨i⟩⟩) (byte : UInt8) :
    P byte :=
  h byte.toBitVec.toFin

private theorem mclLinkFlagReserved_flip (flags : UInt8) :
    ∀ j < 8, flags &&& mclLinkFlagReserved = 0 →
    ((flags ^^^ UInt8.ofNat (2 ^ j)) &&& mclLinkFlagReserved = 0 ↔ j < 5) := by
  apply forall_byte _ flags
  decide +kernel

private theorem mclLinkFlagFrameCheck_flip (flags : UInt8) : ∀ j < 8, j ≠ 4 →
    (flags ^^^ UInt8.ofNat (2 ^ j)) &&& mclLinkFlagFrameCheck = flags &&& mclLinkFlagFrameCheck := by
  apply forall_byte _ flags
  decide +kernel

private theorem lt_flip (byte : UInt8) : ∀ j < 8, byte.toBitVec.getLsbD j = false →
    byte.toNat < (byte ^^^ UInt8.ofNat (2 ^ j)).toNat := by
  apply forall_byte _ byte
  decide +kernel

end Bytes

section Shape

private theorem MclLinkSameShape.flip (hflags : p / 8 ≠ 1)
    (hhigh : p / 8 ≠ 2 + mclLinkFieldsSize (b.getD 1 0))
    (hlow : p / 8 ≠ 3 + mclLinkFieldsSize (b.getD 1 0)) : MclLinkSameShape (Crc.flip b p) b := by
  refine ⟨Crc.getElem?_flip_ne hflags.symm, ?_⟩
  rintro k (rfl | rfl)
  · exact Crc.getElem?_flip_ne hhigh.symm
  · exact Crc.getElem?_flip_ne hlow.symm

private theorem MclLinkShortDamage.flip : MclLinkShortDamage (Crc.flip b p) b := by
  have hbit : ∀ q, (Crc.bits (Crc.flip b p))[q]? ≠ (Crc.bits b)[q]? → q = p := by
    intro q hq
    by_contra hne
    exact hq (Crc.getElem?_bits_flip hne)
  by_cases hcheck : 8 * (b.length - 4) ≤ p
  · left
    intro q hq
    rw [hbit q hq]
    exact hcheck
  · right
    refine ⟨p, fun q hq => ?_⟩
    rw [hbit q hq]
    omega

private theorem mclLinkPayloadEnd_flip (hp : p < 8 * b.length)
    (hlength : p / 8 = 2 + mclLinkFieldsSize (b.getD 1 0) ∨
      p / 8 = 3 + mclLinkFieldsSize (b.getD 1 0))
    (hclear : (b.getD (p / 8) 0).toBitVec.getLsbD (p % 8) = false) :
    mclLinkPayloadEnd b < mclLinkPayloadEnd (Crc.flip b p) := by
  have hflags : (Crc.flip b p).getD 1 0 = b.getD 1 0 := getD_flip_ne (by omega)
  have hgrow := lt_flip _ _ (Nat.mod_lt p (by decide)) hclear
  rw [← getD_flip hp] at hgrow
  simp only [mclLinkPayloadEnd, mclLinkAnnounced, mclLinkGetU16, toNat_word16, getD_of_drop, hflags,
    Nat.add_zero]
  rcases hlength with hbyte | hbyte
  · rw [hbyte] at hgrow
    have hother : (Crc.flip b p).getD (2 + mclLinkFieldsSize (b.getD 1 0) + 1) 0 =
        b.getD (2 + mclLinkFieldsSize (b.getD 1 0) + 1) 0 := getD_flip_ne (by omega)
    rw [hother]
    omega
  · have hnext : p / 8 = 2 + mclLinkFieldsSize (b.getD 1 0) + 1 := by omega
    rw [hnext] at hgrow
    have hother : (Crc.flip b p).getD (2 + mclLinkFieldsSize (b.getD 1 0)) 0 =
        b.getD (2 + mclLinkFieldsSize (b.getD 1 0)) 0 := getD_flip_ne (by omega)
    rw [hother]
    omega

end Shape

section Flag

private theorem mclLinkFlags_withoutCheck (flags : UInt8) :
    (flags ^^^ mclLinkFlagFrameCheck) &&& mclLinkFlagDestination = flags &&& mclLinkFlagDestination ∧
      (flags ^^^ mclLinkFlagFrameCheck) &&& mclLinkFlagSession = flags &&& mclLinkFlagSession ∧
      (flags ^^^ mclLinkFlagFrameCheck) &&& mclLinkFlagSequence = flags &&& mclLinkFlagSequence ∧
      (flags ^^^ mclLinkFlagFrameCheck) &&& mclLinkFlagFreshness = flags &&& mclLinkFlagFreshness ∧
      (flags ^^^ mclLinkFlagFrameCheck) &&& mclLinkFlagReserved = flags &&& mclLinkFlagReserved ∧
      ((flags ^^^ mclLinkFlagFrameCheck) &&& mclLinkFlagFrameCheck = 0 ↔
        flags &&& mclLinkFlagFrameCheck ≠ 0) := by
  apply forall_byte _ flags
  decide +kernel

private theorem MclLinkFrame.withoutCheck_encodable (hf : mclLinkFrameEncodable (some f) = true) :
    mclLinkFrameEncodable (some f.withoutCheck) = true := by
  obtain ⟨hclass, hadapt, hreserved, hmax, hnull⟩ := mclLinkFrameEncodable_iff.mp hf
  obtain ⟨-, -, -, -, hsame, -⟩ := mclLinkFlags_withoutCheck f.flags
  exact mclLinkFrameEncodable_iff.mpr ⟨hclass, hadapt, hsame.trans hreserved, hmax, hnull⟩

private theorem MclLinkFrame.layout_withoutCheck (hcheck : f.has mclLinkFlagFrameCheck = true) :
    Crc.flip (f.layout major) 12 =
      f.withoutCheck.layout major ++ f.checkBytes (f.unchecked major) := by
  obtain ⟨hdestination, hsession, hsequence, hfreshness, -, hflag⟩ :=
    mclLinkFlags_withoutCheck f.flags
  have hfields : f.withoutCheck.fieldBytes = f.fieldBytes := by
    simp only [MclLinkFrame.fieldBytes, MclLinkFrame.has, MclLinkFrame.withoutCheck, hdestination,
      hsession, hsequence, hfreshness]
  have hclear : f.withoutCheck.has mclLinkFlagFrameCheck = false :=
    decide_eq_false (not_not.mpr (hflag.mpr (of_decide_eq_true hcheck)))
  have hnone : f.withoutCheck.checkBytes (f.withoutCheck.unchecked major) = [] := by
    rw [MclLinkFrame.checkBytes, hclear]
    rfl
  rw [MclLinkFrame.layout, MclLinkFrame.layout, hnone, List.append_nil]
  simp only [MclLinkFrame.unchecked, MclLinkFrame.bodyBytes, hfields]
  rfl

private theorem mclLinkFrameDecode_withoutCheck
    (hmajor : major = mclLinkFrameMajor ∨ major = mclLinkStableMajor)
    (hf : mclLinkFrameEncodable (some f) = true) (hcheck : f.has mclLinkFlagFrameCheck = true) :
    mclLinkFrameDecode (some (Crc.flip (f.layout major) 12)) (some g) (some consumed) =
      (.ok, some (f.withoutCheck.received major), some ((f.layout major).length - 4)) := by
  have hlength := congrArg List.length (@MclLinkFrame.layout_withoutCheck f major hcheck)
  have hfour : (f.checkBytes (f.unchecked major)).length = 4 := by
    rw [MclLinkFrame.checkBytes, hcheck]
    rfl
  rw [Crc.length_flip, List.length_append, hfour] at hlength
  rw [MclLinkFrame.layout_withoutCheck hcheck, hlength, Nat.add_sub_cancel]
  exact mclLinkFrameDecode_layout _ consumed hmajor (MclLinkFrame.withoutCheck_encodable hf)

end Flag

section Places

private theorem mclLinkChecked_flip (hp : p < 8 * b.length) (hflag : p ≠ 12) :
    mclLinkChecked (Crc.flip b p) = mclLinkChecked b := by
  rw [mclLinkChecked, mclLinkChecked]
  by_cases hflags : p / 8 = 1
  · have hbyte := getD_flip hp
    rw [hflags] at hbyte
    rw [hbyte, mclLinkFlagFrameCheck_flip _ _ (Nat.mod_lt p (by decide)) (by omega)]
  · rw [getD_flip_ne (Ne.symm hflags)]

private theorem mclLinkFrameDecode_flip_flags (hlegal : MclLinkHeadLegal b)
    (hchecked : mclLinkChecked b = true) (hp : p < 8 * b.length) (hflags : p / 8 = 1)
    (hflag : p ≠ 12) : (mclLinkFrameDecode (some (Crc.flip b p)) (some g) (some consumed)).1 = .ok ↔
      p % 8 < 4 ∧ MclLinkCarriesCheck (Crc.flip b p) := by
  obtain ⟨hmajor, hclass, hadapt, hreserved⟩ := hlegal
  have hbyte := getD_flip hp
  rw [hflags] at hbyte
  have hlegal' : MclLinkHeadLegal (Crc.flip b p) ↔ p % 8 < 5 := by
    rw [MclLinkHeadLegal, getD_flip_ne (by omega : 0 ≠ p / 8), hbyte,
      mclLinkFlagReserved_flip _ _ (Nat.mod_lt p (by decide)) hreserved]
    tauto
  constructor
  · intro hok
    have hhead := (mclLinkFrameScan_faultless (mclLinkFrameDecode_ok_iff.mp hok)).head
    have hassigned := hlegal'.mp hhead
    exact ⟨by omega, (mclLinkFrameDecode_carries hhead
      ((mclLinkChecked_flip hp hflag).trans hchecked)).mp hok⟩
  · rintro ⟨hassigned, hcarries⟩
    apply (mclLinkFrameDecode_carries (hlegal'.mpr (by omega)) _).mpr hcarries
    exact (mclLinkChecked_flip hp hflag).trans hchecked

private theorem mclLinkFrameDecode_flip_length (hlegal : MclLinkHeadLegal b)
    (hchecked : mclLinkChecked b = true) (hsize : b.length = mclLinkPayloadEnd b + 4)
    (hp : p < 8 * b.length) (hlength : p / 8 = 2 + mclLinkFieldsSize (b.getD 1 0) ∨
      p / 8 = 3 + mclLinkFieldsSize (b.getD 1 0)) :
    (mclLinkFrameDecode (some (Crc.flip b p)) (some g) (some consumed)).1 = .ok ↔
      (b.getD (p / 8) 0).toBitVec.getLsbD (p % 8) = true ∧
        MclLinkCarriesCheck (Crc.flip b p) := by
  have hlegal' : MclLinkHeadLegal (Crc.flip b p) := by
    rw [MclLinkHeadLegal, getD_flip_ne (by omega), getD_flip_ne (by omega)]
    exact hlegal
  rw [mclLinkFrameDecode_carries hlegal' ((mclLinkChecked_flip hp (by omega)).trans hchecked)]
  constructor
  · intro hcarries
    refine ⟨?_, hcarries⟩
    by_contra hclear
    have hgrow := mclLinkPayloadEnd_flip hp hlength (Bool.eq_false_iff.mpr hclear)
    have hfits := hcarries.2.1
    rw [Crc.length_flip] at hfits
    omega
  · exact And.right

private theorem mclLinkFrameDecode_flip_other (hchecked : mclLinkChecked b = true)
    (hsize : b.length = mclLinkPayloadEnd b + 4)
    (hok : (mclLinkFrameDecode (some b) (some g) (some consumed)).1 = .ok) (hp : p < 8 * b.length)
    (hshape : MclLinkSameShape (Crc.flip b p) b) :
    (mclLinkFrameDecode (some (Crc.flip b p)) (some g) (some consumed)).1 ≠ .ok := by
  intro hflip
  exact Crc.flip_ne hp (mclLinkFrame_undamaged hchecked (Crc.length_flip b p) hsize hshape hflip hok
    MclLinkShortDamage.flip)

end Places

/-- One inverted bit of a checked frame is detected, unless it is the flag of the check, which is
then not looked for, or it moves the check to where the bytes of the frame are their own check. -/
theorem mclLinkFrameDecode_flip (major : UInt8) (f g : MclLinkFrame) (b : List UInt8)
    (consumed p : Nat) (hmajor : major = mclLinkFrameMajor ∨ major = mclLinkStableMajor)
    (hf : mclLinkFrameEncodable (some f) = true) (hcheck : f.has mclLinkFlagFrameCheck = true)
    (henc : f.EncodesTo major b) (hp : p < 8 * b.length) :
    ((mclLinkFrameDecode (some (Crc.flip b p)) (some g) (some consumed)).1 = .ok ↔
      p = 12 ∨ MclLinkReshapes b p ∧ MclLinkCarriesCheck (Crc.flip b p)) ∧
    (p = 12 → mclLinkFrameDecode (some (Crc.flip b p)) (some g) (some consumed) =
      (.ok, some (f.withoutCheck.received major), some (b.length - 4))) := by
  obtain rfl := henc.eq_layout hmajor hf
  have hclean := @mclLinkFrameDecode_withoutCheck f g major consumed hmajor hf hcheck
  refine ⟨?_, fun hflag => hflag ▸ hclean⟩
  have hdecode := mclLinkFrameDecode_layout (g := g) [] consumed hmajor hf
  rw [List.append_nil] at hdecode
  have hok := congrArg Prod.fst hdecode
  have hlegal := (mclLinkFrameScan_faultless (mclLinkFrameDecode_ok_iff.mp hok)).head
  have hchecked : mclLinkChecked (f.layout major) = true := hcheck
  have hsize := @MclLinkFrame.length_checked f major hf hcheck
  generalize f.layout major = b at hp hclean hok hlegal hchecked hsize ⊢
  by_cases hflag : p = 12
  · subst hflag
    exact iff_of_true (congrArg Prod.fst hclean) (Or.inl rfl)
  rw [or_iff_right hflag, MclLinkReshapes]
  by_cases hflags : p / 8 = 1
  · have hother : ¬ (p / 8 = 2 + mclLinkFieldsSize (b.getD 1 0) ∨
        p / 8 = 3 + mclLinkFieldsSize (b.getD 1 0)) := by omega
    rw [mclLinkFrameDecode_flip_flags hlegal hchecked hp hflags hflag]
    refine and_congr_left fun _ => ⟨fun hlow => Or.inl ⟨hflags, hlow⟩, ?_⟩
    rintro (⟨-, hlow⟩ | ⟨hlength, -⟩)
    · exact hlow
    · exact absurd hlength hother
  by_cases hlength : p / 8 = 2 + mclLinkFieldsSize (b.getD 1 0) ∨
      p / 8 = 3 + mclLinkFieldsSize (b.getD 1 0)
  · rw [mclLinkFrameDecode_flip_length hlegal hchecked hsize hp hlength]
    refine and_congr_left fun _ => ⟨fun hset => Or.inr ⟨hlength, hset⟩, ?_⟩
    rintro (⟨hbyte, -⟩ | ⟨-, hset⟩)
    · exact absurd hbyte hflags
    · exact hset
  · obtain ⟨hhigh, hlow⟩ := not_or.mp hlength
    have hshape : MclLinkSameShape (Crc.flip b p) b := .flip hflags hhigh hlow
    refine iff_of_false (mclLinkFrameDecode_flip_other hchecked hsize hok hp hshape) ?_
    rintro ⟨⟨hbyte, -⟩ | ⟨hbyte, -⟩, -⟩
    · exact hflags hbyte
    · exact hlength hbyte

/-- Frames that are accepted with one bit inverted: the flag of the check, each of the other four
flags, and a bit of the payload length. -/
theorem mclLinkFrameDecode_flip_undetected :
    let g : MclLinkFrame := ⟨0, 0, 0, 0, 0, 0, 0, 0, none, 0, by simp⟩
    let sent (payload : List UInt8) (h : payload.length = (UInt16.ofNat payload.length).toNat) :
        MclLinkFrame :=
      ⟨1, 0, 0x10, 7, 0, 0, 0, 0, some payload, UInt16.ofNat payload.length, by simpa using h⟩
    ∀ c ∈ [(sent [] rfl, 12), (sent [0, 0, 0, 0, 237, 98, 69, 215] rfl, 8),
        (sent [0, 0, 0, 0, 116, 128, 35, 214] rfl, 9), (sent [0, 0, 131, 165, 90, 65] rfl, 10),
        (sent [0, 0, 101, 145, 169, 85] rfl, 11), (sent [0, 0, 217, 64, 163, 145] rfl, 58)],
      mclLinkFrameEncodable (some c.1) = true ∧ c.1.has mclLinkFlagFrameCheck = true ∧
        (mclLinkFrameDecode (some (Crc.flip (mclLinkFrameBytes 1 c.1) c.2)) (some g) (some 0)).1 =
          .ok := by
  decide +kernel

/-- Inverted in its first bit, a checked frame is refused. -/
theorem mclLinkFrameDecode_flip_class :
    let f : MclLinkFrame := ⟨1, 0, 0x10, 7, 0, 0, 0, 0, none, 0, by simp⟩
    (mclLinkFrameDecode (some (Crc.flip (f.layout 1) 0)) (some f) (some 0)).1 ≠ .ok ∧
      mclLinkFrameDecode (some (Crc.flip (f.layout 1) 12)) (some f) (some 0) =
        (.ok, some (f.withoutCheck.received 1), some 8) := by
  intro f
  have henc : f.EncodesTo 1 (f.layout 1) := by
    intro out written hout
    exact mclLinkFrameEncodeAtMajor_ok written (Or.inr rfl) (by decide) hout
  have hflip := fun p hp => mclLinkFrameDecode_flip 1 f f (f.layout 1) 0 p (Or.inr rfl) (by decide)
    (by decide) henc hp
  constructor
  · rw [Ne, (hflip 0 (by decide +kernel)).1]
    decide +kernel
  · have hsize : (f.layout 1).length - 4 = 8 := by decide +kernel
    rw [(hflip 12 (by decide +kernel)).2 rfl, hsize]

end MclLink
