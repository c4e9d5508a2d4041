import MclLink.Lib.Format
import MclLink.Control.Negotiation

/-!
# The control payloads are one code

Each class of control has a format of its own, and its encoder and decoder implement it. The
lengths of the formats and their reasons keep them apart, so a payload has one meaning at most.
-/

namespace MclLink

open Bytes

private theorem mclControlPutU16_eq (value : UInt16) :
    mclControlPutU16 value = mclLinkPutU16 value := by
  have hvalue := value.toNat_lt
  have hhigh : ((value >>> 8) &&& 0xFF).toUInt8 = (value >>> 8).toUInt8 := by
    rw [← UInt8.toNat_inj]
    simp only [UInt16.toNat_toUInt8, UInt16.toNat_and, UInt16.toNat_shiftRight,
      UInt16.reduceToNat, Nat.reduceMod, Nat.shiftRight_eq_div_pow, and_byte]
    omega
  simp only [mclControlPutU16, mclLinkPutU16, hhigh]

private theorem mclHandoffPutU32_eq (value : UInt32) :
    mclHandoffPutU32 value = mclLinkPutU32 value := by
  have hvalue := value.toNat_lt
  have hhigh : ((value >>> 24) &&& 0xFF).toUInt8 = (value >>> 24).toUInt8 := by
    rw [← UInt8.toNat_inj]
    simp only [UInt32.toNat_toUInt8, UInt32.toNat_and, UInt32.toNat_shiftRight,
      UInt32.reduceToNat, Nat.reduceMod, Nat.shiftRight_eq_div_pow, and_byte]
    omega
  simp only [mclHandoffPutU32, mclLinkPutU32, hhigh]

/-- The two-byte words of a control. -/
def mclControlU16 : Codec UInt16 where
  size := 2
  put := mclControlPutU16
  get := mclControlGetU16
  length_put := fun _ => rfl
  get_put := fun value rest => by
    rw [mclControlPutU16_eq]
    exact mclLinkU16.get_put value rest
  put_get := fun bytes hsize => by
    rw [mclControlPutU16_eq]
    exact mclLinkU16.put_get bytes hsize

/-- The four-byte words of a handoff control. -/
def mclHandoffU32 : Codec UInt32 where
  size := 4
  put := mclHandoffPutU32
  get := mclHandoffGetU32
  length_put := fun _ => rfl
  get_put := fun value rest => by
    rw [mclHandoffPutU32_eq]
    exact mclLinkU32.get_put value rest
  put_get := fun bytes hsize => by
    rw [mclHandoffPutU32_eq]
    exact mclLinkU32.put_get bytes hsize

private theorem toList_copyChallenge {src : List UInt8} (h : 8 ≤ src.length) :
    (mclHandoffCopyChallenge src).toList = src.take 8 := by
  apply List.ext_getElem
  · rw [Vector.length_toList, List.length_take_of_le h]
  · intro i hi hi'
    have hlt : i < src.length := lt_of_lt_of_le hi' (List.length_take_le' 8 src)
    simp [mclHandoffCopyChallenge, List.getElem?_eq_getElem hlt]

/-- The bytes of a challenge. -/
def mclHandoffChallenge : Codec MclContactChallenge where
  size := 8
  put := Vector.toList
  get := mclHandoffCopyChallenge
  length_put := fun challenge => challenge.length_toList
  get_put := fun challenge rest => by
    apply Vector.toList_inj.mp
    rw [toList_copyChallenge (by simp)]
    exact List.take_left' challenge.length_toList
  put_get := fun bytes hsize => by
    rw [toList_copyChallenge hsize]
    exact List.take_append_drop 8 bytes

theorem mclLinkExactLength_ok {dataSize expected : Nat} :
    mclLinkExactLength dataSize expected = .ok ↔ dataSize = expected := by
  unfold mclLinkExactLength
  split_ifs <;> simp <;> omega

def mclLinkAckFormat (isAck : UInt8) : Format MclLinkAck where
  Legal ack := ack.controlVersion = mclLinkControlVersion ∧
    mclLinkAckReasonRefused isAck ack.reason = false
  layout ack := [ack.controlVersion] ++ [ack.reason] ++ mclControlPutU16 ack.ackedSequence
  reads := id

theorem start_at (out : List UInt8) :
    Cursor.At ⟨out, 0⟩ [] (out.drop ([] : List UInt8).length) := ⟨rfl, rfl⟩

theorem mclLinkAck_implements (isAck : UInt8) : (mclLinkAckFormat isAck).Implements .ok
    (fun ack => mclLinkAckEncode ack isAck) (fun data => mclLinkAckDecode data isAck) where
  encode_ok := by
    intro ack out written hlegal hsize
    have hroom : ¬ out.length < mclLinkAckSize := Nat.not_lt.mpr hsize
    have hwritten := (((start_at out).write [ack.controlVersion]).write [ack.reason]).write
      (mclControlPutU16 ack.ackedSequence)
    simp only [mclLinkAckEncode]
    rw [if_neg (not_not.mpr hlegal.1), hlegal.2, if_neg (by decide), if_neg hroom]
    exact Prod.ext rfl (Prod.ext (congrArg some hwritten.bytes) rfl)
  of_encode := by
    intro ack out written r henc
    simp only [mclLinkAckEncode] at henc
    split_ifs at henc with hversion hreason hroom
    · simp at henc
    · simp at henc
    · simp at henc
    · exact ⟨⟨not_not.mp hversion, by simpa using hreason⟩, Nat.not_lt.mp hroom⟩
  decode_ok := by
    intro ack prior hlegal
    have hword : mclControlGetU16 (mclControlPutU16 ack.ackedSequence) = ack.ackedSequence :=
      mclControlU16.get_put ack.ackedSequence []
    have hlength : mclLinkExactLength ((mclLinkAckFormat isAck).layout ack).length
      mclLinkAckSize = .ok := rfl
    have hversion : ((mclLinkAckFormat isAck).layout ack).getD 0 0 = mclLinkControlVersion :=
      hlegal.1
    have hreason : mclLinkAckReasonRefused isAck (((mclLinkAckFormat isAck).layout ack).getD 1 0) =
      false := hlegal.2
    simp only [mclLinkAckDecode]
    rw [if_neg (not_not.mpr hlength), if_neg (not_not.mpr hversion), hreason, if_neg (by decide)]
    show (MclLinkStatus.ok, some (MclLinkAck.mk ack.controlVersion ack.reason
      (mclControlGetU16 (mclControlPutU16 ack.ackedSequence)))) = (.ok, some ack)
    rw [hword]
  of_decode := by
    intro bytes prior ack hdec
    simp only [mclLinkAckDecode] at hdec
    split_ifs at hdec with hlength hversion hreason
    · exact absurd (Prod.mk.inj hdec).1 hlength
    · simp at hdec
    · simp at hdec
    · have hsize : bytes.length = 4 := mclLinkExactLength_ok.mp (not_not.mp hlength)
      obtain rfl := Option.some.inj (Prod.mk.inj hdec).2
      refine ⟨⟨not_not.mp hversion, by simpa using hreason⟩, rfl, ?_⟩
      calc (mclLinkAckFormat isAck).layout _
        _ = bytes.take 0 ++ [bytes.getD 0 0] ++ [bytes.getD 1 0] ++
            mclControlU16.put (mclControlU16.get (bytes.drop 2)) := rfl
        _ = bytes.take 4 := by
          rw [take_getD (n := 1) rfl (hsize ▸ by decide), take_getD (n := 2) rfl (hsize ▸ by decide),
            mclControlU16.take_put (n := 4) rfl hsize.ge]
        _ = bytes := List.take_of_length_le hsize.le

def mclLinkCloseFormat : Format MclLinkClose where
  Legal control := control.controlVersion = mclLinkControlVersion ∧
    ¬ (control.reason = mclLinkCloseReserved ∨ control.reason ≥ mclLinkCloseReasonCount)
  layout control := [control.controlVersion] ++ [control.reason]
  reads := id

private theorem mclLinkClose_implements :
    mclLinkCloseFormat.Implements .ok mclLinkCloseEncode mclLinkCloseDecode where
  encode_ok := by
    intro control out written hlegal hsize
    have hroom : ¬ out.length < mclLinkCloseSize := Nat.not_lt.mpr hsize
    have hwritten := ((start_at out).write [control.controlVersion]).write [control.reason]
    simp only [mclLinkCloseEncode]
    rw [if_neg (not_not.mpr hlegal.1), if_neg hlegal.2, if_neg hroom]
    exact Prod.ext rfl (Prod.ext (congrArg some hwritten.bytes) rfl)
  of_encode := by
    intro control out written r henc
    simp only [mclLinkCloseEncode] at henc
    split_ifs at henc with hversion hreason hroom
    · simp at henc
    · simp at henc
    · simp at henc
    · exact ⟨⟨not_not.mp hversion, hreason⟩, Nat.not_lt.mp hroom⟩
  decode_ok := by
    intro control prior hlegal
    have hlength : mclLinkExactLength (mclLinkCloseFormat.layout control).length
      mclLinkCloseSize = .ok := rfl
    have hversion : (mclLinkCloseFormat.layout control).getD 0 0 = mclLinkControlVersion :=
      hlegal.1
    simp only [mclLinkCloseDecode]
    rw [if_neg (not_not.mpr hlength), if_neg (not_not.mpr hversion)]
    exact if_neg hlegal.2
  of_decode := by
    intro bytes prior control hdec
    simp only [mclLinkCloseDecode] at hdec
    split_ifs at hdec with hlength hversion hreason
    · exact absurd (Prod.mk.inj hdec).1 hlength
    · simp at hdec
    · simp at hdec
    · have hsize : bytes.length = 2 := mclLinkExactLength_ok.mp (not_not.mp hlength)
      obtain rfl := Option.some.inj (Prod.mk.inj hdec).2
      refine ⟨⟨not_not.mp hversion, hreason⟩, rfl, ?_⟩
      calc mclLinkCloseFormat.layout _
        _ = bytes.take 0 ++ [bytes.getD 0 0] ++ [bytes.getD 1 0] := rfl
        _ = bytes.take 2 := by
          rw [take_getD (n := 1) rfl (hsize ▸ by decide), take_getD (n := 2) rfl hsize.ge]
        _ = bytes := List.take_of_length_le hsize.le

def mclLinkCapabilityFormat : Format MclLinkCapability where
  Legal capability := capability.controlVersion = mclLinkControlVersion ∧
    ¬ (capability.wireMajors = 0 ∨ capability.linkMajors = 0) ∧
    ¬ capability.maxFrame.toNat < mclLinkNegotiatedFrameFloor
  layout capability := [capability.controlVersion] ++ mclControlPutU16 capability.wireMajors ++
    mclControlPutU16 capability.linkMajors ++ mclControlPutU16 capability.maxFrame ++
    mclControlPutU16 capability.features
  reads := id

theorem mclLinkCapability_implements :
    mclLinkCapabilityFormat.Implements .ok mclLinkCapabilityEncode mclLinkCapabilityDecode where
  encode_ok := by
    intro capability out written hlegal hsize
    have hroom : ¬ out.length < mclLinkCapabilitySize := Nat.not_lt.mpr hsize
    have hwritten := (((((start_at out).write [capability.controlVersion]).write
      (mclNegPutU16 capability.wireMajors)).write (mclNegPutU16 capability.linkMajors)).write
      (mclNegPutU16 capability.maxFrame)).write (mclNegPutU16 capability.features)
    simp only [mclLinkCapabilityEncode]
    rw [if_neg (not_not.mpr hlegal.1), if_neg hlegal.2.1, if_neg hlegal.2.2, if_neg hroom]
    exact Prod.ext rfl (Prod.ext (congrArg some hwritten.bytes) rfl)
  of_encode := by
    intro capability out written r henc
    simp only [mclLinkCapabilityEncode] at henc
    split_ifs at henc with hversion hmajors hfloor hroom
    · simp at henc
    · simp at henc
    · simp at henc
    · simp at henc
    · exact ⟨⟨not_not.mp hversion, hmajors, hfloor⟩, Nat.not_lt.mp hroom⟩
  decode_ok := by
    intro capability prior hlegal
    have hlength : mclNegExactLength (mclLinkCapabilityFormat.layout capability).length
      mclLinkCapabilitySize = .ok := rfl
    have hversion : (mclLinkCapabilityFormat.layout capability).getD 0 0 = mclLinkControlVersion :=
      hlegal.1
    have hwire : mclNegGetU16 ((mclLinkCapabilityFormat.layout capability).drop 1) =
      capability.wireMajors := mclControlU16.get_put capability.wireMajors _
    have hlink : mclNegGetU16 ((mclLinkCapabilityFormat.layout capability).drop 3) =
      capability.linkMajors := mclControlU16.get_put capability.linkMajors _
    have hframe : mclNegGetU16 ((mclLinkCapabilityFormat.layout capability).drop 5) =
      capability.maxFrame := mclControlU16.get_put capability.maxFrame _
    have hfeatures : mclNegGetU16 ((mclLinkCapabilityFormat.layout capability).drop 7) =
      capability.features := mclControlU16.get_put capability.features []
    simp only [mclLinkCapabilityDecode, hwire, hlink, hframe, hfeatures]
    rw [if_neg (not_not.mpr hlength), if_neg (not_not.mpr hversion), if_neg hlegal.2.1,
      if_neg hlegal.2.2]
    rfl
  of_decode := by
    intro bytes prior capability hdec
    simp only [mclLinkCapabilityDecode] at hdec
    split_ifs at hdec with hlength hversion hmajors hfloor
    · exact absurd (Prod.mk.inj hdec).1 hlength
    · simp at hdec
    · simp at hdec
    · simp at hdec
    · have hsize : bytes.length = 9 := mclLinkExactLength_ok.mp (not_not.mp hlength)
      obtain rfl := Option.some.inj (Prod.mk.inj hdec).2
      refine ⟨⟨not_not.mp hversion, hmajors, hfloor⟩, rfl, ?_⟩
      calc mclLinkCapabilityFormat.layout _
        _ = bytes.take 0 ++ [bytes.getD 0 0] ++
            mclControlU16.put (mclControlU16.get (bytes.drop 1)) ++
            mclControlU16.put (mclControlU16.get (bytes.drop 3)) ++
            mclControlU16.put (mclControlU16.get (bytes.drop 5)) ++
            mclControlU16.put (mclControlU16.get (bytes.drop 7)) := rfl
        _ = bytes.take 9 := by
          rw [take_getD (n := 1) rfl (hsize ▸ by decide),
            mclControlU16.take_put (n := 3) rfl (hsize ▸ by decide),
            mclControlU16.take_put (n := 5) rfl (hsize ▸ by decide),
            mclControlU16.take_put (n := 7) rfl (hsize ▸ by decide),
            mclControlU16.take_put (n := 9) rfl hsize.ge]
        _ = bytes := List.take_of_length_le hsize.le

def mclLinkNegotiationFormat : Format MclLinkNegotiation where
  Legal negotiation := negotiation.controlVersion = mclLinkControlVersion ∧
    ¬ (negotiation.wireMajor > 15 ∨ negotiation.linkMajor > 15) ∧
    ¬ negotiation.maxFrame.toNat < mclLinkNegotiatedFrameFloor
  layout negotiation := [negotiation.controlVersion] ++ [negotiation.wireMajor] ++
    [negotiation.linkMajor] ++ mclControlPutU16 negotiation.maxFrame ++
    mclControlPutU16 negotiation.features
  reads := id

theorem mclLinkNegotiation_implements :
    mclLinkNegotiationFormat.Implements .ok mclLinkNegotiationEncode mclLinkNegotiationDecode where
  encode_ok := by
    intro negotiation out written hlegal hsize
    have hroom : ¬ out.length < mclLinkNegotiationSize := Nat.not_lt.mpr hsize
    have hwritten := (((((start_at out).write [negotiation.controlVersion]).write
      [negotiation.wireMajor]).write [negotiation.linkMajor]).write
      (mclNegPutU16 negotiation.maxFrame)).write (mclNegPutU16 negotiation.features)
    simp only [mclLinkNegotiationEncode]
    rw [if_neg (not_not.mpr hlegal.1), if_neg hlegal.2.1, if_neg hlegal.2.2, if_neg hroom]
    exact Prod.ext rfl (Prod.ext (congrArg some hwritten.bytes) rfl)
  of_encode := by
    intro negotiation out written r henc
    simp only [mclLinkNegotiationEncode] at henc
    split_ifs at henc with hversion hmajors hfloor hroom
    · simp at henc
    · simp at henc
    · simp at henc
    · simp at henc
    · exact ⟨⟨not_not.mp hversion, hmajors, hfloor⟩, Nat.not_lt.mp hroom⟩
  decode_ok := by
    intro negotiation prior hlegal
    have hlength : mclNegExactLength (mclLinkNegotiationFormat.layout negotiation).length
      mclLinkNegotiationSize = .ok := rfl
    have hversion : (mclLinkNegotiationFormat.layout negotiation).getD 0 0 =
      mclLinkControlVersion := hlegal.1
    have hframe : mclNegGetU16 ((mclLinkNegotiationFormat.layout negotiation).drop 3) =
      negotiation.maxFrame := mclControlU16.get_put negotiation.maxFrame _
    have hfeatures : mclNegGetU16 ((mclLinkNegotiationFormat.layout negotiation).drop 5) =
      negotiation.features := mclControlU16.get_put negotiation.features []
    have hmajors : ¬ ((mclLinkNegotiationFormat.layout negotiation).getD 1 0 > 15 ∨
      (mclLinkNegotiationFormat.layout negotiation).getD 2 0 > 15) := hlegal.2.1
    simp only [mclLinkNegotiationDecode, hframe, hfeatures]
    rw [if_neg (not_not.mpr hlength), if_neg (not_not.mpr hversion), if_neg hmajors,
      if_neg hlegal.2.2]
    rfl
  of_decode := by
    intro bytes prior negotiation hdec
    simp only [mclLinkNegotiationDecode] at hdec
    split_ifs at hdec with hlength hversion hmajors hfloor
    · exact absurd (Prod.mk.inj hdec).1 hlength
    · simp at hdec
    · simp at hdec
    · simp at hdec
    · have hsize : bytes.length = 7 := mclLinkExactLength_ok.mp (not_not.mp hlength)
      obtain rfl := Option.some.inj (Prod.mk.inj hdec).2
      refine ⟨⟨not_not.mp hversion, hmajors, hfloor⟩, rfl, ?_⟩
      calc mclLinkNegotiationFormat.layout _
        _ = bytes.take 0 ++ [bytes.getD 0 0] ++ [bytes.getD 1 0] ++ [bytes.getD 2 0] ++
            mclControlU16.put (mclControlU16.get (bytes.drop 3)) ++
            mclControlU16.put (mclControlU16.get (bytes.drop 5)) := rfl
        _ = bytes.take 7 := by
          rw [take_getD (n := 1) rfl (hsize ▸ by decide), take_getD (n := 2) rfl (hsize ▸ by decide),
            take_getD (n := 3) rfl (hsize ▸ by decide),
            mclControlU16.take_put (n := 5) rfl (hsize ▸ by decide),
            mclControlU16.take_put (n := 7) rfl hsize.ge]
        _ = bytes := List.take_of_length_le hsize.le

/-- What arrives of a handoff control: a challenge it does not carry reads as zeros. -/
def MclHandoffControl.received (control : MclHandoffControl) : MclHandoffControl :=
  { control with
    challenge := if mclHandoffOpCarriesChallenge control.operation ≠ 0 then control.challenge
      else mclHandoffClearChallenge }

def mclHandoffFormat : Format MclHandoffControl where
  Legal control := mclHandoffOpAssigned control.operation = true ∧
    control.migrationRef ≠ mclContactMigrationNone ∧ control.sessionRef ≠ mclContactSessionNone ∧
    control.challengePresent = mclHandoffOpCarriesChallenge control.operation
  layout control := [mclHandoffControlVersion] ++ [control.operation] ++
    mclHandoffPutU32 control.migrationRef ++ mclHandoffPutU32 control.sessionRef ++
    only (mclHandoffOpCarriesChallenge control.operation ≠ 0) control.challenge.toList
  reads := MclHandoffControl.received

theorem mclHandoffControlEncodedSize_eq {operation : UInt8}
    (h : mclHandoffOpAssigned operation = true) : mclHandoffControlEncodedSize operation =
      if mclHandoffOpCarriesChallenge operation ≠ 0 then mclHandoffControlMaxSize
      else mclHandoffHeaderSize := if_neg (by simp [h])

theorem mclHandoffFormat_length {control : MclHandoffControl}
    (h : mclHandoffOpAssigned control.operation = true) :
    (mclHandoffFormat.layout control).length =
      mclHandoffControlEncodedSize control.operation := by
  have hhead : (mclHandoffFormat.layout control).length =
      10 + (only (mclHandoffOpCarriesChallenge control.operation ≠ 0)
        control.challenge.toList).length := by
    simp only [mclHandoffFormat, List.length_append]
    rfl
  rw [hhead, length_only, Vector.length_toList, mclHandoffControlEncodedSize_eq h]
  simp only [decide_eq_true_eq]
  split_ifs <;> rfl

private theorem mclHandoffControlEncodedSize_ne_zero {operation : UInt8} :
    mclHandoffControlEncodedSize operation ≠ 0 ↔ mclHandoffOpAssigned operation = true := by
  unfold mclHandoffControlEncodedSize
  split_ifs with hassigned <;> simp_all

private theorem mclHandoffHeader_again {bytes : List UInt8}
    (hversion : bytes.getD 0 0 = mclHandoffControlVersion)
    (hsize : 10 ≤ bytes.length) : [mclHandoffControlVersion] ++ [bytes.getD 1 0] ++
      mclHandoffPutU32 (mclHandoffGetU32 (bytes.drop 2)) ++
      mclHandoffPutU32 (mclHandoffGetU32 (bytes.drop 6)) = bytes.take 10 := by
  rw [← hversion]
  calc _
    _ = bytes.take 0 ++ [bytes.getD 0 0] ++ [bytes.getD 1 0] ++
        mclHandoffU32.put (mclHandoffU32.get (bytes.drop 2)) ++
        mclHandoffU32.put (mclHandoffU32.get (bytes.drop 6)) := rfl
    _ = bytes.take 10 := by
      rw [take_getD (n := 1) rfl (by omega), take_getD (n := 2) rfl (by omega),
        mclHandoffU32.take_put (n := 6) rfl (by omega),
        mclHandoffU32.take_put (n := 10) rfl hsize]

private theorem mclHandoffFormat_challenge (control : MclHandoffControl) :
    (if mclHandoffOpCarriesChallenge control.operation ≠ 0 then
        mclHandoffCopyChallenge ((mclHandoffFormat.layout control).drop mclHandoffHeaderSize)
      else mclHandoffClearChallenge) = (mclHandoffFormat.reads control).challenge := by
  have hdrop : (mclHandoffFormat.layout control).drop mclHandoffHeaderSize =
      only (mclHandoffOpCarriesChallenge control.operation ≠ 0) control.challenge.toList := rfl
  rw [hdrop]
  by_cases hcarries : mclHandoffOpCarriesChallenge control.operation ≠ 0
  · have hread := mclHandoffChallenge.get_put control.challenge []
    rw [List.append_nil] at hread
    rw [decide_eq_true hcarries, if_pos hcarries]
    exact hread.trans (if_pos hcarries).symm
  · rw [if_neg hcarries]
    exact (if_neg hcarries).symm

theorem mclHandoff_implements :
    mclHandoffFormat.Implements .ok mclHandoffControlEncode mclHandoffControlDecode where
  encode_ok := by
    intro control out written hlegal hsize
    obtain ⟨hassigned, hmigration, hsession, hpresent⟩ := hlegal
    have hlength := mclHandoffFormat_length hassigned
    have hroom : ¬ out.length < mclHandoffControlEncodedSize control.operation :=
      Nat.not_lt.mpr (hlength ▸ hsize)
    have hwritten := (((((start_at out).write [mclHandoffControlVersion]).write
      [control.operation]).write (mclHandoffPutU32 control.migrationRef)).write
      (mclHandoffPutU32 control.sessionRef)).writeIf
      (mclHandoffOpCarriesChallenge control.operation ≠ 0) control.challenge.toList
    simp only [decide_eq_true_eq] at hwritten
    simp only [mclHandoffControlEncode]
    rw [if_neg (mclHandoffControlEncodedSize_ne_zero.mpr hassigned), if_neg hmigration,
      if_neg hsession, if_neg (not_not.mpr hpresent), if_neg hroom]
    exact Prod.ext rfl (Prod.ext (congrArg some hwritten.bytes) (congrArg some hlength.symm))
  of_encode := by
    intro control out written r henc
    simp only [mclHandoffControlEncode] at henc
    split_ifs at henc with hassigned hmigration hsession hpresent hroom
    · simp at henc
    · simp at henc
    · simp at henc
    · simp at henc
    · simp at henc
    all_goals
      have hassigned := mclHandoffControlEncodedSize_ne_zero.mp hassigned
      rw [mclHandoffFormat_length hassigned]
      exact ⟨⟨hassigned, hmigration, hsession, not_not.mp hpresent⟩, Nat.not_lt.mp hroom⟩
  decode_ok := by
    intro control prior hlegal
    obtain ⟨hassigned, hmigration, hsession, hpresent⟩ := hlegal
    have hlength := mclHandoffFormat_length hassigned
    have hshort : ¬ (mclHandoffFormat.layout control).length < mclHandoffHeaderSize := by
      rw [hlength, mclHandoffControlEncodedSize_eq hassigned]
      split_ifs <;> decide
    have hversion : (mclHandoffFormat.layout control).getD 0 0 = mclHandoffControlVersion := rfl
    have hop : (mclHandoffFormat.layout control).getD 1 0 = control.operation := rfl
    have hmref : mclHandoffGetU32 ((mclHandoffFormat.layout control).drop 2) =
      control.migrationRef := mclHandoffU32.get_put control.migrationRef _
    have hsref : mclHandoffGetU32 ((mclHandoffFormat.layout control).drop 6) =
      control.sessionRef := mclHandoffU32.get_put control.sessionRef _
    simp only [mclHandoffControlDecode, hop, hmref, hsref, mclHandoffFormat_challenge]
    rw [if_neg hshort, if_neg (not_not.mpr hversion), hassigned, if_neg (by decide),
      if_neg hlength.not_lt, if_neg hlength.not_gt, if_neg hmigration, if_neg hsession, ← hpresent]
    rfl
  of_decode := by
    intro bytes prior control hdec
    simp only [mclHandoffControlDecode] at hdec
    split_ifs at hdec with hshort hversion hassigned hless hmore hmigration hsession hcarries
    · simp at hdec
    · simp at hdec
    · simp at hdec
    · simp at hdec
    · simp at hdec
    · simp at hdec
    · simp at hdec
    all_goals
      have hop : mclHandoffOpAssigned (bytes.getD 1 0) = true := by simpa using hassigned
      have hsize : bytes.length = mclHandoffControlEncodedSize (bytes.getD 1 0) := by omega
      have hhead := mclHandoffHeader_again (not_not.mp hversion) (Nat.not_lt.mp hshort)
      rw [mclHandoffControlEncodedSize_eq hop] at hsize
      obtain rfl := Option.some.inj (Prod.mk.inj hdec).2
      refine ⟨⟨hop, hmigration, hsession, rfl⟩, ?_, ?_⟩
    · exact MclHandoffControl.ext rfl rfl rfl (if_pos hcarries) rfl
    · rw [if_pos hcarries] at hsize
      calc mclHandoffFormat.layout _
        _ = bytes.take 10 ++ mclHandoffChallenge.put (mclHandoffChallenge.get (bytes.drop 10)) := by
          rw [← hhead]
          exact congrArg (_ ++ ·) (if_pos (decide_eq_true hcarries))
        _ = bytes.take 18 := mclHandoffChallenge.take_put rfl hsize.ge
        _ = bytes := List.take_of_length_le hsize.le
    · exact MclHandoffControl.ext rfl rfl rfl (if_neg hcarries) rfl
    · rw [if_neg hcarries] at hsize
      calc mclHandoffFormat.layout _
        _ = bytes.take 10 ++ [] := by
          rw [← hhead]
          exact congrArg (_ ++ ·) (if_neg (by simpa using hcarries))
        _ = bytes := by rw [List.append_nil, List.take_of_length_le hsize.le]

/-- What a builder makes is a value that its encoder accepts. -/
theorem mclControl_made {sequence : UInt16} {reason : UInt8} :
    (∀ prior ack, mclLinkMakeAck (some prior) sequence = (.ok, some ack) →
      (mclLinkAckFormat 1).Legal ack) ∧
    (∀ prior nack, mclLinkMakeNack (some prior) sequence reason = (.ok, some nack) →
      (mclLinkAckFormat 0).Legal nack) ∧
    (∀ prior control, mclLinkMakeClose (some prior) reason = (.ok, some control) →
      mclLinkCloseFormat.Legal control) ∧
    ∀ prior wire link frame features capability,
      mclLinkMakeCapability (some prior) wire link frame features = (.ok, some capability) →
        mclLinkCapabilityFormat.Legal capability := by
  refine ⟨?_, ?_, ?_, ?_⟩
  · intro prior ack h
    obtain rfl := Option.some.inj (Prod.mk.inj h).2
    exact ⟨rfl, rfl⟩
  · intro prior nack h
    simp only [mclLinkMakeNack] at h
    split_ifs at h with hreason
    · simp at h
    · obtain rfl := Option.some.inj (Prod.mk.inj h).2
      exact ⟨rfl, by simpa [mclLinkAckReasonRefused] using hreason⟩
  · intro prior control h
    simp only [mclLinkMakeClose] at h
    split_ifs at h with hreason
    · simp at h
    · obtain rfl := Option.some.inj (Prod.mk.inj h).2
      exact ⟨rfl, hreason⟩
  · intro prior wire link frame features capability h
    simp only [mclLinkMakeCapability] at h
    split_ifs at h with hmajors hfloor
    · simp at h
    · simp at h
    · obtain rfl := Option.some.inj (Prod.mk.inj h).2
      exact ⟨rfl, hmajors, hfloor⟩

/-- The controls that have a payload of their own. -/
inductive MclControlKind where
  | ack
  | nack
  | close
  | capability
  | negotiation
  | handoff
  deriving DecidableEq, Repr

/-- The decoder of the kind accepts the payload. -/
def MclControlKind.Accepts (bytes : List UInt8) : MclControlKind → Prop
  | .ack => ∃ prior r, mclLinkAckDecode (some bytes) 1 (some prior) = (.ok, some r)
  | .nack => ∃ prior r, mclLinkAckDecode (some bytes) 0 (some prior) = (.ok, some r)
  | .close => ∃ prior r, mclLinkCloseDecode (some bytes) (some prior) = (.ok, some r)
  | .capability => ∃ prior r, mclLinkCapabilityDecode (some bytes) (some prior) = (.ok, some r)
  | .negotiation => ∃ prior r, mclLinkNegotiationDecode (some bytes) (some prior) = (.ok, some r)
  | .handoff => ∃ prior r, mclHandoffControlDecode (some bytes) (some prior) = (.ok, some r)

/-- The only kind a payload can be, by its length and, for an acknowledgement, its reason. -/
def mclControlKindOf (bytes : List UInt8) : Option MclControlKind :=
  match bytes.length with
  | 4 => if bytes.getD 1 0 = 0 then some .ack else some .nack
  | 2 => some .close
  | 9 => some .capability
  | 7 => some .negotiation
  | 10 | 18 => some .handoff
  | _ => none

private theorem MclControlKind.Accepts.kindOf {bytes : List UInt8} {kind : MclControlKind}
    (h : kind.Accepts bytes) : mclControlKindOf bytes = some kind := by
  cases kind with
  | ack =>
    obtain ⟨prior, ack, hdec⟩ := h
    obtain ⟨⟨-, hreason⟩, -, rfl⟩ := (mclLinkAck_implements 1).of_decode hdec
    have hzero : ack.reason = 0 := by simpa [mclLinkAckReasonRefused] using hreason
    exact if_pos hzero
  | nack =>
    obtain ⟨prior, ack, hdec⟩ := h
    obtain ⟨⟨-, hreason⟩, -, rfl⟩ := (mclLinkAck_implements 0).of_decode hdec
    have hassigned : ack.reason ≠ 0 ∧ ack.reason < mclLinkNackReasonCount := by
      simpa [mclLinkAckReasonRefused] using hreason
    exact if_neg hassigned.1
  | close =>
    obtain ⟨prior, control, hdec⟩ := h
    obtain ⟨-, -, rfl⟩ := mclLinkClose_implements.of_decode hdec
    rfl
  | capability =>
    obtain ⟨prior, capability, hdec⟩ := h
    obtain ⟨-, -, rfl⟩ := mclLinkCapability_implements.of_decode hdec
    rfl
  | negotiation =>
    obtain ⟨prior, negotiation, hdec⟩ := h
    obtain ⟨-, -, rfl⟩ := mclLinkNegotiation_implements.of_decode hdec
    rfl
  | handoff =>
    obtain ⟨prior, control, hdec⟩ := h
    obtain ⟨hlegal, -, rfl⟩ := mclHandoff_implements.of_decode hdec
    have hsize := mclHandoffFormat_length hlegal.1
    rw [mclHandoffControlEncodedSize_eq hlegal.1] at hsize
    split_ifs at hsize with hcarries
    · have hlong : (mclHandoffFormat.layout control).length = 18 := hsize
      simp only [mclControlKindOf, hlong]
    · have hshort : (mclHandoffFormat.layout control).length = 10 := hsize
      simp only [mclControlKindOf, hshort]

/-- The control payloads form one canonical, unambiguous code: every codec is canonical, and a
payload is accepted by the decoder of one kind at most, the empty one by none but KEEPALIVE. -/
theorem mclControl_canonical :
    (∀ isAck, Canonical .ok (fun ack => mclLinkAckEncode ack isAck)
      (fun data => mclLinkAckDecode data isAck) id) ∧
    Canonical .ok mclLinkCloseEncode mclLinkCloseDecode id ∧
    Canonical .ok mclLinkCapabilityEncode mclLinkCapabilityDecode id ∧
    Canonical .ok mclLinkNegotiationEncode mclLinkNegotiationDecode id ∧
    Canonical .ok mclHandoffControlEncode mclHandoffControlDecode MclHandoffControl.received ∧
    (∀ bytes (kind kind' : MclControlKind), kind.Accepts bytes → kind'.Accepts bytes →
      kind = kind') ∧
    (∀ kind : MclControlKind, ¬ kind.Accepts []) ∧
    ∀ payload : List UInt8, mclLinkKeepaliveCheck payload.length = .ok ↔ payload = [] := by
  refine ⟨fun isAck => (mclLinkAck_implements isAck).canonical, mclLinkClose_implements.canonical,
    mclLinkCapability_implements.canonical, mclLinkNegotiation_implements.canonical,
    mclHandoff_implements.canonical, ?_, ?_, ?_⟩
  · intro bytes kind kind' h h'
    exact Option.some.inj (h.kindOf.symm.trans h'.kindOf)
  · intro kind h
    have hkind := h.kindOf
    simp [mclControlKindOf] at hkind
  · intro payload
    simp [mclLinkKeepaliveCheck]

/-- A commit built over a stale challenge is read without it, and a received NACK can be sent on. -/
theorem mclControl_canonical_commit :
    let control : MclHandoffControl := ⟨3, 0x5001, 0x77, Vector.replicate 8 0xC5, 0⟩
    let prior : MclHandoffControl := ⟨0, 0, 0, Vector.replicate 8 0xFF, 9⟩
    mclHandoffControlDecode (some [0, 3, 0, 0, 0x50, 1, 0, 0, 0, 0x77]) (some prior) =
        (.ok, some { control with challenge := Vector.replicate 8 0 }) ∧
      mclLinkAckEncode (some ⟨0, 2, 0x0107⟩) 0 (some [9, 9, 9, 9, 9]) (some 0) =
        (.ok, some [0, 2, 1, 7, 9], some 4) := by
  intro control prior
  have henc : mclHandoffControlEncode (some control) (some (List.replicate 12 0xFF)) (some 0) =
      (.ok, some [0, 3, 0, 0, 0x50, 1, 0, 0, 0, 0x77, 0xFF, 0xFF], some 10) := by decide
  have hdec : mclLinkAckDecode (some [0, 2, 1, 7]) 0 (some ⟨7, 7, 7⟩) =
      (.ok, some ⟨0, 2, 0x0107⟩) := by decide
  obtain ⟨hack, -, -, -, hhandoff, -⟩ := mclControl_canonical
  exact ⟨hhandoff.decode_encode prior henc,
    (hack 0).encode_decode 0 hdec (by decide)⟩

end MclLink
