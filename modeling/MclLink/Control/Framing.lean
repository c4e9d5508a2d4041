import MclLink.Control.Carriage
import MclLink.Frame.Distance

/-!
# Handoff controls in frames

Section 3 of the handoff control specification: a control is the whole payload of one HANDOFF frame
that names its session, and a receiver takes it from no other frame. What was packed is admitted
again; a frame that lost bytes, or was damaged within the reach of its check, is not.
-/

namespace MclLink

open Bytes

/-- The fields of a HANDOFF frame that its control leaves open. The session reference is always
there. -/
structure MclCarriage where
  major : UInt8
  flags : UInt8
  sourceRef : UInt32
  destinationRef : UInt32
  sequence : UInt16
  freshnessMs : UInt16
  known : major = mclLinkFrameMajor ∨ major = mclLinkStableMajor
  legal : flags &&& mclLinkFlagReserved = 0
  routed : flags &&& mclLinkFlagSession ≠ 0

theorem length_take_cast (bytes : List UInt8) :
    ∀ borrowed ∈ some (bytes.take (UInt16.ofNat bytes.length).toNat),
      borrowed.length = (UInt16.ofNat bytes.length).toNat := by
  rintro _ ⟨⟩
  rw [List.length_take, UInt16.toNat_ofNat']
  exact Nat.min_eq_left (Nat.mod_le _ _)

def MclCarriage.frame (carriage : MclCarriage) (sessionRef : UInt32) (control : List UInt8) :
    MclLinkFrame where
  linkMajor := carriage.major
  frameClass := mclLinkClassHandoff
  flags := carriage.flags
  sourceRef := carriage.sourceRef
  destinationRef := carriage.destinationRef
  sessionRef := sessionRef
  sequence := carriage.sequence
  freshnessMs := carriage.freshnessMs
  payload := some (control.take (UInt16.ofNat control.length).toNat)
  payloadLen := UInt16.ofNat control.length
  readable := length_take_cast control

/-- The bytes of a control, in a frame that every negotiated frame size has room for. -/
def mclHandoffPack (carriage : MclCarriage) (control : MclHandoffControl) : Option (List UInt8) :=
  match mclHandoffControlEncode (some control)
      (some (List.replicate mclHandoffControlMaxSize 0)) (some 0) with
  | (.ok, some payload, some size) =>
    match mclLinkFrameEncodeAtMajor carriage.major
        (some (carriage.frame control.sessionRef (payload.take size)))
        (some (List.replicate mclLinkNegotiatedFrameFloor 0)) (some 0) with
    | (.ok, some out, some written) => some (out.take written)
    | _ => none
  | _ => none

private theorem readable_none :
    ∀ bytes ∈ (none : Option (List UInt8)), bytes.length = (0 : UInt16).toNat :=
  nofun

/-- The objects a receiver decodes into. -/
def mclLinkFrameBlank : MclLinkFrame := ⟨0, 0, 0, 0, 0, 0, 0, 0, none, 0, readable_none⟩

def mclHandoffControlBlank : MclHandoffControl := ⟨0, 0, 0, mclHandoffClearChallenge, 0⟩

/-- The control of a frame, if it is one that may carry it and both name the same session. -/
def mclHandoffAdmit (bytes : List UInt8) : Option MclHandoffControl :=
  match mclLinkFrameDecode (some bytes) (some mclLinkFrameBlank) (some 0) with
  | (.ok, some frame, some _) =>
    if frame.frameClass ≠ mclLinkClassHandoff then none
    else if frame.flags &&& mclLinkFlagSession = 0 then none
    else
      match mclHandoffControlDecode frame.payload (some mclHandoffControlBlank) with
      | (.ok, some control) => if control.sessionRef ≠ frame.sessionRef then none else some control
      | _ => none
  | _ => none

variable {carriage : MclCarriage} {k k' : MclHandoffControl} {bytes bytes' : List UInt8}

section Packing

/-- The frame that a control is packed into. -/
def MclCarriage.packed (carriage : MclCarriage) (k : MclHandoffControl) : MclLinkFrame :=
  carriage.frame k.sessionRef (mclHandoffFormat.layout k)

private theorem mclHandoffFormat_short (hk : mclHandoffFormat.Legal k) :
    0 < (mclHandoffFormat.layout k).length ∧
      (mclHandoffFormat.layout k).length ≤ mclHandoffControlMaxSize := by
  rw [mclHandoffFormat_length hk.1]
  exact mclHandoffControlEncodedSize_bounds hk.1

private theorem MclCarriage.packed_payload (carriage : MclCarriage)
    (hk : mclHandoffFormat.Legal k) :
    (carriage.packed k).payload = some (mclHandoffFormat.layout k) ∧
      (carriage.packed k).payloadLen.toNat = (mclHandoffFormat.layout k).length := by
  have hlen : (UInt16.ofNat (mclHandoffFormat.layout k).length).toNat =
      (mclHandoffFormat.layout k).length := by
    rw [UInt16.toNat_ofNat']
    exact Nat.mod_eq_of_lt ((mclHandoffFormat_short hk).2.trans_lt (by decide))
  exact ⟨congrArg some (by rw [hlen, List.take_length]), hlen⟩

theorem MclCarriage.packed_encodable (carriage : MclCarriage) (hk : mclHandoffFormat.Legal k) :
    mclLinkFrameEncodable (some (carriage.packed k)) = true ∧
      mclLinkFrameEncodedSize (some (carriage.packed k)) ≤ mclLinkNegotiatedFrameFloor := by
  have hlen := (carriage.packed_payload hk).2
  have hshort := (mclHandoffFormat_short hk).2
  have hencodable : mclLinkFrameEncodable (some (carriage.packed k)) = true := by
    have hclass : (carriage.packed k).frameClass = mclLinkClassHandoff := rfl
    refine mclLinkFrameEncodable_iff.mpr ⟨?_, ?_, carriage.legal, ?_, fun _ => nofun⟩
    · rw [hclass]
      decide
    · rw [hclass]
      decide
    · rw [UInt16.le_iff_toNat_le, hlen]
      exact hshort.trans (by decide)
  refine ⟨hencodable, ?_⟩
  have hoptional := mclLinkOptionalSize_le (carriage.packed k).flags
  rw [mclLinkFrameEncodedSize_eq hencodable, hlen]
  exact Nat.add_le_add (Nat.add_le_add_left hoptional _) hshort

theorem mclHandoffPack_eq (carriage : MclCarriage) (hk : mclHandoffFormat.Legal k) :
    mclHandoffPack carriage k = some ((carriage.packed k).layout carriage.major) := by
  obtain ⟨hencodable, hfloor⟩ := carriage.packed_encodable hk
  have hroom : (mclHandoffFormat.layout k).length ≤
      (List.replicate mclHandoffControlMaxSize (0 : UInt8)).length := by
    rw [List.length_replicate]
    exact (mclHandoffFormat_short hk).2
  have hspace : mclLinkFrameEncodedSize (some (carriage.packed k)) ≤
      (List.replicate mclLinkNegotiatedFrameFloor (0 : UInt8)).length := by
    rw [List.length_replicate]
    exact hfloor
  have hcontrol := mclHandoff_implements.encode_ok 0 hk hroom
  have hframe := mclLinkFrameEncodeAtMajor_ok 0 carriage.known hencodable hspace
  rw [mclHandoffPack, hcontrol]
  simp only [List.take_left]
  rw [← MclCarriage.packed, hframe]
  simp only [List.take_left]

theorem mclHandoffPack_legal (h : mclHandoffPack carriage k = some bytes) :
    mclHandoffFormat.Legal k := by
  unfold mclHandoffPack at h
  split at h
  · next payload size henc => exact (mclHandoff_implements.of_encode henc).1
  · cases h

theorem mclHandoffPack_decode (h : mclHandoffPack carriage k = some bytes) :
    bytes = (carriage.packed k).layout carriage.major ∧
      mclLinkFrameDecode (some bytes) (some mclLinkFrameBlank) (some 0) =
        (.ok, some ((carriage.packed k).received carriage.major), some bytes.length) := by
  have hk := mclHandoffPack_legal h
  obtain rfl := Option.some.inj ((mclHandoffPack_eq carriage hk).symm.trans h)
  have hdecode := @mclLinkFrameDecode_layout (carriage.packed k) mclLinkFrameBlank carriage.major []
    0 carriage.known (carriage.packed_encodable hk).1
  rw [List.append_nil] at hdecode
  exact ⟨rfl, hdecode⟩

end Packing

/-- A packed control is admitted as what a receiver reads of it. -/
theorem mclHandoffAdmit_pack (h : mclHandoffPack carriage k = some bytes) :
    mclHandoffAdmit bytes = some k.received := by
  have hk := mclHandoffPack_legal h
  obtain ⟨hpayload, hlen⟩ := carriage.packed_payload hk
  have hnonempty : (carriage.packed k).payloadLen ≠ 0 := by
    intro hzero
    rw [hzero] at hlen
    exact (mclHandoffFormat_short hk).1.ne hlen
  have hreceived : ((carriage.packed k).received carriage.major).payload =
      some (mclHandoffFormat.layout k) := (if_pos hnonempty).trans hpayload
  have hflag : (carriage.packed k).has mclLinkFlagSession = true := decide_eq_true carriage.routed
  have hsession : ((carriage.packed k).received carriage.major).sessionRef = k.sessionRef :=
    if_pos hflag
  rw [mclHandoffAdmit, (mclHandoffPack_decode h).2]
  simp only [hreceived, hsession, mclHandoff_implements.decode_ok mclHandoffControlBlank hk]
  exact (if_neg (not_not.mpr rfl)).trans
    ((if_neg carriage.routed).trans (if_neg (not_not.mpr rfl)))

private theorem mclHandoffAdmit_ok (h : mclHandoffAdmit bytes = some k) :
    ∃ frame n, mclLinkFrameDecode (some bytes) (some mclLinkFrameBlank) (some 0) =
        (.ok, some frame, some n) ∧ frame.frameClass = mclLinkClassHandoff ∧
      frame.flags &&& mclLinkFlagSession ≠ 0 ∧ frame.sessionRef = k.sessionRef ∧
      frame.payload = some (mclHandoffFormat.layout k) ∧ mclHandoffFormat.Legal k := by
  unfold mclHandoffAdmit at h
  split at h
  · next frame n hframe =>
    split_ifs at h with hclass hflag
    split at h
    · next control hcontrol =>
      split_ifs at h with hsession
      obtain rfl := Option.some.inj h
      cases hpayload : frame.payload with
      | none => simp [hpayload, mclHandoffControlDecode] at hcontrol
      | some payload =>
        rw [hpayload] at hcontrol
        obtain ⟨hlegal, -, hlayout⟩ := mclHandoff_implements.of_decode hcontrol
        refine ⟨frame, n, hframe, not_not.mp hclass, hflag, (not_not.mp hsession).symm, ?_, hlegal⟩
        rw [hpayload, hlayout]
    · cases h
  · cases h

section Damage

/-- What may arrive instead of a frame: less than was sent, or, if the frame carries a check, as
many bytes of one shape with a short burst or up to three bits inverted. -/
inductive MclFrameDamage (sent : List UInt8) : List UInt8 → Prop where
  | short {n : Nat} : n < sent.length → MclFrameDamage sent (sent.take n)
  | bits {bytes : List UInt8} : mclLinkChecked sent = true → bytes.length = sent.length →
      bytes ≠ sent → MclLinkSameShape bytes sent →
      MclLinkShortDamage bytes sent ∨ Crc.distance (Crc.bits bytes) (Crc.bits sent) ≤ 3 →
      MclFrameDamage sent bytes

/-- Nothing is taken from a damaged frame. -/
theorem MclFrameDamage.refused (h : mclHandoffPack carriage k = some bytes)
    (hdamage : MclFrameDamage bytes bytes') : mclHandoffAdmit bytes' = none := by
  obtain ⟨hlayout, hdecode⟩ := mclHandoffPack_decode h
  have hencodable := (carriage.packed_encodable (mclHandoffPack_legal h)).1
  cases hadmit : mclHandoffAdmit bytes' with
  | none => rfl
  | some k' =>
    obtain ⟨frame, m, hframe, -⟩ := mclHandoffAdmit_ok hadmit
    have hok := congrArg Prod.fst hframe
    exfalso
    cases hdamage with
    | @short n hn =>
      have hfront : (bytes.take n).length < bytes.length := by
        rw [List.length_take]
        exact (Nat.min_le_left _ _).trans_lt hn
      have hwait : (mclLinkFrameDecode (some (bytes.take n)) (some mclLinkFrameBlank) (some 0)).1 =
          .errTruncated :=
        mclLinkFrameDecode_front hdecode (List.take_prefix n bytes) hfront
      rw [hok] at hwait
      cases hwait
    | bits hchecked hlen hne hshape hdamage =>
      have hsize : bytes.length = mclLinkPayloadEnd bytes + 4 := by
        rw [hlayout]
        rw [hlayout] at hchecked
        exact MclLinkFrame.length_checked hencodable hchecked
      have hmax : bytes.length ≤ mclLinkFrameMaxSize := by
        rw [hlayout]
        exact MclLinkFrame.length_layout_le hencodable
      rcases hdamage with hburst | hfew
      · exact hne (mclLinkFrame_undamaged hchecked hlen hsize hshape hok
          (congrArg Prod.fst hdecode) hburst)
      · exact hne (mclLinkFrame_near hchecked hlen hsize hmax hshape hok
          (congrArg Prod.fst hdecode) hfew)

end Damage

end MclLink
