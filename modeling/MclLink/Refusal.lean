import MclLink.Lib.Atomic
import MclLink.Contact.Runs
import MclLink.Link.Authority
import MclLink.Rendezvous.Beacon

/-!
# What a refused operation leaves

Every operation checks all it checks before it writes. The contact, the link, the buffer of an
encoder and every other variable of the caller are as they were unless the status is `ok`.
-/

namespace MclLink

open Atomic

/-- The call with its output parameters as the operation leaves them. -/
def MclContactCall.answered (c : MclContact) : MclContactCall → MclContactCall
  | .resolveOfferCollision source o outcome =>
      .resolveOfferCollision source o (c.resolveOfferCollision source o outcome).2.2
  | .challengeRepeat m s challenge reecho =>
      .challengeRepeat m s challenge (mclContactChallengeRepeat c m s challenge reecho).2
  | .commitRepeat m s reconfirm =>
      .commitRepeat m s (mclContactCommitRepeat c m s reconfirm).2
  | .activeTransport transportId => .activeTransport (mclContactActiveTransport c transportId).2
  | .migrationActive active => .migrationActive (mclContactMigrationActive c active).2
  | .controlTransport transportId => .controlTransport (mclContactControlTransport c transportId).2
  | .dataTransport transportId quiesced =>
      let r := mclContactDataTransport c transportId quiesced
      .dataTransport r.2.1 r.2.2
  | call => call

section Contact

variable (c : MclContact)

private theorem mclContactChallengeRepeat_keeps (m s : UInt32)
    (challenge : Option MclContactChallenge) (reecho : Option Bool) :
    Keeps .ok reecho (mclContactChallengeRepeat c m s challenge reecho) := by
  cases challenge with
  | none => exact .refused _
  | some challenge =>
    cases reecho with
    | none => exact .refused _
    | some prior =>
      apply Keeps.ite (.committed _)
      apply Keeps.ite (.committed _)
      apply Keeps.ite (.committed _)
      exact .ite (.committed _) (.committed _)

private theorem mclContactCommitRepeat_keeps (m s : UInt32) (reconfirm : Option Bool) :
    Keeps .ok reconfirm (mclContactCommitRepeat c m s reconfirm) := by
  cases reconfirm with
  | none => exact .refused _
  | some prior =>
    apply Keeps.ite (.committed _)
    apply Keeps.ite (.committed _)
    apply Keeps.ite (.committed _)
    apply Keeps.ite (.committed _)
    exact .ite (.committed _) (.committed _)

private theorem mclContactActiveTransport_keeps (transportId : Option UInt8) :
    Keeps .ok transportId (mclContactActiveTransport c transportId) := by
  apply Keeps.check
  exact .check (.committed _)

private theorem mclContactMigrationActive_keeps (active : Option Bool) :
    Keeps .ok active (mclContactMigrationActive c active) :=
  .check (.committed _)

private theorem mclContactControlTransport_keeps (transportId : Option UInt8) :
    Keeps .ok transportId (mclContactControlTransport c transportId) := by
  apply Keeps.check
  apply Keeps.check
  exact .ite (.committed _) (.committed _)

private theorem mclContactDataTransport_keeps (transportId : Option UInt8)
    (quiesced : Option Bool) :
    Keeps .ok (transportId, quiesced) (mclContactDataTransport c transportId quiesced) := by
  apply Keeps.check
  exact .check (.committed _)

private theorem exec_keeps (call : MclContactCall) : Keeps .ok c (call.exec c) := by
  have heff : MclContactOutcome c call (call.exec c).1 (call.exec c).2 := exec_effect rfl
  exact .of_eq_or (heff.imp_right And.left)

private theorem answered_keeps (call : MclContactCall) :
    Keeps .ok call ((call.exec c).1, call.answered c) := by
  intro hst
  cases call with
  | resolveOfferCollision source o outcome =>
    exact congrArg _ (resolveOfferCollision_not_ok rfl hst).2
  | challengeRepeat m s challenge reecho =>
    exact congrArg _ (mclContactChallengeRepeat_keeps c m s challenge reecho hst)
  | commitRepeat m s reconfirm =>
    exact congrArg _ (mclContactCommitRepeat_keeps c m s reconfirm hst)
  | activeTransport transportId =>
    exact congrArg _ (mclContactActiveTransport_keeps c transportId hst)
  | migrationActive active => exact congrArg _ (mclContactMigrationActive_keeps c active hst)
  | controlTransport transportId =>
    exact congrArg _ (mclContactControlTransport_keeps c transportId hst)
  | dataTransport transportId quiesced =>
    have h := mclContactDataTransport_keeps c transportId quiesced hst
    obtain ⟨htransport, hquiesced⟩ := Prod.mk.inj h
    simp only [MclContactCall.answered]
    rw [htransport, hquiesced]
  | _ => rfl

/-- The contact a history leads to is the one its accepted calls lead to. -/
theorem MclContact.after_accepted (calls : List MclContactCall) :
    c.after (acceptedInputs .ok MclContactCall.exec c calls) = c.after calls :=
  foldl_acceptedInputs exec_keeps c calls

end Contact

section Link

variable (l : MclLinkT)

private theorem mclLinkInstallContext_keeps (key : Option MclLinkContextKey) :
    Keeps .ok l (mclLinkInstallContext l key) := by
  cases key with
  | none => exact .refused _
  | some key =>
    apply Keeps.check
    apply Keeps.check
    apply Keeps.check
    exact .check (.committed _)

private theorem mclLinkMove_keeps (nextState : UInt8) (allowed clearing : List MclLinkState) :
    Keeps .ok l (mclLinkMove l nextState allowed clearing) := by
  unfold mclLinkMove
  split
  · exact .refused _
  · exact .ite (.committed _) (.refused _)

private theorem mclLinkTransition_keeps (nextState : UInt8) :
    Keeps .ok l (mclLinkTransition l nextState) := by
  unfold mclLinkTransition
  cases l.state <;> exact mclLinkMove_keeps l nextState _ _

end Link

section Encoders

variable (out : Option (List UInt8)) (written : Option ℕ)

/-- An encoder writes neither its buffer nor the count of bytes unless it succeeds. -/
abbrev KeepsBuffer (r : MclLinkStatus × Option (List UInt8) × Option ℕ) : Prop :=
  Keeps .ok (out, written) r

private theorem mclLinkFrameEncodeAtMajor_keeps (major : UInt8) (frame : Option MclLinkFrame) :
    KeepsBuffer out written (mclLinkFrameEncodeAtMajor major frame out written) := by
  unfold mclLinkFrameEncodeAtMajor
  split
  · apply Keeps.check
    apply Keeps.check
    exact .check (.committed _)
  · exact .refused _

private theorem mclLinkAckEncode_keeps (ack : Option MclLinkAck) (isAck : UInt8) :
    KeepsBuffer out written (mclLinkAckEncode ack isAck out written) := by
  unfold mclLinkAckEncode
  split
  · apply Keeps.check
    apply Keeps.check
    exact .check (.committed _)
  · exact .refused _

private theorem mclLinkCloseEncode_keeps (closeControl : Option MclLinkClose) :
    KeepsBuffer out written (mclLinkCloseEncode closeControl out written) := by
  unfold mclLinkCloseEncode
  split
  · apply Keeps.check
    apply Keeps.check
    exact .check (.committed _)
  · exact .refused _

private theorem mclLinkCapabilityEncode_keeps (capability : Option MclLinkCapability) :
    KeepsBuffer out written (mclLinkCapabilityEncode capability out written) := by
  unfold mclLinkCapabilityEncode
  split
  · apply Keeps.check
    apply Keeps.check
    apply Keeps.check
    exact .check (.committed _)
  · exact .refused _

private theorem mclLinkNegotiationEncode_keeps (negotiation : Option MclLinkNegotiation) :
    KeepsBuffer out written (mclLinkNegotiationEncode negotiation out written) := by
  unfold mclLinkNegotiationEncode
  split
  · apply Keeps.check
    apply Keeps.check
    apply Keeps.check
    exact .check (.committed _)
  · exact .refused _

private theorem mclHandoffControlEncode_keeps (control : Option MclHandoffControl) :
    KeepsBuffer out written (mclHandoffControlEncode control out written) := by
  unfold mclHandoffControlEncode
  split
  · apply Keeps.check
    apply Keeps.check
    apply Keeps.check
    apply Keeps.check
    exact .check (.committed _)
  · exact .refused _

private theorem mclRendezvousBeaconEncode_keeps (transportId : UInt8) (endpointToken : UInt32) :
    KeepsBuffer out written
      (mclRendezvousBeaconEncode transportId endpointToken out written) := by
  unfold mclRendezvousBeaconEncode
  split
  · apply Keeps.check
    apply Keeps.check
    exact .check (.committed _)
  · exact .refused _

end Encoders

section Decoders

variable (input : Option (List UInt8))

theorem mclLinkAckDecode_keeps (isAck : UInt8) (ack : Option MclLinkAck) :
    Keeps .ok ack (mclLinkAckDecode input isAck ack) := by
  unfold mclLinkAckDecode
  split
  · apply Keeps.check
    apply Keeps.check
    exact .check (.committed _)
  · exact .refused _

theorem mclLinkCloseDecode_keeps (closeControl : Option MclLinkClose) :
    Keeps .ok closeControl (mclLinkCloseDecode input closeControl) := by
  unfold mclLinkCloseDecode
  split
  · apply Keeps.check
    apply Keeps.check
    exact .check (.committed _)
  · exact .refused _

theorem mclLinkCapabilityDecode_keeps (capability : Option MclLinkCapability) :
    Keeps .ok capability (mclLinkCapabilityDecode input capability) := by
  unfold mclLinkCapabilityDecode
  split
  · apply Keeps.check
    apply Keeps.check
    apply Keeps.check
    exact .check (.committed _)
  · exact .refused _

theorem mclLinkNegotiationDecode_keeps (negotiation : Option MclLinkNegotiation) :
    Keeps .ok negotiation (mclLinkNegotiationDecode input negotiation) := by
  unfold mclLinkNegotiationDecode
  split
  · apply Keeps.check
    apply Keeps.check
    apply Keeps.check
    exact .check (.committed _)
  · exact .refused _

theorem mclHandoffControlDecode_keeps (control : Option MclHandoffControl) :
    Keeps .ok control (mclHandoffControlDecode input control) := by
  unfold mclHandoffControlDecode
  split
  · apply Keeps.check
    apply Keeps.check
    apply Keeps.check
    apply Keeps.check
    apply Keeps.check
    apply Keeps.check
    exact .check (.committed _)
  · exact .refused _

theorem mclRendezvousBeaconDecode_keeps (transportId : Option UInt8)
    (endpointToken : Option UInt32) :
    Keeps .ok (transportId, endpointToken)
      (mclRendezvousBeaconDecode input transportId endpointToken) := by
  unfold mclRendezvousBeaconDecode
  split
  · apply Keeps.check
    apply Keeps.check
    apply Keeps.check
    apply Keeps.check
    exact .check (.committed _)
  · exact .refused _

end Decoders

/-- A refused operation changes nothing: neither the contact or the link, nor the parameters a
call answers through, nor the buffer of an encoder and the count of bytes written. -/
theorem mcl_refused_changes_nothing :
    (∀ (c : MclContact) (call : MclContactCall),
      Keeps .ok (c, call) ((call.exec c).1, (call.exec c).2, call.answered c)) ∧
    (∀ l key, Keeps .ok l (mclLinkInstallContext l key)) ∧
    (∀ l nextState, Keeps .ok l (mclLinkTransition l nextState)) ∧
    (∀ frame out written, KeepsBuffer out written (mclLinkFrameEncode frame out written)) ∧
    (∀ major frame out written,
      KeepsBuffer out written (mclLinkFrameEncodeAtMajor major frame out written)) ∧
    (∀ ack isAck out written, KeepsBuffer out written (mclLinkAckEncode ack isAck out written)) ∧
    (∀ closeControl out written,
      KeepsBuffer out written (mclLinkCloseEncode closeControl out written)) ∧
    (∀ capability out written,
      KeepsBuffer out written (mclLinkCapabilityEncode capability out written)) ∧
    (∀ negotiation out written,
      KeepsBuffer out written (mclLinkNegotiationEncode negotiation out written)) ∧
    (∀ control out written,
      KeepsBuffer out written (mclHandoffControlEncode control out written)) ∧
    (∀ transportId endpointToken out written, KeepsBuffer out written
      (mclRendezvousBeaconEncode transportId endpointToken out written)) := by
  refine ⟨?_, mclLinkInstallContext_keeps, mclLinkTransition_keeps, ?_, ?_, ?_, ?_, ?_, ?_, ?_, ?_⟩
  · intro c call
    exact (exec_keeps c call).prod (answered_keeps c call)
  · intro frame out written
    exact mclLinkFrameEncodeAtMajor_keeps out written mclLinkFrameMajor frame
  · intro major frame out written
    exact mclLinkFrameEncodeAtMajor_keeps out written major frame
  · intro ack isAck out written
    exact mclLinkAckEncode_keeps out written ack isAck
  · intro closeControl out written
    exact mclLinkCloseEncode_keeps out written closeControl
  · intro capability out written
    exact mclLinkCapabilityEncode_keeps out written capability
  · intro negotiation out written
    exact mclLinkNegotiationEncode_keeps out written negotiation
  · intro control out written
    exact mclHandoffControlEncode_keeps out written control
  · intro transportId endpointToken out written
    exact mclRendezvousBeaconEncode_keeps out written transportId endpointToken

end MclLink
