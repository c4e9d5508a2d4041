import MclLink.Control.Framing
import MclLink.Peers.Transport
import MclLink.Peers.Turns

/-!
# The peers over transports

Offers and acceptances travel as Wire objects, everything after them as a control in a frame, on the
transport that the transaction is conducted over. A receiver takes a control from that transport
only. Besides losing, repeating and reordering packets, a transport may cut a frame short or damage
it within the reach of its check. All of this refines the exchange of messages.
-/

namespace MclLink

open LabelledRun

/-- A control that could be made. -/
def mclHandoffMade (r : MclLinkStatus × Option MclHandoffControl) : Option MclHandoffControl :=
  if r.1 = .ok then r.2 else none

/-- The control that says what a message of path validation or commitment says. -/
def MclMessage.control : MclMessage → Option MclHandoffControl
  | .pathChallenge m s challenge =>
      mclHandoffMade (mclHandoffMakePathChallenge (some mclHandoffControlBlank) m s (some challenge))
  | .pathResponse m s challenge =>
      mclHandoffMade (mclHandoffMakePathResponse (some mclHandoffControlBlank) m s (some challenge))
  | .commit m s => mclHandoffMade (mclHandoffMakeCommit (some mclHandoffControlBlank) m s)
  | .confirm m s => mclHandoffMade (mclHandoffMakeConfirm (some mclHandoffControlBlank) m s)
  | .offer .. | .accept .. => none

/-- What a control that was admitted says, by its operation. -/
def MclHandoffControl.message (control : MclHandoffControl) : Option MclMessage :=
  if control.operation = mclHandoffOpPathChallenge then
    some (.pathChallenge control.migrationRef control.sessionRef control.challenge)
  else if control.operation = mclHandoffOpPathResponse then
    some (.pathResponse control.migrationRef control.sessionRef control.challenge)
  else if control.operation = mclHandoffOpCommit then
    some (.commit control.migrationRef control.sessionRef)
  else if control.operation = mclHandoffOpConfirm then
    some (.confirm control.migrationRef control.sessionRef)
  else none

/-- What passes between two peers: Wire objects, and frames on some transport. -/
inductive MclPacket where
  | offer (sourceRef : UInt32) (offer : MclOffer)
  | accept (migrationRef : UInt32) (transportId profileId : UInt8) (sessionRef : UInt32)
  | frame (transportId : UInt8) (bytes : List UInt8)
  deriving DecidableEq, Repr

/-- The packet of a message that is sent on a transport. -/
def MclMessage.packet (carriage : MclCarriage) (transportId : UInt8) : MclMessage → Option MclPacket
  | .offer source o => some (.offer source o)
  | .accept m t pr s => some (.accept m t pr s)
  | message => (message.control.bind (mclHandoffPack carriage)).map (.frame transportId)

/-- The message that a packet carries, wherever it arrives. -/
def MclPacket.content : MclPacket → Option MclMessage
  | .offer source o => some (.offer source o)
  | .accept m t pr s => some (.accept m t pr s)
  | .frame _ bytes => (mclHandoffAdmit bytes).bind MclHandoffControl.message

/-- A control is heard on the transport of the current transaction only. -/
def MclPacket.heard (contact : MclContact) : MclPacket → Bool
  | .offer .. | .accept .. => true
  | .frame transportId _ => mclContactControlTransport contact (some 0) = (.ok, some transportId)

/-- A peer and the packets it has sent. -/
structure MclEndpoint where
  peer : MclPeer
  packets : List MclPacket

/-- Either the peer acts by itself or something arrives. -/
inductive MclWireMove where
  | act (action : MclAction)
  | arrive (packet : MclPacket)

/-- What the peer does in a move, if it does anything. -/
def MclEndpoint.turn (e : MclEndpoint) : MclWireMove → Option MclAction
  | .act action => some action
  | .arrive packet =>
      if packet.heard e.peer.contact then packet.content.map MclAction.receive else none

/-- The transport a contact sends its controls on. -/
def MclContact.controlTransport (contact : MclContact) : UInt8 :=
  (mclContactControlTransport contact (some mclContactTransportReserved)).2.getD 0

/-- What the peer said in its last action is sent. -/
def MclEndpoint.emit (e : MclEndpoint) (carriage : MclCarriage) (peer : MclPeer) : MclEndpoint where
  peer := peer
  packets :=
    (peer.sent.take (peer.sent.length - e.peer.sent.length)).filterMap
      (MclMessage.packet carriage peer.contact.controlTransport) ++ e.packets

/-- What the peer has heard when it acts. -/
def MclWireMove.inbox : MclWireMove → List MclMessage
  | .act _ => []
  | .arrive packet => packet.content.toList

def MclEndpoint.perform (carriage : MclCarriage) (e : MclEndpoint) (move : MclWireMove) :
    Option MclEndpoint :=
  match e.turn move with
  | some action => (e.peer.perform move.inbox action).map (e.emit carriage)
  | none => some e

/-- What can arrive from an endpoint: a packet it has sent, or a frame that was damaged. -/
inductive MclChannel (packets : List MclPacket) : MclPacket → Prop where
  | intact {packet : MclPacket} : packet ∈ packets → MclChannel packets packet
  | damaged {t : UInt8} {sent bytes : List UInt8} : .frame t sent ∈ packets →
      MclFrameDamage sent bytes → MclChannel packets (.frame t bytes)

structure MclWire where
  left : MclEndpoint
  right : MclEndpoint

def MclWire.endpoint (s : MclWire) : MclSide → MclEndpoint
  | .left => s.left
  | .right => s.right

/-- The two peers, without what lies between them. -/
def MclWire.pair (s : MclWire) : MclPair := ⟨s.left.peer, s.right.peer⟩

/-- Whose move it is, which one, and the fields of the frame of a control that is sent in it. -/
structure MclWireLabel where
  side : MclSide
  move : MclWireMove
  carriage : MclCarriage

structure MclWireStep (s : MclWire) (e : MclWireLabel) (s' : MclWire) : Prop where
  arrives : ∀ packet, e.move = .arrive packet →
    MclChannel (s.endpoint e.side.other).packets packet
  performs : (s.endpoint e.side).perform e.carriage e.move = some (s'.endpoint e.side)
  other : s'.endpoint e.side.other = s.endpoint e.side.other

abbrev MclWireRun := Run MclWireStep

/-- Two peers that have just begun, and nothing between them. -/
def MclWire.Starts (s : MclWire) : Prop :=
  s.pair.Starts ∧ ∀ x, (s.endpoint x).packets = []

/-- A commit accepted in the move is not one the peer has confirmed before. -/
def MclWire.SettlesNew (s : MclWire) (e : MclWireLabel) : Prop :=
  ∀ action ∈ (s.endpoint e.side).turn e.move, s.pair.SettlesNew (e.side, action)

variable {message : MclMessage} {carriage : MclCarriage} {k : MclHandoffControl} {t : UInt8}
  {packet : MclPacket} {e e' : MclEndpoint} {move : MclWireMove} {action : MclAction}
  {p p' : MclPeer} {s s' : MclWire}

section Content

private theorem MclMessage.control_spoken (h : message.control = some k) :
    k.received = k ∧ k.message = some message := by
  cases message with
  | offer | accept => cases h
  | _ =>
    simp only [MclMessage.control, mclHandoffMakePathChallenge, mclHandoffMakePathResponse,
      mclHandoffMakeCommit, mclHandoffMakeConfirm, mclHandoffMakeWithChallenge,
      mclHandoffMakeCommon, mclHandoffMade] at h
    split_ifs at h <;> simp_all
    all_goals
      subst h
      exact ⟨rfl, rfl⟩

theorem MclMessage.packet_content (h : message.packet carriage t = some packet) :
    packet.content = some message := by
  have hframe : (message.control.bind (mclHandoffPack carriage)).map (.frame t) = some packet →
      packet.content = some message := by
    intro h
    obtain ⟨bytes, hbytes, rfl⟩ := Option.map_eq_some_iff.mp h
    obtain ⟨k, hk, hpack⟩ := Option.bind_eq_some_iff.mp hbytes
    obtain ⟨hreceived, hmessage⟩ := MclMessage.control_spoken hk
    rw [MclPacket.content, mclHandoffAdmit_pack hpack, hreceived]
    exact hmessage
  cases message with
  | offer | accept =>
    obtain rfl := Option.some.inj h
    rfl
  | _ => exact hframe h

theorem MclMessage.packet_damaged {t' : UInt8} {sent bytes : List UInt8}
    (h : message.packet carriage t = some (.frame t' sent)) (hdamage : MclFrameDamage sent bytes) :
    (MclPacket.frame t' bytes).content = none := by
  have hpack : ∃ k, mclHandoffPack carriage k = some sent := by
    cases message with
    | offer | accept => cases h
    | _ =>
      obtain ⟨bytes, hbytes, hsame⟩ := Option.map_eq_some_iff.mp h
      obtain ⟨k, -, hk⟩ := Option.bind_eq_some_iff.mp hbytes
      obtain ⟨-, rfl⟩ := MclPacket.frame.inj hsame
      exact ⟨k, hk⟩
  obtain ⟨k, hk⟩ := hpack
  rw [MclPacket.content, hdamage.refused hk]
  rfl

end Content

section Refinement

/-- Every packet carries what its peer has said. -/
def MclEndpoint.Honest (e : MclEndpoint) : Prop :=
  ∀ packet ∈ e.packets, ∃ message ∈ e.peer.sent, ∃ carriage t,
    message.packet carriage t = some packet

private theorem MclEndpoint.Honest.said (h : e.Honest) (hchannel : MclChannel e.packets packet)
    (hcontent : packet.content = some message) : message ∈ e.peer.sent := by
  cases hchannel with
  | intact hpacket =>
    obtain ⟨message', hsaid, carriage, t, hsent⟩ := h packet hpacket
    obtain rfl := Option.some.inj ((MclMessage.packet_content hsent).symm.trans hcontent)
    exact hsaid
  | damaged hpacket hdamage =>
    obtain ⟨message', -, carriage, t, hsent⟩ := h _ hpacket
    rw [MclMessage.packet_damaged hsent hdamage] at hcontent
    cases hcontent

theorem MclPeer.perform_hear {inbox inbox' : List MclMessage} (hsub : inbox ⊆ inbox')
    (h : p.perform inbox action = some p') : p.perform inbox' action = some p' := by
  cases action with
  | receive message =>
    by_cases hinbox : message ∈ inbox
    · rw [MclPeer.perform_receive hinbox] at h
      rw [MclPeer.perform_receive (hsub hinbox), h]
    · simp [MclPeer.perform, hinbox] at h
  | _ => exact h

theorem MclPeer.perform_sent {inbox : List MclMessage} (h : p.perform inbox action = some p') :
    p.sent ⊆ p'.sent := by
  rcases MclPeer.perform_effect h with rfl | heff
  · exact fun _ hm => hm
  · cases heff <;> simp

private theorem MclEndpoint.Honest.emit (h : e.Honest) (hsent : e.peer.sent ⊆ p'.sent) :
    (e.emit carriage p').Honest := by
  intro packet hpacket
  rcases List.mem_append.mp hpacket with hnew | hold
  · obtain ⟨message, hmessage, hpack⟩ := List.mem_filterMap.mp hnew
    exact ⟨message, List.mem_of_mem_take hmessage, _, _, hpack⟩
  · obtain ⟨message, hmessage, hpack⟩ := h packet hold
    exact ⟨message, hsent hmessage, hpack⟩

theorem MclEndpoint.perform_cases (h : e.perform carriage move = some e') :
    (e.turn move = none ∧ e' = e) ∨ ∃ action p', e.turn move = some action ∧
      e.peer.perform move.inbox action = some p' ∧ e' = e.emit carriage p' := by
  rw [MclEndpoint.perform] at h
  split at h
  · next action hturn =>
    obtain ⟨p', hp', rfl⟩ := Option.map_eq_some_iff.mp h
    exact Or.inr ⟨action, p', hturn, hp', rfl⟩
  · next hturn => exact Or.inl ⟨hturn, (Option.some.inj h).symm⟩

theorem MclWire.pair_peer (s : MclWire) (x : MclSide) : s.pair.peer x = (s.endpoint x).peer := by
  cases x <;> rfl

private theorem MclWire.pair_ext (h : ∀ x, (s.endpoint x).peer = (s'.endpoint x).peer) :
    s.pair = s'.pair :=
  MclPair.peer_ext fun x => by rw [MclWire.pair_peer, MclWire.pair_peer, h]

theorem MclWireStep.inbox {l : MclWireLabel} (hstep : MclWireStep s l s')
    (h : ∀ x, (s.endpoint x).Honest) :
    l.move.inbox ⊆ (s.endpoint l.side.other).peer.sent := by
  intro message hmessage
  cases hmove : l.move with
  | act => simp [hmove, MclWireMove.inbox] at hmessage
  | arrive packet =>
    have hcontent : packet.content = some message := by
      simpa [hmove, MclWireMove.inbox] using hmessage
    exact (h l.side.other).said (hstep.arrives packet hmove) hcontent

/-- A step over the transports is a step of the two peers, or neither of them notices it. -/
theorem MclWireStep.refines {l : MclWireLabel} (hstep : MclWireStep s l s')
    (h : ∀ x, (s.endpoint x).Honest) :
    (∀ x, (s'.endpoint x).Honest) ∧ (s'.pair = s.pair ∨
      ∃ action, (s.endpoint l.side).turn l.move = some action ∧
        s.pair.perform (l.side, action) = some s'.pair) := by
  rcases MclEndpoint.perform_cases hstep.performs with ⟨-, hsame⟩ | ⟨action, p', hturn, hp', hemit⟩
  · have hall : ∀ x, s'.endpoint x = s.endpoint x :=
      (MclSide.forall_iff l.side).mpr ⟨hsame, hstep.other⟩
    exact ⟨fun x => hall x ▸ h x, Or.inl (MclWire.pair_ext fun x => by rw [hall])⟩
  · refine ⟨(MclSide.forall_iff l.side).mpr ⟨?_, hstep.other ▸ h _⟩, Or.inr ⟨action, hturn, ?_⟩⟩
    · rw [hemit]
      exact (h l.side).emit (MclPeer.perform_sent hp')
    · have hperform := MclPeer.perform_hear (hstep.inbox h) hp'
      rw [← MclWire.pair_peer, ← MclWire.pair_peer] at hperform
      obtain ⟨s'', hs'', hpeer, hother⟩ := MclPair.perform_ok hperform
      rw [hs'']
      congr 1
      have hpeers : ∀ x, s''.peer x = s'.pair.peer x := by
        refine (MclSide.forall_iff l.side).mpr ⟨?_, ?_⟩
        · rw [hpeer, MclWire.pair_peer, hemit]
          rfl
        · rw [hother, MclWire.pair_peer, MclWire.pair_peer, hstep.other]
      exact MclPair.peer_ext hpeers

end Refinement

end MclLink
