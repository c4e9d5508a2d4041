import MclLink.Peers.Arrival

/-!
# Messages and transports

The exchange over transports and the exchange of messages have the same runs: what happens over the
transports is a run of the messages, and every run of the messages can be had over the transports,
in whatever frames the controls can travel. So safety and progress of the one are those of the
other.
-/

namespace MclLink

open LabelledRun

variable {s s' : MclWire} {l : MclWireLabel} {x : MclSide} {action : MclAction}
  {message : MclMessage} {e : MclEndpoint} {move : MclWireMove} {p' : MclPeer}

/-- What a move comes to where its packet is heard: the peer's own action, or receiving the message
that arrives. -/
def MclWireMove.intent : MclWireMove → Option MclAction
  | .act action => some action
  | .arrive packet => packet.content.map MclAction.receive

section Follow

private theorem MclEndpoint.turn_intent (hintent : move.intent = some action) :
    ∀ taken ∈ e.turn move, taken = action := by
  intro taken htaken
  cases move with
  | act => exact Option.some.inj (htaken.symm.trans hintent)
  | arrive packet =>
    obtain ⟨-, htaken⟩ := Option.ite_none_right_eq_some.mp htaken
    exact Option.some.inj (htaken.symm.trans hintent)

private theorem MclPeer.perform_unprompted {p : MclPeer} {inbox : List MclMessage}
    (h : ∀ message, action ≠ .receive message) : p.perform inbox action = p.perform [] action := by
  cases action with
  | receive message => exact absurd rfl (h message)
  | _ => rfl

private theorem MclEndpoint.perform_act (carriage : MclCarriage)
    (h : e.peer.perform [] action = some p') :
    e.perform carriage (.act action) = some (e.emit carriage p') := by
  simp only [MclEndpoint.perform, MclEndpoint.turn, MclWireMove.inbox, h]
  rfl

private theorem MclEndpoint.perform_heard {packet : MclPacket} (carriage : MclCarriage)
    (hcontent : packet.content = some message) (hheard : packet.heard e.peer.contact = true) :
    e.perform carriage (.arrive packet) = some (e.emit carriage (e.peer.receive message)) := by
  have hturn : e.turn (.arrive packet) = some (.receive message) := by
    rw [MclEndpoint.turn, if_pos hheard, hcontent]
    rfl
  rw [MclEndpoint.perform, hturn]
  simp only [MclWireMove.inbox, hcontent, Option.toList_some,
    MclPeer.perform_receive (List.mem_singleton_self message)]
  rfl

private theorem MclEndpoint.perform_unheard {packet : MclPacket} (carriage : MclCarriage)
    (hheard : packet.heard e.peer.contact = false) :
    e.perform carriage (.arrive packet) = some e := by
  have hturn : e.turn (.arrive packet) = none := by
    rw [MclEndpoint.turn, if_neg (by simp [hheard])]
  rw [MclEndpoint.perform, hturn]

private theorem MclWire.step_ok {carriage : MclCarriage} {e' : MclEndpoint}
    (h : (s.endpoint x).perform carriage move = some e')
    (harrives : ∀ packet, move = .arrive packet →
      MclChannel (s.endpoint x.other).packets packet) :
    ∃ s', MclWireStep s ⟨x, move, carriage⟩ s' ∧ s'.endpoint x = e' := by
  cases x with
  | left => exact ⟨⟨e', s.right⟩, ⟨harrives, h, rfl⟩, rfl⟩
  | right => exact ⟨⟨s.left, e'⟩, ⟨harrives, h, rfl⟩, rfl⟩

private theorem MclWire.Sound.unheard {carriage : MclCarriage} {t : UInt8} {packet : MclPacket}
    (h : s.Sound) (hsaid : message ∈ (s.endpoint x.other).peer.sent)
    (hbelongs : message.Belongs (s.endpoint x.other).peer (s.endpoint x).peer t)
    (hpack : message.packet carriage t = some packet)
    (hheard : packet.heard (s.endpoint x).peer.contact = false) :
    (s.endpoint x).peer.receive message = (s.endpoint x).peer := by
  by_contra hreacts
  have hplaced := h.placed x.other
  rw [MclSide.other_other] at hplaced
  have hframe : message.control.isSome ∧ ∃ bytes, packet = .frame t bytes := by
    cases message with
    | offer | accept =>
      obtain rfl := Option.some.inj hpack
      cases hheard
    | _ =>
      obtain ⟨bytes, hbytes, rfl⟩ := Option.map_eq_some_iff.mp hpack
      obtain ⟨k, hk, -⟩ := Option.bind_eq_some_iff.mp hbytes
      exact ⟨by rw [hk]; rfl, bytes, rfl⟩
  obtain ⟨hcontrol, bytes, rfl⟩ := hframe
  have hlistens := (h.placed x).listens hplaced hsaid hbelongs hcontrol hreacts 0
  rw [MclPacket.heard, hlistens] at hheard
  simp at hheard

/-- Whatever one of the peers can do, it can do over the transports; where the message it would
receive is not heard, nothing would have happened. -/
theorem MclWire.Sound.follow (h : s.Sound) {t : MclPair}
    (hstep : s.pair.perform (x, action) = some t) (hnew : s.pair.SettlesNew (x, action))
    (carriage : MclCarriage) :
    ∃ move s', MclWireStep s ⟨x, move, carriage⟩ s' ∧ s'.pair = t ∧ s'.Sound ∧
      move.intent = some action ∧
      ∀ packet, move = .arrive packet → packet ∈ (s.endpoint x.other).packets := by
  obtain ⟨hperform, hother⟩ := MclPair.perform_peer hstep
  rw [MclWire.pair_peer, MclWire.pair_peer] at hperform
  rw [MclWire.pair_peer] at hother
  have hsuffices : ∀ move e', (s.endpoint x).perform carriage move = some e' →
      e'.peer = t.peer x → move.intent = some action →
      (∀ packet, move = .arrive packet → packet ∈ (s.endpoint x.other).packets) →
      ∃ move s', MclWireStep s ⟨x, move, carriage⟩ s' ∧ s'.pair = t ∧ s'.Sound ∧
        move.intent = some action ∧
        ∀ packet, move = .arrive packet → packet ∈ (s.endpoint x.other).packets := by
    intro move e' hmove hpeer hintent harrive
    obtain ⟨s', hwire, he'⟩ :=
      MclWire.step_ok hmove fun packet hpacket => .intact (harrive packet hpacket)
    refine ⟨move, s', hwire, MclPair.peer_ext ((MclSide.forall_iff x).mpr ⟨?_, ?_⟩),
      hwire.sound h fun taken htaken => MclEndpoint.turn_intent hintent taken htaken ▸ hnew,
      hintent, harrive⟩
    · rw [MclWire.pair_peer, he', hpeer]
    · rw [MclWire.pair_peer, hwire.other, hother]
  by_cases hreceive : ∃ message, action = .receive message
  · obtain ⟨message, rfl⟩ := hreceive
    obtain ⟨hinbox, -⟩ := MclPeer.perform_ready hperform
    have hsaid := hinbox message rfl
    rw [MclPeer.perform_receive hsaid] at hperform
    have hresult := Option.some.inj hperform
    have hback := h.carried x.other
    rw [MclSide.other_other] at hback
    obtain ⟨carriage', t', hbelongs, packet, hpacket, hpack⟩ := hback message hsaid
    have hcontent := MclMessage.packet_content hpack
    have hintent : (MclWireMove.arrive packet).intent = some (.receive message) := by
      rw [MclWireMove.intent, hcontent]
      rfl
    have harrive : ∀ packet', MclWireMove.arrive packet = .arrive packet' →
        packet' ∈ (s.endpoint x.other).packets := by
      rintro _ ⟨⟩
      exact hpacket
    cases hheard : packet.heard (s.endpoint x).peer.contact with
    | true =>
      exact hsuffices _ _ (MclEndpoint.perform_heard carriage hcontent hheard) hresult hintent
        harrive
    | false =>
      -- Unheard, but heard it would have changed nothing.
      exact hsuffices _ _ (MclEndpoint.perform_unheard carriage hheard)
        ((h.unheard hsaid hbelongs hpack hheard).symm.trans hresult) hintent harrive
  · rw [MclPeer.perform_unprompted (not_exists.mp hreceive)] at hperform
    exact hsuffices _ _ (MclEndpoint.perform_act carriage hperform) rfl rfl nofun

end Follow

/-- The event over the transports that an event of the two peers becomes: the same side acts or
receives the same message, in a packet that was sent, and the peers are in the same states before
and after it. -/
structure MclWireFollows (ev : Event MclWire MclWireLabel)
    (ev' : Event MclPair (MclSide × MclAction)) : Prop where
  before : ev.before.pair = ev'.before
  after : ev.after.pair = ev'.after
  side : ev.label.side = ev'.label.1
  intent : ev.label.move.intent = some ev'.label.2
  sent : ∀ packet, ev.label.move = .arrive packet →
    packet ∈ (ev.before.endpoint ev.label.side.other).packets

theorem MclWire.Sound.realises {s₀ : MclWire} {t : MclPair}
    {tr : List (Event MclPair (MclSide × MclAction))} (h : s₀.Sound)
    (run : MclPairRun s₀.pair tr t) (hnew : ∀ ev ∈ tr, ev.before.SettlesNew ev.label)
    (carriages : ℕ → MclCarriage) :
    ∃ tr' s, MclWireRun s₀ tr' s ∧ s.pair = t ∧ s.Sound ∧ tr'.length = tr.length ∧
      ∀ i ev, tr'[i]? = some ev → ∃ ev', tr[i]? = some ev' ∧ MclWireFollows ev ev' ∧
        ev.label.carriage = carriages i ∧ ev.before.SettlesNew ev.label := by
  refine run.lift (I := MclWire.Sound) (R := fun i ev ev' => MclWireFollows ev ev' ∧
    ev.label.carriage = carriages i ∧ ev.before.SettlesNew ev.label) hnew rfl h
    fun i {s e' t} hs hstep hev => ?_
  obtain ⟨x, action⟩ := e'
  obtain ⟨move, s', hwire, hpair, hsound, hintent, harrive⟩ := hs.follow hstep hev (carriages i)
  exact ⟨_, s', hwire, hpair, hsound, ⟨rfl, hpair, rfl, hintent, harrive⟩, rfl,
    fun taken htaken => MclEndpoint.turn_intent hintent taken htaken ▸ hev⟩

theorem MclWire.Sound.realises_new {s₀ : MclWire} {t : MclPair}
    {tr : List (Event MclPair (MclSide × MclAction))} (h : s₀.Sound)
    (run : MclPairRun s₀.pair tr t) (hnew : ∀ ev ∈ tr, ev.before.SettlesNew ev.label)
    (carriage : MclCarriage) :
    ∃ tr' s, MclWireRun s₀ tr' s ∧ s.pair = t ∧ s.Sound ∧
      ∀ ev ∈ tr', ev.before.SettlesNew ev.label := by
  obtain ⟨tr', s, run', hpair, hsound, -, hevents⟩ := h.realises run hnew fun _ => carriage
  refine ⟨tr', s, run', hpair, hsound, fun ev hev => ?_⟩
  obtain ⟨i, hi⟩ := List.mem_iff_getElem?.mp hev
  obtain ⟨-, -, -, -, hsettles⟩ := hevents i ev hi
  exact hsettles

/-- One undisturbed migration to transport 2. -/
def mclMigrationTurns : List (MclSide × MclAction) :=
  let o : MclOffer := ⟨0x5001, 2, 1, 0xD00D, 30⟩
  let bytes : MclContactChallenge := Vector.replicate 8 7
  [(.left, .offer o), (.right, .receive (.offer 0xA0 o)), (.right, .accept 0x11),
    (.left, .receive (.accept 0x5001 2 1 0x11)), (.left, .challenge bytes),
    (.right, .receive (.pathChallenge 0x5001 0x11 bytes)),
    (.left, .receive (.pathResponse 0x5001 0x11 bytes)), (.left, .commit),
    (.right, .receive (.commit 0x5001 0x11)), (.left, .receive (.confirm 0x5001 0x11))]

theorem MclWire.starts_begun (a b : UInt32) {t : UInt8} (ht : t ≠ mclContactTransportReserved) :
    MclWire.Starts ⟨⟨⟨mclContactBegun mclContactRoleInitiator a t, false, []⟩, []⟩,
      ⟨⟨mclContactBegun mclContactRoleResponder b t, false, []⟩, []⟩⟩ := by
  refine ⟨MclPair.starts_begun a b ht, fun x => ?_⟩
  cases x <;> rfl

/-- The event of the two peers that an event over the transports is. -/
def MclWireIs (ev : Event MclWire MclWireLabel) (ev' : Event MclPair (MclSide × MclAction)) :
    Prop :=
  ev'.before = ev.before.pair ∧ ev'.after = ev.after.pair ∧ ev'.label.1 = ev.label.side ∧
    (ev.before.endpoint ev.label.side).turn ev.label.move = some ev'.label.2

/-- The exchange over transports refines the exchange of messages. Whatever is lost, repeated,
delayed, reordered, cut short or damaged within the reach of its check, every run over transports
is a run of the two peers, so that their transports agree as long as no peer settles a migration
twice. -/
theorem mclWire_refines {s₀ : MclWire} {tr : List (Event MclWire MclWireLabel)}
    (hstart : s₀.Starts) (run : MclWireRun s₀ tr s) :
    (∃ tr', MclPairRun s₀.pair tr' s.pair ∧ ∀ ev' ∈ tr', ∃ ev ∈ tr, MclWireIs ev ev') ∧
      ((∀ ev ∈ tr, ev.before.SettlesNew ev.label) → s.pair.TransportsAgree) := by
  have hproject : ∃ tr', MclPairRun s₀.pair tr' s.pair ∧ ∀ ev' ∈ tr', ∃ ev ∈ tr, MclWireIs ev ev' := by
    refine run.project (I := fun s => ∀ x, (s.endpoint x).Honest)
      (fun x => by simp [MclEndpoint.Honest, hstart.2 x]) fun {s l s'} hs hstep => ?_
    obtain ⟨hhonest, hsame | ⟨action, hturn, hperform⟩⟩ := hstep.refines hs
    · exact ⟨hhonest, Or.inl hsame⟩
    · exact ⟨hhonest, Or.inr ⟨(l.side, action), hperform, rfl, rfl, rfl, hturn⟩⟩
  refine ⟨hproject, fun hnew => ?_⟩
  obtain ⟨tr', run', hevents⟩ := hproject
  have hnew' : ∀ ev' ∈ tr', ev'.before.SettlesNew ev'.label := by
    intro ev' hev'
    obtain ⟨ev, hev, hbefore, -, hside, hturn⟩ := hevents ev' hev'
    have hsettles := hnew ev hev _ hturn
    rw [hbefore, ← Prod.eta ev'.label, hside]
    exact hsettles
  exact MclPair.transportsAgree <| run'.invariant_of
    (I := fun s => ∀ x, (s.peer x).MovesWith (s.peer x.other)) hnew' hstart.1.movesWith
    fun hs hstep hev => MclPair.movesWith_step hs hstep hev

/-- A migration after which what the left peer sent first in a frame arrives again without its last
bytes. -/
theorem mclWire_refines_damaged :
    let s₀ : MclWire := ⟨⟨⟨mclContactBegun mclContactRoleInitiator 0xA0 1, false, []⟩, []⟩,
      ⟨⟨mclContactBegun mclContactRoleResponder 0xB0 1, false, []⟩, []⟩⟩
    ∃ tr s ev, MclWireRun s₀ tr s ∧ ev ∈ tr ∧ (∃ t sent bytes,
        .frame t sent ∈ ev.before.left.packets ∧ MclFrameDamage sent bytes ∧
        ev.label.move = .arrive (.frame t bytes)) ∧
      s.pair.left.contact.activeTransport = 2 ∧ s.pair.TransportsAgree := by
  intro s₀
  let carriage : MclCarriage := ⟨1, 0x12, 0xA0, 0, 0, 0, Or.inr rfl, rfl, by decide⟩
  have hstart : s₀.Starts := MclWire.starts_begun 0xA0 0xB0 (by decide)
  have hmoved : ((script MclPair.perform s₀.pair mclMigrationTurns).map fun t =>
      (t.left.contact.activeTransport, decide (.commit 0x5001 0x11 ∈ t.left.sent))) =
      some (2, true) := by decide
  obtain ⟨t, ht, hplace⟩ := Option.map_eq_some_iff.mp hmoved
  obtain ⟨hleft, hsaid⟩ := Prod.mk.inj hplace
  obtain ⟨tr, s, run, rfl, hsound, hnew⟩ :=
    hstart.sound.realises_new (Run.of_script ht) (by decide) carriage
  obtain ⟨carriage', t', -, packet, hpacket, hpack⟩ :=
    hsound.carried .left _ (of_decide_eq_true hsaid)
  obtain ⟨sent, hsent, rfl⟩ := Option.map_eq_some_iff.mp hpack
  obtain ⟨k, -, hk⟩ := Option.bind_eq_some_iff.mp hsent
  have hdamage : MclFrameDamage sent (sent.take 5) := by
    obtain ⟨hlayout, -⟩ := mclHandoffPack_decode hk
    refine .short ?_
    rw [hlayout, MclLinkFrame.length_layout (carriage'.packed_encodable (mclHandoffPack_legal hk)).1,
      mclLinkFrameEncodedSize_eq (carriage'.packed_encodable (mclHandoffPack_legal hk)).1]
    simp only [mclLinkFrameMinSize]
    omega
  have hturn : s.right.turn (.arrive (.frame t' (sent.take 5))) = none := by
    rw [MclEndpoint.turn, MclMessage.packet_damaged hpack hdamage]
    exact ite_self none
  have hstep : MclWireStep s ⟨.right, .arrive (.frame t' (sent.take 5)), carriage⟩ s := by
    refine ⟨?_, ?_, rfl⟩
    · rintro _ ⟨⟩
      exact .damaged hpacket hdamage
    · show s.right.perform carriage _ = some s.right
      rw [MclEndpoint.perform, hturn]
  have hall := run.snoc hstep
  refine ⟨_, s, _, hall, List.mem_append_right _ (List.mem_singleton_self _),
    ⟨t', sent, sent.take 5, hpacket, hdamage, rfl⟩, hleft, (mclWire_refines hstart hall).2 ?_⟩
  intro ev hev
  rcases List.mem_append.mp hev with hev | hev
  · exact hnew ev hev
  · obtain rfl := List.mem_singleton.mp hev
    intro action haction
    rw [show (s.endpoint .right).turn _ = none from hturn] at haction
    cases haction

/-- Nothing is lost by the transports: every run of two peers in which no peer settles a migration
twice can be had over transports event by event, with controls in frames of either major, any flags
that route a session and any other fields, and each of them refused unless it arrives on the
transport of the current transaction. -/
theorem mclWire_realises {s₀ : MclWire} {t : MclPair}
    {tr : List (Event MclPair (MclSide × MclAction))} (hstart : s₀.Starts)
    (run : MclPairRun s₀.pair tr t) (hnew : ∀ ev ∈ tr, ev.before.SettlesNew ev.label)
    (carriages : ℕ → MclCarriage) :
    ∃ tr' s, MclWireRun s₀ tr' s ∧ s.pair = t ∧ tr'.length = tr.length ∧
      ∀ i ev, tr'[i]? = some ev → ∃ ev', tr[i]? = some ev' ∧ MclWireFollows ev ev' ∧
        ev.label.carriage = carriages i ∧ ev.before.SettlesNew ev.label := by
  obtain ⟨tr', s, run', hpair, -, hlen, hevents⟩ := hstart.sound.realises run hnew carriages
  exact ⟨tr', s, run', hpair, hlen, hevents⟩

/-- A migration in stable frames that carry a check. -/
theorem mclWire_realises_migration :
    let s₀ : MclWire := ⟨⟨⟨mclContactBegun mclContactRoleInitiator 0xA0 1, false, []⟩, []⟩,
      ⟨⟨mclContactBegun mclContactRoleResponder 0xB0 1, false, []⟩, []⟩⟩
    let carriage : MclCarriage := ⟨1, 0x12, 0xA0, 0, 0, 0, Or.inr rfl, rfl, by decide⟩
    ∃ tr s, MclWireRun s₀ tr s ∧ tr.length = 10 ∧
      (∀ (i : ℕ) ev, tr[i]? = some ev → ev.label.carriage = carriage) ∧
      s.pair.left.contact.activeTransport = 2 ∧ s.pair.right.contact.activeTransport = 2 := by
  intro s₀ carriage
  have hstart : s₀.Starts := MclWire.starts_begun 0xA0 0xB0 (by decide)
  have hmoved : ((script MclPair.perform s₀.pair mclMigrationTurns).map fun t =>
      (t.left.contact.activeTransport, t.right.contact.activeTransport)) = some (2, 2) := by decide
  obtain ⟨t, ht, hplaces⟩ := Option.map_eq_some_iff.mp hmoved
  obtain ⟨hleft, hright⟩ := Prod.mk.inj hplaces
  obtain ⟨tr, s, run, rfl, hlen, hevents⟩ :=
    mclWire_realises hstart (Run.of_script ht) (by decide) fun _ => carriage
  refine ⟨tr, s, run, hlen.trans (by decide), fun i ev hev => ?_, hleft, hright⟩
  obtain ⟨-, -, -, hcarriage, -⟩ := hevents i ev hev
  exact hcarriage

/-- There is no deadlock over transports either: in a run in which no peer settles a migration
twice, every state in which neither contact is closed leads on to both being `active` on one
transport, by packets that were sent before, by accepting and by abandoning. -/
theorem mclWire_no_deadlock {s₀ : MclWire} {tr : List (Event MclWire MclWireLabel)}
    (hstart : s₀.Starts) (run : MclWireRun s₀ tr s)
    (hnew : ∀ ev ∈ tr, ev.before.SettlesNew ev.label)
    (hopen : ∀ y, (s.endpoint y).peer.contact.state ≠ .closed) (carriage : MclCarriage) :
    ∃ s', Leads MclWireStep (fun s l => l.carriage = carriage ∧
        (∀ packet, l.move = .arrive packet → packet ∈ (s.endpoint l.side.other).packets) ∧
        ∀ action ∈ (s.endpoint l.side).turn l.move,
          s.pair.Allows MclAction.repairs (l.side, action)) s s' ∧
      ∀ y, (s'.endpoint y).peer.contact.state = .active ∧
        (s'.endpoint y).peer.contact.activeTransport = s.pair.destination := by
  have hsound := run.invariant_of (I := MclWire.Sound) hnew hstart.sound
    fun hs hstep hev => hstep.sound hs hev
  have hrecoverable : ∀ y, (s.pair.peer y).Recoverable (s.pair.peer y.other) := by
    intro y
    rw [MclWire.pair_peer, MclWire.pair_peer]
    exact (hsound.placed y).recoverable
  obtain ⟨_, _, hrecover⟩ := MclPair.recovers hrecoverable fun y => by
    rw [MclWire.pair_peer]
    exact hopen y
  obtain ⟨t, hleads, rfl, rfl⟩ := hrecover.leads s.pair .left rfl rfl
  have hfollow : ∃ s', Leads MclWireStep (fun s l => l.carriage = carriage ∧
      (∀ packet, l.move = .arrive packet → packet ∈ (s.endpoint l.side.other).packets) ∧
      ∀ action ∈ (s.endpoint l.side).turn l.move,
        s.pair.Allows MclAction.repairs (l.side, action)) s s' ∧ s'.pair = t ∧ s'.Sound := by
    refine hleads.lift hsound fun {s e' t} hs hstep hok => ?_
    obtain ⟨x, action⟩ := e'
    obtain ⟨move, s', hwire, hpair, hsound', hintent, harrive⟩ := hs.follow hstep hok.2.1 carriage
    refine ⟨_, s', hwire, hpair, hsound', rfl, harrive, fun taken htaken => ?_⟩
    rw [MclEndpoint.turn_intent hintent taken htaken]
    exact hok
  obtain ⟨s', hleads', rfl, -⟩ := hfollow
  refine ⟨s', hleads', (MclSide.forall_iff .left).mpr ⟨?_, ?_⟩⟩
  · exact ⟨hrecover.active.1, hrecover.place.1⟩
  · exact ⟨hrecover.active.2, hrecover.place.2⟩

/-- The left peer has committed and the right one has given up. -/
theorem mclWire_no_deadlock_abandoned :
    let s₀ : MclWire := ⟨⟨⟨mclContactBegun mclContactRoleInitiator 0xA0 1, false, []⟩, []⟩,
      ⟨⟨mclContactBegun mclContactRoleResponder 0xB0 1, false, []⟩, []⟩⟩
    ∃ tr s, MclWireRun s₀ tr s ∧ s.pair.left.contact.state = .committing ∧
      s.pair.right.contact.state = .active ∧ ∃ tr' s', MclWireRun s tr' s' ∧
        ∀ y, (s'.endpoint y).peer.contact.activeTransport = 2 := by
  intro s₀
  let carriage : MclCarriage := ⟨0, 0x02, 0xA0, 0, 0, 0, Or.inl rfl, rfl, by decide⟩
  have hstart : s₀.Starts := MclWire.starts_begun 0xA0 0xB0 (by decide)
  have habandoned : ((script MclPair.perform s₀.pair
      (mclMigrationTurns.take 8 ++ [(.right, .abandon)])).map fun t =>
      (t.left.contact.state, t.right.contact.state, t.destination)) =
      some (.committing, .active, 2) := by decide
  obtain ⟨t, ht, hstates⟩ := Option.map_eq_some_iff.mp habandoned
  simp only [Prod.mk.injEq] at hstates
  obtain ⟨hleft, hright, hdestination⟩ := hstates
  obtain ⟨tr, s, run, rfl, -, hnew⟩ :=
    hstart.sound.realises_new (Run.of_script ht) (by decide) carriage
  have hleft' : s.left.peer.contact.state = .committing := hleft
  have hright' : s.right.peer.contact.state = .active := hright
  obtain ⟨s', ⟨tr', run', -⟩, hdone⟩ := mclWire_no_deadlock hstart run hnew
    ((MclSide.forall_iff .left).mpr ⟨by simp [MclWire.endpoint, hleft'],
      by simp [MclWire.endpoint, MclSide.other, hright']⟩) carriage
  exact ⟨tr, s, run, hleft, hright, tr', s', run', fun y => (hdone y).2.trans hdestination⟩

end MclLink
