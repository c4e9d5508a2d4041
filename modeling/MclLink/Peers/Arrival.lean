import MclLink.Peers.Completion
import MclLink.Peers.Wire

/-!
# Where controls arrive

A control belongs to the transport its migration was offered for: it is sent on that one, and a
contact that has a use for it listens there. So neither the rule that refuses a control from any
other transport nor the carriage in frames costs two peers anything, and what they can do by
exchanging messages they can do over their transports.
-/

namespace MclLink

open LabelledRun JointMove

/-- The message has to do with a migration to `t`, which the peer that speaks has offered or is
answering. -/
def MclMessage.Belongs (p q : MclPeer) (t : UInt8) : MclMessage → Prop
  | .offer .. | .accept .. => True
  | .pathChallenge m .. | .commit m _ => (m, t) ∈ p.party.offers
  | .pathResponse m .. | .confirm m _ => (m, t) ∈ q.party.offers

/-- A message fits the contact that has just sent it, and what that contact has heard. -/
def MclMessage.Fits (c : MclContact) (heard : List MclMessage) : MclMessage → Prop
  | .offer .. | .accept .. => True
  | .pathChallenge m s _ => c.state = .validating ∧ m = c.pendingMigrationRef ∧ s = c.sessionRef
  | .pathResponse m s bytes => c.state = .validated ∧ m = c.pendingMigrationRef ∧
      s = c.sessionRef ∧ .pathChallenge m s bytes ∈ heard
  | .commit m s => c.state = .committing ∧ m = c.pendingMigrationRef ∧ s = c.sessionRef
  | .confirm m s => c.state = .active ∧ m ≠ mclContactMigrationNone ∧
      m = c.completedMigrationRef ∧ s = c.sessionRef

/-- What a run in which nobody settles a migration twice keeps besides. -/
structure MclPeer.Placed (p q : MclPeer) : Prop where
  recoverable : p.Recoverable q
  located : p.party.Located q.party
  probing : p.contact.state = .validating → p.offering = true

variable {p p' q : MclPeer} {action : MclAction} {message : MclMessage} {m s : UInt32} {t : UInt8}
  {bytes : MclContactChallenge} {c : MclContact} {inbox : List MclMessage}

section Placed

private theorem MclPeerEffect.probing (heff : MclPeerEffect inbox p action p')
    (hrole : ∀ bytes, action = .challenge bytes → p.offering = true)
    (h : p.contact.state = .validating → p.offering = true) :
    p'.contact.state = .validating → p'.offering = true := by
  cases heff with
  | challenge => exact fun _ => hrole _ rfl
  | echo => exact h
  | reconfirm => exact h
  | _ => simp

private theorem MclPair.placed_step {s s' : MclPair} {e : MclSide × MclAction}
    (h : ∀ x, (s.peer x).Placed (s.peer x.other)) (hstep : s.perform e = some s')
    (hnew : s.SettlesNew e) : ∀ x, (s'.peer x).Placed (s'.peer x.other) := by
  have hrecoverable := MclPair.recoverable_step (fun x => (h x).recoverable) hstep hnew
  obtain ⟨side, action⟩ := e
  obtain ⟨-, hrole⟩ := MclPeer.perform_ready (MclPair.perform_peer hstep).1
  have hback := h side.other
  rw [MclSide.other_other] at hback
  have hrest : ∀ x, (s'.peer x).party.Located (s'.peer x.other).party ∧
      ((s'.peer x).contact.state = .validating → (s'.peer x).offering = true) := by
    refine MclPair.perform_forall (R := fun p q => p.party.Located q.party ∧
      (p.contact.state = .validating → p.offering = true)) hstep
      (fun x => ⟨(h x).located, (h x).probing⟩) fun p' heff => ?_
    have hcons := (h side).recoverable.moves.2
    rcases heff.moves (h side).recoverable.moves.1 hnew with hsame | hmove
    · rw [hsame]
      exact ⟨⟨(h side).located, heff.probing hrole (h side).probing⟩, hback.located, hback.probing⟩
    · exact ⟨⟨(h side).located.moves hcons hback.recoverable.moves.2 hmove,
        heff.probing hrole (h side).probing⟩, hback.located.beside hmove, hback.probing⟩
  exact fun x => ⟨hrecoverable x, (hrest x).1, (hrest x).2⟩

private theorem MclPair.Starts.placed {s : MclPair} (h : s.Starts) :
    ∀ x, (s.peer x).Placed (s.peer x.other) := by
  have hrecoverable := h.recoverable
  obtain ⟨a, b, ha, hb, -, rfl⟩ := h
  obtain ⟨_, _, _, -, rfl⟩ := ha.eq_begun
  obtain ⟨_, _, _, -, rfl⟩ := hb.eq_begun
  intro x
  refine ⟨hrecoverable x, ?_, ?_⟩
  · cases x <;> exact nofun
  · cases x <;> exact nofun

private theorem MclPeer.Placed.probed (h : p.Placed q) (h' : q.Placed p)
    (hs : p.contact.state = .agreed ∨ p.contact.state = .validating ∨ p.contact.state = .validated)
    (hsaid : .pathChallenge p.contact.pendingMigrationRef s bytes ∈ q.sent) :
    p.offering = false ∧ p.party.phase =
      .joined p.contact.pendingMigrationRef p.contact.pendingTransport := by
  have hphase := MclPeer.phase_agreed hs
  cases hrole : p.offering with
  | false => exact ⟨rfl, by rw [hrole] at hphase; exact hphase⟩
  | true =>
    obtain ⟨t, pr, ref, haccept⟩ := h'.recoverable.backed.answers _ hsaid
    have hown : p.party.phase.own =
        some (p.contact.pendingMigrationRef, p.contact.pendingTransport) := by
      rw [hrole] at hphase
      show p.phase.own = _
      rw [hphase]
      rfl
    have haccepted : p.contact.pendingMigrationRef ∈ p.party.accepts := mem_said haccept rfl
    exact absurd haccepted (h.recoverable.moves.2.fresh _ _ hown)

private theorem MclPeer.Placed.completed (h : p.Placed q)
    (hm : p.contact.completedMigrationRef ≠ mclContactMigrationNone)
    (hcommit : p.contact.completedMigrationRef ∈ q.party.commits) :
    (p.contact.completedMigrationRef, p.contact.activeTransport) ∈ q.party.offers := by
  rcases h.located _ (if_neg hm) with ⟨-, ho⟩ | ⟨hc, -⟩
  · exact ho
  · exact absurd hcommit (h.recoverable.moves.2.single _ hc)

end Placed

section Said

private theorem mclContactChallengeRepeat_pending {again : Bool}
    (h : mclContactChallengeRepeat c m s (some bytes) (some again) = (.ok, some true)) :
    c.state = .validated ∧ m = c.pendingMigrationRef ∧ s = c.sessionRef := by
  simp only [mclContactChallengeRepeat] at h
  split_ifs at h with hs hvalid hcheck hequals
  · simp at h
  · simp at h
  · simp at h
  · simp at h
  · obtain ⟨-, hm, hsession⟩ := (mclContactCheckTransaction_ok_iff c m s).mp (not_not.mp hcheck)
    exact ⟨not_not.mp hs, hm, hsession⟩

private theorem MclPeer.receive_challenge_cases (p : MclPeer) (m s : UInt32)
    (bytes : MclContactChallenge) : p.receive (.pathChallenge m s bytes) = p ∨
      ((p.contact.state = .agreed ∨ p.contact.state = .validated) ∧
        m = p.contact.pendingMigrationRef ∧ s = p.contact.sessionRef ∧
        ∃ c, p.receive (.pathChallenge m s bytes) =
            ⟨c, p.offering, .pathResponse m s bytes :: p.sent⟩ ∧ c.state = .validated ∧
          m = c.pendingMigrationRef ∧ s = c.sessionRef) := by
  by_cases hagreed : p.contact.state = .agreed
  · by_cases hdrop : m ≠ p.contact.pendingMigrationRef ∨ s ≠ p.contact.sessionRef
    · left
      simp only [MclPeer.receive]
      rw [if_pos hagreed, if_pos hdrop]
    · obtain ⟨rfl, rfl⟩ : m = p.contact.pendingMigrationRef ∧ s = p.contact.sessionRef := by
        simpa using hdrop
      cases hsession : p.contact.sessionValid with
      | true =>
        exact Or.inr ⟨Or.inl hagreed, rfl, rfl, _, MclPeer.receive_challenge hagreed hsession, rfl,
          rfl, rfl⟩
      | false =>
        left
        simp [MclPeer.receive, hagreed, mclContactValidationBegin, hsession]
  · simp only [MclPeer.receive, MclPeer.repeats, if_neg hagreed]
    split_ifs with hvalidated hrepeat
    · obtain ⟨-, hm, hsession⟩ := mclContactChallengeRepeat_pending (of_decide_eq_true hrepeat)
      exact Or.inr ⟨Or.inr hvalidated, hm, hsession, p.contact, rfl, hvalidated, hm, hsession⟩
    · exact Or.inl rfl
    · exact Or.inl rfl

private theorem MclPeer.speaks (h : p.perform inbox action = some p')
    (hwf : MclContactWellFormed p.contact) : p'.sent = p.sent ∨
      ∃ message, p'.sent = message :: p.sent ∧ message.Fits p'.contact inbox := by
  rcases MclPeer.perform_effect h with rfl | heff
  · exact Or.inl rfl
  · obtain ⟨hinbox, -⟩ := MclPeer.perform_ready h
    have hchallenged : ∀ m s bytes, action = .receive (.pathChallenge m s bytes) →
        p'.sent = p.sent ∨
          ∃ message, p'.sent = message :: p.sent ∧ message.Fits p'.contact inbox := by
      rintro m s bytes rfl
      rw [MclPeer.perform_receive (hinbox _ rfl)] at h
      obtain rfl := Option.some.inj h
      rcases p.receive_challenge_cases m s bytes with hsame | ⟨-, -, -, c, hreceive, hs, hm, hsession⟩
      · exact Or.inl (congrArg MclPeer.sent hsame)
      · rw [hreceive]
        exact Or.inr ⟨_, rfl, hs, hm, hsession, hinbox _ rfl⟩
    cases heff with
    | propose | accept => exact Or.inr ⟨_, rfl, trivial⟩
    | join | tieAbort | bind | validate | conclude | abandon | close => exact Or.inl rfl
    | challenge => exact Or.inr ⟨_, rfl, rfl, rfl, rfl⟩
    | probe | echo => exact hchallenged _ _ _ rfl
    | commit => exact Or.inr ⟨_, rfl, rfl, rfl, rfl⟩
    | settle _ hs =>
      have hprogress := (mclContactMigrationInProgress_iff p.contact).mpr (by tauto)
      exact Or.inr ⟨_, rfl, rfl, (hwf.pending hprogress).1.1, rfl, rfl⟩
    | reconfirm _ hs hm => exact Or.inr ⟨_, rfl, hs, hm, rfl, rfl⟩

end Said

section Transport

private theorem controlTransport_active (hs : c.state = .active) (x : UInt8) :
    mclContactControlTransport c (some x) = (.ok, some c.activeTransport) := by
  simp [mclContactControlTransport, hs, mclContactMigrationInProgress]

private theorem MclPeer.Placed.belongs (h : p.Placed q) (h' : q.Placed p) (hsaid : message ∈ p.sent)
    (hfits : message.Fits p.contact q.sent) : message.Belongs p q p.contact.controlTransport := by
  have hwf := h.recoverable.moves.1
  have hcons := h.recoverable.moves.2
  have hpending : mclContactMigrationInProgress p.contact = true →
      p.contact.controlTransport = p.contact.pendingTransport := fun hprogress => by
    rw [MclContact.controlTransport, mclContactControlTransport_pending hprogress]
    rfl
  have hprogress := mclContactMigrationInProgress_iff p.contact
  cases message with
  | offer | accept => trivial
  | pathChallenge m s bytes =>
    obtain ⟨hs, rfl, -⟩ := hfits
    have hown : p.phase.own = some (p.contact.pendingMigrationRef, p.contact.pendingTransport) := by
      rw [MclPeer.phase_agreed (by tauto), if_pos (h.probing hs)]
      rfl
    rw [hpending (hprogress.mpr (by tauto))]
    exact hcons.owned _ _ hown
  | pathResponse m s bytes =>
    obtain ⟨hs, rfl, -, hheard⟩ := hfits
    rw [hpending (hprogress.mpr (by tauto))]
    exact hcons.joined _ _ (h.probed h' (by tauto) hheard).2
  | commit m s =>
    obtain ⟨hs, rfl, -⟩ := hfits
    have hown : p.phase.own = some (p.contact.pendingMigrationRef, p.contact.pendingTransport) := by
      rw [MclPeer.phase_committing hs]
      rfl
    rw [hpending (hprogress.mpr (by tauto))]
    exact hcons.owned _ _ hown
  | confirm m s =>
    obtain ⟨hs, hm, rfl, -⟩ := hfits
    have hcommit := h.recoverable.backed.answers _ hsaid
    have hplace : p.contact.controlTransport = p.contact.activeTransport := by
      rw [MclContact.controlTransport, controlTransport_active hs]
      rfl
    rw [hplace]
    exact h.completed hm (mem_said hcommit rfl)

/-- A control that changes anything arrives on the transport its contact listens on. -/
theorem MclPeer.Placed.listens (h : p.Placed q) (h' : q.Placed p) (hsaid : message ∈ q.sent)
    (hbelongs : message.Belongs q p t) (hcontrol : message.control.isSome)
    (hreacts : p.receive message ≠ p) (x : UInt8) :
    mclContactControlTransport p.contact (some x) = (.ok, some t) := by
  have hwf := h.recoverable.moves.1
  have hcons := h.recoverable.moves.2
  have hcons' := h'.recoverable.moves.2
  have hprogress := mclContactMigrationInProgress_iff p.contact
  cases message with
  | offer | accept => cases hcontrol
  | pathChallenge m s bytes =>
    obtain ⟨hs, rfl, -⟩ := (p.receive_challenge_cases m s bytes).resolve_left hreacts
    have hjoined := hcons.joined _ _ (h.probed h' (by tauto) hsaid).2
    rw [mclContactControlTransport_pending (hprogress.mpr (by tauto)),
      hcons'.unique _ _ _ hjoined hbelongs]
  | pathResponse m s bytes =>
    have hstate : p.contact.state = .validating ∧ m = p.contact.pendingMigrationRef := by
      simp only [MclPeer.receive] at hreacts
      rcases hr : mclContactValidationResponse p.contact m s (some bytes) with ⟨st, c'⟩
      rw [hr] at hreacts
      by_cases hst : st = .ok
      · subst hst
        obtain ⟨⟨-, hm, -⟩, -, ⟨hs, -⟩ | ⟨-, rfl⟩⟩ := mclContactValidationResponse_ok hr
        · exact ⟨hs, hm⟩
        · exact absurd rfl hreacts
      · rw [(mclContactValidationResponse_effect hr).refused hst] at hreacts
        exact absurd rfl hreacts
    obtain ⟨hs, rfl⟩ := hstate
    have hown : p.phase.own = some (p.contact.pendingMigrationRef, p.contact.pendingTransport) := by
      rw [MclPeer.phase_agreed (by tauto), if_pos (h.probing hs)]
      rfl
    rw [mclContactControlTransport_pending (hprogress.mpr (by tauto)),
      hcons.unique _ _ _ (hcons.owned _ _ hown) hbelongs]
  | commit m s =>
    have hcommit : m ∈ q.party.commits := mem_said hsaid rfl
    have heff := (MclPeer.receive_commit_effect hsaid).resolve_left hreacts
    generalize p.receive (.commit m s) = p' at heff
    cases heff with
    | settle _ hs =>
      have hphase := MclPeer.phase_agreed (Or.inr (Or.inr hs))
      rw [mclContactControlTransport_pending (hprogress.mpr (by tauto))]
      cases hrole : p.offering with
      | false =>
        rw [hrole] at hphase
        rw [hcons'.unique _ _ _ (hcons.joined _ _ hphase) hbelongs]
      | true =>
        have hown : p.phase.own =
            some (p.contact.pendingMigrationRef, p.contact.pendingTransport) := by
          rw [hphase, if_pos hrole]
          rfl
        exact absurd (hcons'.committed _ hcommit) (hcons.fresh _ _ hown)
    | reconfirm _ hs hm =>
      rw [controlTransport_active hs, hcons'.unique _ _ _ (h.completed hm hcommit) hbelongs]
  | confirm m s =>
    have heff := (MclPeer.receive_confirm_effect hsaid).resolve_left hreacts
    generalize p.receive (.confirm m s) = p' at heff
    cases heff with
    | conclude _ hs =>
      have hown : p.phase.own =
          some (p.contact.pendingMigrationRef, p.contact.pendingTransport) := by
        rw [MclPeer.phase_committing hs]
        rfl
      rw [mclContactControlTransport_pending (hprogress.mpr (by tauto)),
        hcons.unique _ _ _ (hcons.owned _ _ hown) hbelongs]

end Transport

section Carried

variable {carriage : MclCarriage} {e : MclEndpoint}

private theorem MclMessage.Fits.packet (h : message.Fits c inbox) (hwf : MclContactWellFormed c)
    (carriage : MclCarriage) (t : UInt8) : ∃ packet, message.packet carriage t = some packet := by
  have hpending : mclContactMigrationInProgress c = true →
      c.pendingMigrationRef ≠ mclContactMigrationNone := fun hprogress => (hwf.pending hprogress).1.1
  have hprogress := mclContactMigrationInProgress_iff c
  have hsession : c.sessionValid = true → c.sessionRef ≠ mclContactSessionNone := hwf.sessionRef.mp
  have hframe : ∀ k, message.control = some k → mclHandoffFormat.Legal k →
      ∃ packet, (message.control.bind (mclHandoffPack carriage)).map (MclPacket.frame t) =
        some packet := by
    intro k hcontrol hk
    rw [hcontrol, Option.bind_some, mclHandoffPack_eq carriage hk]
    exact ⟨_, rfl⟩
  cases message with
  | offer | accept => exact ⟨_, rfl⟩
  | pathChallenge m s bytes =>
    obtain ⟨hs, rfl, rfl⟩ := h
    have hm := hpending (hprogress.mpr (by tauto))
    have href := hsession (hwf.session (by tauto))
    refine hframe ⟨mclHandoffOpPathChallenge, c.pendingMigrationRef, c.sessionRef, bytes, 1⟩ ?_
      ⟨rfl, hm, href, rfl⟩
    rw [MclMessage.control, mclHandoffMakePathChallenge, mclHandoffMakeWithChallenge_ok _ _ hm href]
    rfl
  | pathResponse m s bytes =>
    obtain ⟨hs, rfl, rfl, -⟩ := h
    have hm := hpending (hprogress.mpr (by tauto))
    have href := hsession (hwf.session (by tauto))
    refine hframe ⟨mclHandoffOpPathResponse, c.pendingMigrationRef, c.sessionRef, bytes, 1⟩ ?_
      ⟨rfl, hm, href, rfl⟩
    rw [MclMessage.control, mclHandoffMakePathResponse, mclHandoffMakeWithChallenge_ok _ _ hm href]
    rfl
  | commit m s =>
    obtain ⟨hs, rfl, rfl⟩ := h
    have hm := hpending (hprogress.mpr (by tauto))
    have href := hsession (hwf.session (by tauto))
    refine hframe ⟨mclHandoffOpCommit, c.pendingMigrationRef, c.sessionRef,
      mclHandoffClearChallenge, 0⟩ ?_ ⟨rfl, hm, href, rfl⟩
    rw [MclMessage.control, mclHandoffMakeCommit, mclHandoffMakeCommon_ok _ _ hm href]
    rfl
  | confirm m s =>
    obtain ⟨hs, hm, rfl, rfl⟩ := h
    have href := hsession (hwf.memory hm (by simp [hs]))
    refine hframe ⟨mclHandoffOpConfirm, c.completedMigrationRef, c.sessionRef,
      mclHandoffClearChallenge, 0⟩ ?_ ⟨rfl, hm, href, rfl⟩
    rw [MclMessage.control, mclHandoffMakeConfirm, mclHandoffMakeCommon_ok _ _ hm href]
    rfl

private theorem said_mono {α : Type*} {f : MclMessage → Option α} {sent sent' : List MclMessage}
    (h : sent ⊆ sent') : said f sent ⊆ said f sent' := by
  intro x hx
  obtain ⟨message, hm, heq⟩ := List.mem_filterMap.mp hx
  exact mem_said (h hm) heq

private theorem MclMessage.Belongs.mono {q' : MclPeer} (h : message.Belongs p q t)
    (hp : p.sent ⊆ p'.sent) (hq : q.sent ⊆ q'.sent) : message.Belongs p' q' t := by
  cases message with
  | offer | accept => trivial
  | pathChallenge | commit => exact said_mono hp h
  | pathResponse | confirm => exact said_mono hq h

/-- Everything that was said is on its way, on the transport it belongs to. -/
def MclEndpoint.Carried (e : MclEndpoint) (q : MclPeer) : Prop :=
  ∀ message ∈ e.peer.sent, ∃ carriage t, message.Belongs e.peer q t ∧
    ∃ packet ∈ e.packets, message.packet carriage t = some packet

private theorem MclEndpoint.Carried.hear {q' : MclPeer} (h : e.Carried q)
    (hsent : q.sent ⊆ q'.sent) : e.Carried q' := by
  intro message hm
  obtain ⟨carriage, t, hbelongs, hpacket⟩ := h message hm
  exact ⟨carriage, t, hbelongs.mono (fun _ hm => hm) hsent, hpacket⟩

private theorem MclEndpoint.Carried.emit (h : e.Carried q) (hp' : p'.Placed q) (hq : q.Placed p')
    (hspoken : p'.sent = e.peer.sent ∨
      ∃ message, p'.sent = message :: e.peer.sent ∧ message.Fits p'.contact q.sent)
    (carriage : MclCarriage) : (e.emit carriage p').Carried q := by
  have hsent : e.peer.sent ⊆ p'.sent := by
    rcases hspoken with hsame | ⟨message, hnew, -⟩
    · rw [hsame]
      exact fun _ hm => hm
    · rw [hnew]
      exact List.subset_cons_self message e.peer.sent
  have hold : ∀ message ∈ e.peer.sent, ∃ carriage' t, message.Belongs p' q t ∧
      ∃ packet ∈ (e.emit carriage p').packets, message.packet carriage' t = some packet := by
    intro message hm
    obtain ⟨carriage', t, hbelongs, packet, hpacket, hpack⟩ := h message hm
    exact ⟨carriage', t, hbelongs.mono hsent fun _ hm => hm, packet,
      List.mem_append_right _ hpacket, hpack⟩
  rcases hspoken with hsame | ⟨message, hnew, hfits⟩
  · intro message hm
    have hm' : message ∈ e.peer.sent := by
      rw [← hsame]
      exact hm
    exact hold message hm'
  · intro message' hm
    have hm' : message' ∈ message :: e.peer.sent := by
      rw [← hnew]
      exact hm
    rcases List.mem_cons.mp hm' with rfl | hm'
    · obtain ⟨packet, hpack⟩ := MclMessage.Fits.packet hfits hp'.recoverable.moves.1
        carriage p'.contact.controlTransport
      refine ⟨carriage, _, hp'.belongs hq hm hfits, packet, List.mem_append_left _ ?_, hpack⟩
      have hlast : p'.sent.take (p'.sent.length - e.peer.sent.length) = [message'] := by
        simp [hnew]
      rw [hlast]
      exact List.mem_filterMap.mpr ⟨message', List.mem_singleton_self _, hpack⟩
    · exact hold message' hm'

end Carried

section Wire

variable {s s' : MclWire} {l : MclWireLabel}

/-- What a run over transports keeps, as long as nobody settles a migration twice. -/
structure MclWire.Sound (s : MclWire) : Prop where
  honest : ∀ x, (s.endpoint x).Honest
  placed : ∀ x, (s.endpoint x).peer.Placed (s.endpoint x.other).peer
  carried : ∀ x, (s.endpoint x).Carried (s.endpoint x.other).peer

theorem MclWire.Starts.sound (h : s.Starts) : s.Sound where
  honest x := by simp [MclEndpoint.Honest, h.2 x]
  placed x := by
    have hplaced := h.1.placed x
    rw [MclWire.pair_peer, MclWire.pair_peer] at hplaced
    exact hplaced
  carried x := by
    obtain ⟨a, b, -, -, -, hpair⟩ := h.1
    have hnone : ∀ y, (s.endpoint y).peer.sent = [] := by
      intro y
      rw [← MclWire.pair_peer, hpair]
      cases y <;> rfl
    intro message hm
    rw [hnone] at hm
    cases hm

theorem MclWireStep.sound (hstep : MclWireStep s l s') (h : s.Sound) (hnew : s.SettlesNew l) :
    s'.Sound := by
  obtain ⟨hhonest, hpair⟩ := hstep.refines h.honest
  have hplaced : ∀ x, (s'.endpoint x).peer.Placed (s'.endpoint x.other).peer := by
    have hbefore : ∀ x, (s.pair.peer x).Placed (s.pair.peer x.other) := by
      intro x
      rw [MclWire.pair_peer, MclWire.pair_peer]
      exact h.placed x
    have hafter : ∀ x, (s'.pair.peer x).Placed (s'.pair.peer x.other) := by
      rcases hpair with hsame | ⟨action, hturn, hperform⟩
      · rw [hsame]
        exact hbefore
      · exact MclPair.placed_step hbefore hperform (hnew action hturn)
    intro x
    rw [← MclWire.pair_peer, ← MclWire.pair_peer]
    exact hafter x
  refine ⟨hhonest, hplaced, ?_⟩
  rcases MclEndpoint.perform_cases hstep.performs with ⟨-, hsame⟩ | ⟨action, p', -, hp', hemit⟩
  · have hall : ∀ x, s'.endpoint x = s.endpoint x :=
      (MclSide.forall_iff l.side).mpr ⟨hsame, hstep.other⟩
    intro x
    rw [hall, hall]
    exact h.carried x
  · have hinbox : l.move.inbox ⊆ (s.endpoint l.side.other).peer.sent := hstep.inbox h.honest
    have hacting := hplaced l.side
    have hwaiting := hplaced l.side.other
    rw [MclSide.other_other] at hwaiting
    rw [hstep.other, hemit] at hacting hwaiting
    have hcarried := h.carried l.side.other
    rw [MclSide.other_other] at hcarried
    refine (MclSide.forall_iff l.side).mpr ⟨?_, ?_⟩
    · rw [hstep.other, hemit]
      refine (h.carried l.side).emit hacting hwaiting ?_ l.carriage
      exact MclPeer.speaks (MclPeer.perform_hear hinbox hp') (h.placed l.side).recoverable.moves.1
    · rw [MclSide.other_other, hstep.other, hemit]
      exact hcarried.hear (MclPeer.perform_sent hp')

end Wire

end MclLink
