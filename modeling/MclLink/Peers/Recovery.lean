import MclLink.Peers.Backing

/-!
# No reachable deadlock

Whatever the channel did so far, two open peers can be brought back to `active` on one transport
by messages that were sent already, by accepting and by giving up. An outstanding commit is made
good and decides where they meet; if there is none, they stay where they are.
-/

namespace MclLink

open LabelledRun JointMove

/-- The action answers or gives up; it neither starts nor commits nor ends anything. -/
def MclAction.repairs : MclAction → Bool
  | .accept _ | .abandon | .receive _ => true
  | .offer _ | .challenge _ | .commit | .close => false

/-- The action is one of `P`, settles no migration again and binds no second session. -/
def MclPair.Allows (P : MclAction → Bool) (s : MclPair) (e : MclSide × MclAction) : Prop :=
  P e.2 = true ∧ s.SettlesNew e ∧ s.AcceptsSafely e

abbrev MclPairLeads (P : MclAction → Bool) : MclPair → MclPair → Prop :=
  Leads (fun s e s' => MclPair.perform s e = some s') (MclPair.Allows P)

/-- Wherever two peers are in the states `p` and `q`, they can go on to `p'` and `q'`. -/
def MclPeersLead (P : MclAction → Bool) (p q p' q' : MclPeer) : Prop :=
  ∀ (s : MclPair) x, s.peer x = p → s.peer x.other = q →
    ∃ s', MclPairLeads P s s' ∧ s'.peer x = p' ∧ s'.peer x.other = q'

/-- Where an outstanding commit leads, or else where the peers are. -/
def MclPair.destination (s : MclPair) : UInt8 :=
  if s.left.contact.state = .committing then s.left.contact.pendingTransport
  else if s.right.contact.state = .committing then s.right.contact.pendingTransport
  else s.left.contact.activeTransport

variable {P : MclAction → Bool} {s s' : MclPair} {x : MclSide} {action : MclAction}
  {p p' p'' q q' q'' : MclPeer}

section Leads

private theorem MclPeersLead.refl : MclPeersLead P p q p q := fun s _ hp hq => ⟨s, .refl s, hp, hq⟩

theorem MclPeersLead.trans (first : MclPeersLead P p q p' q') (rest : MclPeersLead P p' q' p'' q'') :
    MclPeersLead P p q p'' q'' := by
  intro s x hp hq
  obtain ⟨s', hleads, hp', hq'⟩ := first s x hp hq
  obtain ⟨s'', hleads', hp'', hq''⟩ := rest s' x hp' hq'
  exact ⟨s'', hleads.trans hleads', hp'', hq''⟩

theorem MclPeersLead.symm (h : MclPeersLead P p q p' q') : MclPeersLead P q p q' p' := by
  intro s x hq hp
  obtain ⟨s', hleads, hp', hq'⟩ := h s x.other hp (by rw [MclSide.other_other]; exact hq)
  rw [MclSide.other_other] at hq'
  exact ⟨s', hleads, hq', hp'⟩

theorem MclPeersLead.turn (hP : P action = true) (hperform : p.perform q.sent action = some p')
    (hnew : ∀ refs ∈ action.commitment, ¬ p.Resettles refs.1 refs.2)
    (hsafe : ∀ choice ∈ action.choice, p.contact.sessionValid = false →
      q.contact.sessionValid = true → choice = q.contact.sessionRef) :
    MclPeersLead P p q p' q := by
  rintro s x rfl rfl
  obtain ⟨s', hstep, hpeer, hother⟩ := MclPair.perform_ok hperform
  exact ⟨s', .step hstep ⟨hP, hnew, hsafe⟩, hpeer, hother⟩

theorem MclPeersLead.plain (hP : P action = true) (hperform : p.perform q.sent action = some p')
    (hcommit : action.commitment = none) (hchoice : action.choice = none) :
    MclPeersLead P p q p' q := by
  refine .turn hP hperform ?_ ?_
  · simp [hcommit]
  · simp [hchoice]

theorem MclPeersLead.receive {message : MclMessage} (hP : P (.receive message) = true)
    (hsent : message ∈ q.sent) (hreceive : p.receive message = p')
    (hcommit : (MclAction.receive message).commitment = none) : MclPeersLead P p q p' q :=
  .plain hP ((MclPeer.perform_receive hsent).trans (congrArg some hreceive)) hcommit rfl

theorem MclPeersLead.settle (hP : ∀ message, P (.receive message) = true)
    (hsent : .commit p.contact.pendingMigrationRef p.contact.sessionRef ∈ q.sent)
    (hs : p.contact.state = .validated) (hsession : p.contact.sessionValid = true)
    (hnew : p.contact.pendingMigrationRef ∉ p.party.confirms) :
    MclPeersLead P p q ⟨p.contact.settled, p.offering,
      .confirm p.contact.pendingMigrationRef p.contact.sessionRef :: p.sent⟩ q := by
  refine .turn (hP _) ((MclPeer.perform_receive hsent).trans
    (congrArg some (MclPeer.receive_commit hs hsession))) ?_ nofun
  rintro _ ⟨⟩ ⟨-, -, -, hconfirmed⟩
  exact hnew hconfirmed

private theorem MclPeersLead.quiet (hwf : MclContactWellFormed p.contact)
    (hopen : p.contact.state ≠ .closed) (hvow : p.contact.state ≠ .committing) :
    ∃ c, (∀ q, MclPeersLead MclAction.repairs p q { p with contact := c } q) ∧ c.state = .active ∧
      c.activeTransport = p.contact.activeTransport ∧
      c.sessionValid = p.contact.sessionValid ∧ c.sessionRef = p.contact.sessionRef := by
  by_cases hrev : mclContactMigrationIsRevocable p.contact = true
  · exact ⟨p.contact.retired, fun _ => .plain rfl (MclPeer.perform_abandon hrev) rfl rfl, rfl,
      rfl, rfl, rfl⟩
  · have hs : p.contact.state = .active := by
      rw [mclContactMigrationIsRevocable_iff] at hrev
      have hbegun := hwf.begun
      cases hs : p.contact.state <;> simp_all
    exact ⟨p.contact, fun _ => .refl, hs, rfl, rfl, rfl⟩

end Leads

section Committed

theorem MclPeer.Recoverable.free (h : p.Recoverable q) (hs : p.contact.state = .committing)
    (hopen : q.contact.state ≠ .closed) : q.contact.state ≠ .committing := by
  have hvow := (h.moves.2.ahead _ _ (MclPeer.phase_committing hs)
    fun hgone => hopen (MclPeer.phase_gone_iff.mp hgone)).1
  intro hq
  rw [show q.party.phase = q.phase from rfl, MclPeer.phase_vow, if_pos hq] at hvow
  simp at hvow

private theorem MclPeer.Recoverable.followed (h : p.Recoverable q)
    (hs : p.contact.state = .committing) (hopen : q.contact.state ≠ .closed) :
    (p.contact.pendingMigrationRef ∈ q.party.confirms ∧
        q.contact.activeTransport = p.contact.pendingTransport) ∨
      (p.contact.pendingMigrationRef ∉ q.party.confirms ∧
        q.contact.activeTransport = p.contact.activeTransport) := by
  obtain ⟨-, ⟨hc, hplace⟩ | ⟨hc, hplace, -⟩⟩ := h.moves.2.ahead _ _ (MclPeer.phase_committing hs)
    fun hgone => hopen (MclPeer.phase_gone_iff.mp hgone)
  · exact Or.inr ⟨hc, hplace⟩
  · exact Or.inl ⟨hc, hplace⟩

/-- Everything a peer needs to follow a commit of the other one is there to be received again. -/
structure MclPeer.Pledged (p : MclPeer) (source : UInt32) (o : MclOffer) (ref : UInt32)
    (bytes : MclContactChallenge) : Prop where
  offer : .offer source o ∈ p.sent
  challenge : .pathChallenge o.migrationRef ref bytes ∈ p.sent
  commit : .commit o.migrationRef ref ∈ p.sent

private theorem MclPeer.Recoverable.pledged (h : p.Recoverable q)
    (hs : p.contact.state = .committing) :
    ∃ source o bytes, p.Pledged source o p.contact.sessionRef bytes ∧ o.WellFormed ∧
      o.migrationRef = p.contact.pendingMigrationRef ∧
      o.transport = p.contact.pendingTransport := by
  obtain ⟨hrole, hcommit⟩ := h.backed.committed hs
  have hstate : p.contact.Accepted := Or.inr (Or.inr (Or.inr hs))
  obtain ⟨bytes, hchallenge⟩ := h.backed.challenged hrole hstate (by simp [hs])
  have hown : p.phase.own = some (p.contact.pendingMigrationRef, p.contact.pendingTransport) := by
    rw [MclPeer.phase_committing hs]
    rfl
  obtain ⟨message, hsent, hoffer⟩ := List.mem_filterMap.mp (h.moves.2.owned _ _ hown)
  cases message with
  | offer source o =>
    obtain ⟨hm, ht⟩ := Prod.mk.inj (Option.some.inj hoffer)
    refine ⟨source, o, bytes, ⟨hsent, ?_, ?_⟩, h.backed.answers _ hsent, hm, ht⟩
    · rw [hm]
      exact hchallenge
    · rw [hm]
      exact hcommit
  | _ => simp [MclMessage.offered] at hoffer

private theorem MclPeer.Recoverable.accepts (h : p.Recoverable q) (h' : q.Recoverable p)
    (hs : p.contact.state = .committing) (hopen : q.contact.state ≠ .closed) :
    (∃ t pr, .accept p.contact.pendingMigrationRef t pr p.contact.sessionRef ∈ q.sent) ∧
      q.contact.sessionValid = true ∧ q.contact.sessionRef = p.contact.sessionRef := by
  obtain ⟨hrole, -⟩ := h.backed.committed hs
  obtain ⟨t, pr, haccept⟩ := h.backed.accepted hrole (Or.inr (Or.inr (Or.inr hs)))
  exact ⟨⟨t, pr, haccept⟩, (h'.carries.sent haccept).resolve_left hopen⟩

private theorem MclPeersLead.concluded (h : p.Recoverable q) (h' : q.Recoverable p)
    (hs : p.contact.state = .committing) (hm : p.contact.pendingMigrationRef ∈ q.party.confirms) :
    MclPeersLead MclAction.repairs p q { p with contact := p.contact.settled } q := by
  obtain ⟨message, hsent, hconfirm⟩ := List.mem_filterMap.mp hm
  cases message with
  | confirm m ref =>
    obtain rfl := Option.some.inj hconfirm
    have hcommit := h'.backed.answers _ hsent
    obtain ⟨hvalid, rfl⟩ := (h.backed.answers _ hcommit).resolve_left (by simp [hs])
    exact .receive rfl hsent (MclPeer.receive_confirm hs hvalid) rfl
  | _ => simp [MclMessage.confirmed] at hconfirm

private theorem MclPeersLead.followed {source : UInt32} {o : MclOffer} {bytes : MclContactChallenge}
    (hpledged : q.Pledged source o p.contact.sessionRef bytes) (ho : o.WellFormed)
    (hs : p.contact.state = .active) (hvalid : p.contact.sessionValid = true)
    (hzero : p.contact.sessionRef ≠ mclContactSessionNone)
    (hcur : o.transport ≠ p.contact.activeTransport) (hnew : o.migrationRef ∉ p.party.confirms) :
    ∃ p', MclPeersLead MclAction.repairs p q p' q ∧ p'.contact.state = .active ∧
      p'.contact.activeTransport = o.transport ∧
      p'.sent = .confirm o.migrationRef p.contact.sessionRef ::
        .pathResponse o.migrationRef p.contact.sessionRef bytes ::
        .accept o.migrationRef o.transport o.profile p.contact.sessionRef :: p.sent := by
  let joined : MclPeer := ⟨p.contact.withOffer o, false, p.sent⟩
  -- it is bound, so that the reference it would choose does not matter
  have hchosen : joined.contact.chosen 1 = p.contact.sessionRef := if_pos hvalid
  let agreed : MclPeer := ⟨joined.contact.bound p.contact.sessionRef, false,
    .accept o.migrationRef o.transport o.profile p.contact.sessionRef :: p.sent⟩
  let validated : MclPeer :=
    ⟨{ agreed.contact with challenge := bytes, challengeValid := true, state := .validated }, false,
      .pathResponse o.migrationRef p.contact.sessionRef bytes :: agreed.sent⟩
  have hjoin : MclPeersLead MclAction.repairs p q joined q :=
    .receive rfl hpledged.offer (MclPeer.receive_offer hs ho hcur) rfl
  have haccept : joined.perform q.sent (.accept 1) = some agreed := by
    rw [MclPeer.perform_accept rfl rfl (by decide) (hchosen ▸ hzero), hchosen]
    rfl
  have hagree : MclPeersLead MclAction.repairs joined q agreed q := by
    refine .turn rfl haccept nofun fun choice _ hunbound => ?_
    rw [show joined.contact.sessionValid = true from hvalid] at hunbound
    exact absurd hunbound (by decide)
  have hprobe : MclPeersLead MclAction.repairs agreed q validated q :=
    .receive rfl hpledged.challenge (MclPeer.receive_challenge (p := agreed) rfl rfl) rfl
  have hsettle := MclPeersLead.settle (P := MclAction.repairs) (p := validated) (q := q)
    (fun _ => rfl) hpledged.commit rfl rfl hnew
  exact ⟨_, ((hjoin.trans hagree).trans hprobe).trans hsettle, rfl, rfl, rfl⟩

/-- The peers are back on one transport, and use up no reference that was not used before. -/
structure MclPeersRecover (t : UInt8) (p q p' q' : MclPeer) : Prop where
  leads : MclPeersLead MclAction.repairs p q p' q'
  active : p'.contact.state = .active ∧ q'.contact.state = .active
  place : p'.contact.activeTransport = t ∧ q'.contact.activeTransport = t
  fresh : ∀ m, (p.fresh m = true → p'.fresh m = true) ∧ (q.fresh m = true → q'.fresh m = true)

private theorem MclPeersRecover.committed (h : p.Recoverable q) (h' : q.Recoverable p)
    (hs : p.contact.state = .committing) (hopen : q.contact.state ≠ .closed) :
    ∃ p' q', MclPeersRecover p.contact.pendingTransport p q p' q' := by
  have hsession : p.contact.sessionValid = true := h.moves.1.session (by tauto)
  obtain ⟨c, hquiet, hactive, hcur, hvalid, href⟩ :=
    MclPeersLead.quiet h'.moves.1 hopen (h.free hs hopen)
  -- If the commit is confirmed it is concluded, else it is followed first.
  rcases h.followed hs hopen with ⟨hm, hplace⟩ | ⟨hm, hplace⟩
  · have hconclude := MclPeersLead.concluded h h' hs hm
    exact ⟨_, _, hconclude.trans (hquiet _).symm, ⟨rfl, hactive⟩, ⟨rfl, hcur.trans hplace⟩,
      fun m => ⟨id, id⟩⟩
  · obtain ⟨source, o, bytes, hpledged, ho, hmref, ht⟩ := h.pledged hs
    obtain ⟨⟨t, pr, haccept⟩, hbound, hsame⟩ := h.accepts h' hs hopen
    have hprogress := (mclContactMigrationInProgress_iff p.contact).mpr (by tauto)
    have hsame' : c.sessionRef = p.contact.sessionRef := href.trans hsame
    obtain ⟨q', hfollow, hactive', hcur', hsent'⟩ :=
      @MclPeersLead.followed { q with contact := c } p source o bytes
        (by rw [hsame']; exact hpledged) ho hactive (hvalid.trans hbound)
        (by rw [hsame']; exact h.moves.1.sessionRef.mp hsession)
        (by rw [hcur, hplace, ht]; exact (h.moves.1.pending hprogress).2) (by rw [hmref]; exact hm)
    have hconfirm : .confirm p.contact.pendingMigrationRef p.contact.sessionRef ∈ q'.sent := by
      rw [hsent', hmref, hsame']
      exact List.mem_cons_self
    refine ⟨{ p with contact := p.contact.settled }, q', ((hquiet p).trans hfollow).symm.trans
      (.receive rfl hconfirm (MclPeer.receive_confirm hs hsession) rfl), ⟨rfl, hactive'⟩,
      ⟨rfl, hcur'.trans ht⟩, fun m => ⟨id, fun hfresh => ?_⟩⟩
    -- the reference was accepted before
    have hne := List.all_eq_true.mp hfresh _ haccept
    rw [MclPeer.fresh, hsent', hmref]
    simp only [List.all_cons, Bool.true_and, Bool.and_eq_true]
    exact ⟨hne, hfresh⟩

private theorem MclPeersRecover.uncommitted (h : p.Recoverable q) (h' : q.Recoverable p)
    (hp : p.contact.state ≠ .closed ∧ p.contact.state ≠ .committing)
    (hq : q.contact.state ≠ .closed ∧ q.contact.state ≠ .committing) :
    ∃ p' q', MclPeersRecover p.contact.activeTransport p q p' q' := by
  have hfree : ∀ {r : MclPeer}, r.contact.state ≠ .closed ∧ r.contact.state ≠ .committing →
      r.phase ≠ .gone ∧ r.phase.vow = none := fun hr =>
    ⟨fun hgone => hr.1 (MclPeer.phase_gone_iff.mp hgone), by rw [MclPeer.phase_vow, if_neg hr.2]⟩
  have hplace : p.contact.activeTransport = q.contact.activeTransport :=
    h.moves.2.together (hfree hp).1 (hfree hq).1 (hfree hp).2 (hfree hq).2
  obtain ⟨c, hquiet, hactive, hcur, -⟩ := MclPeersLead.quiet h.moves.1 hp.1 hp.2
  obtain ⟨c', hquiet', hactive', hcur', -⟩ := MclPeersLead.quiet h'.moves.1 hq.1 hq.2
  exact ⟨_, _, (hquiet q).trans (hquiet' _).symm, ⟨hactive, hactive'⟩,
    ⟨hcur, hcur'.trans hplace.symm⟩, fun m => ⟨id, id⟩⟩

end Committed

private theorem MclPeersRecover.symm {t : UInt8} (h : MclPeersRecover t p q p' q') :
    MclPeersRecover t q p q' p' :=
  ⟨h.leads.symm, h.active.symm, h.place.symm, fun m => (h.fresh m).symm⟩

/-- From any state that a run reaches, both peers recover. -/
theorem MclPair.recovers (h : ∀ y, (s.peer y).Recoverable (s.peer y.other))
    (hopen : ∀ y, (s.peer y).contact.state ≠ .closed) :
    ∃ p' q', MclPeersRecover s.destination s.left s.right p' q' := by
  by_cases hleft : s.left.contact.state = .committing
  · rw [MclPair.destination, if_pos hleft]
    exact MclPeersRecover.committed (h .left) (h .right) hleft (hopen .right)
  · by_cases hright : s.right.contact.state = .committing
    · rw [MclPair.destination, if_neg hleft, if_pos hright]
      obtain ⟨q', p', hrecover⟩ :=
        MclPeersRecover.committed (h .right) (h .left) hright (hopen .left)
      exact ⟨p', q', hrecover.symm⟩
    · rw [MclPair.destination, if_neg hleft, if_neg hright]
      exact MclPeersRecover.uncommitted (h .left) (h .right) ⟨hopen .left, hleft⟩
        ⟨hopen .right, hright⟩

/-- There is no deadlock: in a run in which no peer settles a migration twice, every state in
which neither contact is closed leads on to both being `active` on one transport, the pending one
of the peer that is `committing` if there is one, by messages that were sent before, by accepting
and by abandoning. -/
theorem mclPair_no_deadlock {s₀ s : MclPair} {tr : List (Event MclPair (MclSide × MclAction))}
    (hstart : s₀.Starts) (run : MclPairRun s₀ tr s)
    (hnew : ∀ ev ∈ tr, ev.before.SettlesNew ev.label) (hleft : s.left.contact.state ≠ .closed)
    (hright : s.right.contact.state ≠ .closed) :
    ∃ s', MclPairLeads MclAction.repairs s s' ∧
      (s'.left.contact.state = .active ∧ s'.right.contact.state = .active) ∧
      s'.left.contact.activeTransport = s.destination ∧
      s'.right.contact.activeTransport = s.destination := by
  have hrecoverable := run.invariant_of
    (I := fun s => ∀ x, (s.peer x).Recoverable (s.peer x.other)) hnew hstart.recoverable
    fun hs hstep hev => MclPair.recoverable_step hs hstep hev
  have hopen : ∀ y, (s.peer y).contact.state ≠ .closed := by
    intro y
    cases y with
    | left => exact hleft
    | right => exact hright
  obtain ⟨_, _, hrecover⟩ := MclPair.recovers hrecoverable hopen
  obtain ⟨s', hleads, rfl, rfl⟩ := hrecover.leads s .left rfl rfl
  exact ⟨s', hleads, hrecover.active, hrecover.place⟩

/-- The left peer has committed, and the right one has abandoned the migration: it comes back to
it and both are on the new transport. -/
theorem mclPair_no_deadlock_abandoned :
    let s₀ : MclPair := ⟨⟨mclContactBegun mclContactRoleInitiator 0xA0 1, false, []⟩,
      ⟨mclContactBegun mclContactRoleResponder 0xB0 1, false, []⟩⟩
    let o : MclOffer := ⟨0x5001, 2, 1, 0xD00D, 30⟩
    let bytes : MclContactChallenge := Vector.replicate 8 7
    let actions : List (MclSide × MclAction) := [(.left, .offer o),
      (.right, .receive (.offer 0xA0 o)), (.right, .accept 0x11),
      (.left, .receive (.accept 0x5001 2 1 0x11)), (.left, .challenge bytes),
      (.right, .receive (.pathChallenge 0x5001 0x11 bytes)),
      (.left, .receive (.pathResponse 0x5001 0x11 bytes)), (.left, .commit), (.right, .abandon)]
    ∃ s, script MclPair.perform s₀ actions = some s ∧ s.left.contact.state = .committing ∧
      s.right.contact.state = .active ∧ ∃ s', MclPairLeads MclAction.repairs s s' ∧
        s'.left.contact.activeTransport = 2 ∧ s'.right.contact.activeTransport = 2 := by
  intro s₀ o bytes actions
  have hstart : s₀.Starts := MclPair.starts_begun 0xA0 0xB0 (by decide)
  have habandoned : ((script MclPair.perform s₀ actions).map fun s =>
      (s.left.contact.state, s.right.contact.state, s.destination)) =
      some (.committing, .active, 2) := by decide
  obtain ⟨s, hs, hstates⟩ := Option.map_eq_some_iff.mp habandoned
  simp only [Prod.mk.injEq] at hstates
  obtain ⟨hleft, hright, hdestination⟩ := hstates
  obtain ⟨s', hleads, -, hplace⟩ := mclPair_no_deadlock hstart (Run.of_script hs) (by decide)
    (by simp [hleft]) (by simp [hright])
  rw [hdestination] at hplace
  exact ⟨s, hs, hleft, hright, s', hleads, hplace⟩

end MclLink
