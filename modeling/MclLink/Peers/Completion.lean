import MclLink.Peers.Recovery

/-!
# A migration can always be completed

From wherever a run has led two open peers, either of them can bring both to any transport: after
the recovery of what is outstanding, one undisturbed exchange moves the contact, under the session
that is bound already or under a new one.
-/

namespace MclLink

open LabelledRun JointMove

/-- The peer stays open. -/
def MclAction.staysOpen : MclAction → Bool
  | .close => false
  | .offer _ | .accept _ | .challenge _ | .commit | .abandon | .receive _ => true

variable {s : MclPair} {x : MclSide} {p p' q q' : MclPeer} {o : MclOffer}

private theorem MclPeersLead.staysOpen (h : MclPeersLead MclAction.repairs p q p' q') :
    MclPeersLead MclAction.staysOpen p q p' q' := by
  intro s x hp hq
  obtain ⟨s', hleads, hp', hq'⟩ := h s x hp hq
  refine ⟨s', hleads.mono fun s e hok => ⟨?_, hok.2⟩, hp', hq'⟩
  have hrepairs := hok.1
  cases haction : e.2 <;> simp_all [MclAction.repairs, MclAction.staysOpen]

/-- Both peers have completed the migration. -/
structure MclPeersMigrated (o : MclOffer) (p q : MclPeer) : Prop where
  active : p.contact.state = .active ∧ q.contact.state = .active
  place : p.contact.activeTransport = o.transport ∧ q.contact.activeTransport = o.transport
  completed : p.contact.completedMigrationRef = o.migrationRef ∧
    q.contact.completedMigrationRef = o.migrationRef
  session : p.contact.sessionValid = true ∧ q.contact.sessionValid = true ∧
    p.contact.sessionRef = q.contact.sessionRef

private theorem MclPeersLead.migrate (hp : p.contact.state = .active)
    (hq : q.contact.state = .active) (hfresh : p.fresh o.migrationRef = true) (ho : o.WellFormed)
    (hcurp : o.transport ≠ p.contact.activeTransport)
    (hcurq : o.transport ≠ q.contact.activeTransport) (hshares : p.SharesSession q)
    (hwfp : MclContactWellFormed p.contact) (hwfq : MclContactWellFormed q.contact)
    (hnew : o.migrationRef ∉ q.party.confirms) :
    ∃ p' q', MclPeersLead MclAction.staysOpen p q p' q' ∧ MclPeersMigrated o p' q' := by
  let choice : UInt32 := if p.contact.sessionValid then p.contact.sessionRef else 1
  let ref : UInt32 := q.contact.chosen choice
  have hchoice : choice ≠ mclContactSessionNone := by
    simp only [choice]
    split_ifs with hvalid
    · exact hwfp.sessionRef.mp hvalid
    · decide
  have href : ref ≠ mclContactSessionNone := by
    simp only [ref, MclContact.chosen]
    split_ifs with hvalid
    · exact hwfq.sessionRef.mp hvalid
    · exact hchoice
  have hsame : p.contact.sessionValid = true → ref = p.contact.sessionRef := by
    intro hvalid
    simp only [ref, MclContact.chosen]
    split_ifs with hvalid'
    · exact (hshares hvalid hvalid').symm
    · simp [choice, hvalid]
  let bytes : MclContactChallenge := Vector.replicate mclContactChallengeSize 0
  let p₁ : MclPeer := ⟨p.contact.withOffer o, true, .offer p.contact.localRef o :: p.sent⟩
  let p₂ : MclPeer := { p₁ with contact := p₁.contact.bound ref }
  let p₃ : MclPeer :=
    ⟨{ p₂.contact with challenge := bytes, challengeValid := true, state := .validating }, true,
      .pathChallenge o.migrationRef ref bytes :: p₂.sent⟩
  let p₄ : MclPeer := { p₃ with contact := { p₃.contact with state := .validated } }
  let p₅ : MclPeer :=
    ⟨{ p₄.contact with state := .committing }, true, .commit o.migrationRef ref :: p₄.sent⟩
  let q₁ : MclPeer := ⟨q.contact.withOffer o, false, q.sent⟩
  let q₂ : MclPeer := ⟨q₁.contact.bound ref, false,
    .accept o.migrationRef o.transport o.profile ref :: q₁.sent⟩
  let q₃ : MclPeer :=
    ⟨{ q₂.contact with challenge := bytes, challengeValid := true, state := .validated }, false,
      .pathResponse o.migrationRef ref bytes :: q₂.sent⟩
  let q₄ : MclPeer :=
    ⟨q₃.contact.settled, false, .confirm o.migrationRef ref :: q₃.sent⟩
  have hoffer : MclPeersLead MclAction.staysOpen p q p₁ q :=
    .plain rfl (MclPeer.perform_offer hp hfresh ho hcurp) rfl rfl
  have hjoin : MclPeersLead MclAction.staysOpen q p₁ q₁ p₁ :=
    .receive rfl List.mem_cons_self (MclPeer.receive_offer hq ho hcurq) rfl
  have haccept : MclPeersLead MclAction.staysOpen q₁ p₁ q₂ p₁ := by
    refine .turn rfl (MclPeer.perform_accept (p := q₁) rfl rfl hchoice href)
      (by simp [MclAction.commitment]) fun _ hgiven _ hvalid => ?_
    rw [← Option.some.inj hgiven]
    exact if_pos hvalid
  have hbind : MclPeersLead MclAction.staysOpen p₁ q₂ p₂ q₂ :=
    .receive rfl List.mem_cons_self (MclPeer.receive_accept (p := p₁) rfl href hsame) rfl
  have hchallenge : MclPeersLead MclAction.staysOpen p₂ q₂ p₃ q₂ :=
    .plain rfl (MclPeer.perform_challenge (p := p₂) rfl rfl rfl) rfl rfl
  have hprobe : MclPeersLead MclAction.staysOpen q₂ p₃ q₃ p₃ :=
    .receive rfl List.mem_cons_self (MclPeer.receive_challenge (p := q₂) rfl rfl) rfl
  have hvalidate : MclPeersLead MclAction.staysOpen p₃ q₃ p₄ q₃ :=
    .receive rfl List.mem_cons_self (MclPeer.receive_response (p := p₃) rfl rfl rfl) rfl
  have hcommit : MclPeersLead MclAction.staysOpen p₄ q₃ p₅ q₃ :=
    .plain rfl (MclPeer.perform_commit (p := p₄) rfl rfl) rfl rfl
  have hsettle : MclPeersLead MclAction.staysOpen q₃ p₅ q₄ p₅ :=
    .settle (fun _ => rfl) List.mem_cons_self rfl rfl hnew
  have hconclude : MclPeersLead MclAction.staysOpen p₅ q₄
      { p₅ with contact := p₅.contact.settled } q₄ :=
    .receive rfl List.mem_cons_self (MclPeer.receive_confirm (p := p₅) rfl rfl) rfl
  refine ⟨_, _, hoffer.trans <| hjoin.symm.trans <| haccept.symm.trans <| hbind.trans <|
    hchallenge.trans <| hprobe.symm.trans <| hvalidate.trans <| hcommit.trans <|
    hsettle.symm.trans hconclude, ?_⟩
  exact ⟨⟨rfl, rfl⟩, ⟨rfl, rfl⟩, ⟨rfl, rfl⟩, rfl, rfl, rfl⟩

private theorem MclPeer.Recoverable.unconfirmed (h : p.Recoverable q) (h' : q.Recoverable p)
    {m : UInt32} (hfresh : p.fresh m = true) : m ∉ q.party.confirms := by
  intro hm
  obtain ⟨t, ht⟩ := h'.moves.2.accepted m (h.moves.2.committed m (h'.moves.2.confirmed m hm))
  exact (MclPeer.fresh_unsaid hfresh).1 t ht

/-- What both conditions on a run keep of a peer against the other one. -/
def MclPeer.Sound (p q : MclPeer) : Prop := p.Recoverable q ∧ p.SessionInvariant q

private theorem MclPair.sound_step {s s' : MclPair} {e : MclSide × MclAction}
    (h : ∀ y, (s.peer y).Sound (s.peer y.other)) (hstep : s.perform e = some s')
    (hnew : s.SettlesNew e) (hsafe : s.AcceptsSafely e) :
    ∀ y, (s'.peer y).Sound (s'.peer y.other) := fun y =>
  ⟨MclPair.recoverable_step (fun y => (h y).1) hstep hnew y,
    MclPair.sessionInvariant_step (fun y => (h y).2) hstep hsafe y⟩

private theorem MclPair.leads_to_offer (h : ∀ y, (s.peer y).Sound (s.peer y.other))
    (hactive : ∀ y, (s.peer y).contact.state = .active) {t : UInt8}
    (hplace : ∀ y, (s.peer y).contact.activeTransport = t) (ho : o.WellFormed)
    (hfresh : (s.peer x).fresh o.migrationRef = true) (hcur : o.transport ≠ t) :
    ∃ s', MclPairLeads MclAction.staysOpen s s' ∧
      MclPeersMigrated o (s'.peer x) (s'.peer x.other) := by
  have hback := h x.other
  rw [MclSide.other_other] at hback
  obtain ⟨p', q', hleads, hmigrated⟩ := MclPeersLead.migrate (hactive x) (hactive x.other) hfresh ho
    (by rw [hplace]; exact hcur) (by rw [hplace]; exact hcur) (h x).2.2 (h x).1.moves.1
    hback.1.moves.1 ((h x).1.unconfirmed hback.1 hfresh)
  obtain ⟨s', hleads', rfl, rfl⟩ := hleads s x rfl rfl
  exact ⟨s', hleads', hmigrated⟩

/-- Every migration can be completed: in a run in which no peer settles a migration twice or binds
a second session, every state in which neither contact is closed leads on to both being `active` on
the transport of any offer with a reference that its peer has not used. If an outstanding commit
does not lead there already, both have completed that very migration under one session. -/
theorem mclPair_can_migrate {s₀ s : MclPair} {tr : List (Event MclPair (MclSide × MclAction))}
    (hstart : s₀.Starts) (run : MclPairRun s₀ tr s)
    (hnew : ∀ ev ∈ tr, ev.before.SettlesNew ev.label)
    (hsafe : ∀ ev ∈ tr, ev.before.AcceptsSafely ev.label) (hleft : s.left.contact.state ≠ .closed)
    (hright : s.right.contact.state ≠ .closed) (ho : o.WellFormed)
    (hfresh : (s.peer x).fresh o.migrationRef = true) :
    ∃ s', MclPairLeads MclAction.staysOpen s s' ∧
      (∀ y, (s'.peer y).contact.state = .active ∧
        (s'.peer y).contact.activeTransport = o.transport) ∧
      (o.transport ≠ s.destination → MclPeersMigrated o (s'.peer x) (s'.peer x.other)) := by
  have hok : ∀ ev ∈ tr, ev.before.SettlesNew ev.label ∧ ev.before.AcceptsSafely ev.label :=
    fun ev hev => ⟨hnew ev hev, hsafe ev hev⟩
  have hsound : ∀ y, (s.peer y).Sound (s.peer y.other) := run.invariant_of
    (I := fun s => ∀ y, (s.peer y).Sound (s.peer y.other)) hok
    (fun y => ⟨hstart.recoverable y, hstart.sessionInvariant y⟩)
    fun hs hstep hev => MclPair.sound_step hs hstep hev.1 hev.2
  have hopen : ∀ y, (s.peer y).contact.state ≠ .closed := by
    intro y
    cases y with
    | left => exact hleft
    | right => exact hright
  obtain ⟨_, _, hrecover⟩ := MclPair.recovers (fun y => (hsound y).1) hopen
  obtain ⟨s₁, hleads₁, rfl, rfl⟩ := hrecover.leads.staysOpen s .left rfl rfl
  have hsound₁ : ∀ y, (s₁.peer y).Sound (s₁.peer y.other) := hleads₁.invariant
    (I := fun s => ∀ y, (s.peer y).Sound (s.peer y.other)) hsound
    fun hs hstep hok => MclPair.sound_step hs hstep hok.2.1 hok.2.2
  have hactive : ∀ y, (s₁.peer y).contact.state = .active :=
    (MclSide.forall_iff .left).mpr hrecover.active
  have hplace : ∀ y, (s₁.peer y).contact.activeTransport = s.destination :=
    (MclSide.forall_iff .left).mpr hrecover.place
  by_cases hcur : o.transport = s.destination
  · exact ⟨s₁, hleads₁, fun y => ⟨hactive y, (hplace y).trans hcur.symm⟩,
      fun hne => absurd hcur hne⟩
  · have hfresh₁ : (s₁.peer x).fresh o.migrationRef = true := by
      cases x with
      | left => exact (hrecover.fresh _).1 hfresh
      | right => exact (hrecover.fresh _).2 hfresh
    obtain ⟨s₂, hleads₂, hmigrated⟩ := MclPair.leads_to_offer hsound₁ hactive hplace ho hfresh₁ hcur
    refine ⟨s₂, hleads₁.trans hleads₂, (MclSide.forall_iff x).mpr ⟨?_, ?_⟩, fun _ => hmigrated⟩
    · exact ⟨hmigrated.active.1, hmigrated.place.1⟩
    · exact ⟨hmigrated.active.2, hmigrated.place.2⟩

/-- The left peer has committed to one transport and the right one has abandoned the migration;
the right peer then brings both to a third transport. -/
theorem mclPair_can_migrate_abandoned :
    let s₀ : MclPair := ⟨⟨mclContactBegun mclContactRoleInitiator 0xA0 1, false, []⟩,
      ⟨mclContactBegun mclContactRoleResponder 0xB0 1, false, []⟩⟩
    let o : MclOffer := ⟨0x5001, 2, 1, 0xD00D, 30⟩
    let bytes : MclContactChallenge := Vector.replicate 8 7
    let actions : List (MclSide × MclAction) := [(.left, .offer o),
      (.right, .receive (.offer 0xA0 o)), (.right, .accept 0x11),
      (.left, .receive (.accept 0x5001 2 1 0x11)), (.left, .challenge bytes),
      (.right, .receive (.pathChallenge 0x5001 0x11 bytes)),
      (.left, .receive (.pathResponse 0x5001 0x11 bytes)), (.left, .commit), (.right, .abandon)]
    ∃ s, script MclPair.perform s₀ actions = some s ∧ s.left.contact.state = .committing ∧
      ∃ s', MclPairLeads MclAction.staysOpen s s' ∧
        MclPeersMigrated ⟨0x5002, 3, 1, 0xBEEF, 30⟩ s'.right s'.left := by
  intro s₀ o bytes actions
  have hstart : s₀.Starts := MclPair.starts_begun 0xA0 0xB0 (by decide)
  have habandoned : ((script MclPair.perform s₀ actions).map fun s =>
      (s.left.contact.state, s.right.contact.state, s.right.fresh 0x5002, s.destination)) =
      some (.committing, .active, true, 2) := by decide
  obtain ⟨s, hs, hstates⟩ := Option.map_eq_some_iff.mp habandoned
  simp only [Prod.mk.injEq] at hstates
  obtain ⟨hleft, hright, hfresh, hdestination⟩ := hstates
  obtain ⟨s', hleads, -, hmigrated⟩ := mclPair_can_migrate (x := .right)
    (o := ⟨0x5002, 3, 1, 0xBEEF, 30⟩) hstart (Run.of_script hs) (by decide) (by decide)
    (by simp [hleft]) (by simp [hright]) ⟨by decide, by decide, by decide⟩ hfresh
  rw [hdestination] at hmigrated
  exact ⟨s, hs, hleft, s', hleads, hmigrated (by decide)⟩

end MclLink
