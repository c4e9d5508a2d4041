import MclLink.Lib.JointMove
import MclLink.Contact.Invariant
import MclLink.Peers.Effect

/-!
# Transport agreement

A pair of peers is an instance of two parties that move together: the pending offer is the
proposal, its role decides whose, and what was sent is what was said. Every action of a peer is
one move of its party or none, as long as no peer accepts a commit it has confirmed before.
-/

namespace MclLink

open LabelledRun JointMove

section Said

def MclMessage.offered : MclMessage → Option (UInt32 × UInt8)
  | .offer _ o => some (o.migrationRef, o.transport)
  | _ => none

def MclMessage.accepted : MclMessage → Option UInt32
  | .accept m .. => some m
  | _ => none

def MclMessage.committed : MclMessage → Option UInt32
  | .commit m _ => some m
  | _ => none

def MclMessage.confirmed : MclMessage → Option UInt32
  | .confirm m _ => some m
  | _ => none

/-- What a list of messages says on one subject. -/
def said {α : Type*} (f : MclMessage → Option α) (sent : List MclMessage) : Set α :=
  {x | x ∈ sent.filterMap f}

variable {α : Type*} {f : MclMessage → Option α} {message : MclMessage} {sent : List MclMessage}
  {x : α}

private theorem said_nil : said f [] = ∅ := by
  ext
  simp [said]

private theorem said_cons (h : f message = some x) :
    said f (message :: sent) = insert x (said f sent) := by
  ext
  simp [said, h]

theorem mem_said (hsent : message ∈ sent) (h : f message = some x) : x ∈ said f sent :=
  List.mem_filterMap.mpr ⟨message, hsent, h⟩

end Said

/-- The stage of the pending offer, as a proposal of this peer or of the other one. -/
def MclPeer.phase (p : MclPeer) : Phase UInt32 UInt8 :=
  match p.contact.state with
  | .none | .active => .idle
  | .offered =>
    if p.offering then .proposing p.contact.pendingMigrationRef p.contact.pendingTransport
    else .joined p.contact.pendingMigrationRef p.contact.pendingTransport
  | .agreed | .validating | .validated =>
    if p.offering then .bound p.contact.pendingMigrationRef p.contact.pendingTransport
    else .joined p.contact.pendingMigrationRef p.contact.pendingTransport
  | .committing => .committed p.contact.pendingMigrationRef p.contact.pendingTransport
  | .closed => .gone

/-- The party a peer is. -/
def MclPeer.party (p : MclPeer) : Party UInt32 UInt8 where
  place := p.contact.activeTransport
  phase := p.phase
  last := if p.contact.completedMigrationRef = mclContactMigrationNone then none
    else some p.contact.completedMigrationRef
  offers := said MclMessage.offered p.sent
  accepts := said MclMessage.accepted p.sent
  commits := said MclMessage.committed p.sent
  confirms := said MclMessage.confirmed p.sent

variable {p p' q : MclPeer} {action : MclAction}

theorem MclPeer.fresh_unsaid {m : UInt32} (h : p.fresh m = true) :
    (∀ t, (m, t) ∉ p.party.offers) ∧ m ∉ p.party.accepts := by
  have hall := List.all_eq_true.mp h
  constructor
  · intro t hm
    obtain ⟨message, hsent, heq⟩ := List.mem_filterMap.mp hm
    have hfresh := hall message hsent
    cases message <;> simp_all [MclMessage.offered]
  · intro hm
    obtain ⟨message, hsent, heq⟩ := List.mem_filterMap.mp hm
    have hfresh := hall message hsent
    cases message <;> simp_all [MclMessage.accepted]

private theorem MclPeerEffect.wellFormed {inbox : List MclMessage}
    (heff : MclPeerEffect inbox p action p') (h : MclContactWellFormed p.contact) :
    MclContactWellFormed p'.contact := by
  cases heff with
  | propose hs ho hcur => exact withOffer_wellFormed h (Or.inl hs) ho hcur
  | join _ hs ho hcur => exact withOffer_wellFormed h hs ho hcur
  | tieAbort hs =>
    exact retired_wellFormed h ((mclContactMigrationIsRevocable_iff _).mpr (Or.inl hs))
  | accept hs _ hzero =>
    refine (MclContactEffect.agree hs hzero fun hvalid => ?_).wellFormed h
    simp [MclContact.chosen, hvalid]
  | bind _ hs hzero hbound => exact (MclContactEffect.agree hs hzero hbound).wellFormed h
  | challenge hs => exact (MclContactEffect.challenge hs (h.session (by tauto))).wellFormed h
  | @probe bytes hs =>
    have hsession := h.session (by tauto)
    have hchallenged :=
      (@MclContactEffect.challenge p.contact bytes hs hsession).wellFormed h
    exact MclContactEffect.wellFormed (c := { p.contact with
      challenge := bytes, challengeValid := true, state := .validating })
      (.validate rfl rfl hsession) hchallenged
  | echo => exact h
  | validate hs =>
    exact (MclContactEffect.validate hs (h.challenge.mpr (by tauto))
      (h.session (by tauto))).wellFormed h
  | commit hs => exact (MclContactEffect.commitBegin hs).wellFormed h
  | settle _ hs => exact settled_wellFormed h (Or.inl hs)
  | reconfirm => exact h
  | conclude _ hs => exact settled_wellFormed h (Or.inr hs)
  | abandon hrev => exact retired_wellFormed h hrev
  | close => exact (MclContactEffect.close h.begun).wellFormed h

/-- The references of the commit an action delivers. -/
def MclAction.commitment : MclAction → Option (UInt32 × UInt32)
  | .receive (.commit m s) => some (m, s)
  | _ => none

/-- The commit would be accepted although the peer has confirmed its reference before. -/
def MclPeer.Resettles (p : MclPeer) (m s : UInt32) : Prop :=
  p.contact.state = .validated ∧ m = p.contact.pendingMigrationRef ∧ s = p.contact.sessionRef ∧
    m ∈ p.sent.filterMap MclMessage.confirmed

instance (m s : UInt32) : Decidable (p.Resettles m s) :=
  inferInstanceAs (Decidable (p.contact.state = .validated ∧ m = p.contact.pendingMigrationRef ∧
    s = p.contact.sessionRef ∧ m ∈ p.sent.filterMap MclMessage.confirmed))

section Phase

private theorem MclPeer.phase_active (hs : p.contact.state = .active) : p.phase = .idle := by
  simp [MclPeer.phase, hs]

private theorem MclPeer.phase_offered (hs : p.contact.state = .offered) : p.phase =
    if p.offering then .proposing p.contact.pendingMigrationRef p.contact.pendingTransport
    else .joined p.contact.pendingMigrationRef p.contact.pendingTransport := by
  simp [MclPeer.phase, hs]

theorem MclPeer.phase_agreed (hs : p.contact.state = .agreed ∨ p.contact.state = .validating ∨
    p.contact.state = .validated) : p.phase =
    if p.offering then .bound p.contact.pendingMigrationRef p.contact.pendingTransport
    else .joined p.contact.pendingMigrationRef p.contact.pendingTransport := by
  rcases hs with hs | hs | hs <;> simp [MclPeer.phase, hs]

theorem MclPeer.phase_committing (hs : p.contact.state = .committing) :
    p.phase = .committed p.contact.pendingMigrationRef p.contact.pendingTransport := by
  simp [MclPeer.phase, hs]

private theorem MclPeer.phase_open (h : mclContactMigrationIsRevocable p.contact = true) :
    p.phase ≠ .gone ∧ p.phase.vow = none := by
  rcases (mclContactMigrationIsRevocable_iff _).mp h with hs | hs | hs | hs <;>
    cases hrole : p.offering <;> simp [MclPeer.phase, hs, hrole, Phase.vow]

private theorem MclPeer.party_validating {c : MclContact}
    (hs : p.contact.state = .agreed ∨ p.contact.state = .validating ∨ p.contact.state = .validated)
    (hs' : c.state = .agreed ∨ c.state = .validating ∨ c.state = .validated)
    (hpending : c.pendingOffer = p.contact.pendingOffer)
    (hplace : c.activeTransport = p.contact.activeTransport ∧
      c.completedMigrationRef = p.contact.completedMigrationRef) :
    MclPeer.party { p with contact := c } = p.party := by
  have hm : c.pendingMigrationRef = p.contact.pendingMigrationRef :=
    congrArg MclOffer.migrationRef hpending
  have ht : c.pendingTransport = p.contact.pendingTransport := congrArg MclOffer.transport hpending
  have hphase : MclPeer.phase { p with contact := c } = p.phase := by
    rw [MclPeer.phase_agreed hs, MclPeer.phase_agreed (p := { p with contact := c }) hs', hm, ht]
  simp [MclPeer.party, hphase, hplace]

end Phase

section Party

private theorem MclPeer.party_propose {o : MclOffer} :
    MclPeer.party ⟨p.contact.withOffer o, true, .offer p.contact.localRef o :: p.sent⟩ =
      { p.party with
        phase := .proposing o.migrationRef o.transport
        offers := insert (o.migrationRef, o.transport) p.party.offers } :=
  Party.ext rfl rfl rfl (said_cons rfl) rfl rfl rfl

private theorem MclPeer.party_accept {s : UInt32} (hrole : p.offering = false) (hphase : p.phase =
    .joined p.contact.pendingMigrationRef p.contact.pendingTransport) :
    MclPeer.party ⟨p.contact.bound s, p.offering, .accept p.contact.pendingMigrationRef
      p.contact.pendingTransport p.contact.pendingProfile s :: p.sent⟩ =
      { p.party with accepts := insert p.contact.pendingMigrationRef p.party.accepts } := by
  refine Party.ext rfl ?_ rfl rfl (said_cons rfl) rfl rfl
  rw [hrole]
  exact hphase.symm

private theorem MclPeer.party_bind {s : UInt32} :
    MclPeer.party { p with contact := p.contact.bound s } = { p.party with
      phase := if p.offering
        then .bound p.contact.pendingMigrationRef p.contact.pendingTransport
        else .joined p.contact.pendingMigrationRef p.contact.pendingTransport } :=
  Party.ext rfl (@MclPeer.phase_agreed { p with contact := p.contact.bound s } (Or.inl rfl))
    rfl rfl rfl rfl rfl

private theorem MclPeer.party_commit :
    MclPeer.party ⟨{ p.contact with state := .committing }, p.offering,
      .commit p.contact.pendingMigrationRef p.contact.sessionRef :: p.sent⟩ =
      { p.party with
        phase := .committed p.contact.pendingMigrationRef p.contact.pendingTransport
        commits := insert p.contact.pendingMigrationRef p.party.commits } :=
  Party.ext rfl rfl rfl rfl rfl (said_cons rfl) rfl

private theorem MclPeer.party_settled {sent : List MclMessage}
    (hm : p.contact.pendingMigrationRef ≠ mclContactMigrationNone) :
    MclPeer.party ⟨p.contact.settled, p.offering, sent⟩ =
      { MclPeer.party { p with sent := sent } with
        place := p.contact.pendingTransport
        phase := .idle
        last := some p.contact.pendingMigrationRef } :=
  Party.ext rfl rfl (if_neg hm) rfl rfl rfl rfl

private theorem MclPeer.party_confirm {m s : UInt32} :
    MclPeer.party { p with sent := .confirm m s :: p.sent } =
      { p.party with confirms := insert m p.party.confirms } :=
  Party.ext rfl rfl rfl rfl rfl rfl (said_cons rfl)

end Party

/-- Every action of a peer is one move of its party, or none. -/
theorem MclPeerEffect.moves (heff : MclPeerEffect q.sent p action p')
    (h : MclContactWellFormed p.contact)
    (hnew : ∀ refs ∈ action.commitment, ¬ p.Resettles refs.1 refs.2) :
    p'.party = p.party ∨ q.party.Moves p.party p'.party := by
  cases heff with
  | propose hs _ _ hfresh =>
    obtain ⟨hoffers, haccepts⟩ := MclPeer.fresh_unsaid hfresh
    rw [MclPeer.party_propose]
    exact Or.inr (.propose (MclPeer.phase_active hs) hoffers haccepts)
  | @join source o hsent hs =>
    have hopen : p.phase ≠ .gone ∧ p.phase.vow = none := by
      rcases hs with hs | hs
      · simp [MclPeer.phase_active hs, Phase.vow]
      · exact MclPeer.phase_open ((mclContactMigrationIsRevocable_iff _).mpr (Or.inl hs))
    have hoffer : (o.migrationRef, o.transport) ∈ q.party.offers := mem_said hsent rfl
    exact Or.inr (.join hopen.1 hopen.2 hoffer)
  | tieAbort hs =>
    have hopen := MclPeer.phase_open ((mclContactMigrationIsRevocable_iff _).mpr (Or.inl hs))
    exact Or.inr (.retreat hopen.1 hopen.2)
  | abandon hrev =>
    have hopen := MclPeer.phase_open hrev
    exact Or.inr (.retreat hopen.1 hopen.2)
  | close => exact Or.inr .leave
  | echo => exact Or.inl rfl
  | accept hs hrole =>
    have hphase := MclPeer.phase_offered hs
    rw [if_neg (by simp [hrole])] at hphase
    rw [MclPeer.party_accept hrole hphase]
    exact Or.inr (.assent hphase)
  | bind hsent hs =>
    have hphase := MclPeer.phase_offered hs
    rw [MclPeer.party_bind]
    by_cases hrole : p.offering = true
    · rw [if_pos hrole] at hphase ⊢
      exact Or.inr (.bind hphase (mem_said hsent rfl))
    · rw [if_neg hrole] at hphase ⊢
      exact Or.inl (Party.ext rfl hphase.symm rfl rfl rfl rfl rfl)
  | challenge hs =>
    exact Or.inl (MclPeer.party_validating (Or.inl hs) (Or.inr (Or.inl rfl)) rfl ⟨rfl, rfl⟩)
  | probe hs =>
    exact Or.inl (MclPeer.party_validating (Or.inl hs) (Or.inr (Or.inr rfl)) rfl ⟨rfl, rfl⟩)
  | validate hs =>
    exact Or.inl (MclPeer.party_validating (Or.inr (Or.inl hs)) (Or.inr (Or.inr rfl)) rfl
      ⟨rfl, rfl⟩)
  | commit hs hrole =>
    have hphase := MclPeer.phase_agreed (Or.inr (Or.inr hs))
    rw [if_pos hrole] at hphase
    rw [MclPeer.party_commit]
    exact Or.inr (.commit hphase)
  | settle hsent hs =>
    have hphase : p.phase = .joined p.contact.pendingMigrationRef p.contact.pendingTransport ∨
        p.phase = .bound p.contact.pendingMigrationRef p.contact.pendingTransport := by
      rw [MclPeer.phase_agreed (Or.inr (Or.inr hs))]
      cases p.offering with
      | true => exact Or.inr rfl
      | false => exact Or.inl rfl
    obtain ⟨⟨hm, -⟩, -⟩ := h.pending ((mclContactMigrationInProgress_iff _).mpr (by tauto))
    rw [MclPeer.party_settled hm, MclPeer.party_confirm]
    exact Or.inr (.settle hphase (mem_said hsent rfl) fun hc =>
      hnew (_, _) rfl ⟨hs, rfl, rfl, hc⟩)
  | reconfirm hsent hs hm =>
    rw [MclPeer.party_confirm]
    exact Or.inr (.reconfirm (MclPeer.phase_active hs) (if_neg hm) (mem_said hsent rfl))
  | conclude hsent hs =>
    obtain ⟨⟨hm, -⟩, -⟩ := h.pending ((mclContactMigrationInProgress_iff _).mpr (by tauto))
    rw [MclPeer.party_settled hm]
    exact Or.inr (.conclude (MclPeer.phase_committing hs) (mem_said hsent rfl))

/-- A commit accepted by the step is not one the peer has confirmed before. -/
def MclPair.SettlesNew (s : MclPair) (e : MclSide × MclAction) : Prop :=
  ∀ refs ∈ e.2.commitment, ¬ (s.peer e.1).Resettles refs.1 refs.2

instance (s : MclPair) (e : MclSide × MclAction) : Decidable (s.SettlesNew e) :=
  Option.decidableForallMem e.2.commitment

/-- What a run keeps of a peer against the other one. -/
def MclPeer.MovesWith (p q : MclPeer) : Prop :=
  MclContactWellFormed p.contact ∧ Consistent p.party q.party

theorem MclPair.movesWith_step {s s' : MclPair} {e : MclSide × MclAction}
    (h : ∀ x, (s.peer x).MovesWith (s.peer x.other)) (hstep : s.perform e = some s')
    (hnew : s.SettlesNew e) : ∀ x, (s'.peer x).MovesWith (s'.peer x.other) := by
  obtain ⟨side, action⟩ := e
  obtain ⟨hwf, hcons⟩ := h side
  obtain ⟨hwf', hcons'⟩ := h side.other
  rw [MclSide.other_other] at hcons'
  refine MclPair.perform_forall hstep h fun p' heff => ?_
  have hmoves : Consistent p'.party (s.peer side.other).party ∧
      Consistent (s.peer side.other).party p'.party := by
    rcases heff.moves hwf hnew with hsame | hmove
    · rw [hsame]
      exact ⟨hcons, hcons'⟩
    · exact hcons.moves hcons' hmove
  exact ⟨⟨heff.wellFormed hwf, hmoves.1⟩, ⟨hwf', hmoves.2⟩⟩

theorem MclPair.Starts.movesWith {s : MclPair} (h : s.Starts) :
    ∀ x, (s.peer x).MovesWith (s.peer x.other) := by
  obtain ⟨a, b, ha, hb, hcur, rfl⟩ := h
  obtain ⟨_, _, t, ht, rfl⟩ := ha.eq_begun
  obtain ⟨_, _, t', ht', rfl⟩ := hb.eq_begun
  obtain rfl : t = t' := hcur
  have hparty : ∀ role localRef, MclPeer.party ⟨mclContactBegun role localRef t, false, []⟩ =
      Party.start t := fun _ _ => Party.ext rfl rfl rfl said_nil said_nil said_nil said_nil
  intro x
  cases x <;> refine ⟨mclContactBegun_wellFormed _ _ ht, ?_⟩ <;>
    simpa [MclPair.peer, MclSide.other, hparty] using Consistent.start t

/-- `p` has sent a commit that `q` has already followed. -/
def MclPeer.Awaits (p q : MclPeer) : Prop :=
  p.contact.state = .committing ∧ q.contact.state ≠ .committing ∧
    q.contact.activeTransport = p.contact.pendingTransport ∧
    q.contact.completedMigrationRef = p.contact.pendingMigrationRef

instance : Decidable (p.Awaits q) :=
  inferInstanceAs (Decidable (p.contact.state = .committing ∧ q.contact.state ≠ .committing ∧
    q.contact.activeTransport = p.contact.pendingTransport ∧
    q.contact.completedMigrationRef = p.contact.pendingMigrationRef))

/-- As long as no contact is closed, both are on one transport, or the one that is `committing`
is about to follow the other one to it. -/
def MclPair.TransportsAgree (s : MclPair) : Prop :=
  s.left.contact.state ≠ .closed → s.right.contact.state ≠ .closed →
    s.left.contact.activeTransport = s.right.contact.activeTransport ∨
      s.left.Awaits s.right ∨ s.right.Awaits s.left

instance (s : MclPair) : Decidable s.TransportsAgree :=
  inferInstanceAs (Decidable (s.left.contact.state ≠ .closed → s.right.contact.state ≠ .closed →
    s.left.contact.activeTransport = s.right.contact.activeTransport ∨
      s.left.Awaits s.right ∨ s.right.Awaits s.left))

theorem MclPeer.phase_gone_iff : p.phase = .gone ↔ p.contact.state = .closed := by
  cases hs : p.contact.state <;> cases hrole : p.offering <;> simp [MclPeer.phase, hs, hrole]

theorem MclPeer.phase_vow : p.phase.vow =
    if p.contact.state = .committing
    then some (p.contact.pendingMigrationRef, p.contact.pendingTransport) else none := by
  cases hs : p.contact.state <;> cases hrole : p.offering <;>
    simp [MclPeer.phase, hs, hrole, Phase.vow]

private theorem MclPeer.awaits_of_committed {m : UInt32} {t : UInt8} (hp : p.phase = .committed m t)
    (hq : q.phase.vow = none) (hplace : q.contact.activeTransport = t)
    (hlast : q.party.last = some m) : p.Awaits q := by
  have hvow : p.phase.vow = some (m, t) := by rw [hp]; rfl
  rw [MclPeer.phase_vow] at hvow hq
  obtain ⟨hs, href⟩ : p.contact.state = .committing ∧
      (p.contact.pendingMigrationRef, p.contact.pendingTransport) = (m, t) := by simpa using hvow
  obtain ⟨hm, ht⟩ := Prod.mk.inj href
  obtain ⟨-, hlast⟩ : q.contact.completedMigrationRef ≠ mclContactMigrationNone ∧
      q.contact.completedMigrationRef = m := by simpa [MclPeer.party] using hlast
  exact ⟨hs, by simpa using hq, hplace.trans ht.symm, hlast.trans hm.symm⟩

theorem MclPair.transportsAgree {s : MclPair} (h : ∀ x, (s.peer x).MovesWith (s.peer x.other)) :
    s.TransportsAgree := by
  intro hleft hright
  have hp : s.left.phase ≠ .gone := fun hgone => hleft (MclPeer.phase_gone_iff.mp hgone)
  have hq : s.right.phase ≠ .gone := fun hgone => hright (MclPeer.phase_gone_iff.mp hgone)
  obtain hsame | ⟨m, t, hcommitted, hfree, hplace, hlast⟩ | ⟨m, t, hcommitted, hfree, hplace, hlast⟩ :=
    (h .left).2.agreement (h .right).2 hp hq
  · exact Or.inl hsame
  · exact Or.inr (Or.inl (MclPeer.awaits_of_committed hcommitted hfree hplace hlast))
  · exact Or.inr (Or.inr (MclPeer.awaits_of_committed hcommitted hfree hplace hlast))

/-- In a run of two peers in which no peer settles a migration twice, the transports agree in
every state reached. -/
theorem mclPair_transports_agree {s₀ s : MclPair}
    {tr : List (Event MclPair (MclSide × MclAction))} (hstart : s₀.Starts)
    (run : MclPairRun s₀ tr s) (hnew : ∀ ev ∈ tr, ev.before.SettlesNew ev.label) :
    s.TransportsAgree :=
  MclPair.transportsAgree <| run.invariant_of
    (I := fun s => ∀ x, (s.peer x).MovesWith (s.peer x.other)) hnew hstart.movesWith
    fun hs hstep hev => MclPair.movesWith_step hs hstep hev

/-- The left peer moves the contact, and its commit arrives twice. -/
theorem mclPair_transports_agree_repeated :
    let s₀ : MclPair := ⟨⟨mclContactBegun mclContactRoleInitiator 0xA0 1, false, []⟩,
      ⟨mclContactBegun mclContactRoleResponder 0xB0 1, false, []⟩⟩
    let o : MclOffer := ⟨0x5001, 2, 1, 0xD00D, 30⟩
    let bytes : MclContactChallenge := Vector.replicate 8 7
    let actions : List (MclSide × MclAction) := [(.left, .offer o),
      (.right, .receive (.offer 0xA0 o)), (.right, .accept 0x11),
      (.left, .receive (.accept 0x5001 2 1 0x11)), (.left, .challenge bytes),
      (.right, .receive (.pathChallenge 0x5001 0x11 bytes)),
      (.left, .receive (.pathResponse 0x5001 0x11 bytes)), (.left, .commit),
      (.right, .receive (.commit 0x5001 0x11)), (.right, .receive (.commit 0x5001 0x11)),
      (.left, .receive (.confirm 0x5001 0x11))]
    ∃ s, script MclPair.perform s₀ actions = some s ∧ s.left.contact.activeTransport = 2 ∧
      s.TransportsAgree := by
  intro s₀ o bytes actions
  have hstart : s₀.Starts := MclPair.starts_begun 0xA0 0xB0 (by decide)
  have hmoved : ((script MclPair.perform s₀ actions).map fun s =>
      s.left.contact.activeTransport) = some 2 := by decide
  obtain ⟨s, hs, hplace⟩ := Option.map_eq_some_iff.mp hmoved
  exact ⟨s, hs, hplace, mclPair_transports_agree hstart (Run.of_script hs) (by decide)⟩

/-- The left peer moves the contact away and back. Its first offer, challenge and commit then
arrive again: the right peer repeats the first migration and the left one takes no part in it. -/
theorem mclPair_transports_differ :
    let s₀ : MclPair := ⟨⟨mclContactBegun mclContactRoleInitiator 0xA0 1, false, []⟩,
      ⟨mclContactBegun mclContactRoleResponder 0xB0 1, false, []⟩⟩
    let bytes : MclContactChallenge := Vector.replicate 8 7
    let accepted (o : MclOffer) : List (MclSide × MclAction) := [
      (.right, .receive (.offer 0xA0 o)), (.right, .accept 0x11)]
    let committed (m : UInt32) : List (MclSide × MclAction) := [
      (.right, .receive (.pathChallenge m 0x11 bytes)), (.right, .receive (.commit m 0x11))]
    let migration (o : MclOffer) : List (MclSide × MclAction) := (.left, .offer o) ::
      accepted o ++ [
      (.left, .receive (.accept o.migrationRef o.transport o.profile 0x11)),
      (.left, .challenge bytes), (.right, .receive (.pathChallenge o.migrationRef 0x11 bytes)),
      (.left, .receive (.pathResponse o.migrationRef 0x11 bytes)), (.left, .commit),
      (.right, .receive (.commit o.migrationRef 0x11)),
      (.left, .receive (.confirm o.migrationRef 0x11))]
    let o₁ : MclOffer := ⟨0x5001, 2, 1, 0xD00D, 30⟩
    let o₂ : MclOffer := ⟨0x5002, 1, 1, 0xBEEF, 30⟩
    let actions := migration o₁ ++ migration o₂ ++ accepted o₁ ++ committed 0x5001
    s₀.Starts ∧
      ((script MclPair.perform s₀ actions).map fun s =>
        (s.left.contact.state, s.left.contact.activeTransport, s.right.contact.state,
          s.right.contact.activeTransport)) = some (.active, 1, .active, 2) ∧
      ¬ ∀ tr s, MclPairRun s₀ tr s → s.TransportsAgree := by
  intro s₀ bytes accepted committed migration o₁ o₂ actions
  have hreplayed : ((script MclPair.perform s₀ actions).map fun s =>
      (s.left.contact.state, s.left.contact.activeTransport, s.right.contact.state,
        s.right.contact.activeTransport)) = some (.active, 1, .active, 2) := by decide
  refine ⟨MclPair.starts_begun 0xA0 0xB0 (by decide), hreplayed, fun hagree => ?_⟩
  obtain ⟨s, hs, hplaces⟩ := Option.map_eq_some_iff.mp hreplayed
  simp only [Prod.mk.injEq] at hplaces
  obtain ⟨hleft, hl, hright, hr⟩ := hplaces
  rcases hagree _ s (Run.of_script hs) (by simp [hleft]) (by simp [hright]) with hsame | haw | haw
  · rw [hl, hr] at hsame
    exact absurd hsame (by decide)
  · simp [MclPeer.Awaits, hleft] at haw
  · simp [MclPeer.Awaits, hright] at haw

end MclLink
