import MclLink.Peers.Backing

/-!
# One transaction at both ends

A reference names one offer of a peer, and is challenged under at most once. So what the two ends of
a transaction hold of it is the same, whatever order the messages arrive in.
-/

namespace MclLink

open LabelledRun

/-- A challenge of its own is out. -/
def MclContact.Probing (c : MclContact) : Prop :=
  c.state = .validating ∨ c.state = .validated ∨ c.state = .committing

/-- What a peer said of its own offers: no reference names two, and it challenged under one only
after the other peer had accepted it. -/
structure MclPeer.Ledger (p q : MclPeer) : Prop where
  once : ∀ source source' o o', .offer source o ∈ p.sent → .offer source' o' ∈ p.sent →
    o.migrationRef = o'.migrationRef → o = o'
  probes : ∀ m s bytes, .pathChallenge m s bytes ∈ p.sent →
    (∃ source o, .offer source o ∈ p.sent ∧ o.migrationRef = m) ∧
      ∃ t pr s', .accept m t pr s' ∈ q.sent

/-- Where a peer stands in a transaction, and the messages that brought it there. -/
structure MclPeer.Stands (p q : MclPeer) : Prop where
  own : p.offering = true → mclContactMigrationInProgress p.contact = true →
    (∃ source, .offer source p.contact.pendingOffer ∈ p.sent) ∧
      ∀ t pr s, .accept p.contact.pendingMigrationRef t pr s ∉ p.sent
  adopted : p.offering = false → mclContactMigrationInProgress p.contact = true →
    ∃ source, .offer source p.contact.pendingOffer ∈ q.sent
  accepted : p.offering = true → p.contact.Accepted →
    ∃ t pr s, .accept p.contact.pendingMigrationRef t pr s ∈ q.sent
  challenged : p.offering = true → mclContactMigrationInProgress p.contact = true →
    ∀ s bytes, .pathChallenge p.contact.pendingMigrationRef s bytes ∈ p.sent →
      p.contact.Probing ∧ p.contact.sessionRef = s ∧ p.contact.challenge = bytes
  probed : p.offering = false → p.contact.state = .validated →
    .pathChallenge p.contact.pendingMigrationRef p.contact.sessionRef p.contact.challenge ∈ q.sent
  prober : p.contact.state = .validating → p.offering = true

variable {p p' q q' : MclPeer} {action : MclAction}

private theorem MclPeer.fresh_unused {m : UInt32} (h : p.fresh m = true) :
    (∀ source o, .offer source o ∈ p.sent → o.migrationRef ≠ m) ∧
      ∀ t pr s, .accept m t pr s ∉ p.sent := by
  have hall := List.all_eq_true.mp h
  constructor
  · intro source o hoffer
    simpa using hall _ hoffer
  · intro t pr s haccept
    simpa using hall _ haccept

section Steps

private theorem MclPeerEffect.ledger {inbox : List MclMessage}
    (heff : MclPeerEffect inbox p action p') (h : p.Ledger q) (hstands : p.Stands q)
    (hrole : ∀ bytes, action = .challenge bytes → p.offering = true) : p'.Ledger q := by
  cases heff with
  | @propose o hs ho hcur hfresh =>
    obtain ⟨hunused, -⟩ := MclPeer.fresh_unused hfresh
    constructor
    · intro source source' o₁ o₂ hfirst hsecond hsame
      simp only [List.mem_cons, MclMessage.offer.injEq] at hfirst hsecond
      rcases hfirst with ⟨-, rfl⟩ | hfirst <;> rcases hsecond with ⟨-, rfl⟩ | hsecond
      · rfl
      · exact absurd hsame.symm (hunused _ _ hsecond)
      · exact absurd hsame (hunused _ _ hfirst)
      · exact h.once _ _ _ _ hfirst hsecond hsame
    · intro m s bytes hprobe
      obtain ⟨⟨source, o', hoffer, hm⟩, haccept⟩ := h.probes m s bytes (by simpa using hprobe)
      exact ⟨⟨source, o', List.mem_cons_of_mem _ hoffer, hm⟩, haccept⟩
  | @challenge bytes hs =>
    have hoffering := hrole bytes rfl
    have hprogress := (mclContactMigrationInProgress_iff p.contact).mpr (by tauto)
    obtain ⟨⟨source, hoffer⟩, -⟩ := hstands.own hoffering hprogress
    refine ⟨by simpa using h.once, fun m s bytes' hprobe => ?_⟩
    simp only [List.mem_cons, MclMessage.pathChallenge.injEq] at hprobe
    rcases hprobe with ⟨rfl, -, -⟩ | hprobe
    · exact ⟨⟨source, _, List.mem_cons_of_mem _ hoffer, rfl⟩,
        hstands.accepted hoffering (Or.inl hs)⟩
    · obtain ⟨⟨source, o', hoffer, hm⟩, haccept⟩ := h.probes _ _ _ hprobe
      exact ⟨⟨source, o', List.mem_cons_of_mem _ hoffer, hm⟩, haccept⟩
  | _ => exact ⟨by simpa using h.once, by simpa using h.probes⟩

private theorem MclPeer.Stands.idle (h : mclContactMigrationInProgress p.contact = false) :
    p.Stands q := by
  have hcases := mclContactMigrationInProgress_iff p.contact
  rw [h] at hcases
  constructor
  · simp [h]
  · simp [h]
  · intro _ hs
    simp only [MclContact.Accepted] at hs
    tauto
  · simp [h]
  · tauto
  · tauto

private theorem MclPeer.Stands.say {message : MclMessage} (h : p.Stands q)
    (hprobe : ∀ m s bytes, message ≠ .pathChallenge m s bytes)
    (haccept : ∀ m t pr s, message = .accept m t pr s → p.offering = false) :
    MclPeer.Stands { p with sent := message :: p.sent } q := by
  refine ⟨fun hoffering hprogress => ?_, h.adopted, h.accepted, ?_, h.probed, h.prober⟩
  · obtain ⟨⟨source, hoffer⟩, hunused⟩ := h.own hoffering hprogress
    refine ⟨⟨source, List.mem_cons_of_mem _ hoffer⟩, fun t pr s hm => ?_⟩
    rcases List.mem_cons.mp hm with hsame | hm
    · rw [haccept _ _ _ _ hsame.symm] at hoffering
      cases hoffering
    · exact hunused t pr s hm
  · intro hoffering hprogress s bytes hm
    rcases List.mem_cons.mp hm with hsame | hm
    · exact absurd hsame.symm (hprobe _ _ _)
    · exact h.challenged hoffering hprogress s bytes hm

private theorem MclPeerEffect.stands (heff : MclPeerEffect q.sent p action p') (h : p.Ledger q)
    (hstands : p.Stands q) (hback : q.Ledger p)
    (hrole : ∀ bytes, action = .challenge bytes → p.offering = true)
    (hinbox : ∀ message, action = .receive message → message ∈ q.sent) : p'.Stands q := by
  have hcases := mclContactMigrationInProgress_iff p.contact
  cases heff with
  | @propose o hs ho hcur hfresh =>
    obtain ⟨hunused, hunaccepted⟩ := MclPeer.fresh_unused hfresh
    refine ⟨fun _ _ => ⟨⟨_, List.mem_cons_self⟩, ?_⟩, by simp, by simp [MclContact.Accepted],
      fun _ _ s bytes hprobe => ?_, by simp, by simp⟩
    · simpa using hunaccepted
    · obtain ⟨⟨source, o', hoffer, hm⟩, -⟩ := h.probes _ s bytes (by simpa using hprobe)
      exact absurd hm (hunused source o' hoffer)
  | @join source o hoffer hs ho hcur =>
    exact ⟨by simp, fun _ _ => ⟨source, hoffer⟩, by simp, by simp, by simp, by simp⟩
  | tieAbort | settle | conclude | abandon | close => exact .idle rfl
  | accept hs hresponder =>
    have hprogress := hcases.mpr (Or.inl hs)
    exact ⟨by simp [hresponder], fun _ _ => hstands.adopted hresponder hprogress,
      by simp [hresponder], by simp [hresponder], by simp, by simp⟩
  | bind haccept hs =>
    have hprogress := hcases.mpr (Or.inl hs)
    refine ⟨fun hoffering _ => hstands.own hoffering hprogress,
      fun hoffering _ => hstands.adopted hoffering hprogress, fun _ _ => ⟨_, _, _, haccept⟩,
      fun hoffering _ s bytes hprobe => ?_, by simp, by simp⟩
    obtain ⟨hprobing, -⟩ := hstands.challenged hoffering hprogress s bytes hprobe
    simp [MclContact.Probing, hs] at hprobing
  | @challenge bytes hs =>
    have hprogress := hcases.mpr (by tauto)
    have hoffering := hrole bytes rfl
    obtain ⟨⟨source, hoffer⟩, hunaccepted⟩ := hstands.own hoffering hprogress
    refine ⟨fun _ _ => ⟨⟨source, List.mem_cons_of_mem _ hoffer⟩, by simpa using hunaccepted⟩,
      by simp [hoffering], fun _ _ => hstands.accepted hoffering (Or.inl hs),
      fun _ _ s bytes' hprobe => ?_, by simp, fun _ => hoffering⟩
    simp only [List.mem_cons, MclMessage.pathChallenge.injEq] at hprobe
    rcases hprobe with ⟨-, rfl, rfl⟩ | hprobe
    · exact ⟨Or.inl rfl, rfl, rfl⟩
    · obtain ⟨hprobing, -⟩ := hstands.challenged hoffering hprogress s bytes' hprobe
      simp [MclContact.Probing, hs] at hprobing
  | @probe bytes hs =>
    have hprogress := hcases.mpr (by tauto)
    have hprobe := hinbox _ rfl
    have hresponder : p.offering = false := by
      cases hoffering : p.offering with
      | false => rfl
      | true =>
        -- its challenger would have been accepted by this very peer
        obtain ⟨-, t, pr, s, haccept⟩ := hback.probes _ _ _ hprobe
        exact absurd haccept ((hstands.own hoffering hprogress).2 t pr s)
    exact ⟨by simp [hresponder], fun _ _ => hstands.adopted hresponder hprogress,
      by simp [hresponder], by simp [hresponder], fun _ _ => hprobe, by simp⟩
  | echo => exact hstands.say (by simp) (by simp)
  | validate hs =>
    have hprogress := hcases.mpr (by tauto)
    have hoffering := hstands.prober hs
    refine ⟨fun _ _ => hstands.own hoffering hprogress, by simp [hoffering],
      fun _ _ => hstands.accepted hoffering (Or.inr (Or.inl hs)), fun _ _ s bytes hprobe => ?_,
      by simp [hoffering], by simp⟩
    exact ⟨Or.inr (Or.inl rfl), (hstands.challenged hoffering hprogress s bytes hprobe).2⟩
  | commit hs hoffering =>
    have hprogress := hcases.mpr (by tauto)
    obtain ⟨⟨source, hoffer⟩, hunaccepted⟩ := hstands.own hoffering hprogress
    refine ⟨fun _ _ => ⟨⟨source, List.mem_cons_of_mem _ hoffer⟩, by simpa using hunaccepted⟩,
      by simp [hoffering], fun _ _ => hstands.accepted hoffering (Or.inr (Or.inr (Or.inl hs))),
      fun _ _ s bytes hprobe => ?_, by simp, by simp⟩
    have hheld := hstands.challenged hoffering hprogress s bytes (by simpa using hprobe)
    exact ⟨Or.inr (Or.inr rfl), hheld.2⟩
  | reconfirm => exact hstands.say (by simp) (by simp)

private theorem MclPeer.Ledger.hear (h : p.Ledger q) (hsent : q.sent ⊆ q'.sent) : p.Ledger q' where
  once := h.once
  probes m s bytes hprobe := by
    obtain ⟨hoffer, t, pr, s', haccept⟩ := h.probes m s bytes hprobe
    exact ⟨hoffer, t, pr, s', hsent haccept⟩

private theorem MclPeer.Stands.hear (h : p.Stands q) (hsent : q.sent ⊆ q'.sent) : p.Stands q' where
  own := h.own
  adopted hoffering hprogress := by
    obtain ⟨source, hoffer⟩ := h.adopted hoffering hprogress
    exact ⟨source, hsent hoffer⟩
  accepted hoffering hs := by
    obtain ⟨t, pr, s, haccept⟩ := h.accepted hoffering hs
    exact ⟨t, pr, s, hsent haccept⟩
  challenged := h.challenged
  probed hoffering hs := hsent (h.probed hoffering hs)
  prober := h.prober

end Steps

/-- What every run keeps of a peer against the other one. -/
def MclPeer.Transacts (p q : MclPeer) : Prop := p.Ledger q ∧ p.Stands q

theorem MclPair.transacts_step {s s' : MclPair} {e : MclSide × MclAction}
    (h : ∀ x, (s.peer x).Transacts (s.peer x.other)) (hstep : s.perform e = some s') :
    ∀ x, (s'.peer x).Transacts (s'.peer x.other) := by
  obtain ⟨side, action⟩ := e
  obtain ⟨hinbox, hrole⟩ := MclPeer.perform_ready (MclPair.perform_peer hstep).1
  obtain ⟨hledger, hstands⟩ := h side
  have hback := h side.other
  rw [MclSide.other_other] at hback
  refine MclPair.perform_forall hstep h fun p' heff => ?_
  exact ⟨⟨heff.ledger hledger hstands hrole, heff.stands hledger hstands hback.1 hrole hinbox⟩,
    hback.1.hear heff.sent, hback.2.hear heff.sent⟩

theorem MclPair.Starts.transacts {s : MclPair} (h : s.Starts) :
    ∀ x, (s.peer x).Transacts (s.peer x.other) := by
  obtain ⟨a, b, ha, hb, -, rfl⟩ := h
  obtain ⟨_, _, _, -, rfl⟩ := ha.eq_begun
  obtain ⟨_, _, _, -, rfl⟩ := hb.eq_begun
  intro x
  cases x <;> exact ⟨⟨by simp [MclPair.peer], by simp [MclPair.peer]⟩, .idle rfl⟩

/-- `q` takes part in an offer of `p`'s that is pending at both: it did not make one itself under
the same reference, or `p` has been told that its offer is accepted. -/
structure MclPeer.TakesPart (q p : MclPeer) : Prop where
  progress : mclContactMigrationInProgress p.contact = true ∧
    mclContactMigrationInProgress q.contact = true
  same : q.contact.pendingMigrationRef = p.contact.pendingMigrationRef
  offered : p.offering = true
  taken : q.offering = false ∨ p.contact.Accepted

private theorem MclPeer.TakesPart.joined (h : q.TakesPart p) (hp : p.Transacts q)
    (hq : q.Transacts p) : q.offering = false := by
  rcases h.taken with hjoined | haccepted
  · exact hjoined
  · obtain ⟨t, pr, s, haccept⟩ := hp.2.accepted h.offered haccepted
    rw [← h.same] at haccept
    cases hoffering : q.offering with
    | false => rfl
    | true => exact absurd haccept ((hq.2.own hoffering h.progress.2).2 t pr s)

private theorem MclPeer.TakesPart.offer (h : q.TakesPart p) (hp : p.Transacts q)
    (hq : q.Transacts p) : q.contact.pendingOffer = p.contact.pendingOffer := by
  obtain ⟨source, hadopted⟩ := hq.2.adopted (h.joined hp hq) h.progress.2
  obtain ⟨⟨source', hown⟩, -⟩ := hp.2.own h.offered h.progress.1
  exact hp.1.once _ _ _ _ hadopted hown h.same

end MclLink
