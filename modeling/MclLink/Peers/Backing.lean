import MclLink.Peers.Session
import MclLink.Peers.Transport
import MclLink.Peers.Turns

/-!
# What a stage rests on

Whatever stage a peer has reached with an offer of its own, the messages that led there are still
to be had: its own ones because it sent them, the acceptance because the other peer did. So a
commitment can always be made good by retransmission.
-/

namespace MclLink

open LabelledRun JointMove

/-- A message fits the contact that sent it and what that contact has heard. -/
def MclMessage.Answers (c : MclContact) (heard : List MclMessage) : MclMessage → Prop
  | .offer _ o => o.WellFormed
  | .pathChallenge m _ _ => ∃ t pr s, .accept m t pr s ∈ heard
  | .commit _ s => c.state = .closed ∨ (c.sessionValid = true ∧ c.sessionRef = s)
  | .confirm m s => .commit m s ∈ heard
  | .accept .. | .pathResponse .. => True

/-- The offer in force was accepted. -/
def MclContact.Accepted (c : MclContact) : Prop :=
  c.state = .agreed ∨ c.state = .validating ∨ c.state = .validated ∨ c.state = .committing

/-- What a peer said fits what it heard, and the stage of an offer of its own is backed by the
messages that led to it. -/
structure MclPeer.Backed (p q : MclPeer) : Prop where
  answers : ∀ message ∈ p.sent, message.Answers p.contact q.sent
  accepted : p.offering = true → p.contact.Accepted →
    ∃ t pr, .accept p.contact.pendingMigrationRef t pr p.contact.sessionRef ∈ q.sent
  challenged : p.offering = true → p.contact.Accepted → p.contact.state ≠ .agreed →
    ∃ bytes, .pathChallenge p.contact.pendingMigrationRef p.contact.sessionRef bytes ∈ p.sent
  committed : p.contact.state = .committing → p.offering = true ∧
    .commit p.contact.pendingMigrationRef p.contact.sessionRef ∈ p.sent

/-- The contact is closed, or it was open and keeps the session it had. -/
def MclContact.KeepsSession (c c' : MclContact) : Prop :=
  c'.state = .closed ∨ (c.state ≠ .closed ∧
    (c.sessionValid = true → c'.sessionValid = true ∧ c'.sessionRef = c.sessionRef))

variable {p p' q q' : MclPeer} {action : MclAction} {c c' : MclContact} {heard heard' : List MclMessage}
  {message : MclMessage}

private theorem MclMessage.Answers.keep (h : message.Answers c heard) (hkeep : c.KeepsSession c') :
    message.Answers c' heard := by
  cases message with
  | commit m s =>
    rcases hkeep with hclosed | ⟨hopen, hsession⟩
    · exact Or.inl hclosed
    · obtain ⟨hvalid, rfl⟩ := h.resolve_left hopen
      exact Or.inr (hsession hvalid)
  | _ => exact h

private theorem MclMessage.Answers.hear (h : message.Answers c heard) (hsent : heard ⊆ heard') :
    message.Answers c heard' := by
  cases message with
  | pathChallenge m s bytes =>
    obtain ⟨t, pr, s', haccept⟩ := h
    exact ⟨t, pr, s', hsent haccept⟩
  | confirm m s => exact hsent h
  | _ => exact h

private theorem MclPeer.Backed.hear (h : p.Backed q) (hsent : q.sent ⊆ q'.sent) : p.Backed q' where
  answers message hm := (h.answers message hm).hear hsent
  accepted hrole hstate := by
    obtain ⟨t, pr, haccept⟩ := h.accepted hrole hstate
    exact ⟨t, pr, hsent haccept⟩
  challenged := h.challenged
  committed := h.committed

theorem MclPeerEffect.sent {inbox : List MclMessage} (heff : MclPeerEffect inbox p action p') :
    p.sent ⊆ p'.sent := by
  cases heff <;> simp

private theorem MclPeerEffect.keepsSession {inbox : List MclMessage}
    (heff : MclPeerEffect inbox p action p') (hopen : p.contact.state ≠ .closed) :
    p.contact.KeepsSession p'.contact := by
  cases heff with
  | close => exact Or.inl rfl
  | @accept choice => exact Or.inr ⟨hopen, fun hvalid => by simp [MclContact.chosen, hvalid]⟩
  | bind _ _ _ hbound => exact Or.inr ⟨hopen, fun hvalid => ⟨rfl, hbound hvalid⟩⟩
  | _ => exact Or.inr ⟨hopen, fun hvalid => ⟨hvalid, rfl⟩⟩

private theorem MclPeerEffect.answers (heff : MclPeerEffect q.sent p action p')
    (hwf : MclContactWellFormed p.contact) (h : p.Backed q)
    (hrole : ∀ bytes, action = .challenge bytes → p.offering = true) :
    ∀ message ∈ p'.sent, message.Answers p'.contact q.sent := by
  have hkeep : p.contact.state = .closed ∨ p.contact.KeepsSession p'.contact := by
    by_cases hopen : p.contact.state = .closed
    · exact Or.inl hopen
    · exact Or.inr (heff.keepsSession hopen)
  have hold : p.contact.state ≠ .closed →
      ∀ message ∈ p.sent, message.Answers p'.contact q.sent := fun hopen message hm =>
    (h.answers message hm).keep (hkeep.resolve_left hopen)
  cases heff with
  | propose hs ho => exact List.forall_mem_cons.mpr ⟨ho, hold (by simp [hs])⟩
  | join _ hs => exact hold (by rcases hs with hs | hs <;> simp [hs])
  | tieAbort hs | validate hs | bind _ hs | conclude _ hs => exact hold (by simp [hs])
  | accept hs | probe hs => exact List.forall_mem_cons.mpr ⟨trivial, hold (by simp [hs])⟩
  | challenge hs =>
    obtain ⟨t, pr, haccept⟩ := h.accepted (hrole _ rfl) (Or.inl hs)
    exact List.forall_mem_cons.mpr ⟨⟨t, pr, _, haccept⟩, hold (by simp [hs])⟩
  | echo => exact List.forall_mem_cons.mpr ⟨trivial, h.answers⟩
  | commit hs =>
    have hsession : p.contact.sessionValid = true := hwf.session (by tauto)
    exact List.forall_mem_cons.mpr ⟨Or.inr ⟨hsession, rfl⟩, hold (by simp [hs])⟩
  | settle hsent hs => exact List.forall_mem_cons.mpr ⟨hsent, hold (by simp [hs])⟩
  | reconfirm hsent hs => exact List.forall_mem_cons.mpr ⟨hsent, h.answers⟩
  | abandon hrev =>
    refine hold ?_
    rcases (mclContactMigrationIsRevocable_iff _).mp hrev with hs | hs | hs | hs <;> simp [hs]
  | close => exact fun message hm => (h.answers message hm).keep (Or.inl rfl)

private theorem MclPeer.Backed.not_probed (h : q.Backed p) (hcons : Consistent p.party q.party)
    (hrole : p.offering = true) (hs : p.contact.state = .agreed) {bytes : MclContactChallenge}
    (hinbox : .pathChallenge p.contact.pendingMigrationRef p.contact.sessionRef bytes ∈ q.sent) :
    False := by
  -- The challenge would answer an acceptance of the offer by its own owner.
  obtain ⟨t, pr, s, haccept⟩ := h.answers _ hinbox
  have hown : p.party.phase.own =
      some (p.contact.pendingMigrationRef, p.contact.pendingTransport) := by
    show p.phase.own = _
    rw [MclPeer.phase_agreed (Or.inl hs), if_pos hrole]
    rfl
  exact hcons.fresh _ _ hown (mem_said haccept rfl)

private theorem MclPeer.Backed.early
    (hanswers : ∀ message ∈ p.sent, message.Answers p.contact q.sent)
    (hearly : ¬ p.contact.Accepted) : p.Backed q where
  answers := hanswers
  accepted _ hstate := absurd hstate hearly
  challenged _ hstate := absurd hstate hearly
  committed hstate := absurd (Or.inr (Or.inr (Or.inr hstate))) hearly

private theorem MclPeerEffect.backed (heff : MclPeerEffect q.sent p action p')
    (hwf : MclContactWellFormed p.contact) (hcons : Consistent p.party q.party) (h : p.Backed q)
    (h' : q.Backed p) (hrole : ∀ bytes, action = .challenge bytes → p.offering = true)
    (hinbox : ∀ message, action = .receive message → message ∈ q.sent) : p'.Backed q := by
  have hanswers := heff.answers hwf h hrole
  cases heff with
  | propose | join | tieAbort | settle | conclude | abandon | close =>
    exact .early hanswers (by simp [MclContact.Accepted])
  | accept _ hresponder =>
    exact ⟨hanswers, fun hoffering => by simp [hresponder] at hoffering,
      fun hoffering => by simp [hresponder] at hoffering, by simp⟩
  | bind haccept => exact ⟨hanswers, fun _ _ => ⟨_, _, haccept⟩, by simp, by simp⟩
  | @challenge bytes hs =>
    exact ⟨hanswers, fun hoffering _ => h.accepted hoffering (Or.inl hs),
      fun _ _ _ => ⟨bytes, List.mem_cons_self⟩, by simp⟩
  | probe hs =>
    have hresponder : p.offering = false := by
      cases hoffering : p.offering with
      | false => rfl
      | true => exact (h'.not_probed hcons hoffering hs (hinbox _ rfl)).elim
    exact ⟨hanswers, fun hoffering => by simp [hresponder] at hoffering,
      fun hoffering => by simp [hresponder] at hoffering, by simp⟩
  | echo | reconfirm =>
    refine ⟨hanswers, h.accepted, fun hoffering hstate hlate => ?_, fun hstate => ?_⟩
    · obtain ⟨bytes, hm⟩ := h.challenged hoffering hstate hlate
      exact ⟨bytes, List.mem_cons_of_mem _ hm⟩
    · exact (h.committed hstate).imp_right (List.mem_cons_of_mem _)
  | validate hs =>
    exact ⟨hanswers, fun hoffering _ => h.accepted hoffering (Or.inr (Or.inl hs)),
      fun hoffering _ _ => h.challenged hoffering (Or.inr (Or.inl hs)) (by simp [hs]), by simp⟩
  | commit hs hoffering =>
    have hstate : p.contact.Accepted := Or.inr (Or.inr (Or.inl hs))
    refine ⟨hanswers, fun _ _ => h.accepted hoffering hstate, fun _ _ _ => ?_,
      fun _ => ⟨hoffering, List.mem_cons_self⟩⟩
    obtain ⟨bytes, hm⟩ := h.challenged hoffering hstate (by simp [hs])
    exact ⟨bytes, List.mem_cons_of_mem _ hm⟩

/-- What a run in which nobody settles a migration twice keeps of a peer against the other one. -/
structure MclPeer.Recoverable (p q : MclPeer) : Prop where
  moves : p.MovesWith q
  carries : p.Carries
  backed : p.Backed q

theorem MclPair.recoverable_step {s s' : MclPair} {e : MclSide × MclAction}
    (h : ∀ x, (s.peer x).Recoverable (s.peer x.other)) (hstep : s.perform e = some s')
    (hnew : s.SettlesNew e) : ∀ x, (s'.peer x).Recoverable (s'.peer x.other) := by
  have hmoves := MclPair.movesWith_step (fun x => (h x).moves) hstep hnew
  obtain ⟨side, action⟩ := e
  obtain ⟨hinbox, hrole⟩ := MclPeer.perform_ready (MclPair.perform_peer hstep).1
  have hback := h side.other
  rw [MclSide.other_other] at hback
  have hrest : ∀ x, (s'.peer x).Carries ∧ (s'.peer x).Backed (s'.peer x.other) :=
    MclPair.perform_forall (R := fun p q => p.Carries ∧ p.Backed q) hstep
      (fun x => ⟨(h x).carries, (h x).backed⟩) fun p' heff =>
        ⟨⟨heff.carries (h side).carries,
          heff.backed (h side).moves.1 (h side).moves.2 (h side).backed hback.backed hrole hinbox⟩,
          hback.carries, hback.backed.hear heff.sent⟩
  exact fun x => ⟨hmoves x, (hrest x).1, (hrest x).2⟩

theorem MclPair.Starts.recoverable {s : MclPair} (h : s.Starts) :
    ∀ x, (s.peer x).Recoverable (s.peer x.other) := by
  have hmoves := h.movesWith
  have hsession := h.sessionInvariant
  obtain ⟨a, b, ha, hb, -, rfl⟩ := h
  obtain ⟨_, _, _, -, rfl⟩ := ha.eq_begun
  obtain ⟨_, _, _, -, rfl⟩ := hb.eq_begun
  intro x
  refine ⟨hmoves x, (hsession x).1, ?_⟩
  cases x <;> exact .early (by simp [MclPair.peer])
    (by simp [MclPair.peer, MclContact.Accepted])

end MclLink
