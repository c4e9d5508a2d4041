import MclLink.Contact.Effect
import MclLink.Peers.System

/-!
# Inversion of a peer's actions

What one action of a peer can do to its contact, to its role and to what it has sent. As for a
single contact, everything about runs of two peers is derived from this list.
-/

namespace MclLink

/-- The contact after an acceptance that binds `s`. -/
@[simps] def MclContact.bound (c : MclContact) (s : UInt32) : MclContact :=
  { c with sessionRef := s, sessionValid := true, state := .agreed }

/-- The session reference with which a contact accepts: its own if it has one. -/
def MclContact.chosen (c : MclContact) (choice : UInt32) : UInt32 :=
  if c.sessionValid then c.sessionRef else choice

/-- The changes an action can make to a peer whose channel holds `inbox`. -/
inductive MclPeerEffect (inbox : List MclMessage) (p : MclPeer) : MclAction → MclPeer → Prop where
  | propose {o} : p.contact.state = .active → o.WellFormed →
      o.transport ≠ p.contact.activeTransport → p.fresh o.migrationRef = true →
      MclPeerEffect inbox p (.offer o)
        ⟨p.contact.withOffer o, true, .offer p.contact.localRef o :: p.sent⟩
  | join {source o} : .offer source o ∈ inbox →
      p.contact.state = .active ∨ p.contact.state = .offered → o.WellFormed →
      o.transport ≠ p.contact.activeTransport →
      MclPeerEffect inbox p (.receive (.offer source o)) ⟨p.contact.withOffer o, false, p.sent⟩
  | tieAbort {source o} : p.contact.state = .offered →
      MclPeerEffect inbox p (.receive (.offer source o)) { p with contact := p.contact.retired }
  | accept {choice} : p.contact.state = .offered → p.offering = false →
      p.contact.chosen choice ≠ mclContactSessionNone →
      MclPeerEffect inbox p (.accept choice)
        ⟨p.contact.bound (p.contact.chosen choice), p.offering,
          .accept p.contact.pendingMigrationRef p.contact.pendingTransport
            p.contact.pendingProfile (p.contact.chosen choice) :: p.sent⟩
  | bind {s} : .accept p.contact.pendingMigrationRef p.contact.pendingTransport
        p.contact.pendingProfile s ∈ inbox → p.contact.state = .offered →
      s ≠ mclContactSessionNone →
      (p.contact.sessionValid = true → s = p.contact.sessionRef) →
      MclPeerEffect inbox p (.receive (.accept p.contact.pendingMigrationRef
        p.contact.pendingTransport p.contact.pendingProfile s))
        { p with contact := p.contact.bound s }
  | challenge {bytes} : p.contact.state = .agreed →
      MclPeerEffect inbox p (.challenge bytes)
        ⟨{ p.contact with challenge := bytes, challengeValid := true, state := .validating },
          p.offering,
          .pathChallenge p.contact.pendingMigrationRef p.contact.sessionRef bytes :: p.sent⟩
  | probe {bytes} : p.contact.state = .agreed →
      MclPeerEffect inbox p
        (.receive (.pathChallenge p.contact.pendingMigrationRef p.contact.sessionRef bytes))
        ⟨{ p.contact with challenge := bytes, challengeValid := true, state := .validated },
          p.offering,
          .pathResponse p.contact.pendingMigrationRef p.contact.sessionRef bytes :: p.sent⟩
  | echo {m s bytes} :
      MclPeerEffect inbox p (.receive (.pathChallenge m s bytes))
        { p with sent := .pathResponse m s bytes :: p.sent }
  | validate {m s bytes} : p.contact.state = .validating →
      MclPeerEffect inbox p (.receive (.pathResponse m s bytes))
        { p with contact := { p.contact with state := .validated } }
  | commit : p.contact.state = .validated → p.offering = true →
      MclPeerEffect inbox p .commit
        ⟨{ p.contact with state := .committing }, p.offering,
          .commit p.contact.pendingMigrationRef p.contact.sessionRef :: p.sent⟩
  | settle : .commit p.contact.pendingMigrationRef p.contact.sessionRef ∈ inbox →
      p.contact.state = .validated →
      MclPeerEffect inbox p
        (.receive (.commit p.contact.pendingMigrationRef p.contact.sessionRef))
        ⟨p.contact.settled, p.offering,
          .confirm p.contact.pendingMigrationRef p.contact.sessionRef :: p.sent⟩
  | reconfirm : .commit p.contact.completedMigrationRef p.contact.sessionRef ∈ inbox →
      p.contact.state = .active → p.contact.completedMigrationRef ≠ mclContactMigrationNone →
      MclPeerEffect inbox p
        (.receive (.commit p.contact.completedMigrationRef p.contact.sessionRef))
        { p with
          sent := .confirm p.contact.completedMigrationRef p.contact.sessionRef :: p.sent }
  | conclude : .confirm p.contact.pendingMigrationRef p.contact.sessionRef ∈ inbox →
      p.contact.state = .committing →
      MclPeerEffect inbox p
        (.receive (.confirm p.contact.pendingMigrationRef p.contact.sessionRef))
        { p with contact := p.contact.settled }
  | abandon : mclContactMigrationIsRevocable p.contact = true →
      MclPeerEffect inbox p .abandon { p with contact := p.contact.retired }
  | close : MclPeerEffect inbox p .close { p with contact := p.contact.shut }

variable {inbox : List MclMessage} {p p' : MclPeer} {c' : MclContact} {st : MclLinkStatus}
  {message : MclMessage}

theorem MclContactOutcome.refused {c : MclContact} {call : MclContactCall}
    (h : MclContactOutcome c call st c') (hst : st ≠ .ok) : c' = c :=
  h.resolve_right fun hok => hst hok.1

private theorem MclPeer.answer_ok :
    p.answer (.ok, c') message = ⟨c', p.offering, message :: p.sent⟩ := rfl

private theorem MclPeer.answer_refused {call : MclContactCall}
    (h : MclContactOutcome p.contact call st c') (hst : st ≠ .ok) :
    p.answer (st, c') message = p := by
  rw [MclPeer.answer, if_neg hst, h.refused hst]

private theorem MclPeer.offer_effect {o : MclOffer} (hactive : p.contact.state = .active)
    (hfresh : p.fresh o.migrationRef = true) (h : p.perform inbox (.offer o) = some p') :
    p' = p ∨ MclPeerEffect inbox p (.offer o) p' := by
  simp only [MclPeer.perform, if_pos (And.intro hactive hfresh)] at h
  obtain rfl := Option.some.inj h
  rcases hr : p.contact.recordOffer o with ⟨st, c'⟩
  by_cases hst : st = .ok
  · subst hst
    obtain ⟨rfl, ho, hcur⟩ := recordOffer_active hactive hr
    rw [MclPeer.answer_ok]
    right
    simpa using MclPeerEffect.propose hactive ho hcur hfresh
  · left
    have hsame := (recordOffer_effect hr).refused hst
    simp [MclPeer.answer, hst, hsame]

private theorem MclPeer.accept_effect {choice : UInt32} (hoffered : p.contact.state = .offered)
    (hrole : p.offering = false) (hchoice : choice ≠ mclContactSessionNone)
    (h : p.perform inbox (.accept choice) = some p') :
    p' = p ∨ MclPeerEffect inbox p (.accept choice) p' := by
  simp only [MclPeer.perform, if_pos (And.intro hoffered (And.intro hrole hchoice))] at h
  obtain rfl := Option.some.inj h
  rw [← MclContact.chosen]
  rcases hr : mclContactAgree p.contact p.contact.pendingMigrationRef p.contact.pendingTransport
    p.contact.pendingProfile (p.contact.chosen choice) with ⟨st, c'⟩
  by_cases hst : st = .ok
  · subst hst
    obtain ⟨⟨hzero, -⟩, -, ⟨-, rfl⟩ | ⟨hlate, -⟩⟩ := mclContactAgree_ok hr
    · exact Or.inr (.accept hoffered hrole hzero)
    · simp [hoffered] at hlate
  · exact Or.inl (MclPeer.answer_refused (mclContactAgree_effect hr) hst)

private theorem MclPeer.challenge_effect {bytes : MclContactChallenge}
    (hagreed : p.contact.state = .agreed ∧ p.offering = true)
    (h : p.perform inbox (.challenge bytes) = some p') :
    p' = p ∨ MclPeerEffect inbox p (.challenge bytes) p' := by
  simp only [MclPeer.perform, if_pos hagreed] at h
  obtain rfl := Option.some.inj h
  rcases hr : mclContactValidationBegin p.contact (some bytes) with ⟨st, c'⟩
  by_cases hst : st = .ok
  · subst hst
    obtain ⟨-, -, rfl⟩ := mclContactValidationBegin_ok hr
    exact Or.inr (.challenge hagreed.1)
  · exact Or.inl (MclPeer.answer_refused (mclContactValidationBegin_effect hr) hst)

private theorem MclPeer.receive_offer_effect {source : UInt32} {o : MclOffer}
    (hinbox : .offer source o ∈ inbox) :
    p.receive (.offer source o) = p ∨
      MclPeerEffect inbox p (.receive (.offer source o)) (p.receive (.offer source o)) := by
  simp only [MclPeer.receive]
  split_ifs with hglare
  · rcases hr : p.contact.resolveOfferCollision source o (some .localWins) with ⟨st, c', out⟩
    by_cases hst : st = .ok
    · subst hst
      obtain ⟨hstate, ho, ⟨rfl, rfl, -⟩ | ⟨rfl, rfl, hcur, -⟩ | ⟨rfl, rfl, -⟩⟩ :=
        resolveOfferCollision_ok hr
      · left
        simp
      · right
        simpa using MclPeerEffect.join hinbox (Or.inr hstate) ho hcur
      · right
        simpa using MclPeerEffect.tieAbort hglare.1
    · left
      obtain ⟨rfl, rfl⟩ := resolveOfferCollision_not_ok hr hst
      simp
  · rcases hr : p.contact.recordOffer o with ⟨st, c'⟩
    by_cases hopened : p.contact.state = .active ∧ st = .ok
    · obtain ⟨hactive, rfl⟩ := hopened
      obtain ⟨rfl, ho, hcur⟩ := recordOffer_active hactive hr
      right
      simpa [hactive] using MclPeerEffect.join hinbox (Or.inl hactive) ho hcur
    · left
      have hsame : c' = p.contact := by
        rcases recordOffer_effect hr with hsame | ⟨hok, heff⟩
        · exact hsame
        · cases heff with
          | openOffer hactive => exact absurd ⟨hactive, hok⟩ hopened
      simp [hsame, hopened]

private theorem MclPeer.receive_accept_effect {m s : UInt32} {t pr : UInt8}
    (hinbox : .accept m t pr s ∈ inbox) :
    p.receive (.accept m t pr s) = p ∨
      MclPeerEffect inbox p (.receive (.accept m t pr s)) (p.receive (.accept m t pr s)) := by
  simp only [MclPeer.receive]
  rcases hr : mclContactAgree p.contact m t pr s with ⟨st, c'⟩
  rcases mclContactAgree_effect hr with rfl | ⟨-, heff⟩
  · exact Or.inl rfl
  · cases heff with
    | agree hoffered hzero hbound => exact Or.inr (.bind hinbox hoffered hzero hbound)

private theorem MclPeer.receive_challenge_effect {m s : UInt32} {bytes : MclContactChallenge} :
    p.receive (.pathChallenge m s bytes) = p ∨
      MclPeerEffect inbox p (.receive (.pathChallenge m s bytes))
        (p.receive (.pathChallenge m s bytes)) := by
  simp only [MclPeer.receive, MclPeer.repeats]
  split_ifs with hagreed hdrop hbegun hvalidated hrepeat
  · exact Or.inl rfl
  · rcases hr : mclContactValidationBegin p.contact (some bytes) with ⟨st, c'⟩
    rw [hr] at hbegun
    rw [(mclContactValidationBegin_effect hr).refused hbegun]
    exact Or.inl rfl
  · rcases hr : mclContactValidationBegin p.contact (some bytes) with ⟨st, c'⟩
    rw [hr] at hbegun
    obtain rfl : st = .ok := not_not.mp hbegun
    obtain ⟨-, hsession, rfl⟩ := mclContactValidationBegin_ok hr
    obtain ⟨rfl, rfl⟩ : m = p.contact.pendingMigrationRef ∧ s = p.contact.sessionRef := by
      simpa using hdrop
    have hexec := (MclContactEffect.validate (c := { p.contact with
      challenge := bytes, challengeValid := true, state := .validating }) rfl rfl hsession).exec
    have hresponse : mclContactValidationResponse { p.contact with
        challenge := bytes, challengeValid := true, state := .validating }
        p.contact.pendingMigrationRef p.contact.sessionRef (some bytes) =
      (.ok, { p.contact with
        challenge := bytes, challengeValid := true, state := .validated }) := hexec
    rw [hresponse]
    exact Or.inr (.probe hagreed)
  · exact Or.inr .echo
  · exact Or.inl rfl
  · exact Or.inl rfl

private theorem MclPeer.receive_response_effect {m s : UInt32} {bytes : MclContactChallenge} :
    p.receive (.pathResponse m s bytes) = p ∨
      MclPeerEffect inbox p (.receive (.pathResponse m s bytes))
        (p.receive (.pathResponse m s bytes)) := by
  simp only [MclPeer.receive]
  rcases hr : mclContactValidationResponse p.contact m s (some bytes) with ⟨st, c'⟩
  rcases mclContactValidationResponse_effect hr with rfl | ⟨-, heff⟩
  · exact Or.inl rfl
  · cases heff with
    | validate hvalidating => exact Or.inr (.validate hvalidating)

theorem MclPeer.receive_commit_effect {m s : UInt32} (hinbox : .commit m s ∈ inbox) :
    p.receive (.commit m s) = p ∨
      MclPeerEffect inbox p (.receive (.commit m s)) (p.receive (.commit m s)) := by
  simp only [MclPeer.receive, MclPeer.repeats]
  split_ifs with hvalidated hactive hrepeat
  · rcases hr : mclContactCommitAccept p.contact m s with ⟨st, c'⟩
    by_cases hst : st = .ok
    · subst hst
      obtain ⟨-, rfl, rfl, rfl⟩ := mclContactCommitAccept_ok hr
      exact Or.inr (.settle hinbox hvalidated)
    · exact Or.inl (MclPeer.answer_refused (mclContactCommitAccept_effect hr) hst)
  · obtain ⟨-, hm, -, rfl, rfl⟩ :=
      (mclContactCommitRepeat_iff p.contact m s false).mp (of_decide_eq_true hrepeat)
    exact Or.inr (.reconfirm hinbox hactive hm)
  · exact Or.inl rfl
  · exact Or.inl rfl

theorem MclPeer.receive_confirm_effect {m s : UInt32} (hinbox : .confirm m s ∈ inbox) :
    p.receive (.confirm m s) = p ∨
      MclPeerEffect inbox p (.receive (.confirm m s)) (p.receive (.confirm m s)) := by
  simp only [MclPeer.receive]
  rcases hr : mclContactCommitConfirm p.contact m s with ⟨st, c'⟩
  rcases mclContactCommitConfirm_effect hr with rfl | ⟨-, heff⟩
  · exact Or.inl rfl
  · cases heff with
    | commitConfirm hcommitting => exact Or.inr (.conclude hinbox hcommitting)

/-- An action changes the peer in one of the listed ways or not at all. -/
theorem MclPeer.perform_effect {action : MclAction} (h : p.perform inbox action = some p') :
    p' = p ∨ MclPeerEffect inbox p action p' := by
  cases action with
  | offer o =>
    by_cases hready : p.contact.state = .active ∧ p.fresh o.migrationRef = true
    · exact MclPeer.offer_effect hready.1 hready.2 h
    · simp [MclPeer.perform, hready] at h
  | accept choice =>
    by_cases hready : p.contact.state = .offered ∧ p.offering = false ∧
      choice ≠ mclContactSessionNone
    · exact MclPeer.accept_effect hready.1 hready.2.1 hready.2.2 h
    · simp [MclPeer.perform, hready] at h
  | challenge bytes =>
    by_cases hready : p.contact.state = .agreed ∧ p.offering = true
    · exact MclPeer.challenge_effect hready h
    · simp [MclPeer.perform, hready] at h
  | commit =>
    by_cases hready : p.contact.state = .validated ∧ p.offering = true
    · have hbegun : mclContactCommitBegin p.contact =
          (.ok, { p.contact with state := .committing }) :=
        (MclContactEffect.commitBegin hready.1).exec
      simp only [MclPeer.perform, if_pos hready, hbegun] at h
      obtain rfl := Option.some.inj h
      exact Or.inr (.commit hready.1 hready.2)
    · simp [MclPeer.perform, hready] at h
  | abandon =>
    obtain rfl := Option.some.inj h
    rcases hr : mclContactAbandonMigration p.contact with ⟨st, c'⟩
    rcases mclContactAbandonMigration_effect hr with rfl | ⟨-, heff⟩
    · exact Or.inl rfl
    · cases heff with
      | abandon hrev => exact Or.inr (.abandon hrev)
  | close =>
    obtain rfl := Option.some.inj h
    rcases hr : mclContactClose p.contact with ⟨st, c'⟩
    rcases mclContactClose_effect hr with rfl | ⟨-, heff⟩
    · exact Or.inl rfl
    · cases heff with
      | close => exact Or.inr .close
  | receive message =>
    by_cases hinbox : message ∈ inbox
    · simp only [MclPeer.perform, if_pos hinbox] at h
      obtain rfl := Option.some.inj h
      cases message with
      | offer => exact MclPeer.receive_offer_effect hinbox
      | accept => exact MclPeer.receive_accept_effect hinbox
      | pathChallenge => exact MclPeer.receive_challenge_effect
      | pathResponse => exact MclPeer.receive_response_effect
      | commit => exact MclPeer.receive_commit_effect hinbox
      | confirm => exact MclPeer.receive_confirm_effect hinbox
    · simp [MclPeer.perform, hinbox] at h

def MclSide.other : MclSide → MclSide
  | .left => .right
  | .right => .left

def MclPair.peer (s : MclPair) : MclSide → MclPeer
  | .left => s.left
  | .right => s.right

theorem MclSide.forall_iff (side : MclSide) {P : MclSide → Prop} :
    (∀ x, P x) ↔ P side ∧ P side.other := by
  constructor
  · exact fun h => ⟨h side, h side.other⟩
  · rintro ⟨h, h'⟩ x
    cases side <;> cases x <;> assumption

theorem MclSide.other_other (side : MclSide) : side.other.other = side := by
  cases side <;> rfl

theorem MclSide.update_forall {σ : Type*} {s : MclSide → σ} {x : MclSide} {p' : σ}
    {R : MclSide → σ → σ → Prop} (hself : R x p' (s x.other)) (hother : R x.other (s x.other) p') :
    ∀ y, R y (Function.update s x p' y) (Function.update s x p' y.other) := by
  have hne : x.other ≠ x := by cases x <;> decide
  rw [MclSide.forall_iff x, MclSide.other_other, Function.update_self, Function.update_of_ne hne]
  exact ⟨hself, hother⟩

theorem MclPair.perform_peer {s s' : MclPair} {side : MclSide} {action : MclAction}
    (h : s.perform (side, action) = some s') :
    (s.peer side).perform (s.peer side.other).sent action = some (s'.peer side) ∧
      s'.peer side.other = s.peer side.other := by
  cases side with
  | left =>
    obtain ⟨p', hp', rfl⟩ := Option.map_eq_some_iff.mp h
    exact ⟨hp', rfl⟩
  | right =>
    obtain ⟨p', hp', rfl⟩ := Option.map_eq_some_iff.mp h
    exact ⟨hp', rfl⟩

theorem MclPair.perform_forall {R : MclPeer → MclPeer → Prop} {s s' : MclPair} {side : MclSide}
    {action : MclAction} (h : s.perform (side, action) = some s')
    (hR : ∀ x, R (s.peer x) (s.peer x.other))
    (hstep : ∀ p', MclPeerEffect (s.peer side.other).sent (s.peer side) action p' →
      R p' (s.peer side.other) ∧ R (s.peer side.other) p') :
    ∀ x, R (s'.peer x) (s'.peer x.other) := by
  obtain ⟨hperform, hother⟩ := MclPair.perform_peer h
  rw [MclSide.forall_iff side, MclSide.other_other, hother]
  rcases MclPeer.perform_effect hperform with hsame | heff
  · have hback := hR side.other
    rw [MclSide.other_other] at hback
    rw [hsame]
    exact ⟨hR side, hback⟩
  · exact hstep _ heff

end MclLink
