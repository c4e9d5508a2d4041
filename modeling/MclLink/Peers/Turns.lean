import MclLink.Contact.Invariant
import MclLink.Peers.Effect

/-!
# What a peer can do

The actions of a peer succeed under the conditions listed here. Together with the inversion of its
actions this is all that is needed to lead two peers from one state to another.
-/

namespace MclLink

variable {inbox : List MclMessage} {p : MclPeer} {o : MclOffer}

theorem mclContactControlTransport_pending {c : MclContact}
    (hprogress : mclContactMigrationInProgress c = true) (x : UInt8) :
    mclContactControlTransport c (some x) = (.ok, some c.pendingTransport) := by
  have hopen : ¬ (c.state = .none ∨ c.state = .closed) := by
    have hcases := (mclContactMigrationInProgress_iff c).mp hprogress
    rintro (hs | hs) <;> simp [hs] at hcases
  rw [mclContactControlTransport, if_neg (by simp), if_neg hopen, if_pos hprogress]

theorem MclPeer.perform_receive {message : MclMessage} (hinbox : message ∈ inbox) :
    p.perform inbox (.receive message) = some (p.receive message) := if_pos hinbox

private theorem recordOffer_opens {c : MclContact} (hs : c.state = .active) (ho : o.WellFormed)
    (hcur : o.transport ≠ c.activeTransport) : c.recordOffer o = (.ok, c.withOffer o) :=
  (MclContactEffect.openOffer hs ho hcur).exec

theorem MclPeer.perform_offer (hs : p.contact.state = .active)
    (hfresh : p.fresh o.migrationRef = true) (ho : o.WellFormed)
    (hcur : o.transport ≠ p.contact.activeTransport) :
    p.perform inbox (.offer o) =
      some ⟨p.contact.withOffer o, true, .offer p.contact.localRef o :: p.sent⟩ := by
  simp only [MclPeer.perform, if_pos (And.intro hs hfresh), recordOffer_opens hs ho hcur]
  simp [MclPeer.answer]

theorem MclPeer.receive_offer {source : UInt32} (hs : p.contact.state = .active)
    (ho : o.WellFormed) (hcur : o.transport ≠ p.contact.activeTransport) :
    p.receive (.offer source o) = ⟨p.contact.withOffer o, false, p.sent⟩ := by
  simp [MclPeer.receive, hs, recordOffer_opens hs ho hcur]

theorem MclPeer.perform_accept {choice : UInt32} (hs : p.contact.state = .offered)
    (hrole : p.offering = false) (hchoice : choice ≠ mclContactSessionNone)
    (hchosen : p.contact.chosen choice ≠ mclContactSessionNone) :
    p.perform inbox (.accept choice) =
      some ⟨p.contact.bound (p.contact.chosen choice), p.offering,
        .accept p.contact.pendingMigrationRef p.contact.pendingTransport
          p.contact.pendingProfile (p.contact.chosen choice) :: p.sent⟩ := by
  have hagree : mclContactAgree p.contact p.contact.pendingMigrationRef p.contact.pendingTransport
      p.contact.pendingProfile (p.contact.chosen choice) =
      (.ok, p.contact.bound (p.contact.chosen choice)) := by
    refine (MclContactEffect.agree hs hchosen fun hvalid => ?_).exec
    simp [MclContact.chosen, hvalid]
  simp only [MclPeer.perform, if_pos (And.intro hs (And.intro hrole hchoice))]
  rw [← MclContact.chosen, hagree]
  rfl

theorem MclPeer.receive_accept {s : UInt32} (hs : p.contact.state = .offered)
    (hzero : s ≠ mclContactSessionNone)
    (hbound : p.contact.sessionValid = true → s = p.contact.sessionRef) :
    p.receive (.accept p.contact.pendingMigrationRef p.contact.pendingTransport
      p.contact.pendingProfile s) = { p with contact := p.contact.bound s } := by
  have hagree : mclContactAgree p.contact p.contact.pendingMigrationRef p.contact.pendingTransport
      p.contact.pendingProfile s = (.ok, p.contact.bound s) :=
    (MclContactEffect.agree hs hzero hbound).exec
  simp only [MclPeer.receive, hagree]

theorem MclPeer.perform_challenge {bytes : MclContactChallenge} (hs : p.contact.state = .agreed)
    (hrole : p.offering = true) (hsession : p.contact.sessionValid = true) :
    p.perform inbox (.challenge bytes) =
      some ⟨{ p.contact with challenge := bytes, challengeValid := true, state := .validating },
        p.offering,
        .pathChallenge p.contact.pendingMigrationRef p.contact.sessionRef bytes :: p.sent⟩ := by
  have hbegin : mclContactValidationBegin p.contact (some bytes) =
      (.ok, { p.contact with challenge := bytes, challengeValid := true, state := .validating }) :=
    (MclContactEffect.challenge hs hsession).exec
  simp only [MclPeer.perform, if_pos (And.intro hs hrole), hbegin]
  rfl

theorem MclPeer.receive_challenge {bytes : MclContactChallenge} (hs : p.contact.state = .agreed)
    (hsession : p.contact.sessionValid = true) :
    p.receive (.pathChallenge p.contact.pendingMigrationRef p.contact.sessionRef bytes) =
      ⟨{ p.contact with challenge := bytes, challengeValid := true, state := .validated },
        p.offering,
        .pathResponse p.contact.pendingMigrationRef p.contact.sessionRef bytes :: p.sent⟩ := by
  have hbegin : mclContactValidationBegin p.contact (some bytes) =
      (.ok, { p.contact with challenge := bytes, challengeValid := true, state := .validating }) :=
    (MclContactEffect.challenge hs hsession).exec
  have hresponse : mclContactValidationResponse
      { p.contact with challenge := bytes, challengeValid := true, state := .validating }
      p.contact.pendingMigrationRef p.contact.sessionRef (some bytes) =
      (.ok, { p.contact with challenge := bytes, challengeValid := true, state := .validated }) :=
    (MclContactEffect.validate (c := { p.contact with
      challenge := bytes, challengeValid := true, state := .validating }) rfl rfl hsession).exec
  simp [MclPeer.receive, hs, hbegin, hresponse, MclPeer.answer]

theorem MclPeer.receive_response (hs : p.contact.state = .validating)
    (hchallenge : p.contact.challengeValid = true) (hsession : p.contact.sessionValid = true) :
    p.receive (.pathResponse p.contact.pendingMigrationRef p.contact.sessionRef
      p.contact.challenge) = { p with contact := { p.contact with state := .validated } } := by
  have hresponse : mclContactValidationResponse p.contact p.contact.pendingMigrationRef
      p.contact.sessionRef (some p.contact.challenge) =
      (.ok, { p.contact with state := .validated }) :=
    (MclContactEffect.validate hs hchallenge hsession).exec
  simp only [MclPeer.receive, hresponse]

theorem MclPeer.perform_commit (hs : p.contact.state = .validated) (hrole : p.offering = true) :
    p.perform inbox .commit = some ⟨{ p.contact with state := .committing }, p.offering,
      .commit p.contact.pendingMigrationRef p.contact.sessionRef :: p.sent⟩ := by
  have hbegin : mclContactCommitBegin p.contact = (.ok, { p.contact with state := .committing }) :=
    (MclContactEffect.commitBegin hs).exec
  simp only [MclPeer.perform, if_pos (And.intro hs hrole), hbegin]
  rfl

theorem MclPeer.receive_commit (hs : p.contact.state = .validated)
    (hsession : p.contact.sessionValid = true) :
    p.receive (.commit p.contact.pendingMigrationRef p.contact.sessionRef) =
      ⟨p.contact.settled, p.offering,
        .confirm p.contact.pendingMigrationRef p.contact.sessionRef :: p.sent⟩ := by
  have haccept : mclContactCommitAccept p.contact p.contact.pendingMigrationRef
      p.contact.sessionRef = (.ok, p.contact.settled) :=
    (MclContactEffect.commitAccept hs hsession).exec
  simp only [MclPeer.receive, if_pos hs, haccept]
  rfl

theorem MclPeer.receive_confirm (hs : p.contact.state = .committing)
    (hsession : p.contact.sessionValid = true) :
    p.receive (.confirm p.contact.pendingMigrationRef p.contact.sessionRef) =
      { p with contact := p.contact.settled } := by
  have hconfirm : mclContactCommitConfirm p.contact p.contact.pendingMigrationRef
      p.contact.sessionRef = (.ok, p.contact.settled) :=
    (MclContactEffect.commitConfirm hs hsession).exec
  simp only [MclPeer.receive, hconfirm]

theorem MclPeer.perform_abandon (hrev : mclContactMigrationIsRevocable p.contact = true) :
    p.perform inbox .abandon = some { p with contact := p.contact.retired } := by
  have habandon : mclContactAbandonMigration p.contact = (.ok, p.contact.retired) :=
    (MclContactEffect.abandon hrev).exec
  simp only [MclPeer.perform, habandon]

theorem MclPeer.perform_ready {action : MclAction} {p' : MclPeer}
    (h : p.perform inbox action = some p') :
    (∀ message, action = .receive message → message ∈ inbox) ∧
      (∀ bytes, action = .challenge bytes → p.offering = true) := by
  constructor
  · rintro message rfl
    by_contra hinbox
    simp [MclPeer.perform, hinbox] at h
  · rintro bytes rfl
    by_contra hrole
    simp [MclPeer.perform, hrole] at h

theorem MclPair.peer_ext {s s' : MclPair} (h : ∀ x, s.peer x = s'.peer x) : s = s' :=
  congr (congrArg MclPair.mk (h .left)) (h .right)

theorem MclPair.perform_ok {s : MclPair} {side : MclSide} {action : MclAction} {p' : MclPeer}
    (h : (s.peer side).perform (s.peer side.other).sent action = some p') :
    ∃ s', s.perform (side, action) = some s' ∧ s'.peer side = p' ∧
      s'.peer side.other = s.peer side.other := by
  cases side with
  | left => exact ⟨{ s with left := p' }, Option.map_eq_some_iff.mpr ⟨p', h, rfl⟩, rfl, rfl⟩
  | right => exact ⟨{ s with right := p' }, Option.map_eq_some_iff.mpr ⟨p', h, rfl⟩, rfl, rfl⟩

end MclLink
