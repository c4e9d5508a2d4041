import MclLink.Contact.Handshake

/-!
# Duplicated messages

What the history of a pending transaction says about the contact, and with it the answer to a
second copy of each message of the sequence. Copies of an acceptance are answered in every later
stage; copies of an offer, of a challenge and of a response only where `contact.h` says.
-/

namespace MclLink

open LabelledRun

/-- The contact reached stage `k` of the transaction offered in `o`. -/
structure MclContactAt (k : ℕ) (o : MclOffer) (s : UInt32) (challenge : MclContactChallenge)
    (c : MclContact) : Prop where
  stage : k ≤ c.state.stage
  offer : c.pendingOffer = o
  session : 2 ≤ k → c.sessionValid = true ∧ c.sessionRef = s
  challenge : 3 ≤ k → c.challengeValid = true ∧ c.challenge = challenge

variable {c c' : MclContact} {e : MclContactCall × MclLinkStatus} {k : ℕ} {o : MclOffer}
  {s : UInt32} {challenge : MclContactChallenge}

private theorem MclContactAt.continues (h : MclContactAt k o s challenge c) (hk : 1 ≤ k)
    (hstep : MclContactStep c e c') (hcont : MclContactContinues ⟨c, e, c'⟩) :
    MclContactAt k o s challenge c' := by
  have hstage := h.stage
  obtain ⟨hactive, hinter, hinst⟩ := hcont
  rcases hstep.outcome with rfl | ⟨hok, heff⟩
  · exact h
  · obtain ⟨call, st⟩ := e
    obtain rfl : st = .ok := hok
    cases heff with
    | begin | tieAbort | commitConfirm | commitAccept | abandon => exact absurd rfl hactive
    | close => exact absurd (Or.inr (Or.inl rfl)) hinter
    | bindPeer => exact { h with }
    | @openOffer o' hs => exact absurd (Or.inl ⟨hs, rfl⟩) (hinst o')
    | @adoptOffer source o' out hs ho hlt hcur =>
      have hwin := @adoptOffer_result c source o' out hs ho hlt hcur
      exact absurd (Or.inr ⟨source, some out, rfl, hwin⟩) (hinst o')
    | agree hs =>
      rw [hs] at hstage
      have hk' : k = 1 := le_antisymm hstage hk
      subst hk'
      exact ⟨by simp, h.offer, fun h => absurd h (by decide), fun h => absurd h (by decide)⟩
    | challenge hs =>
      rw [hs] at hstage
      have hk' : ¬ 3 ≤ k := fun h => absurd (le_trans h hstage) (by decide)
      exact ⟨le_trans hstage (by simp), h.offer, h.session, fun h => absurd h hk'⟩
    | validate hs | commitBegin hs =>
      rw [hs] at hstage
      exact ⟨le_trans hstage (by simp), h.offer, h.session, h.challenge⟩

section History

variable {c₀ : MclContact} {tr : List MclContactEvent}

private theorem MclContactHasOffered.at (h : MclContactHasOffered o tr)
    (run : MclContactRun c₀ tr c) : MclContactAt 1 o s challenge c := by
  refine Then.holds h run ?_ fun hI hstep hcont => hI.continues (by decide) hstep hcont
  intro past d e d' _ _ hinst hstep
  rw [MclContactStep.installs hstep hinst]
  exact ⟨by simp, rfl, fun h => absurd h (by decide), fun h => absurd h (by decide)⟩

private theorem MclContactHasAgreed.at (hstart : MclContactStarts c₀)
    (h : MclContactHasAgreed o s tr)
    (run : MclContactRun c₀ tr c) : MclContactAt 2 o s challenge c := by
  refine Then.holds h run ?_ fun hI hstep hcont => hI.continues (by decide) hstep hcont
  rintro past d e d' hoffered hpast rfl hstep
  have hat : MclContactAt 1 o s challenge d := hoffered.at hpast
  have hwf : MclContactWellFormed d := MclContactReachable.wellFormed ⟨c₀, past, hstart, hpast⟩
  obtain ⟨⟨-, hsession⟩, -, ⟨-, rfl⟩ | ⟨hlate, rfl⟩⟩ := mclContactAgree_ok hstep
  · exact ⟨by simp, hat.offer, fun _ => ⟨rfl, rfl⟩, fun h => absurd h (by decide)⟩
  · have hvalid := hwf.session hlate
    refine ⟨?_, hat.offer, fun _ => ⟨hvalid, (hsession hvalid).symm⟩, fun h => absurd h (by decide)⟩
    rcases hlate with hs | hs | hs | hs <;> simp [hs]

private theorem MclContactHasChallenged.at (hstart : MclContactStarts c₀)
    (h : MclContactHasChallenged o s challenge tr) (run : MclContactRun c₀ tr c) :
    MclContactAt 3 o s challenge c := by
  refine Then.holds h run ?_ fun hI hstep hcont => hI.continues (by decide) hstep hcont
  rintro past d e d' hagreed hpast rfl hstep
  have hat : MclContactAt 2 o s challenge d := hagreed.at hstart hpast
  obtain ⟨-, -, rfl⟩ := mclContactValidationBegin_ok hstep
  exact ⟨by simp, hat.offer, fun _ => hat.session le_rfl, fun _ => ⟨rfl, rfl⟩⟩

private theorem MclContactHasValidated.at (hstart : MclContactStarts c₀)
    (h : MclContactHasValidated o s challenge tr) (run : MclContactRun c₀ tr c) :
    MclContactAt 4 o s challenge c := by
  refine Then.holds h run ?_ fun hI hstep hcont => hI.continues (by decide) hstep hcont
  rintro past d e d' hchallenged hpast rfl hstep
  have hat : MclContactAt 3 o s challenge d := hchallenged.at hstart hpast
  obtain ⟨-, -, ⟨-, rfl⟩ | ⟨hs, rfl⟩⟩ := mclContactValidationResponse_ok hstep
  · exact ⟨by simp, hat.offer, fun _ => hat.session (by decide), fun _ => hat.challenge le_rfl⟩
  · exact ⟨by simp [hs], hat.offer, fun _ => hat.session (by decide),
      fun _ => hat.challenge le_rfl⟩

end History

section Repeats

private theorem recordOffer_repeat (hwf : MclContactWellFormed c) (hstate : c.state = .offered)
    (hoffer : c.pendingOffer = o) : c.recordOffer o = (.ok, c) := by
  subst hoffer
  obtain ⟨⟨hm, ht, hp⟩, -⟩ :=
    hwf.pending ((mclContactMigrationInProgress_iff c).mpr (Or.inl hstate))
  have hm' : c.pendingMigrationRef ≠ mclContactMigrationNone := hm
  have ht' : c.pendingTransport ≠ mclContactTransportReserved := ht
  have hp' : c.pendingProfile ≠ mclContactProfileReserved := hp
  simp [MclContact.recordOffer, mclContactRecordOffer, MclContact.pendingOffer, hm', ht', hp',
    hstate]

private theorem MclContactAt.late (h : MclContactAt k o s challenge c) (hk : 2 ≤ k) :
    c.state = .agreed ∨ c.state = .validating ∨ c.state = .validated ∨ c.state = .committing := by
  have hstage := le_trans hk h.stage
  cases hs : c.state <;> simp_all

private theorem MclContactAt.agree_repeat (hwf : MclContactWellFormed c)
    (h : MclContactAt 2 o s challenge c) :
    mclContactAgree c o.migrationRef o.transport o.profile s = (.ok, c) := by
  obtain ⟨hvalid, rfl⟩ := h.session le_rfl
  have hzero := hwf.sessionRef.mp hvalid
  obtain rfl := h.offer
  unfold mclContactAgree
  rw [if_neg hzero, if_neg (by simp), if_pos (h.late le_rfl), if_neg]
  simp [MclContact.pendingOffer]

private theorem MclContactAt.checkTransaction (h : MclContactAt k o s challenge c) (hk : 2 ≤ k) :
    mclContactCheckTransaction c o.migrationRef s = .ok := by
  obtain ⟨hvalid, rfl⟩ := h.session hk
  obtain rfl := h.offer
  exact (mclContactCheckTransaction_ok_iff c _ _).mpr ⟨hvalid, rfl, rfl⟩

private theorem MclContactAt.challengeEquals (h : MclContactAt k o s challenge c) (hk : 3 ≤ k) :
    mclContactChallengeEquals c challenge = true := by
  obtain ⟨-, rfl⟩ := h.challenge hk
  exact (mclContactChallengeEquals_iff c _).mpr rfl

private theorem MclContactAt.challenge_repeat (h : MclContactAt 3 o s challenge c) (r : Bool) :
    mclContactChallengeRepeat c o.migrationRef s (some challenge) (some r) =
      (.ok, some (decide (c.state = .validated))) := by
  have hcheck := h.checkTransaction (by decide)
  have hequals := h.challengeEquals le_rfl
  obtain ⟨hvalid, -⟩ := h.challenge le_rfl
  by_cases hs : c.state = .validated
  · simp [mclContactChallengeRepeat, hs, hvalid, hcheck, hequals]
  · simp [mclContactChallengeRepeat, hs]

private theorem MclContactAt.response_repeat (h : MclContactAt 4 o s challenge c)
    (hs : c.state = .validated) :
    mclContactValidationResponse c o.migrationRef s (some challenge) = (.ok, c) := by
  have hcheck := h.checkTransaction (by decide)
  have hequals := h.challengeEquals (by decide)
  obtain ⟨hvalid, -⟩ := h.challenge (by decide)
  simp [mclContactValidationResponse, hs, hvalid, hcheck, hequals]

end Repeats

section Completed

/-- Since the completion no offer was recorded and the contact was neither closed nor begun. -/
def MclContactRests (ev : MclContactEvent) : Prop :=
  (∀ o, ¬ MclContactInstalls ev o) ∧ ev.label ≠ (.close, .ok) ∧
    ¬ (ev.label.1.isBegin ∧ ev.label.2 = .ok)

/-- A commit of `m` was accepted, and the contact rested since. -/
def MclContactHasAccepted (m s : UInt32) : List MclContactEvent → Prop :=
  Then (fun _ => True) (fun ev => ev.label = (.commitAccept m s, .ok)) MclContactRests

/-- A confirmation of `m` was accepted, and the contact rested since. -/
def MclContactHasConfirmed (m s : UInt32) : List MclContactEvent → Prop :=
  Then (fun _ => True) (fun ev => ev.label = (.commitConfirm m s, .ok)) MclContactRests

/-- The contact rests on the migration `m` it completed under session `s`. -/
structure MclContactCompleted (m s : UInt32) (c : MclContact) : Prop where
  state : c.state = .active
  nonzero : m ≠ mclContactMigrationNone
  completed : c.completedMigrationRef = m
  session : c.sessionValid = true ∧ c.sessionRef = s

variable {c₀ : MclContact} {tr : List MclContactEvent} {m : UInt32}

private theorem MclContactCompleted.rests (h : MclContactCompleted m s c)
    (hstep : MclContactStep c e c')
    (hrest : MclContactRests ⟨c, e, c'⟩) : MclContactCompleted m s c' := by
  have hactive := h.state
  obtain ⟨hinst, hclose, hbegin⟩ := hrest
  rcases hstep.outcome with rfl | ⟨hok, heff⟩
  · exact h
  · obtain ⟨call, st⟩ := e
    obtain rfl : st = .ok := hok
    cases heff with
    | begin => exact absurd ⟨rfl, rfl⟩ hbegin
    | bindPeer => exact { h with }
    | @openOffer o hs => exact absurd (Or.inl ⟨hs, rfl⟩) (hinst o)
    | close => exact absurd rfl hclose
    | abandon hrev => simp [mclContactMigrationIsRevocable, hactive] at hrev
    | adoptOffer hs | tieAbort hs | agree hs | challenge hs | validate hs | commitBegin hs
    | commitConfirm hs | commitAccept hs => simp [hactive] at hs

theorem settled_completed (hwf : MclContactWellFormed c)
    (hstate : c.state = .validated ∨ c.state = .committing) :
    MclContactCompleted c.pendingMigrationRef c.sessionRef c.settled := by
  obtain ⟨⟨hm, -⟩, -⟩ := hwf.pending ((mclContactMigrationInProgress_iff c).mpr (by tauto))
  exact ⟨rfl, hm, rfl, hwf.session (by tauto), rfl⟩

private theorem MclContactHasAccepted.completed (hstart : MclContactStarts c₀)
    (h : MclContactHasAccepted m s tr) (run : MclContactRun c₀ tr c) :
    MclContactCompleted m s c := by
  refine Then.holds h run ?_ fun hI hstep hrest => hI.rests hstep hrest
  rintro past d e d' - hpast rfl hstep
  have hwf : MclContactWellFormed d := MclContactReachable.wellFormed ⟨c₀, past, hstart, hpast⟩
  obtain ⟨hstate, rfl, rfl, rfl⟩ := mclContactCommitAccept_ok hstep
  exact settled_completed hwf (Or.inl hstate)

private theorem MclContactHasConfirmed.completed (hstart : MclContactStarts c₀)
    (h : MclContactHasConfirmed m s tr) (run : MclContactRun c₀ tr c) :
    MclContactCompleted m s c := by
  refine Then.holds h run ?_ fun hI hstep hrest => hI.rests hstep hrest
  rintro past d e d' - hpast rfl hstep
  have hwf : MclContactWellFormed d := MclContactReachable.wellFormed ⟨c₀, past, hstart, hpast⟩
  obtain ⟨hs, rfl, rfl, rfl⟩ | ⟨hs, ⟨hvalid, hm⟩, rfl, rfl, rfl⟩ := mclContactCommitConfirm_ok hstep
  · exact settled_completed hwf (Or.inr hs)
  · exact ⟨hs, hm, rfl, hvalid, rfl⟩

theorem MclContactCompleted.commit_repeat (h : MclContactCompleted m s c) (r : Bool) :
    mclContactCommitRepeat c m s (some r) = (.ok, some true) := by
  obtain ⟨hs, hm, rfl, hvalid, rfl⟩ := h
  exact (mclContactCommitRepeat_iff c _ _ r).mpr ⟨hs, hm, hvalid, rfl, rfl⟩

theorem MclContactCompleted.confirm_repeat (h : MclContactCompleted m s c) :
    mclContactCommitConfirm c m s = (.ok, c) := by
  obtain ⟨hs, hm, rfl, hvalid, rfl⟩ := h
  simp [mclContactCommitConfirm, hs, hm, hvalid]

end Completed

/-- The answers to a second copy of each message: a copy of an offer while it is still `offered`,
of an acceptance at any later stage, of a challenge and of a response in `validated`, of a commit
and of a confirmation until the contact next changes. None of them changes the contact. -/
theorem mclContact_duplicates {c₀ : MclContact} {tr : List MclContactEvent}
    (hstart : MclContactStarts c₀) (run : MclContactRun c₀ tr c) :
    (∀ o, MclContactHasOffered o tr → c.state = .offered → c.recordOffer o = (.ok, c)) ∧
    (∀ o s, MclContactHasAgreed o s tr →
      mclContactAgree c o.migrationRef o.transport o.profile s = (.ok, c)) ∧
    (∀ o s challenge r, MclContactHasChallenged o s challenge tr →
      mclContactChallengeRepeat c o.migrationRef s (some challenge) (some r) =
        (.ok, some (decide (c.state = .validated)))) ∧
    (∀ o s challenge, MclContactHasValidated o s challenge tr → c.state = .validated →
      mclContactValidationResponse c o.migrationRef s (some challenge) = (.ok, c)) ∧
    (∀ m s r, MclContactHasAccepted m s tr →
      mclContactCommitRepeat c m s (some r) = (.ok, some true)) ∧
    (∀ m s, MclContactHasConfirmed m s tr → mclContactCommitConfirm c m s = (.ok, c)) := by
  have hwf : MclContactWellFormed c := MclContactReachable.wellFormed ⟨c₀, tr, hstart, run⟩
  refine ⟨?_, ?_, ?_, ?_, ?_, ?_⟩
  · intro o h hstate
    have hat : MclContactAt 1 o 0 c.challenge c := h.at run
    exact recordOffer_repeat hwf hstate hat.offer
  · intro o s h
    have hat : MclContactAt 2 o s c.challenge c := h.at hstart run
    exact hat.agree_repeat hwf
  · intro o s challenge r h
    exact (h.at hstart run).challenge_repeat r
  · intro o s challenge h hstate
    exact (h.at hstart run).response_repeat hstate
  · intro m s r h
    exact (h.completed hstart run).commit_repeat r
  · intro m s h
    exact (h.completed hstart run).confirm_repeat

/-- A responder whose path is validated accepts a second copy of the response. -/
theorem mclContact_duplicates_validated :
    let c₀ := mclContactBegun mclContactRoleResponder 0xB0 1
    let calls := (mclContactMigrationCalls ⟨0x5001, 2, 1, 0xD00D, 30⟩ 0x77
      (Vector.replicate 8 0xC5)).take 4
    let c := c₀.after calls
    c.state = .validated ∧
      mclContactValidationResponse c c.pendingMigrationRef c.sessionRef (some c.challenge) =
        (.ok, c) := by
  intro c₀ calls c
  have hstart : MclContactStarts c₀ := mclContactBegun_starts 0xB0 (by decide) (by decide)
  have hstate : c.state = .validated := by decide
  have hvalidated := MclContactRun.hasValidated hstart (c₀.history_run calls)
    (c₀.history_forall (P := fun call => ¬ call.isBegin = true) (by decide)) hstate
  have h := mclContact_duplicates hstart (c₀.history_run calls)
  exact ⟨hstate, h.2.2.2.1 c.pendingOffer c.sessionRef c.challenge hvalidated hstate⟩

/-- The sender of the commit is in `committing` when a second copy of the response arrives, and
refuses it. -/
theorem mclContact_duplicate_response_refused :
    let c₀ := mclContactBegun mclContactRoleInitiator 0xA0 1
    let calls := (mclContactMigrationCalls ⟨0x5001, 2, 1, 0xD00D, 30⟩ 0x77
      (Vector.replicate 8 0xC5)).take 4
    let c := c₀.after (calls ++ [.commitBegin])
    MclContactStarts c₀ ∧ MclContactRun c₀ (c₀.history (calls ++ [.commitBegin])) c ∧
      MclContactHasValidated c.pendingOffer c.sessionRef c.challenge
        (c₀.history (calls ++ [.commitBegin])) ∧
      c.state = .committing ∧
      mclContactValidationResponse c c.pendingMigrationRef c.sessionRef (some c.challenge) =
        (.errInvalidState, c) ∧
      mclContactChallengeRepeat c c.pendingMigrationRef c.sessionRef (some c.challenge)
        (some false) = (.ok, some false) := by
  intro c₀ calls c
  have hstart : MclContactStarts c₀ := mclContactBegun_starts 0xA0 (by decide) (by decide)
  have hvalidated := MclContactRun.hasValidated hstart (c₀.history_run calls)
    (c₀.history_forall (P := fun call => ¬ call.isBegin = true) (by decide)) (by decide)
  have hstep : MclContactStep (c₀.after calls) (.commitBegin, .ok) c := by
    unfold MclContactStep
    decide
  have hcont : MclContactContinues ⟨c₀.after calls, (.commitBegin, .ok), c⟩ :=
    hstep.continues (by decide) (by rintro o (⟨-, h⟩ | ⟨_, _, h, -⟩) <;> cases h)
  have hoffer : c.pendingOffer = (c₀.after calls).pendingOffer := by decide
  have hsession : c.sessionRef = (c₀.after calls).sessionRef := by decide
  have hchallenge : c.challenge = (c₀.after calls).challenge := by decide
  have hok : ((MclContactCall.commitBegin).exec (c₀.after calls)).1 = .ok := by decide
  refine ⟨hstart, c₀.history_run _, ?_, by decide, by decide, by decide⟩
  rw [hoffer, hsession, hchallenge, MclContact.history_snoc, hok]
  exact hvalidated.wait hcont

end MclLink
