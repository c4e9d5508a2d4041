import MclLink.Contact.Invariant

/-!
# Stage discipline

While a migration is in progress one call moves it by at most one stage, never backwards, and
never touches the agreed terms; a sent commit can only be confirmed or closed.
-/

namespace MclLink

/-- Position along offered, agreed, validating, validated, committing. -/
@[simp] def MclContactState.stage : MclContactState → Nat
  | .offered => 1
  | .agreed => 2
  | .validating => 3
  | .validated => 4
  | .committing => 5
  | .none | .active | .closed => 0

/-- State, pending fields and challenge are unchanged. -/
def MclContactStays (c c' : MclContact) : Prop :=
  c'.state = c.state ∧ c'.pendingOffer = c.pendingOffer ∧ c'.challenge = c.challenge ∧
    c'.challengeValid = c.challengeValid

/-- One stage further under the same terms; the challenge is written on entry to `validating`. -/
def MclContactAdvances (c c' : MclContact) : Prop :=
  0 < c.state.stage ∧ c'.state.stage = c.state.stage + 1 ∧ c'.pendingOffer = c.pendingOffer ∧
    (c'.state ≠ .validating →
      c'.challenge = c.challenge ∧ c'.challengeValid = c.challengeValid)

/-- The peer's offer won a collision and replaced the pending one. -/
def MclContactReplaces (c : MclContact) (call : MclContactCall) (c' : MclContact) : Prop :=
  ∃ source o out, call = .resolveOfferCollision source o out ∧ c.state = .offered ∧
    c.resolveOfferCollision source o out = (.ok, c', some .peerWins) ∧
    c'.state = .offered ∧ c'.pendingOffer = o

/-- The transaction is over. -/
def MclContactEnds (c : MclContact) (call : MclContactCall) (c' : MclContact) : Prop :=
  (c.state = .validated ∧ (∃ m s, call = .commitAccept m s) ∧ c'.state = .active) ∨
  (c.state = .committing ∧ (∃ m s, call = .commitConfirm m s) ∧ c'.state = .active) ∨
  (mclContactMigrationIsRevocable c = true ∧ call = .abandonMigration ∧ c'.state = .active) ∨
  (c.state = .offered ∧ (∃ source o out, call = .resolveOfferCollision source o out ∧
    c.resolveOfferCollision source o out = (.ok, c', some .tieAbort)) ∧ c'.state = .active) ∨
  (call = .close ∧ c'.state = .closed)

theorem adoptOffer_result {c : MclContact} {source : UInt32} {o : MclOffer}
    {out : MclContactCollision} (hstate : c.state = .offered) (ho : o.WellFormed)
    (hlt : offerKey c.localRef c.pendingMigrationRef < offerKey source o.migrationRef)
    (hcur : o.transport ≠ c.activeTransport) :
    c.resolveOfferCollision source o (some out) = (.ok, c.withOffer o, some .peerWins) := by
  rw [resolveOfferCollision_eq hstate ho, if_neg hlt.ne, if_pos hlt, if_neg hcur]

theorem tieAbort_result {c : MclContact} {source : UInt32} {o : MclOffer}
    {out : MclContactCollision} (hstate : c.state = .offered) (ho : o.WellFormed)
    (htie : offerKey c.localRef c.pendingMigrationRef = offerKey source o.migrationRef) :
    c.resolveOfferCollision source o (some out) = (.ok, c.retired, some .tieAbort) := by
  rw [resolveOfferCollision_eq hstate ho, if_pos htie]

private theorem MclContactEffect.move {c c' : MclContact} {call : MclContactCall}
    (heff : MclContactEffect c call c') (hprogress : mclContactMigrationInProgress c = true)
    (hbegin : ¬ call.isBegin) :
    MclContactStays c c' ∨ MclContactAdvances c c' ∨ MclContactReplaces c call c' ∨
      MclContactEnds c call c' := by
  cases heff with
  | begin => exact absurd rfl hbegin
  | bindPeer => exact Or.inl ⟨rfl, rfl, rfl, rfl⟩
  | openOffer hstate =>
    rw [mclContactMigrationInProgress_iff, hstate] at hprogress
    simp at hprogress
  | @adoptOffer source o out hstate ho hlt hcur =>
    exact Or.inr (Or.inr (Or.inl ⟨source, o, some out, rfl, hstate,
      adoptOffer_result hstate ho hlt hcur, rfl, rfl⟩))
  | @tieAbort source o out hstate ho htie =>
    have hend : MclContactEnds c _ c.retired := Or.inr (Or.inr (Or.inr (Or.inl
      ⟨hstate, ⟨source, o, some out, rfl, tieAbort_result hstate ho htie⟩, rfl⟩)))
    exact Or.inr (Or.inr (Or.inr hend))
  | agree hstate | challenge hstate | validate hstate | commitBegin hstate =>
    refine Or.inr (Or.inl ⟨?_, ?_, rfl, ?_⟩) <;> simp [hstate, MclContactState.stage]
  | commitConfirm hstate =>
    exact Or.inr (Or.inr (Or.inr (Or.inr (Or.inl ⟨hstate, ⟨_, _, rfl⟩, rfl⟩))))
  | commitAccept hstate =>
    exact Or.inr (Or.inr (Or.inr (Or.inl ⟨hstate, ⟨_, _, rfl⟩, rfl⟩)))
  | abandon hrev =>
    exact Or.inr (Or.inr (Or.inr (Or.inr (Or.inr (Or.inl ⟨hrev, rfl, rfl⟩)))))
  | close => exact Or.inr (Or.inr (Or.inr (Or.inr (Or.inr (Or.inr (Or.inr ⟨rfl, rfl⟩))))))

private theorem MclContactOutcome.move {c c' : MclContact} {call : MclContactCall}
    {st : MclLinkStatus}
    (h : MclContactOutcome c call st c') (hprogress : mclContactMigrationInProgress c = true)
    (hbegin : ¬ call.isBegin) :
    MclContactStays c c' ∨ MclContactAdvances c c' ∨ MclContactReplaces c call c' ∨
      MclContactEnds c call c' := by
  rcases h with rfl | ⟨-, heff⟩
  · exact Or.inl ⟨rfl, rfl, rfl, rfl⟩
  · exact heff.move hprogress hbegin

private theorem MclContactEnds.not_inProgress {c c' : MclContact} {call : MclContactCall}
    (h : MclContactEnds c call c') : mclContactMigrationInProgress c' = false := by
  have hstate : c'.state = .active ∨ c'.state = .closed := by
    rcases h with h | h | h | h | h <;> simp [h]
  rcases hstate with hs | hs <;> simp [mclContactMigrationInProgress, hs]

private theorem MclContactOutcome.committing {c c' : MclContact} {call : MclContactCall}
    {st : MclLinkStatus} (h : MclContactOutcome c call st c') (hbegin : ¬ call.isBegin)
    (hstate : c.state = .committing) :
    MclContactStays c c' ∨
      (call = .commitConfirm c.pendingMigrationRef c.sessionRef ∧ st = .ok) ∨
      (call = .close ∧ st = .ok) := by
  rcases h with rfl | ⟨hok, heff⟩
  · exact Or.inl ⟨rfl, rfl, rfl, rfl⟩
  · cases heff with
    | begin => exact absurd rfl hbegin
    | bindPeer => exact Or.inl ⟨rfl, rfl, rfl, rfl⟩
    | commitConfirm => exact Or.inr (Or.inl ⟨rfl, hok⟩)
    | close => exact Or.inr (Or.inr ⟨rfl, hok⟩)
    | abandon hrev => simp [mclContactMigrationIsRevocable, hstate] at hrev
    | openOffer hs | adoptOffer hs | tieAbort hs | agree hs | challenge hs | validate hs
    | commitBegin hs | commitAccept hs => simp [hstate] at hs

/-- Stage discipline and irrevocability of the commit, for every call but a begin. -/
theorem mclContact_stage_discipline {c c' : MclContact} {call : MclContactCall}
    {st : MclLinkStatus} (hreach : MclContactReachable c)
    (hprogress : mclContactMigrationInProgress c = true) (hbegin : ¬ call.isBegin)
    (h : call.exec c = (st, c')) :
    (MclContactStays c c' ∨ MclContactAdvances c c' ∨ MclContactReplaces c call c' ∨
      MclContactEnds c call c') ∧
    (mclContactMigrationInProgress c' = true → c.state.stage ≤ c'.state.stage ∧
      (c.state ≠ .offered → c'.pendingOffer = c.pendingOffer)) ∧
    (c.state = .committing → MclContactStays c c' ∨
      (call = .commitConfirm c.pendingMigrationRef c.sessionRef ∧ st = .ok) ∨
      (call = .close ∧ st = .ok)) ∧
    ∀ x y, mclContactDataTransport c (some x) (some y) =
      (.ok, some c.activeTransport, some (decide (c.state = .committing))) := by
  have hout : MclContactOutcome c call st c' := exec_effect h
  have hmove := hout.move hprogress hbegin
  refine ⟨hmove, ?_, hout.committing hbegin, ?_⟩
  · intro hprogress'
    rcases hmove with ⟨hs, ho, -⟩ | ⟨-, hs, ho, -⟩ | ⟨_, _, _, _, hoffered, -, hs, -⟩ | hend
    · exact ⟨by rw [hs], fun _ => ho⟩
    · exact ⟨by omega, fun _ => ho⟩
    · exact ⟨by rw [hs, hoffered], fun hne => absurd hoffered hne⟩
    · rw [hend.not_inProgress] at hprogress'
      exact absurd hprogress' (by decide)
  · intro x y
    have hnone := hreach.wellFormed.begun
    have hclosed : c.state ≠ .closed := by
      intro hs
      simp [mclContactMigrationInProgress, hs] at hprogress
    simp [mclContactDataTransport, hnone, hclosed]

/-- A second challenge in the middle of validation is refused and changes nothing. -/
theorem mclContact_stage_discipline_validating :
    let c₀ := mclContactBegun mclContactRoleResponder 0xB0 1
    let calls := (mclContactMigrationCalls ⟨0x5001, 2, 1, 0xD00D, 30⟩ 0x77
      (Vector.replicate 8 0xC5)).take 3
    let c := c₀.after calls
    let c' := (mclContactValidationBegin c (some (Vector.replicate 8 0xEE))).2
    c.state = .validating ∧ c' = c ∧ c.state.stage ≤ c'.state.stage ∧
      mclContactDataTransport c (some 0) (some true) = (.ok, some 1, some false) := by
  intro c₀ calls c c'
  have hstart : MclContactStarts c₀ := mclContactBegun_starts 0xB0 (by decide) (by decide)
  have hreach : MclContactReachable c := ⟨c₀, _, hstart, c₀.history_run calls⟩
  have hcall : (MclContactCall.validationBegin (some (Vector.replicate 8 0xEE))).exec c =
      (.errInvalidState, c') := by decide
  have h := mclContact_stage_discipline hreach (by decide) (by decide) hcall
  exact ⟨by decide, by decide, (h.2.1 (by decide)).1, h.2.2.2 0 true⟩

end MclLink
