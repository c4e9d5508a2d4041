import MclLink.Contact.Calls

/-!
# Inversion of the contact operations

One lemma for each operation that writes the contact: either it left the contact alone, or it
succeeded and made the one change `MclContactEffect` lists for it.
-/

namespace MclLink

/-- The call left the contact as it was, or it succeeded with one of the listed changes. -/
def MclContactOutcome (c : MclContact) (call : MclContactCall) (st : MclLinkStatus)
    (c' : MclContact) : Prop :=
  c' = c ∨ st = .ok ∧ MclContactEffect c call c'

section Helpers

theorem mclContactCheckTransaction_ok_iff (c : MclContact) (m s : UInt32) :
    mclContactCheckTransaction c m s = .ok ↔
      c.sessionValid = true ∧ m = c.pendingMigrationRef ∧ s = c.sessionRef := by
  unfold mclContactCheckTransaction
  grind

private theorem foldl_or_eq_zero {α : Type*} (f : α → UInt8) (xs : List α) (acc : UInt8) :
    xs.foldl (fun d x => d ||| f x) acc = 0 ↔ acc = 0 ∧ ∀ x ∈ xs, f x = 0 := by
  induction xs generalizing acc with
  | nil => simp
  | cons x xs ih =>
    simp only [List.foldl_cons, ih, List.forall_mem_cons, UInt8.or_eq_zero_iff, and_assoc]

theorem mclContactChallengeEquals_iff (c : MclContact) (echo : MclContactChallenge) :
    mclContactChallengeEquals c echo = true ↔ echo = c.challenge := by
  simp only [mclContactChallengeEquals, beq_iff_eq, foldl_or_eq_zero, true_and,
    UInt8.xor_eq_zero_iff]
  constructor
  · intro h
    apply Vector.ext
    intro i hi
    exact (h ⟨i, hi⟩ (List.mem_finRange _)).symm
  · rintro rfl i -
    rfl

private theorem mclContactSettleCommit_eq (c : MclContact) :
    mclContactSettleCommit c c.pendingMigrationRef = c.settled := by
  unfold mclContactSettleCommit mclContactClearPending mclContactClearChallenge MclContact.settled
  split <;> simp_all

theorem retired_eq (c : MclContact) :
    { mclContactClearPending c with state := .active } = c.retired := rfl

theorem mclContactMigrationIsRevocable_iff (c : MclContact) :
    mclContactMigrationIsRevocable c = true ↔
      c.state = .offered ∨ c.state = .agreed ∨ c.state = .validating ∨ c.state = .validated := by
  simp [mclContactMigrationIsRevocable]

theorem mclContactMigrationInProgress_iff (c : MclContact) :
    mclContactMigrationInProgress c = true ↔
      c.state = .offered ∨ c.state = .agreed ∨ c.state = .validating ∨ c.state = .validated ∨
        c.state = .committing := by
  simp [mclContactMigrationInProgress]

end Helpers

variable {c c' : MclContact} {st : MclLinkStatus} {m s : UInt32} {t p : UInt8}

private theorem mclContactBegin_effect {role : UInt8} {localRef : UInt32}
    (h : mclContactBegin c role localRef t = (st, c')) :
    MclContactOutcome c (.begin role localRef t) st c' := by
  unfold mclContactBegin at h
  split_ifs at h with hrole ht <;> cases h
  · exact Or.inl rfl
  · exact Or.inl rfl
  · have hr : role = mclContactRoleInitiator ∨ role = mclContactRoleResponder := by
      by_contra hne
      exact hrole (not_or.mp hne)
    exact Or.inr ⟨rfl, .begin hr ht⟩

private theorem mclContactSetPeerRef_effect {ref : UInt32}
    (h : mclContactSetPeerRef c ref = (st, c')) : MclContactOutcome c (.setPeerRef ref) st c' := by
  unfold mclContactSetPeerRef at h
  split_ifs at h with hstate hvalid hsame <;> cases h
  · exact Or.inl rfl
  · exact Or.inl rfl
  · exact Or.inl rfl
  · obtain ⟨hnone, hclosed⟩ := not_or.mp hstate
    exact Or.inr ⟨rfl, .bindPeer hnone hclosed (by simpa using hvalid)⟩

theorem recordOffer_effect {o : MclOffer} (h : c.recordOffer o = (st, c')) :
    MclContactOutcome c (.recordOffer o) st c' := by
  unfold MclContact.recordOffer mclContactRecordOffer at h
  split_ifs at h with hm ht hp hsame hdiff hactive hcur <;> cases h
  all_goals try exact Or.inl rfl
  exact Or.inr ⟨rfl, .openOffer (not_not.mp hactive) ⟨hm, ht, hp⟩ hcur⟩

theorem recordOffer_active {o : MclOffer} (hactive : c.state = .active)
    (h : c.recordOffer o = (.ok, c')) :
    c' = c.withOffer o ∧ o.WellFormed ∧ o.transport ≠ c.activeTransport := by
  unfold MclContact.recordOffer mclContactRecordOffer at h
  split_ifs at h with hm ht hp hsame hdiff hstate hcur <;> cases h
  · rw [hactive] at hsame
    exact absurd hsame.1 (by decide)
  · exact ⟨rfl, ⟨hm, ht, hp⟩, hcur⟩

theorem resolveOfferCollision_eq {source : UInt32} {o : MclOffer} {out : MclContactCollision}
    (hstate : c.state = .offered) (ho : o.WellFormed) :
    c.resolveOfferCollision source o (some out) =
      if offerKey c.localRef c.pendingMigrationRef = offerKey source o.migrationRef then
        (.ok, c.retired, some .tieAbort)
      else if offerKey c.localRef c.pendingMigrationRef < offerKey source o.migrationRef then
        if o.transport = c.activeTransport then (.errInvalidArgument, c, some out)
        else (.ok, c.withOffer o, some .peerWins)
      else (.ok, c, some .localWins) := by
  obtain ⟨hm, ht, hp⟩ := ho
  have hout : some out ≠ none := by simp
  simp only [MclContact.resolveOfferCollision, mclContactResolveOfferCollision, if_neg hout,
    if_neg hm, if_neg ht, if_neg hp, hstate, ne_eq, not_true_eq_false, if_false,
    offerKey_inj, offerKey_lt_iff]
  by_cases hsource : source = c.localRef
  · subst hsource
    by_cases href : o.migrationRef = c.pendingMigrationRef
    · simp [href, retired_eq]
    · simp [href, Ne.symm href, MclContact.withOffer, mclContactClearChallenge]
  · simp [hsource, Ne.symm hsource, MclContact.withOffer, mclContactClearChallenge]

theorem resolveOfferCollision_refused {source : UInt32} {o : MclOffer}
    {out : Option MclContactCollision}
    (h : out = none ∨ ¬ o.WellFormed ∨ c.state ≠ .offered) :
    ∃ st, st ≠ .ok ∧ c.resolveOfferCollision source o out = (st, c, out) := by
  unfold MclContact.resolveOfferCollision mclContactResolveOfferCollision
  by_cases hout : out = none
  · exact ⟨.errInvalidArgument, by decide, if_pos hout⟩
  by_cases hm : o.migrationRef = mclContactMigrationNone
  · exact ⟨.errInvalidArgument, by decide, by rw [if_neg hout, if_pos hm]⟩
  by_cases ht : o.transport = mclContactTransportReserved
  · exact ⟨.errInvalidArgument, by decide, by rw [if_neg hout, if_neg hm, if_pos ht]⟩
  by_cases hp : o.profile = mclContactProfileReserved
  · exact ⟨.errInvalidArgument, by decide, by rw [if_neg hout, if_neg hm, if_neg ht, if_pos hp]⟩
  by_cases hs : c.state = .offered
  · rcases h with h | h | h
    · exact absurd h hout
    · exact absurd ⟨hm, ht, hp⟩ h
    · exact absurd hs h
  · exact ⟨.errInvalidState, by decide,
      by rw [if_neg hout, if_neg hm, if_neg ht, if_neg hp, if_pos hs]⟩

theorem resolveOfferCollision_ok {source : UInt32} {o : MclOffer}
    {out out' : Option MclContactCollision}
    (h : c.resolveOfferCollision source o out = (.ok, c', out')) :
    c.state = .offered ∧ o.WellFormed ∧
      ((out' = some .localWins ∧ c' = c ∧
          offerKey source o.migrationRef < offerKey c.localRef c.pendingMigrationRef) ∨
        (out' = some .peerWins ∧ c' = c.withOffer o ∧ o.transport ≠ c.activeTransport ∧
          offerKey c.localRef c.pendingMigrationRef < offerKey source o.migrationRef) ∨
        (out' = some .tieAbort ∧ c' = c.retired ∧
          offerKey c.localRef c.pendingMigrationRef = offerKey source o.migrationRef)) := by
  by_cases hpre : out = none ∨ ¬ o.WellFormed ∨ c.state ≠ .offered
  · obtain ⟨st, hst, heq⟩ := resolveOfferCollision_refused hpre
    rw [heq] at h
    exact absurd (congrArg Prod.fst h) hst
  · obtain ⟨hout, ho, hstate⟩ : out ≠ none ∧ o.WellFormed ∧ c.state = .offered := by
      simpa [not_or] using hpre
    obtain ⟨prior, rfl⟩ := Option.ne_none_iff_exists'.mp hout
    rw [resolveOfferCollision_eq hstate ho] at h
    refine ⟨hstate, ho, ?_⟩
    split_ifs at h with htie hlt hcur <;> cases h
    · exact Or.inr (Or.inr ⟨rfl, rfl, htie⟩)
    · exact Or.inr (Or.inl ⟨rfl, rfl, hcur, hlt⟩)
    · have hgt := lt_of_le_of_ne (not_lt.mp hlt) (Ne.symm htie)
      exact Or.inl ⟨rfl, rfl, hgt⟩

theorem resolveOfferCollision_not_ok {source : UInt32} {o : MclOffer}
    {out out' : Option MclContactCollision}
    (h : c.resolveOfferCollision source o out = (st, c', out')) (hst : st ≠ .ok) :
    c' = c ∧ out' = out := by
  by_cases hpre : out = none ∨ ¬ o.WellFormed ∨ c.state ≠ .offered
  · obtain ⟨st', -, heq⟩ := resolveOfferCollision_refused hpre
    rw [heq] at h
    cases h
    exact ⟨rfl, rfl⟩
  · obtain ⟨hout, ho, hstate⟩ : out ≠ none ∧ o.WellFormed ∧ c.state = .offered := by
      simpa [not_or] using hpre
    obtain ⟨prior, rfl⟩ := Option.ne_none_iff_exists'.mp hout
    rw [resolveOfferCollision_eq hstate ho] at h
    split_ifs at h with htie hlt hcur <;> cases h
    · exact absurd rfl hst
    · exact ⟨rfl, rfl⟩
    · exact absurd rfl hst
    · exact absurd rfl hst

private theorem resolveOfferCollision_effect {source : UInt32} {o : MclOffer}
    {out out' : Option MclContactCollision}
    (h : c.resolveOfferCollision source o out = (st, c', out')) :
    MclContactOutcome c (.resolveOfferCollision source o out) st c' := by
  by_cases hst : st = .ok
  · subst hst
    have hout : out ≠ none := by
      rintro rfl
      obtain ⟨st, hst, heq⟩ :=
        @resolveOfferCollision_refused c source o none (Or.inl rfl)
      rw [heq] at h
      exact hst (congrArg Prod.fst h)
    obtain ⟨prior, rfl⟩ := Option.ne_none_iff_exists'.mp hout
    obtain ⟨hstate, ho, ⟨-, rfl, -⟩ | ⟨-, rfl, hcur, hlt⟩ | ⟨-, rfl, htie⟩⟩ :=
      resolveOfferCollision_ok h
    · exact Or.inl rfl
    · exact Or.inr ⟨rfl, .adoptOffer hstate ho hlt hcur⟩
    · exact Or.inr ⟨rfl, .tieAbort hstate ho htie⟩
  · exact Or.inl (resolveOfferCollision_not_ok h hst).1

theorem mclContactAgree_effect (h : mclContactAgree c m t p s = (st, c')) :
    MclContactOutcome c (.agree m t p s) st c' := by
  unfold mclContactAgree at h
  split_ifs at h with hzero hbound hlate hdiff hstate hm ht hp <;> cases h
  all_goals try exact Or.inl rfl
  obtain rfl := not_not.mp hm
  obtain rfl := not_not.mp ht
  obtain rfl := not_not.mp hp
  refine Or.inr ⟨rfl, .agree (not_not.mp hstate) hzero ?_⟩
  intro hvalid
  by_contra hne
  exact hbound ⟨hvalid, hne⟩

theorem mclContactValidationBegin_effect {challenge : Option MclContactChallenge}
    (h : mclContactValidationBegin c challenge = (st, c')) :
    MclContactOutcome c (.validationBegin challenge) st c' := by
  cases challenge with
  | none =>
    cases h
    exact Or.inl rfl
  | some challenge =>
    simp only [mclContactValidationBegin] at h
    split_ifs at h with hstate hvalid <;> cases h
    · exact Or.inl rfl
    · exact Or.inl rfl
    · exact Or.inr ⟨rfl, .challenge (not_not.mp hstate) (by simpa using hvalid)⟩

theorem mclContactValidationResponse_effect {echo : Option MclContactChallenge}
    (h : mclContactValidationResponse c m s echo = (st, c')) :
    MclContactOutcome c (.validationResponse m s echo) st c' := by
  cases echo with
  | none =>
    cases h
    exact Or.inl rfl
  | some echo =>
    simp only [mclContactValidationResponse] at h
    split_ifs at h with hdone hcheck hecho hstate hvalid hcheck hecho <;> cases h
    all_goals try exact Or.inl rfl
    obtain ⟨hsession, rfl, rfl⟩ := (mclContactCheckTransaction_ok_iff c m s).mp (not_not.mp hcheck)
    obtain rfl := (mclContactChallengeEquals_iff c echo).mp (by simpa using hecho)
    exact Or.inr ⟨rfl, .validate (not_not.mp hstate) (by simpa using hvalid) hsession⟩

theorem mclContactAgree_ok (h : mclContactAgree c m t p s = (.ok, c')) :
    (s ≠ mclContactSessionNone ∧ (c.sessionValid = true → s = c.sessionRef)) ∧
      (m = c.pendingMigrationRef ∧ t = c.pendingTransport ∧ p = c.pendingProfile) ∧
      ((c.state = .offered ∧ c' = { c with sessionRef := s, sessionValid := true, state := .agreed }) ∨
        ((c.state = .agreed ∨ c.state = .validating ∨ c.state = .validated ∨
          c.state = .committing) ∧ c' = c)) := by
  unfold mclContactAgree at h
  split_ifs at h with hzero hbound hlate hdiff hstate hm ht hp <;> cases h
  all_goals
    have hsession : c.sessionValid = true → s = c.sessionRef :=
      fun hvalid => by_contra fun hne => hbound ⟨hvalid, hne⟩
  · obtain ⟨hm, ht, hp⟩ : m = c.pendingMigrationRef ∧ t = c.pendingTransport ∧
        p = c.pendingProfile := by simpa using hdiff
    exact ⟨⟨hzero, hsession⟩, ⟨hm, ht, hp⟩, Or.inr ⟨hlate, rfl⟩⟩
  · exact ⟨⟨hzero, hsession⟩, ⟨not_not.mp hm, not_not.mp ht, not_not.mp hp⟩,
      Or.inl ⟨not_not.mp hstate, rfl⟩⟩

theorem mclContactValidationBegin_ok {challenge : MclContactChallenge}
    (h : mclContactValidationBegin c (some challenge) = (.ok, c')) :
    c.state = .agreed ∧ c.sessionValid = true ∧
      c' = { c with challenge := challenge, challengeValid := true, state := .validating } := by
  simp only [mclContactValidationBegin] at h
  split_ifs at h with hstate hvalid <;> cases h
  exact ⟨not_not.mp hstate, by simpa using hvalid, rfl⟩

theorem mclContactValidationResponse_ok {echo : MclContactChallenge}
    (h : mclContactValidationResponse c m s (some echo) = (.ok, c')) :
    (c.sessionValid = true ∧ m = c.pendingMigrationRef ∧ s = c.sessionRef) ∧
      (c.challengeValid = true ∧ echo = c.challenge) ∧
      ((c.state = .validating ∧ c' = { c with state := .validated }) ∨
        (c.state = .validated ∧ c' = c)) := by
  simp only [mclContactValidationResponse] at h
  split_ifs at h with hdone hcheck hecho hstate hvalid hcheck hecho
  · exact absurd (congrArg Prod.fst h) hcheck
  · simp at h
  · cases h
    obtain ⟨hvalid, hecho⟩ : c.challengeValid = true ∧ mclContactChallengeEquals c echo = true := by
      simpa using hecho
    exact ⟨(mclContactCheckTransaction_ok_iff c m s).mp (not_not.mp hcheck),
      ⟨hvalid, (mclContactChallengeEquals_iff c echo).mp hecho⟩, Or.inr ⟨hdone, rfl⟩⟩
  · simp at h
  · simp at h
  · exact absurd (congrArg Prod.fst h) hcheck
  · simp at h
  · cases h
    exact ⟨(mclContactCheckTransaction_ok_iff c m s).mp (not_not.mp hcheck),
      ⟨by simpa using hvalid, (mclContactChallengeEquals_iff c echo).mp (by simpa using hecho)⟩,
      Or.inl ⟨not_not.mp hstate, rfl⟩⟩

private theorem mclContactCommitBegin_effect (h : mclContactCommitBegin c = (st, c')) :
    MclContactOutcome c .commitBegin st c' := by
  unfold mclContactCommitBegin at h
  split_ifs at h with hstate <;> cases h
  · exact Or.inl rfl
  · exact Or.inr ⟨rfl, .commitBegin (not_not.mp hstate)⟩

theorem mclContactCommitConfirm_effect (h : mclContactCommitConfirm c m s = (st, c')) :
    MclContactOutcome c (.commitConfirm m s) st c' := by
  simp only [mclContactCommitConfirm] at h
  split_ifs at h with hactive hnone hdiff hstate hcheck <;> cases h
  all_goals try exact Or.inl rfl
  obtain ⟨hsession, rfl, rfl⟩ := (mclContactCheckTransaction_ok_iff c m s).mp (not_not.mp hcheck)
  rw [mclContactSettleCommit_eq]
  exact Or.inr ⟨rfl, .commitConfirm (not_not.mp hstate) hsession⟩

theorem mclContactCommitAccept_effect (h : mclContactCommitAccept c m s = (st, c')) :
    MclContactOutcome c (.commitAccept m s) st c' := by
  simp only [mclContactCommitAccept] at h
  split_ifs at h with hstate hcheck <;> cases h
  all_goals try exact Or.inl rfl
  obtain ⟨hsession, rfl, rfl⟩ := (mclContactCheckTransaction_ok_iff c m s).mp (not_not.mp hcheck)
  rw [mclContactSettleCommit_eq]
  exact Or.inr ⟨rfl, .commitAccept (not_not.mp hstate) hsession⟩

theorem mclContactCommitConfirm_ok (h : mclContactCommitConfirm c m s = (.ok, c')) :
    (c.state = .committing ∧ m = c.pendingMigrationRef ∧ s = c.sessionRef ∧ c' = c.settled) ∨
      (c.state = .active ∧ (c.sessionValid = true ∧ m ≠ mclContactMigrationNone) ∧
        m = c.completedMigrationRef ∧ s = c.sessionRef ∧ c' = c) := by
  simp only [mclContactCommitConfirm] at h
  split_ifs at h with hactive hnone hdiff hstate hcheck
  · simp at h
  · simp at h
  · obtain ⟨hvalid, hzero⟩ :
        c.sessionValid = true ∧ c.completedMigrationRef ≠ mclContactMigrationNone := by
      simpa using hnone
    obtain ⟨hm, hs⟩ : m = c.completedMigrationRef ∧ s = c.sessionRef := by simpa using hdiff
    cases h
    exact Or.inr ⟨hactive, ⟨hvalid, hm ▸ hzero⟩, hm, hs, rfl⟩
  · simp at h
  · exact absurd (congrArg Prod.fst h) hcheck
  · cases h
    obtain ⟨-, rfl, rfl⟩ := (mclContactCheckTransaction_ok_iff c m s).mp (not_not.mp hcheck)
    exact Or.inl ⟨not_not.mp hstate, rfl, rfl, mclContactSettleCommit_eq c⟩

theorem mclContactCommitAccept_ok (h : mclContactCommitAccept c m s = (.ok, c')) :
    c.state = .validated ∧ m = c.pendingMigrationRef ∧ s = c.sessionRef ∧ c' = c.settled := by
  simp only [mclContactCommitAccept] at h
  split_ifs at h with hstate hcheck
  · simp at h
  · exact absurd (congrArg Prod.fst h) hcheck
  · cases h
    obtain ⟨-, rfl, rfl⟩ := (mclContactCheckTransaction_ok_iff c m s).mp (not_not.mp hcheck)
    exact ⟨not_not.mp hstate, rfl, rfl, mclContactSettleCommit_eq c⟩

theorem mclContactCommitRepeat_iff (c : MclContact) (m s : UInt32) (r : Bool) :
    mclContactCommitRepeat c m s (some r) = (.ok, some true) ↔
      c.state = .active ∧ c.completedMigrationRef ≠ mclContactMigrationNone ∧
        c.sessionValid = true ∧ m = c.completedMigrationRef ∧ s = c.sessionRef := by
  simp only [mclContactCommitRepeat]
  split_ifs with hstate hnone hsession hm hs <;> simp_all

theorem mclContactAbandonMigration_effect (h : mclContactAbandonMigration c = (st, c')) :
    MclContactOutcome c .abandonMigration st c' := by
  unfold mclContactAbandonMigration at h
  split_ifs at h with hrev <;> cases h
  · exact Or.inl rfl
  · exact Or.inr ⟨rfl, .abandon (by simpa using hrev)⟩

theorem mclContactClose_effect (h : mclContactClose c = (st, c')) :
    MclContactOutcome c .close st c' := by
  unfold mclContactClose at h
  split_ifs at h with hnone <;> cases h
  · exact Or.inl rfl
  · exact Or.inr ⟨rfl, .close hnone⟩

/-- A call changes the contact in one of the listed ways or not at all. -/
theorem exec_effect {call : MclContactCall} (h : call.exec c = (st, c')) :
    MclContactOutcome c call st c' := by
  cases call with
  | begin => exact mclContactBegin_effect h
  | setPeerRef => exact mclContactSetPeerRef_effect h
  | recordOffer => exact recordOffer_effect h
  | resolveOfferCollision source o out =>
    cases h
    exact resolveOfferCollision_effect rfl
  | agree => exact mclContactAgree_effect h
  | validationBegin => exact mclContactValidationBegin_effect h
  | validationResponse => exact mclContactValidationResponse_effect h
  | commitBegin => exact mclContactCommitBegin_effect h
  | commitConfirm => exact mclContactCommitConfirm_effect h
  | commitAccept => exact mclContactCommitAccept_effect h
  | abandonMigration => exact mclContactAbandonMigration_effect h
  | close => exact mclContactClose_effect h
  | challengeRepeat | commitRepeat | activeTransport | migrationActive | controlTransport
  | dataTransport =>
    cases h
    exact Or.inl rfl

/-- Every listed change is one the code makes. -/
theorem MclContactEffect.exec {call : MclContactCall} (h : MclContactEffect c call c') :
    call.exec c = (.ok, c') := by
  cases h with
  | begin hrole ht =>
    have hr := fun hne => not_or.mpr hne hrole
    simp only [MclContactCall.exec, mclContactBegin]
    rw [if_neg hr, if_neg ht]
    rfl
  | bindPeer hnone hclosed hvalid =>
    simp [MclContactCall.exec, mclContactSetPeerRef, hnone, hclosed, hvalid]
  | openOffer hstate ho hcur =>
    obtain ⟨hm, ht, hp⟩ := ho
    simp [MclContactCall.exec, MclContact.recordOffer, mclContactRecordOffer, hm, ht, hp, hcur,
      hstate, MclContact.withOffer, mclContactClearChallenge]
  | adoptOffer hstate ho hlt hcur =>
    simp only [MclContactCall.exec, resolveOfferCollision_eq hstate ho]
    rw [if_neg hlt.ne, if_pos hlt, if_neg hcur]
  | tieAbort hstate ho htie =>
    simp only [MclContactCall.exec, resolveOfferCollision_eq hstate ho]
    rw [if_pos htie]
  | @agree sessionRef hstate hzero hbound =>
    have hb : ¬ (c.sessionValid = true ∧ sessionRef ≠ c.sessionRef) := fun h => h.2 (hbound h.1)
    simp only [MclContactCall.exec, mclContactAgree]
    rw [if_neg hzero, if_neg hb]
    simp [hstate]
  | challenge hstate hvalid =>
    simp [MclContactCall.exec, mclContactValidationBegin, mclContactStoreChallenge, hstate, hvalid]
  | validate hstate hvalid hsession =>
    have hcheck := (mclContactCheckTransaction_ok_iff c _ _).mpr ⟨hsession, rfl, rfl⟩
    have hecho := (mclContactChallengeEquals_iff c _).mpr rfl
    simp [MclContactCall.exec, mclContactValidationResponse, hstate, hvalid, hcheck, hecho]
  | commitBegin hstate => simp [MclContactCall.exec, mclContactCommitBegin, hstate]
  | commitConfirm hstate hsession =>
    have hcheck := (mclContactCheckTransaction_ok_iff c _ _).mpr ⟨hsession, rfl, rfl⟩
    simp [MclContactCall.exec, mclContactCommitConfirm, hstate, hcheck, mclContactSettleCommit_eq]
  | commitAccept hstate hsession =>
    have hcheck := (mclContactCheckTransaction_ok_iff c _ _).mpr ⟨hsession, rfl, rfl⟩
    simp [MclContactCall.exec, mclContactCommitAccept, hstate, hcheck, mclContactSettleCommit_eq]
  | abandon hrev => simp [MclContactCall.exec, mclContactAbandonMigration, hrev, retired_eq]
  | close hnone =>
    simp [MclContactCall.exec, mclContactClose, hnone, MclContact.shut, mclContactClearPending,
      mclContactClearChallenge]

end MclLink
