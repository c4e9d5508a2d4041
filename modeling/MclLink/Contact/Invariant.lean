import MclLink.Contact.Runs

/-!
# The representation invariant

What every check of `contact.c` silently relies on, over all runs from a successful begin,
with a begin allowed at any point.
-/

namespace MclLink

open LabelledRun

/-- The representation invariant of `mcl_contact_t`. -/
structure MclContactWellFormed (c : MclContact) : Prop where
  begun : c.state ≠ .none
  transport : c.activeTransport ≠ mclContactTransportReserved
  idle : c.state = .active ∨ c.state = .closed →
    c.pendingOffer = ⟨mclContactMigrationNone, mclContactTransportReserved, 0, 0, 0⟩ ∧
      c.challenge = Vector.replicate mclContactChallengeSize 0 ∧ c.challengeValid = false
  pending : mclContactMigrationInProgress c = true →
    c.pendingOffer.WellFormed ∧ c.pendingTransport ≠ c.activeTransport
  session : c.state = .agreed ∨ c.state = .validating ∨ c.state = .validated ∨
    c.state = .committing → c.sessionValid = true
  challenge : c.challengeValid = true ↔
    c.state = .validating ∨ c.state = .validated ∨ c.state = .committing
  sessionRef : c.sessionValid = true ↔ c.sessionRef ≠ mclContactSessionNone
  completed : c.completedMigrationRef ≠ mclContactMigrationNone ↔ 0 < c.migrationCount
  memory : c.completedMigrationRef ≠ mclContactMigrationNone → c.state ≠ .closed →
    c.sessionValid = true

theorem mclContactBegun_wellFormed (role : UInt8) (localRef : UInt32) {t : UInt8}
    (ht : t ≠ mclContactTransportReserved) :
    MclContactWellFormed (mclContactBegun role localRef t) := by
  constructor <;> simp [mclContactBegun, MclContact.pendingOffer, mclContactMigrationInProgress, ht]

private theorem saturated_pos (n : UInt16) : 0 < (if n < 0xFFFF then n + 1 else n) := by
  split_ifs with h
  · have hn : n.toNat < 65535 := h
    rw [UInt16.lt_iff_toNat_lt, UInt16.toNat_add]
    simp
    omega
  · have hn : ¬ n.toNat < 65535 := h
    rw [UInt16.lt_iff_toNat_lt]
    simp
    omega

theorem settled_wellFormed {c : MclContact} (h : MclContactWellFormed c)
    (hstate : c.state = .validated ∨ c.state = .committing) : MclContactWellFormed c.settled := by
  have hprogress : mclContactMigrationInProgress c = true :=
    (mclContactMigrationInProgress_iff c).mpr (by tauto)
  obtain ⟨⟨hm, ht, -⟩, -⟩ := h.pending hprogress
  have hsession : c.sessionValid = true := h.session (by tauto)
  have hcount := saturated_pos c.migrationCount
  have hnonzero := h.sessionRef.mp hsession
  constructor <;>
    simp_all [MclContact.pendingOffer, mclContactMigrationInProgress]

theorem withOffer_wellFormed {c : MclContact} {o : MclOffer} (h : MclContactWellFormed c)
    (hstate : c.state = .active ∨ c.state = .offered) (ho : o.WellFormed)
    (hcur : o.transport ≠ c.activeTransport) : MclContactWellFormed (c.withOffer o) := by
  have hmem : c.completedMigrationRef ≠ mclContactMigrationNone → c.sessionValid = true :=
    fun hne => h.memory hne (by rcases hstate with hs | hs <;> simp [hs])
  constructor
  case transport => exact h.transport
  case sessionRef => exact h.sessionRef
  case completed => exact h.completed
  case memory => exact fun hne _ => hmem hne
  all_goals simp_all [MclContact.pendingOffer, mclContactMigrationInProgress]

theorem retired_wellFormed {c : MclContact} (h : MclContactWellFormed c)
    (hstate : mclContactMigrationIsRevocable c = true) : MclContactWellFormed c.retired := by
  have hopen : c.state ≠ .closed := by
    rcases (mclContactMigrationIsRevocable_iff c).mp hstate with hs | hs | hs | hs <;> simp [hs]
  constructor
  case transport => exact h.transport
  case sessionRef => exact h.sessionRef
  case completed => exact h.completed
  case memory => exact fun hne _ => h.memory hne hopen
  all_goals simp [MclContact.pendingOffer, mclContactMigrationInProgress]

private theorem advanced_wellFormed {c c' : MclContact} (h : MclContactWellFormed c)
    (hc : mclContactMigrationInProgress c = true)
    (hc' : c'.state = .agreed ∨ c'.state = .validating ∨ c'.state = .validated ∨
      c'.state = .committing)
    (hcur : c'.activeTransport = c.activeTransport) (hoffer : c'.pendingOffer = c.pendingOffer)
    (hdone : c'.completedMigrationRef = c.completedMigrationRef ∧
      c'.migrationCount = c.migrationCount)
    (hsession : c'.sessionValid = true ∧ c'.sessionRef ≠ mclContactSessionNone)
    (hchallenge : c'.challengeValid = true ↔
      c'.state = .validating ∨ c'.state = .validated ∨ c'.state = .committing) :
    MclContactWellFormed c' := by
  have hidle : ¬ (c'.state = .active ∨ c'.state = .closed) := by
    rcases hc' with hs | hs | hs | hs <;> simp [hs]
  have hpending : c'.pendingTransport = c.pendingTransport := congrArg MclOffer.transport hoffer
  constructor
  case begun => rcases hc' with hs | hs | hs | hs <;> simp [hs]
  case transport => exact hcur ▸ h.transport
  case idle => exact fun hs => absurd hs hidle
  case pending => exact fun _ => by rw [hoffer, hpending, hcur]; exact h.pending hc
  case session => exact fun _ => hsession.1
  case challenge => exact hchallenge
  case sessionRef => exact iff_of_true hsession.1 hsession.2
  case completed => rw [hdone.1, hdone.2]; exact h.completed
  case memory => exact fun _ _ => hsession.1

theorem MclContactEffect.wellFormed {c c' : MclContact} {call : MclContactCall}
    (heff : MclContactEffect c call c') (h : MclContactWellFormed c) :
    MclContactWellFormed c' := by
  have hprogress := mclContactMigrationInProgress_iff c
  have hchallenge := h.challenge
  cases heff with
  | begin hrole ht => exact mclContactBegun_wellFormed _ _ ht
  | bindPeer => exact { h with }
  | openOffer hstate ho hcur => exact withOffer_wellFormed h (Or.inl hstate) ho hcur
  | adoptOffer hstate ho hlt hcur => exact withOffer_wellFormed h (Or.inr hstate) ho hcur
  | tieAbort hstate =>
    exact retired_wellFormed h ((mclContactMigrationIsRevocable_iff c).mpr (Or.inl hstate))
  | agree hstate hzero =>
    exact advanced_wellFormed h (hprogress.mpr (by tauto)) (by simp) rfl rfl ⟨rfl, rfl⟩
      ⟨rfl, hzero⟩ (by simpa [hstate] using hchallenge)
  | challenge hstate hsession =>
    exact advanced_wellFormed h (hprogress.mpr (by tauto)) (by simp) rfl rfl ⟨rfl, rfl⟩
      ⟨hsession, h.sessionRef.mp hsession⟩ (by simp)
  | validate hstate hvalid hsession =>
    exact advanced_wellFormed h (hprogress.mpr (by tauto)) (by simp) rfl rfl ⟨rfl, rfl⟩
      ⟨hsession, h.sessionRef.mp hsession⟩ (by simp [hvalid])
  | commitBegin hstate =>
    have hsession := h.session (by tauto)
    exact advanced_wellFormed h (hprogress.mpr (by tauto)) (by simp) rfl rfl ⟨rfl, rfl⟩
      ⟨hsession, h.sessionRef.mp hsession⟩ (by simp [hchallenge, hstate])
  | commitConfirm hstate => exact settled_wellFormed h (Or.inr hstate)
  | commitAccept hstate => exact settled_wellFormed h (Or.inl hstate)
  | abandon hrev => exact retired_wellFormed h hrev
  | close hnone =>
    constructor
    case transport => exact h.transport
    case completed => exact h.completed
    all_goals simp [MclContact.pendingOffer, mclContactMigrationInProgress]

theorem MclContactStep.wellFormed {c c' : MclContact} {e : MclContactCall × MclLinkStatus}
    (hstep : MclContactStep c e c') (h : MclContactWellFormed c) : MclContactWellFormed c' := by
  rcases hstep.outcome with rfl | ⟨-, heff⟩
  · exact h
  · exact heff.wellFormed h

private theorem MclContactStarts.wellFormed {c₀ : MclContact} (h : MclContactStarts c₀) :
    MclContactWellFormed c₀ := by
  obtain ⟨role, localRef, t, ht, rfl⟩ := h.eq_begun
  exact mclContactBegun_wellFormed role localRef ht

theorem MclContactReachable.wellFormed {c : MclContact} (h : MclContactReachable c) :
    MclContactWellFormed c := by
  obtain ⟨c₀, tr, hstart, run⟩ := h
  exact Run.invariant run hstart.wellFormed fun hwf hstep => hstep.wellFormed hwf

private theorem MclContactStep.peerRef {c c' : MclContact} {e : MclContactCall × MclLinkStatus}
    (hstep : MclContactStep c e c') (hbegin : ¬ (e.1.isBegin ∧ e.2 = .ok))
    (hvalid : c.peerRefValid = true) : c'.peerRefValid = true ∧ c'.peerRef = c.peerRef := by
  rcases hstep.outcome with rfl | ⟨hok, heff⟩
  · exact ⟨hvalid, rfl⟩
  · generalize hcall : e.1 = call at heff hbegin
    cases heff with
    | begin => exact absurd ⟨rfl, hok⟩ hbegin
    | bindPeer _ _ hunbound => simp [hvalid] at hunbound
    | _ => exact ⟨hvalid, rfl⟩

private theorem MclContactStep.sessionRef {c c' : MclContact} {e : MclContactCall × MclLinkStatus}
    (hstep : MclContactStep c e c') (hend : ¬ ((e.1.isBegin ∨ e.1.isClose) ∧ e.2 = .ok))
    (hvalid : c.sessionValid = true) :
    c'.sessionValid = true ∧ c'.sessionRef = c.sessionRef := by
  rcases hstep.outcome with rfl | ⟨hok, heff⟩
  · exact ⟨hvalid, rfl⟩
  · generalize hcall : e.1 = call at heff hend
    cases heff with
    | begin => exact absurd ⟨Or.inl rfl, hok⟩ hend
    | close => exact absurd ⟨Or.inr rfl, hok⟩ hend
    | agree _ _ hbound => exact ⟨rfl, hbound hvalid⟩
    | _ => exact ⟨hvalid, rfl⟩

private theorem MclContactWellFormed.controlTransport {c : MclContact} (h : MclContactWellFormed c)
    (hopen : c.state ≠ .closed) (x : UInt8) (y : Bool) :
    ∃ control active, mclContactControlTransport c (some x) = (.ok, some control) ∧
      mclContactMigrationActive c (some y) = (.ok, some active) ∧
      (control ≠ c.activeTransport ↔ active = true) := by
  have hbegun := h.begun
  cases hprogress : mclContactMigrationInProgress c with
  | false =>
    exact ⟨c.activeTransport, false,
      by simp [mclContactControlTransport, hbegun, hopen, hprogress],
      by simp [mclContactMigrationActive, hprogress], by simp⟩
  | true =>
    exact ⟨c.pendingTransport, true,
      by simp [mclContactControlTransport, hbegun, hopen, hprogress],
      by simp [mclContactMigrationActive, hprogress], by simp [(h.pending hprogress).2]⟩

/-- The representation invariant holds in every reachable state, and the two references that
correlate the contact never change once they are bound. -/
theorem mclContact_representation {c₀ c : MclContact} {tr : List MclContactEvent}
    (hstart : MclContactStarts c₀) (run : MclContactRun c₀ tr c) :
    MclContactWellFormed c ∧
      (c.state ≠ .closed → ∀ x y, ∃ control active,
        mclContactControlTransport c (some x) = (.ok, some control) ∧
        mclContactMigrationActive c (some y) = (.ok, some active) ∧
        (control ≠ c.activeTransport ↔ active = true)) ∧
      (∀ {tr' c'}, MclContactRun c tr' c' →
        (∀ ev ∈ tr', ¬ (ev.label.1.isBegin ∧ ev.label.2 = .ok)) → c.peerRefValid = true →
        c'.peerRefValid = true ∧ c'.peerRef = c.peerRef) ∧
      (∀ {tr' c'}, MclContactRun c tr' c' →
        (∀ ev ∈ tr', ¬ ((ev.label.1.isBegin ∨ ev.label.1.isClose) ∧ ev.label.2 = .ok)) →
        c.sessionValid = true → c'.sessionValid = true ∧ c'.sessionRef = c.sessionRef) := by
  have hwf : MclContactWellFormed c := MclContactReachable.wellFormed ⟨c₀, tr, hstart, run⟩
  refine ⟨hwf, fun hopen x y => hwf.controlTransport hopen x y, ?_, ?_⟩
  · intro tr' c' run' hok hvalid
    refine Run.invariant_of (I := fun d => d.peerRefValid = true ∧ d.peerRef = c.peerRef)
      run' hok ⟨hvalid, rfl⟩ ?_
    intro d e d' hd hstep hev
    obtain ⟨hvalid', href⟩ := hstep.peerRef hev hd.1
    exact ⟨hvalid', href.trans hd.2⟩
  · intro tr' c' run' hok hvalid
    refine Run.invariant_of (I := fun d => d.sessionValid = true ∧ d.sessionRef = c.sessionRef)
      run' hok ⟨hvalid, rfl⟩ ?_
    intro d e d' hd hstep hev
    obtain ⟨hvalid', href⟩ := hstep.sessionRef hev hd.1
    exact ⟨hvalid', href.trans hd.2⟩

/-- A responder whose path is being validated sends handoff control to the candidate. -/
theorem mclContact_representation_validating :
    let c₀ := mclContactBegun mclContactRoleResponder 0xB0 1
    let calls := (mclContactMigrationCalls ⟨0x5001, 2, 1, 0xD00D, 30⟩ 0x77
      (Vector.replicate 8 0xC5)).take 3
    let c := c₀.after calls
    MclContactWellFormed c ∧ c.state = .validating ∧
      ∃ control active, mclContactControlTransport c (some 0) = (.ok, some control) ∧
        mclContactMigrationActive c (some false) = (.ok, some active) ∧
        (control ≠ c.activeTransport ↔ active = true) := by
  intro c₀ calls c
  have hstart : MclContactStarts c₀ := mclContactBegun_starts 0xB0 (by decide) (by decide)
  have h := mclContact_representation hstart (c₀.history_run calls)
  exact ⟨h.1, by decide, h.2.1 (by decide) 0 false⟩

end MclLink
