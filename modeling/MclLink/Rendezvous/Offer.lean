import MclLink.Contact.Invariant
import MclLink.Rendezvous.Beacon

/-!
# Meeting the pending offer on its transport

The contact refuses an offer without a reference, a transport or a profile, but takes one whose
endpoint token is the value a beacon reserves. A run that takes no such offer is one in which
every pending offer can be met.
-/

namespace MclLink

open LabelledRun

/-- The pending offer can be met: its beacon is encoded, and is what a scanner recognises. -/
def MclContactMeetable (c : MclContact) : Prop :=
  ∀ (out : List UInt8) (written : ℕ), mclRendezvousBeaconSize ≤ out.length →
    ∃ out', mclRendezvousBeaconEncode c.pendingTransport c.pendingEndpointToken (some out)
        (some written) = (.ok, some out', some mclRendezvousBeaconSize) ∧
      ∀ data, mclRendezvousBeaconMatches (some data) c.pendingTransport
          c.pendingEndpointToken = 1 ↔
        mclRendezvousBeaconSize ≤ data.length ∧
          data.take mclRendezvousBeaconSize = out'.take mclRendezvousBeaconSize

/-- The contact takes the offer: it is recorded from `active`, or it wins a collision. -/
def MclContactCall.Takes (c : MclContact) (o : MclOffer) : MclContactCall → Prop
  | .recordOffer o' => o' = o ∧ c.state = .active ∧ o.WellFormed ∧ o.transport ≠ c.activeTransport
  | .resolveOfferCollision source o' outcome => o' = o ∧ outcome ≠ none ∧ c.state = .offered ∧
      o.WellFormed ∧ offerKey c.localRef c.pendingMigrationRef < offerKey source o.migrationRef ∧
      o.transport ≠ c.activeTransport
  | _ => False

/-- An offer that the call takes names an endpoint. -/
def MclContactNamesEndpoint (ev : MclContactEvent) : Prop :=
  ∀ o, ev.label.1.Takes ev.before o → o.endpointToken ≠ 0

variable {c c' : MclContact} {e : MclContactCall × MclLinkStatus} {tr : List MclContactEvent}

private theorem mclContactMeetable_iff : MclContactMeetable c ↔
    c.pendingTransport ≠ mclContactTransportReserved ∧ c.pendingEndpointToken ≠ 0 := by
  constructor
  · intro h
    obtain ⟨out', henc, -⟩ := h (List.replicate mclRendezvousBeaconSize 0) 0 (by simp)
    exact (mclRendezvousBeaconEncode_ok_iff.mp henc).1
  · intro h out written hsize
    refine ⟨_, mclRendezvousBeaconEncode_ok_iff.mpr ⟨h, hsize, rfl, rfl⟩, fun data => ?_⟩
    rw [mclRendezvousBeaconMatches_iff, List.take_left' length_mclRendezvousBeaconLayout]
    exact and_iff_right h

private theorem MclContactStep.takes {o : MclOffer} (hstep : MclContactStep c e c')
    (h : e.1.Takes c o) : c' = c.withOffer o := by
  obtain ⟨call, st⟩ := e
  have hexec : call.exec c = (st, c') := hstep
  have heff : MclContactEffect c call (c.withOffer o) := by
    cases call with
    | recordOffer o' =>
      obtain ⟨rfl, hactive, ho, hcur⟩ := h
      exact .openOffer hactive ho hcur
    | resolveOfferCollision source o' outcome =>
      obtain ⟨rfl, hout, hoffered, ho, hlt, hcur⟩ := h
      obtain ⟨prior, rfl⟩ := Option.ne_none_iff_exists'.mp hout
      exact .adoptOffer hoffered ho hlt hcur
    | _ => exact h.elim
  exact (Prod.mk.inj (hexec.symm.trans heff.exec)).2

private theorem MclContactStep.token (hstep : MclContactStep c e c')
    (hprogress : mclContactMigrationInProgress c' = true) :
    (mclContactMigrationInProgress c = true ∧
        c'.pendingEndpointToken = c.pendingEndpointToken) ∨
      ∃ o, e.1.Takes c o ∧ c'.pendingEndpointToken = o.endpointToken := by
  have hcases := mclContactMigrationInProgress_iff c
  rcases hstep.outcome with rfl | ⟨-, heff⟩
  · exact Or.inl ⟨hprogress, rfl⟩
  · generalize e.1 = call at heff
    cases heff with
    | bindPeer => exact Or.inl ⟨hprogress, rfl⟩
    | @openOffer o hactive ho hcur => exact Or.inr ⟨o, ⟨rfl, hactive, ho, hcur⟩, rfl⟩
    | @adoptOffer source o out hoffered ho hlt hcur =>
      exact Or.inr ⟨o, ⟨rfl, by simp, hoffered, ho, hlt, hcur⟩, rfl⟩
    | agree hs | challenge hs | validate hs | commitBegin hs =>
      exact Or.inl ⟨hcases.mpr (by tauto), rfl⟩
    | begin | tieAbort | commitConfirm | commitAccept | abandon | close =>
      simp [mclContactMigrationInProgress] at hprogress

/-- While every offer taken names an endpoint, so does the pending one. -/
def MclContactEndpointPending (c : MclContact) : Prop :=
  mclContactMigrationInProgress c = true → c.pendingEndpointToken ≠ 0

private theorem MclContactStep.endpointPending (hstep : MclContactStep c e c')
    (hnames : MclContactNamesEndpoint ⟨c, e, c'⟩) (h : MclContactEndpointPending c) :
    MclContactEndpointPending c' := by
  intro hprogress
  rcases hstep.token hprogress with ⟨hc, htoken⟩ | ⟨o, htakes, htoken⟩
  · rw [htoken]
    exact h hc
  · rw [htoken]
    exact hnames o htakes

private theorem MclContactWellFormed.meetable (hwf : MclContactWellFormed c)
    (h : MclContactEndpointPending c) (hprogress : mclContactMigrationInProgress c = true) :
    MclContactMeetable c :=
  mclContactMeetable_iff.mpr ⟨(hwf.pending hprogress).1.2.1, h hprogress⟩

/-- The pending offer can be met all along a run exactly if no offer it takes bears the reserved
token, and then it can be met in the state the run reaches. -/
theorem mclContact_offers_meetable {c₀ : MclContact} (hstart : MclContactStarts c₀)
    (run : MclContactRun c₀ tr c) :
    ((∀ ev ∈ tr, MclContactNamesEndpoint ev) ↔ ∀ ev ∈ tr,
      mclContactMigrationInProgress ev.after = true → MclContactMeetable ev.after) ∧
    ((∀ ev ∈ tr, MclContactNamesEndpoint ev) → mclContactMigrationInProgress c = true →
      MclContactMeetable c) := by
  have hinit : MclContactWellFormed c₀ ∧ MclContactEndpointPending c₀ := by
    obtain ⟨role, localRef, t, ht, rfl⟩ := hstart.eq_begun
    refine ⟨mclContactBegun_wellFormed role localRef ht, fun hprogress => ?_⟩
    simp [mclContactMigrationInProgress] at hprogress
  have hkeep : ∀ {d e d'}, (MclContactWellFormed d ∧ MclContactEndpointPending d) →
      MclContactStep d e d' → MclContactNamesEndpoint ⟨d, e, d'⟩ →
      MclContactWellFormed d' ∧ MclContactEndpointPending d' :=
    fun h hstep hnames => ⟨hstep.wellFormed h.1, hstep.endpointPending hnames h.2⟩
  refine ⟨⟨fun hnames ev hev => ?_, fun h ev hev o htakes => ?_⟩, fun hnames => ?_⟩
  · obtain ⟨hwf, hpending⟩ := Run.invariant_after run hnames hinit hkeep ev hev
    exact hwf.meetable hpending
  · obtain ⟨past, -, hstep⟩ := run.event hev
    have hstep : MclContactStep ev.before ev.label ev.after := hstep
    have hafter : ev.after = ev.before.withOffer o := hstep.takes htakes
    have hmeet := h ev hev (by rw [hafter]; rfl)
    rw [hafter] at hmeet
    exact (mclContactMeetable_iff.mp hmeet).2
  · obtain ⟨hwf, hpending⟩ := Run.invariant_of run hnames hinit hkeep
    exact hwf.meetable hpending

/-- A responder whose path is being validated can be met on the candidate. -/
theorem mclContact_offers_meetable_validating :
    let c₀ := mclContactBegun mclContactRoleResponder 0xB0 1
    let calls := (mclContactMigrationCalls ⟨0x5001, 2, 1, 0xD00D, 30⟩ 0x77
      (Vector.replicate 8 0xC5)).take 3
    (c₀.after calls).state = .validating ∧ MclContactMeetable (c₀.after calls) := by
  intro c₀ calls
  have hstart : MclContactStarts c₀ := mclContactBegun_starts 0xB0 (by decide) (by decide)
  have htoken : ∀ call ∈ calls, ∀ (c : MclContact) o, call.Takes c o → o.endpointToken ≠ 0 := by
    intro call hcall c o htakes
    simp only [calls, mclContactMigrationCalls, List.take_succ_cons, List.take_zero,
      List.mem_cons, List.not_mem_nil, or_false] at hcall
    rcases hcall with rfl | rfl | rfl
    · obtain ⟨rfl, -⟩ := htakes
      decide
    · exact htakes.elim
    · exact htakes.elim
  have hnames : ∀ ev ∈ c₀.history calls, MclContactNamesEndpoint ev := fun ev hev o =>
    c₀.history_forall (P := fun call => ∀ (c : MclContact) o, call.Takes c o →
      o.endpointToken ≠ 0) htoken ev hev ev.before o
  exact ⟨by decide, (mclContact_offers_meetable hstart (c₀.history_run calls)).2 hnames (by decide)⟩

/-- An offer recorded with the reserved token is in progress, and has no beacon. -/
theorem mclContact_offer_unmeetable :
    let c₀ := mclContactBegun mclContactRoleInitiator 0xA0 1
    let c := c₀.after [.recordOffer ⟨0x5001, 2, 1, 0, 30⟩]
    MclContactReachable c ∧ mclContactMigrationInProgress c = true ∧
      mclRendezvousBeaconEncode c.pendingTransport c.pendingEndpointToken
        (some (List.replicate 8 0)) (some 0) =
          (.errInvalidArgument, some (List.replicate 8 0), some 0) ∧
      ¬ MclContactMeetable c := by
  intro c₀ c
  have hstart : MclContactStarts c₀ := mclContactBegun_starts 0xA0 (by decide) (by decide)
  refine ⟨⟨c₀, _, hstart, c₀.history_run _⟩, by decide, by decide, fun h => ?_⟩
  exact absurd (mclContactMeetable_iff.mp h).2 (by decide)

end MclLink
