import MclLink.Peers.Transaction
import MclLink.Rendezvous.Beacon

/-!
# Beacons and transactions

The token of an offer is what its endpoint is found by. If every offer bears a token of its own, a
scanner finds the endpoint of the transaction it searches for and no other one.
-/

namespace MclLink

open LabelledRun

def MclMessage.proposal : MclMessage → Option MclOffer
  | .offer _ o => some o
  | _ => none

def MclAction.proposal : MclAction → Option MclOffer
  | .offer o => some o
  | _ => none

/-- All offers the two peers have made. -/
def MclPair.offers (s : MclPair) : List MclOffer :=
  (s.left.sent ++ s.right.sent).filterMap MclMessage.proposal

/-- An offer that is made bears a token which is not reserved and which no offer bore before. -/
def MclPair.NamesNew (s : MclPair) (e : MclSide × MclAction) : Prop :=
  ∀ o ∈ e.2.proposal, o.endpointToken ≠ 0 ∧ ∀ o' ∈ s.offers, o'.endpointToken ≠ o.endpointToken

instance (s : MclPair) (e : MclSide × MclAction) : Decidable (s.NamesNew e) :=
  Option.decidableForallMem e.2.proposal

/-- Every offer has a beacon, and no two have the same. -/
structure MclPair.NamesApart (s : MclPair) : Prop where
  legal : ∀ o ∈ s.offers, o.WellFormed ∧ o.endpointToken ≠ 0
  apart : ∀ o ∈ s.offers, ∀ o' ∈ s.offers, o.endpointToken = o'.endpointToken → o = o'

variable {s s' : MclPair} {p p' : MclPeer} {action : MclAction} {o : MclOffer} {x : MclSide}

private theorem MclPair.mem_offers :
    o ∈ s.offers ↔ ∃ y source, .offer source o ∈ (s.peer y).sent := by
  have hproposal : ∀ message : MclMessage,
      message.proposal = some o ↔ ∃ source, message = .offer source o := by
    intro message
    cases message <;> simp [MclMessage.proposal]
  simp only [MclPair.offers, List.mem_filterMap, List.mem_append, hproposal]
  constructor
  · rintro ⟨_, hsent | hsent, source, rfl⟩
    · exact ⟨.left, source, hsent⟩
    · exact ⟨.right, source, hsent⟩
  · rintro ⟨y, source, hsent⟩
    cases y with
    | left => exact ⟨_, Or.inl hsent, source, rfl⟩
    | right => exact ⟨_, Or.inr hsent, source, rfl⟩

private theorem MclPeerEffect.offers {inbox : List MclMessage}
    (heff : MclPeerEffect inbox p action p')
    {source : UInt32} (hoffer : .offer source o ∈ p'.sent) :
    .offer source o ∈ p.sent ∨ (o ∈ action.proposal ∧ o.WellFormed) := by
  cases heff with
  | @propose o' hs ho =>
    rcases List.mem_cons.mp hoffer with hsame | hold
    · obtain ⟨-, rfl⟩ := MclMessage.offer.inj hsame
      exact Or.inr ⟨rfl, ho⟩
    · exact Or.inl hold
  | _ => exact Or.inl (by simpa using hoffer)

private theorem MclPair.offers_step {e : MclSide × MclAction} (hstep : s.perform e = some s')
    (hoffer : o ∈ s'.offers) : o ∈ s.offers ∨ (o ∈ e.2.proposal ∧ o.WellFormed) := by
  obtain ⟨side, action⟩ := e
  obtain ⟨hperform, hother⟩ := MclPair.perform_peer hstep
  obtain ⟨y, source, hsent⟩ := MclPair.mem_offers.mp hoffer
  have hsplit : ∀ y source, .offer source o ∈ (s'.peer y).sent →
      o ∈ s.offers ∨ (o ∈ action.proposal ∧ o.WellFormed) := by
    rw [MclSide.forall_iff side, hother]
    refine ⟨fun source hsent => ?_,
      fun source hsent => Or.inl (MclPair.mem_offers.mpr ⟨_, source, hsent⟩)⟩
    rcases MclPeer.perform_effect hperform with hsame | heff
    · rw [hsame] at hsent
      exact Or.inl (MclPair.mem_offers.mpr ⟨_, source, hsent⟩)
    · exact (heff.offers hsent).imp_left fun hold => MclPair.mem_offers.mpr ⟨_, source, hold⟩
  exact hsplit y source hsent

private theorem MclPair.namesApart_step {e : MclSide × MclAction} (h : s.NamesApart)
    (hstep : s.perform e = some s') (hnames : s.NamesNew e) : s'.NamesApart := by
  constructor
  · intro o hoffer
    rcases MclPair.offers_step hstep hoffer with hold | ⟨hnew, ho⟩
    · exact h.legal o hold
    · exact ⟨ho, (hnames o hnew).1⟩
  · intro o hoffer o' hoffer' hsame
    rcases MclPair.offers_step hstep hoffer with hold | ⟨hnew, -⟩ <;>
      rcases MclPair.offers_step hstep hoffer' with hold' | ⟨hnew', -⟩
    · exact h.apart o hold o' hold' hsame
    · exact absurd hsame ((hnames o' hnew').2 o hold)
    · exact absurd hsame.symm ((hnames o hnew).2 o' hold')
    · exact Option.some.inj (hnew.symm.trans hnew')

private theorem MclPair.Starts.namesApart (h : s.Starts) : s.NamesApart := by
  obtain ⟨a, b, -, -, -, rfl⟩ := h
  exact ⟨nofun, nofun⟩

private theorem MclPeer.Transacts.offered (h : (s.peer x).Transacts (s.peer x.other))
    (hprogress : mclContactMigrationInProgress (s.peer x).contact = true) :
    (s.peer x).contact.pendingOffer ∈ s.offers := by
  cases hoffering : (s.peer x).offering with
  | true =>
    obtain ⟨⟨source, hoffer⟩, -⟩ := h.2.own hoffering hprogress
    exact MclPair.mem_offers.mpr ⟨x, source, hoffer⟩
  | false =>
    obtain ⟨source, hoffer⟩ := h.2.adopted hoffering hprogress
    exact MclPair.mem_offers.mpr ⟨x.other, source, hoffer⟩

/-- If every offer bears a token of its own, then in every state a run reaches each offer that was
ever made has a beacon, and the scanner of a peer that is in a transaction recognises the beacon of
the offer pending there and no other one, not even one left by an abandoned migration. -/
theorem mclPair_beacons_meet {s₀ : MclPair} {tr : List (Event MclPair (MclSide × MclAction))}
    (hstart : s₀.Starts) (run : MclPairRun s₀ tr s)
    (hnames : ∀ ev ∈ tr, ev.before.NamesNew ev.label)
    (hprogress : mclContactMigrationInProgress (s.peer x).contact = true) :
    (s.peer x).contact.pendingOffer ∈ s.offers ∧
      ∀ o ∈ s.offers, ∀ (out : List UInt8) (written : ℕ), mclRendezvousBeaconSize ≤ out.length →
        ∃ out', mclRendezvousBeaconEncode o.transport o.endpointToken (some out) (some written) =
            (.ok, some out', some mclRendezvousBeaconSize) ∧
          (mclRendezvousBeaconMatches (some out') (s.peer x).contact.pendingTransport
            (s.peer x).contact.pendingEndpointToken = 1 ↔ o = (s.peer x).contact.pendingOffer) := by
  have hapart := run.invariant_of hnames hstart.namesApart MclPair.namesApart_step
  have hpending := (run.invariant hstart.transacts MclPair.transacts_step x).offered hprogress
  refine ⟨hpending, fun o hoffer out written hsize => ?_⟩
  obtain ⟨ho, htoken⟩ := hapart.legal o hoffer
  have hbeacon : mclRendezvousBeaconSize ≤
      (mclRendezvousBeaconLayout o.transport o.endpointToken ++
        out.drop mclRendezvousBeaconSize).length := by
    rw [List.length_append, length_mclRendezvousBeaconLayout]
    exact Nat.le_add_right _ _
  refine ⟨_, mclRendezvousBeaconEncode_ok_iff.mpr ⟨⟨ho.2.1, htoken⟩, hsize, rfl, rfl⟩, ?_⟩
  rw [mclRendezvousBeaconMatches_iff, List.take_left' length_mclRendezvousBeaconLayout]
  constructor
  · rintro ⟨-, -, hsame⟩
    have hfields := (take_eq_beacon_iff hbeacon).mp
      (List.take_left' length_mclRendezvousBeaconLayout)
    have hfields' := (take_eq_beacon_iff hbeacon).mp
      ((List.take_left' length_mclRendezvousBeaconLayout).trans hsame)
    exact hapart.apart _ hoffer _ hpending (hfields.2.2.2.symm.trans hfields'.2.2.2)
  · rintro rfl
    exact ⟨⟨ho.2.1, htoken⟩, hbeacon, rfl⟩

/-- A migration was abandoned: the right peer, which takes part in the next one, passes over the
beacon that the left one had published for it. -/
theorem mclPair_beacons_meet_abandoned :
    let s₀ : MclPair := ⟨⟨mclContactBegun mclContactRoleInitiator 0xA0 1, false, []⟩,
      ⟨mclContactBegun mclContactRoleResponder 0xB0 1, false, []⟩⟩
    let o₁ : MclOffer := ⟨0x5001, 2, 1, 0xD00D, 30⟩
    let o₂ : MclOffer := ⟨0x5002, 2, 1, 0xBEEF, 30⟩
    let actions : List (MclSide × MclAction) := [(.left, .offer o₁),
      (.right, .receive (.offer 0xA0 o₁)), (.left, .abandon), (.right, .abandon),
      (.left, .offer o₂), (.right, .receive (.offer 0xA0 o₂))]
    ∃ s, script MclPair.perform s₀ actions = some s ∧ o₁ ∈ s.offers ∧
      ∃ out', mclRendezvousBeaconEncode o₁.transport o₁.endpointToken
          (some (List.replicate 8 0)) (some 0) = (.ok, some out', some 8) ∧
        mclRendezvousBeaconMatches (some out') s.right.contact.pendingTransport
          s.right.contact.pendingEndpointToken ≠ 1 := by
  intro s₀ o₁ o₂ actions
  have hstart : s₀.Starts := MclPair.starts_begun 0xA0 0xB0 (by decide)
  have hmoved : ((script MclPair.perform s₀ actions).map fun s =>
      (s.right.contact.state, s.right.contact.pendingOffer, s.offers)) =
      some (.offered, o₂, [o₂, o₁]) := by decide
  obtain ⟨s, hs, hstate⟩ := Option.map_eq_some_iff.mp hmoved
  simp only [Prod.mk.injEq] at hstate
  obtain ⟨hoffered, hpending, hoffers⟩ := hstate
  have hprogress : mclContactMigrationInProgress (s.peer .right).contact = true :=
    (mclContactMigrationInProgress_iff _).mpr (Or.inl hoffered)
  have hold : o₁ ∈ s.offers := by simp [hoffers]
  obtain ⟨-, hmeet⟩ := mclPair_beacons_meet hstart (Run.of_script hs) (by decide) hprogress
  obtain ⟨out', henc, hmatches⟩ := hmeet o₁ hold (List.replicate 8 0) 0 (by simp)
  refine ⟨s, hs, hold, out', henc, fun hmatch => ?_⟩
  have hsame : o₁ = o₂ := (hmatches.mp hmatch).trans hpending
  exact absurd hsame (by decide)

end MclLink
