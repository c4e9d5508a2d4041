import MclLink.Contact.Handshake

/-!
# Replays of a completed migration

A contact remembers only its last completed reference, and does not consult it when an offer is
recorded. What refuses the replay of an older migration is the check against the transport the
contact is on, so a reference is settled once exactly as long as that check applies.
-/

namespace MclLink

open LabelledRun

/-- The migration `m` completed: a commit confirmed in `committing` or accepted in `validated`. -/
def MclContactSettles (m : UInt32) (ev : MclContactEvent) : Bool :=
  match ev.label with
  | (.commitConfirm m' _, .ok) => m' = m ∧ ev.before.state = .committing
  | (.commitAccept m' _, .ok) => m' = m ∧ ev.before.state = .validated
  | _ => false

/-- `mcl_contact_record_offer` opened a transaction under `m`. -/
def MclContactOpens (m : UInt32) (ev : MclContactEvent) : Prop :=
  ∃ o : MclOffer, o.migrationRef = m ∧ ev.label = (.recordOffer o, .ok) ∧
    ev.before.state = .active

/-- `m` was used again: opened, settled, or the contact moved or counted a move under it. -/
def MclContactReplays (m : UInt32) (ev : MclContactEvent) : Prop :=
  MclContactOpens m ev ∨ MclContactSettles m ev = true ∨
    (ev.before.pendingMigrationRef = m ∧
      (ev.after.activeTransport ≠ ev.before.activeTransport ∨
        ev.after.migrationCount ≠ ev.before.migrationCount))

/-- Every reference is settled at most once, and never used again once it is settled. -/
def MclContactSettlesOnce (tr : List MclContactEvent) : Prop :=
  (∀ m, tr.countP (MclContactSettles m) ≤ 1) ∧
    Along (fun past ev => ∀ m, (∃ x ∈ past, MclContactSettles m x = true) →
      ¬ MclContactReplays m ev) tr

/-- The offer that a call installs unless it names the transport the contact is on. -/
def MclContactCall.proposes (c : MclContact) : MclContactCall → Option MclOffer
  | .recordOffer o => if c.state = .active ∧ o.WellFormed then some o else none
  | .resolveOfferCollision source o (some _) =>
      if c.state = .offered ∧ o.WellFormed ∧
          offerKey c.localRef c.pendingMigrationRef < offerKey source o.migrationRef then some o
      else none
  | _ => none

/-- A proposed offer under a reference settled before names the transport the contact is on. -/
def MclContactRefusesReplay (past : List MclContactEvent) (ev : MclContactEvent) : Prop :=
  ∀ o ∈ ev.label.1.proposes ev.before, (∃ x ∈ past, MclContactSettles o.migrationRef x = true) →
    o.transport = ev.before.activeTransport

instance : ∀ past ev, Decidable (MclContactRefusesReplay past ev) := fun past ev =>
  inferInstanceAs (Decidable (∀ o ∈ ev.label.1.proposes ev.before,
    (∃ x ∈ past, MclContactSettles o.migrationRef x = true) →
      o.transport = ev.before.activeTransport))

variable {c c' : MclContact} {e : MclContactCall × MclLinkStatus}

private theorem MclContactStep.settles {m : UInt32} (hstep : MclContactStep c e c')
    (h : MclContactSettles m ⟨c, e, c'⟩ = true) :
    c' = c.settled ∧ m = c.pendingMigrationRef ∧
      (c.state = .committing ∨ c.state = .validated) := by
  obtain ⟨call, st⟩ := e
  simp only [MclContactSettles] at h
  split at h
  case h_1 m' s heq =>
    obtain ⟨rfl, hstate⟩ : m' = m ∧ c.state = .committing := by simpa using h
    obtain ⟨rfl, rfl⟩ := Prod.mk.inj heq
    rcases mclContactCommitConfirm_ok hstep with ⟨-, hm, -, hc'⟩ | ⟨hactive, -⟩
    · exact ⟨hc', hm, Or.inl hstate⟩
    · rw [hstate] at hactive
      exact absurd hactive (by decide)
  case h_2 m' s heq =>
    obtain ⟨rfl, hstate⟩ : m' = m ∧ c.state = .validated := by simpa using h
    obtain ⟨rfl, rfl⟩ := Prod.mk.inj heq
    obtain ⟨-, hm, -, hc'⟩ := mclContactCommitAccept_ok hstep
    exact ⟨hc', hm, Or.inr hstate⟩
  case h_3 => simp at h

/-- Settled references are never pending: the invariant that the condition keeps. -/
def MclContactForgets (tr : List MclContactEvent) (c : MclContact) : Prop :=
  mclContactMigrationInProgress c = true →
    ∀ x ∈ tr, MclContactSettles c.pendingMigrationRef x = false

private theorem MclContactStep.pending (hstep : MclContactStep c e c') (hbegin : ¬ e.1.isBegin)
    (hprogress : mclContactMigrationInProgress c' = true) :
    (mclContactMigrationInProgress c = true ∧
        c'.pendingMigrationRef = c.pendingMigrationRef) ∨
      ∃ o ∈ e.1.proposes c, o.transport ≠ c.activeTransport ∧
        c'.pendingMigrationRef = o.migrationRef := by
  have hcases := mclContactMigrationInProgress_iff c
  rcases hstep.outcome with rfl | ⟨hok, heff⟩
  · exact Or.inl ⟨hprogress, rfl⟩
  · generalize e.1 = call at heff hbegin
    cases heff with
    | begin => exact absurd rfl hbegin
    | bindPeer => exact Or.inl ⟨hprogress, rfl⟩
    | @openOffer o hactive ho hcur =>
      exact Or.inr ⟨o, by simp [MclContactCall.proposes, hactive, ho], hcur, rfl⟩
    | @adoptOffer source o out hoffered ho hlt hcur =>
      exact Or.inr ⟨o, by simp [MclContactCall.proposes, hoffered, ho, hlt], hcur, rfl⟩
    | agree hs | challenge hs | validate hs | commitBegin hs =>
      exact Or.inl ⟨hcases.mpr (by tauto), rfl⟩
    | tieAbort | commitConfirm | commitAccept | abandon | close =>
      simp [mclContactMigrationInProgress] at hprogress

private theorem MclContactStep.forgets {tr : List MclContactEvent} (hstep : MclContactStep c e c')
    (hbegin : ¬ e.1.isBegin) (hrefuses : MclContactRefusesReplay tr ⟨c, e, c'⟩)
    (h : MclContactForgets tr c) : MclContactForgets (tr ++ [⟨c, e, c'⟩]) c' := by
  intro hprogress x hx
  rcases List.mem_append.mp hx with hx | hx
  · rcases hstep.pending hbegin hprogress with ⟨hc, hm⟩ | ⟨o, ho, hcur, hm⟩
    · rw [hm]
      exact h hc x hx
    · rw [hm]
      by_contra hsettled
      exact hcur (hrefuses o ho ⟨x, hx, by simpa using hsettled⟩)
  · obtain rfl := List.mem_singleton.mp hx
    by_contra hsettled
    obtain ⟨rfl, -⟩ := hstep.settles (by simpa using hsettled)
    simp [mclContactMigrationInProgress] at hprogress

private theorem MclContactStep.counts (hstep : MclContactStep c e c') (hbegin : ¬ e.1.isBegin)
    (hcount : c'.migrationCount ≠ c.migrationCount) :
    c.state = .committing ∨ c.state = .validated := by
  rcases hstep.outcome with rfl | ⟨-, heff⟩
  · exact absurd rfl hcount
  · generalize e.1 = call at heff hbegin
    cases heff with
    | begin => exact absurd rfl hbegin
    | commitConfirm hstate => exact Or.inl hstate
    | commitAccept hstate => exact Or.inr hstate
    | _ => exact absurd rfl hcount

private theorem MclContactStep.replays {m : UInt32} (hstep : MclContactStep c e c')
    (hbegin : ¬ e.1.isBegin) (h : MclContactReplays m ⟨c, e, c'⟩) :
    (mclContactMigrationInProgress c = true ∧ m = c.pendingMigrationRef) ∨
      ∃ o ∈ e.1.proposes c, o.transport ≠ c.activeTransport ∧ o.migrationRef = m := by
  have hcases := mclContactMigrationInProgress_iff c
  rcases h with ⟨o, hm, hlabel, hactive⟩ | hsettles | ⟨hm, hmove⟩
  · obtain rfl : e = (.recordOffer o, .ok) := hlabel
    have hactive : c.state = .active := hactive
    obtain ⟨-, ho, hcur⟩ := recordOffer_active hactive hstep
    exact Or.inr ⟨o, by simp [MclContactCall.proposes, hactive, ho], hcur, hm⟩
  · obtain ⟨-, hm, hstate⟩ := hstep.settles hsettles
    exact Or.inl ⟨hcases.mpr (by tauto), hm⟩
  · have hstate : c.state = .committing ∨ c.state = .validated := by
      rcases hmove with hmove | hcount
      · obtain ⟨-, -, -, ⟨hstate, -⟩ | ⟨hstate, -⟩⟩ := hstep.moves hbegin hmove
        · exact Or.inl hstate
        · exact Or.inr hstate
      · exact hstep.counts hbegin hcount
    exact Or.inl ⟨hcases.mpr (by tauto), hm.symm⟩

private theorem MclContactStep.refuses {tr : List MclContactEvent} (hstep : MclContactStep c e c')
    (hbegin : ¬ e.1.isBegin) (hrefuses : MclContactRefusesReplay tr ⟨c, e, c'⟩)
    (h : MclContactForgets tr c) {m : UInt32}
    (hsettled : ∃ x ∈ tr, MclContactSettles m x = true) : ¬ MclContactReplays m ⟨c, e, c'⟩ := by
  intro hreplays
  rcases hstep.replays hbegin hreplays with ⟨hprogress, rfl⟩ | ⟨o, ho, hcur, rfl⟩
  · obtain ⟨x, hx, hsettles⟩ := hsettled
    rw [h hprogress x hx] at hsettles
    exact absurd hsettles (by decide)
  · exact hcur (hrefuses o ho hsettled)

private theorem MclContactSettlesOnce.snoc {tr : List MclContactEvent} {ev : MclContactEvent}
    (h : MclContactSettlesOnce tr)
    (hev : ∀ m, (∃ x ∈ tr, MclContactSettles m x = true) → ¬ MclContactReplays m ev) :
    MclContactSettlesOnce (tr ++ [ev]) := by
  refine ⟨fun m => ?_, along_snoc.mpr ⟨h.2, hev⟩⟩
  rw [List.countP_append, List.countP_singleton]
  split_ifs with hsettles
  · have hnone : tr.countP (MclContactSettles m) = 0 := by
      rw [List.countP_eq_zero]
      intro x hx hx'
      exact hev m ⟨x, hx, hx'⟩ (Or.inr (Or.inl hsettles))
    omega
  · exact h.1 m

/-- Where every offer that reuses a settled reference names the transport the contact is on,
every reference is settled at most once and never used again. -/
theorem mclContact_settles_once {c₀ : MclContact} {tr : List MclContactEvent}
    (run : MclContactRun c₀ tr c)
    (hbegin : ∀ ev ∈ tr, ¬ ev.label.1.isBegin) (hrefuses : Along MclContactRefusesReplay tr) :
    MclContactSettlesOnce tr := by
  have hok : Along (fun past ev => ¬ ev.label.1.isBegin = true ∧ MclContactRefusesReplay past ev)
      tr := fun past ev rest htr => ⟨hbegin ev (by simp [htr]), hrefuses past ev rest htr⟩
  have h := Run.history (H := fun tr c => MclContactForgets tr c ∧ MclContactSettlesOnce tr)
    run hok ?_ ?_
  · exact h.2
  · refine ⟨?_, fun m => Nat.zero_le _, along_nil⟩
    intro _ x hx
    simp at hx
  · intro tr d e d' ⟨hforgets, honce⟩ hstep ⟨hquiet, href⟩
    have hstep : MclContactStep d e d' := hstep
    exact ⟨hstep.forgets hquiet href hforgets,
      honce.snoc fun m hm => hstep.refuses hquiet href hforgets hm⟩

/-- Replaying a migration right after it completed settles nothing a second time. -/
theorem mclContact_settles_once_repeated :
    let calls := mclContactMigrationCalls ⟨0x5001, 2, 1, 0xD00D, 30⟩ 0x77 (Vector.replicate 8 0xC5)
    MclContactSettlesOnce
      ((mclContactBegun mclContactRoleResponder 0xB0 1).history (calls ++ calls)) := by
  intro calls
  let c₀ := mclContactBegun mclContactRoleResponder 0xB0 1
  exact mclContact_settles_once (c₀.history_run (calls ++ calls))
    (c₀.history_forall (P := fun call => ¬ call.isBegin = true) (by decide)) (by decide)

/-- Once another migration has moved the contact on, the calls of the first one settle its
reference a second time and take the contact back to its transport. -/
theorem mclContact_settles_twice :
    let c₀ := mclContactBegun mclContactRoleResponder 0xB0 1
    let first := mclContactMigrationCalls ⟨0x5001, 2, 1, 0xD00D, 30⟩ 0x77 (Vector.replicate 8 0xC5)
    let second := mclContactMigrationCalls ⟨0x5002, 3, 1, 0xBEEF, 30⟩ 0x77 (Vector.replicate 8 0x3C)
    let tr := c₀.history (first ++ second ++ first)
    MclContactStarts c₀ ∧ MclContactRun c₀ tr (c₀.after (first ++ second ++ first)) ∧
      (∀ ev ∈ tr, ¬ ev.label.1.isBegin) ∧ ¬ MclContactSettlesOnce tr ∧
      (c₀.after (first ++ second)).activeTransport = 3 ∧
      (c₀.after (first ++ second ++ first)).activeTransport = 2 ∧
      (c₀.after (first ++ second ++ first)).migrationCount = 3 := by
  intro c₀ first second tr
  refine ⟨mclContactBegun_starts 0xB0 (by decide) (by decide), c₀.history_run _,
    c₀.history_forall (P := fun call => ¬ call.isBegin = true) (by decide), ?_, by decide,
    by decide, by decide⟩
  intro h
  exact absurd (h.1 0x5001) (by decide)

end MclLink
