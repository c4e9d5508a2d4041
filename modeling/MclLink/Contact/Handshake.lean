import MclLink.Contact.Stage

/-!
# A move needs a complete handshake

The state byte summarises an ordered history: whatever stage a contact is in, its history holds
the successful calls that lead there, for the very references that are pending.
-/

namespace MclLink

open LabelledRun

/-- The call put the offer in force: recorded from `active`, or adopted in a collision. -/
def MclContactInstalls (ev : MclContactEvent) (o : MclOffer) : Prop :=
  (ev.before.state = .active ∧ ev.label = (.recordOffer o, .ok)) ∨
    ∃ source out, ev.label = (.resolveOfferCollision source o out, .ok) ∧
      ev.before.resolveOfferCollision source o out = (.ok, ev.after, some .peerWins)

/-- A successful abandon, close or tie abort. -/
def MclContactInterrupts (ev : MclContactEvent) : Prop :=
  ev.label = (.abandonMigration, .ok) ∨ ev.label = (.close, .ok) ∨
    ∃ source o out, ev.label = (.resolveOfferCollision source o out, .ok) ∧
      ev.before.resolveOfferCollision source o out = (.ok, ev.after, some .tieAbort)

/-- The transaction in force went on: nothing interrupted it, nothing replaced it, and the
contact was not back in `active`. -/
def MclContactContinues (ev : MclContactEvent) : Prop :=
  ev.after.state ≠ .active ∧ ¬ MclContactInterrupts ev ∧ ∀ o, ¬ MclContactInstalls ev o

section Stages

variable (o : MclOffer) (s : UInt32) (challenge : MclContactChallenge)

/-- The offer is in force since it was installed. -/
def MclContactHasOffered : List MclContactEvent → Prop :=
  Then (fun _ => True) (fun ev => MclContactInstalls ev o) MclContactContinues

def MclContactHasAgreed : List MclContactEvent → Prop :=
  Then (MclContactHasOffered o)
    (fun ev => ev.label = (.agree o.migrationRef o.transport o.profile s, .ok)) MclContactContinues

def MclContactHasChallenged : List MclContactEvent → Prop :=
  Then (MclContactHasAgreed o s)
    (fun ev => ev.label = (.validationBegin (some challenge), .ok)) MclContactContinues

def MclContactHasValidated : List MclContactEvent → Prop :=
  Then (MclContactHasChallenged o s challenge)
    (fun ev => ev.label = (.validationResponse o.migrationRef s (some challenge), .ok))
    MclContactContinues

def MclContactHasCommitted : List MclContactEvent → Prop :=
  Then (MclContactHasValidated o s challenge) (fun ev => ev.label = (.commitBegin, .ok))
    MclContactContinues

end Stages

/-- What the history holds in each state. -/
def MclContactTraced (tr : List MclContactEvent) (c : MclContact) : Prop :=
  match c.state with
  | .offered => MclContactHasOffered c.pendingOffer tr
  | .agreed => MclContactHasAgreed c.pendingOffer c.sessionRef tr
  | .validating => MclContactHasChallenged c.pendingOffer c.sessionRef c.challenge tr
  | .validated => MclContactHasValidated c.pendingOffer c.sessionRef c.challenge tr
  | .committing => MclContactHasCommitted c.pendingOffer c.sessionRef c.challenge tr
  | .none | .active | .closed => True

variable {c c' : MclContact} {e : MclContactCall × MclLinkStatus}

theorem MclContactStep.installs {o : MclOffer} (hstep : MclContactStep c e c')
    (h : MclContactInstalls ⟨c, e, c'⟩ o) : c' = c.withOffer o := by
  rcases h with ⟨hactive, hlabel⟩ | ⟨source, out, -, hwin⟩
  · obtain rfl : e = (.recordOffer o, .ok) := hlabel
    exact (recordOffer_active hactive hstep).1
  · obtain ⟨-, -, ⟨hout, -⟩ | ⟨-, hnew, -⟩ | ⟨hout, -⟩⟩ := resolveOfferCollision_ok hwin
    · simp at hout
    · exact hnew
    · simp at hout

private theorem MclContactStep.interrupts (hstep : MclContactStep c e c')
    (h : MclContactInterrupts ⟨c, e, c'⟩) : c'.state = .active ∨ c'.state = .closed := by
  rcases h with hlabel | hlabel | ⟨source, o, out, -, htie⟩
  · obtain rfl : e = (.abandonMigration, .ok) := hlabel
    have habandon : mclContactAbandonMigration c = (.ok, c') := hstep
    unfold mclContactAbandonMigration at habandon
    split_ifs at habandon <;> cases habandon
    exact Or.inl rfl
  · obtain rfl : e = (.close, .ok) := hlabel
    have hclose : mclContactClose c = (.ok, c') := hstep
    unfold mclContactClose at hclose
    split_ifs at hclose <;> cases hclose
    exact Or.inr rfl
  · obtain ⟨-, -, ⟨hout, -⟩ | ⟨hout, -⟩ | ⟨-, hnew, -⟩⟩ := resolveOfferCollision_ok htie
    · simp at hout
    · simp at hout
    · obtain rfl : c' = c.retired := hnew
      exact Or.inl rfl

theorem MclContactStep.continues (hstep : MclContactStep c e c')
    (hprogress : mclContactMigrationInProgress c' = true)
    (hinst : ∀ o, ¬ MclContactInstalls ⟨c, e, c'⟩ o) :
    MclContactContinues ⟨c, e, c'⟩ := by
  have hidle : ¬ (c'.state = .active ∨ c'.state = .closed) := by
    rcases (mclContactMigrationInProgress_iff c').mp hprogress with h | h | h | h | h <;> simp [h]
  exact ⟨fun h => hidle (Or.inl h), fun h => hidle (hstep.interrupts h), hinst⟩

private theorem MclContactTraced.wait {tr : List MclContactEvent} {ev : MclContactEvent}
    (h : MclContactTraced tr c)
    (hcont : mclContactMigrationInProgress c = true → MclContactContinues ev) :
    MclContactTraced (tr ++ [ev]) c := by
  have hprogress := mclContactMigrationInProgress_iff c
  cases hs : c.state with
  | none | active | closed => simp [MclContactTraced, hs]
  | offered | agreed | validating | validated | committing =>
    simp only [MclContactTraced, hs] at h ⊢
    exact h.wait (hcont (hprogress.mpr (by simp [hs])))

private theorem MclContactStep.traced {tr : List MclContactEvent} (hstep : MclContactStep c e c')
    (h : MclContactTraced tr c) : MclContactTraced (tr ++ [⟨c, e, c'⟩]) c' := by
  by_cases hinst : ∃ o, MclContactInstalls ⟨c, e, c'⟩ o
  · obtain ⟨o, hinst⟩ := hinst
    obtain rfl := hstep.installs hinst
    exact Then.now trivial hinst
  · have hinst' : ∀ o, ¬ MclContactInstalls ⟨c, e, c'⟩ o := fun o ho => hinst ⟨o, ho⟩
    have hcont := fun hprogress => hstep.continues hprogress hinst'
    rcases hstep.outcome with rfl | ⟨hok, heff⟩
    · exact h.wait hcont
    · obtain ⟨call, st⟩ := e
      obtain rfl : st = .ok := hok
      cases heff with
      | bindPeer => exact h.wait hcont
      | @openOffer o hactive => exact absurd (Or.inl ⟨hactive, rfl⟩) (hinst' o)
      | @adoptOffer source o out hoffered ho hlt hcur =>
        have hwin := @adoptOffer_result c source o out hoffered ho hlt hcur
        exact absurd (Or.inr ⟨source, some out, rfl, hwin⟩) (hinst' o)
      | agree hstate | challenge hstate | validate hstate | commitBegin hstate =>
        simp only [MclContactTraced, hstate] at h
        exact Then.now h rfl
      | begin | tieAbort | commitConfirm | commitAccept | abandon | close => trivial

/-- The event settled the migration offered in `o` under session `s`, and the history before it
holds the whole handshake for it. -/
def MclContactHandshake (past : List MclContactEvent) (ev : MclContactEvent) (o : MclOffer)
    (s : UInt32) : Prop :=
  ∃ challenge,
    (ev.label = (.commitConfirm o.migrationRef s, .ok) ∧ ev.before.state = .committing ∧
      MclContactHasCommitted o s challenge past) ∨
    (ev.label = (.commitAccept o.migrationRef s, .ok) ∧ ev.before.state = .validated ∧
      MclContactHasValidated o s challenge past)

/-- The event changed the active transport. -/
def MclContactMoves (ev : MclContactEvent) : Bool :=
  ev.after.activeTransport != ev.before.activeTransport

private theorem MclContactEffect.moves {call : MclContactCall} (heff : MclContactEffect c call c')
    (hbegin : ¬ call.isBegin) (hmove : c'.activeTransport ≠ c.activeTransport) :
    c' = c.settled ∧ c.sessionValid = true ∧
      ((c.state = .committing ∧ call = .commitConfirm c.pendingMigrationRef c.sessionRef) ∨
        (c.state = .validated ∧ call = .commitAccept c.pendingMigrationRef c.sessionRef)) := by
  cases heff with
  | begin => exact absurd rfl hbegin
  | commitConfirm hstate hsession => exact ⟨rfl, hsession, Or.inl ⟨hstate, rfl⟩⟩
  | commitAccept hstate hsession => exact ⟨rfl, hsession, Or.inr ⟨hstate, rfl⟩⟩
  | _ => exact absurd rfl hmove

theorem MclContactStep.moves (hstep : MclContactStep c e c') (hbegin : ¬ e.1.isBegin)
    (hmove : c'.activeTransport ≠ c.activeTransport) :
    c' = c.settled ∧ c.sessionValid = true ∧ e.2 = .ok ∧
      ((c.state = .committing ∧ e.1 = .commitConfirm c.pendingMigrationRef c.sessionRef) ∨
        (c.state = .validated ∧ e.1 = .commitAccept c.pendingMigrationRef c.sessionRef)) := by
  rcases hstep.outcome with rfl | ⟨hok, heff⟩
  · exact absurd rfl hmove
  · obtain ⟨hsettled, hsession, hcall⟩ := heff.moves hbegin hmove
    exact ⟨hsettled, hsession, hok, hcall⟩

private theorem settled_moves (hwf : MclContactWellFormed c)
    (hstate : c.state = .validated ∨ c.state = .committing) :
    c.settled.activeTransport ≠ c.activeTransport := by
  have hprogress := (mclContactMigrationInProgress_iff c).mpr (by tauto)
  exact (hwf.pending hprogress).2

theorem settled_count {n : ℕ} (h : c.migrationCount.toNat = min 65535 n) :
    c.settled.migrationCount.toNat = min 65535 (n + 1) := by
  simp only [MclContact.settled_migrationCount]
  split_ifs with hlt
  · have hn : c.migrationCount.toNat < 65535 := hlt
    rw [UInt16.toNat_add, h]
    simp
    omega
  · have hn : ¬ c.migrationCount.toNat < 65535 := hlt
    omega

private theorem MclContactStep.count {n : ℕ} (hstep : MclContactStep c e c')
    (hbegin : ¬ e.1.isBegin)
    (hwf : MclContactWellFormed c) (h : c.migrationCount.toNat = min 65535 n) :
    c'.migrationCount.toNat =
      min 65535 (n + if MclContactMoves ⟨c, e, c'⟩ then 1 else 0) := by
  by_cases hmove : c'.activeTransport = c.activeTransport
  · have hsame : c'.migrationCount = c.migrationCount := by
      rcases hstep.outcome with rfl | ⟨-, heff⟩
      · rfl
      · generalize e.1 = call at heff hbegin
        cases heff with
        | begin => exact absurd rfl hbegin
        | commitConfirm hstate => exact absurd hmove (settled_moves hwf (Or.inr hstate))
        | commitAccept hstate => exact absurd hmove (settled_moves hwf (Or.inl hstate))
        | _ => rfl
    simp [MclContactMoves, hmove, hsame, h]
  · obtain ⟨rfl, -⟩ := hstep.moves hbegin hmove
    have hmoves : MclContactMoves ⟨c, e, c.settled⟩ = true := bne_iff_ne.mpr hmove
    rw [if_pos hmoves]
    exact settled_count h

/-- What a run without a begin keeps beside the representation invariant. -/
theorem MclContactRun.traced {c₀ : MclContact} {tr : List MclContactEvent}
    (hstart : MclContactStarts c₀) (run : MclContactRun c₀ tr c)
    (hbegin : ∀ ev ∈ tr, ¬ ev.label.1.isBegin) :
    MclContactWellFormed c ∧ MclContactTraced tr c ∧
      c.migrationCount.toNat = min 65535 (tr.countP MclContactMoves) := by
  refine Run.history (H := fun tr c => MclContactWellFormed c ∧ MclContactTraced tr c ∧
    c.migrationCount.toNat = min 65535 (tr.countP MclContactMoves)) run
    (along_of_forall hbegin) ?_ ?_
  · obtain ⟨role, localRef, t, ht, rfl⟩ := hstart.eq_begun
    exact ⟨mclContactBegun_wellFormed role localRef ht, trivial, rfl⟩
  · intro tr d e d' ⟨hwf, htraced, hcount⟩ hstep hev
    refine ⟨hstep.wellFormed hwf, hstep.traced htraced, ?_⟩
    rw [List.countP_append, List.countP_singleton]
    exact hstep.count hev hwf hcount

theorem MclContactRun.hasValidated {c₀ : MclContact} {tr : List MclContactEvent}
    (hstart : MclContactStarts c₀) (run : MclContactRun c₀ tr c)
    (hbegin : ∀ ev ∈ tr, ¬ ev.label.1.isBegin) (hstate : c.state = .validated) :
    MclContactHasValidated c.pendingOffer c.sessionRef c.challenge tr := by
  have htraced := (MclContactRun.traced hstart run hbegin).2.1
  simpa only [MclContactTraced, hstate] using htraced

/-- The contact never moves without a complete, matching handshake. -/
theorem mclContact_moves_by_handshake {c₀ : MclContact} {tr : List MclContactEvent}
    (hstart : MclContactStarts c₀) (run : MclContactRun c₀ tr c)
    (hbegin : ∀ ev ∈ tr, ¬ ev.label.1.isBegin) :
    Along (fun past ev => ev.after.activeTransport ≠ ev.before.activeTransport →
      ∃ o s, o.migrationRef ≠ mclContactMigrationNone ∧ s ≠ mclContactSessionNone ∧
        o.transport = ev.after.activeTransport ∧ o.transport ≠ mclContactTransportReserved ∧
        MclContactHandshake past ev o s) tr ∧
    c.migrationCount.toNat = min 65535 (tr.countP MclContactMoves) := by
  refine ⟨?_, (MclContactRun.traced hstart run hbegin).2.2⟩
  rintro past ⟨before, ⟨call, st⟩, after⟩ rest rfl hmove
  obtain ⟨mid, hpast, htail⟩ := run.split
  obtain ⟨rfl, hstep, -⟩ := htail.head
  have hquiet : ∀ ev ∈ past, ¬ ev.label.1.isBegin :=
    fun ev hev => hbegin ev (List.mem_append_left _ hev)
  obtain ⟨hwf, htraced, -⟩ := MclContactRun.traced hstart hpast hquiet
  have hstep : MclContactStep mid (call, st) after := hstep
  obtain ⟨rfl, hsession, hok, hcall⟩ :=
    hstep.moves (hbegin ⟨mid, (call, st), after⟩ (by simp)) hmove
  have hprogress := (mclContactMigrationInProgress_iff mid).mpr (by tauto)
  obtain ⟨⟨hm, ht, -⟩, -⟩ := hwf.pending hprogress
  refine ⟨mid.pendingOffer, mid.sessionRef, hm, hwf.sessionRef.mp hsession, rfl, ht,
    mid.challenge, ?_⟩
  obtain rfl : st = .ok := hok
  rcases hcall with ⟨hstate, hcall⟩ | ⟨hstate, hcall⟩
  · obtain rfl : call = _ := hcall
    simp only [MclContactTraced, hstate] at htraced
    exact Or.inl ⟨rfl, hstate, htraced⟩
  · obtain rfl : call = _ := hcall
    simp only [MclContactTraced, hstate] at htraced
    exact Or.inr ⟨rfl, hstate, htraced⟩

/-- One whole migration of a responder, whose last call is the only one that moves it. -/
theorem mclContact_moves_by_handshake_once :
    let c₀ := mclContactBegun mclContactRoleResponder 0xB0 1
    let calls := mclContactMigrationCalls ⟨0x5001, 2, 1, 0xD00D, 30⟩ 0x77 (Vector.replicate 8 0xC5)
    (c₀.history calls).countP MclContactMoves = 1 ∧
      Along (fun past ev => ev.after.activeTransport ≠ ev.before.activeTransport →
        ∃ o s, o.transport = ev.after.activeTransport ∧ MclContactHandshake past ev o s)
        (c₀.history calls) := by
  intro c₀ calls
  have hstart : MclContactStarts c₀ := mclContactBegun_starts 0xB0 (by decide) (by decide)
  have hbegin : ∀ ev ∈ c₀.history calls, ¬ ev.label.1.isBegin = true :=
    c₀.history_forall (P := fun call => ¬ call.isBegin = true) (by decide)
  have hmoves := mclContact_moves_by_handshake hstart (c₀.history_run calls) hbegin
  refine ⟨by decide, fun past ev rest htr hmove => ?_⟩
  obtain ⟨o, s, -, -, ht, -, h⟩ := hmoves.1 past ev rest htr hmove
  exact ⟨o, s, ht, h⟩

end MclLink
