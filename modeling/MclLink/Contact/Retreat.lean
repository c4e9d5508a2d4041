import MclLink.Contact.Replay

/-!
# A failed migration leaves no trace

Whatever stage a migration reached, giving it up takes the contact back to where it stood. The
references that correlate the contact may have been bound on the way; nothing else is kept.
-/

namespace MclLink

open LabelledRun

/-- A successful abandon, or a collision that aborts on a tie. -/
def MclContactFails (ev : MclContactEvent) : Prop :=
  ev.label = (.abandonMigration, .ok) ∨
    ∃ source o out, ev.label = (.resolveOfferCollision source o out, .ok) ∧
      ev.before.resolveOfferCollision source o out = (.ok, ev.after, some .tieAbort)

/-- The event completes no migration, and neither closes nor begins the contact. -/
def MclContactCompletesNothing (ev : MclContactEvent) : Prop :=
  (∀ m, MclContactSettles m ev = false) ∧
    ¬ ((ev.label.1.isBegin ∨ ev.label.1.isClose) ∧ ev.label.2 = .ok)

/-- The contact with the references of another one. -/
def MclContact.correlated (c₀ c : MclContact) : MclContact :=
  { c₀ with
    peerRef := c.peerRef
    peerRefValid := c.peerRefValid
    sessionRef := c.sessionRef
    sessionValid := c.sessionValid }

/-- A reference that was bound is kept; one that was not may have been bound. -/
structure MclContactBinds (c₀ c : MclContact) : Prop where
  peer : c.peerRefValid = c₀.peerRefValid ∧ c.peerRef = c₀.peerRef ∨
    c₀.peerRefValid = false ∧ c.peerRefValid = true
  session : c.sessionValid = c₀.sessionValid ∧ c.sessionRef = c₀.sessionRef ∨
    c₀.sessionValid = false ∧ c.sessionValid = true

/-- Retiring what is pending would take the contact back. -/
structure MclContactReturns (c₀ c : MclContact) : Prop extends MclContactBinds c₀ c where
  back : c.retired = c₀.correlated c

variable {c₀ c c' : MclContact} {call : MclContactCall} {tr : List MclContactEvent}

private theorem MclContactWellFormed.retired_eq (h : MclContactWellFormed c)
    (hactive : c.state = .active) : c.retired = c := by
  obtain ⟨hoffer, hchallenge, hvalid⟩ := h.idle (Or.inl hactive)
  cases c
  simp_all [MclContact.retired, MclContact.pendingOffer]

private theorem MclContactReturns.refl (h : MclContactWellFormed c₀)
    (hactive : c₀.state = .active) : MclContactReturns c₀ c₀ where
  peer := Or.inl ⟨rfl, rfl⟩
  session := Or.inl ⟨rfl, rfl⟩
  back := h.retired_eq hactive

private theorem MclContactReturns.keep (h : MclContactReturns c₀ c)
    (hretired : c'.retired = c.retired) : MclContactReturns c₀ c' := by
  have hpeer : c'.retired.peerRef = c.retired.peerRef := by rw [hretired]
  have hpeerValid : c'.retired.peerRefValid = c.retired.peerRefValid := by rw [hretired]
  have hsession : c'.retired.sessionRef = c.retired.sessionRef := by rw [hretired]
  have hsessionValid : c'.retired.sessionValid = c.retired.sessionValid := by rw [hretired]
  simp only [MclContact.retired] at hpeer hpeerValid hsession hsessionValid
  refine ⟨⟨?_, ?_⟩, ?_⟩
  · rw [hpeer, hpeerValid]
    exact h.peer
  · rw [hsession, hsessionValid]
    exact h.session
  · rw [hretired, h.back]
    simp only [MclContact.correlated, hpeer, hpeerValid, hsession, hsessionValid]

private theorem MclContactEffect.returns {st : MclLinkStatus} (heff : MclContactEffect c call c')
    (hst : st = .ok) (h : MclContactReturns c₀ c)
    (hquiet : MclContactCompletesNothing ⟨c, (call, st), c'⟩) : MclContactReturns c₀ c' := by
  obtain ⟨hsettles, hend⟩ := hquiet
  subst hst
  cases heff with
  | begin => exact absurd ⟨Or.inl rfl, rfl⟩ hend
  | close => exact absurd ⟨Or.inr rfl, rfl⟩ hend
  | commitConfirm hstate =>
    have hsettled := hsettles c.pendingMigrationRef
    simp [MclContactSettles, hstate] at hsettled
  | commitAccept hstate =>
    have hsettled := hsettles c.pendingMigrationRef
    simp [MclContactSettles, hstate] at hsettled
  | @bindPeer peerRef _ _ hunbound =>
    refine ⟨⟨?_, h.session⟩, ?_⟩
    · have hpeer := h.peer
      rw [hunbound] at hpeer
      exact Or.inr ⟨hpeer.elim (fun hsame => hsame.1.symm) And.left, rfl⟩
    · exact congrArg (fun d : MclContact => { d with peerRef := peerRef, peerRefValid := true }) h.back
  | @agree sessionRef _ _ hbound =>
    refine ⟨⟨h.peer, ?_⟩, ?_⟩
    · rcases h.session with ⟨hvalid, href⟩ | ⟨hvalid, -⟩
      · cases hc : c.sessionValid with
        | true => exact Or.inl ⟨hc.symm.trans hvalid, (hbound hc).trans href⟩
        | false => exact Or.inr ⟨hvalid.symm.trans hc, rfl⟩
      · exact Or.inr ⟨hvalid, rfl⟩
    · exact congrArg
        (fun d : MclContact => { d with sessionRef := sessionRef, sessionValid := true }) h.back
  | openOffer | adoptOffer | tieAbort | challenge | validate | commitBegin | abandon =>
    exact h.keep rfl

private theorem MclContactStep.returns {e : MclContactCall × MclLinkStatus}
    (hstep : MclContactStep c e c')
    (h : MclContactReturns c₀ c) (hquiet : MclContactCompletesNothing ⟨c, e, c'⟩) :
    MclContactReturns c₀ c' := by
  rcases hstep.outcome with rfl | ⟨hok, heff⟩
  · exact h
  · exact heff.returns hok h hquiet

private theorem MclContactFails.retired {ev : MclContactEvent}
    (hstep : MclContactStep ev.before ev.label ev.after) (h : MclContactFails ev) :
    ev.after = ev.before.retired := by
  rcases h with hlabel | ⟨source, o, out, -, htie⟩
  · have hafter : mclContactAbandonMigration ev.before = (.ok, ev.after) := by
      simpa [MclContactStep, hlabel, MclContactCall.exec] using hstep
    unfold mclContactAbandonMigration at hafter
    split_ifs at hafter with hrev
    · simp at hafter
    · exact (Prod.mk.inj hafter).2.symm
  · obtain ⟨-, -, hend⟩ := resolveOfferCollision_ok htie
    obtain ⟨hafter, -⟩ : ev.after = ev.before.retired ∧ _ := by simpa using hend
    exact hafter

/-- A failed migration leaves no trace: whatever happened since the contact was last `active`,
short of a completion, a close and a begin, the contact that gave the migration up differs from
the one it started from in nothing but references it had not bound then. -/
theorem mclContact_failure_leaves_no_trace {ev : MclContactEvent}
    (hreach : MclContactReachable c₀) (hactive : c₀.state = .active)
    (run : MclContactRun c₀ (tr ++ [ev]) c) (hquiet : ∀ x ∈ tr ++ [ev], MclContactCompletesNothing x)
    (hfails : MclContactFails ev) :
    c = c₀.correlated c ∧ MclContactBinds c₀ c ∧
      c.state = .active ∧ c.activeTransport = c₀.activeTransport ∧
      c.completedMigrationRef = c₀.completedMigrationRef ∧ c.migrationCount = c₀.migrationCount ∧
      c.pendingOffer = ⟨mclContactMigrationNone, mclContactTransportReserved, 0, 0, 0⟩ ∧
      c.challenge = Vector.replicate mclContactChallengeSize 0 ∧ c.challengeValid = false := by
  have hreturns : MclContactReturns c₀ c :=
    run.invariant_of hquiet (MclContactReturns.refl hreach.wellFormed hactive)
      fun h hstep hev => hstep.returns h hev
  obtain ⟨-, hstep, rfl⟩ := run.last rfl
  have hretired := hfails.retired hstep
  have hback : ev.after = c₀.correlated ev.after := by
    rw [← hreturns.back, hretired]
    rfl
  refine ⟨hback, hreturns.toMclContactBinds, ?_, ?_, ?_, ?_, ?_, ?_, ?_⟩
  · rw [hretired]
    rfl
  · rw [hback]
    rfl
  · rw [hback]
    rfl
  · rw [hback]
    rfl
  · rw [hretired]
    rfl
  · rw [hretired]
    rfl
  · rw [hretired]
    rfl

/-- A migration given up during path validation leaves its session bound and nothing else. -/
theorem mclContact_failure_leaves_no_trace_validating :
    let c₀ := mclContactBegun mclContactRoleResponder 0xB0 1
    let calls := (mclContactMigrationCalls ⟨0x5001, 2, 1, 0xD00D, 30⟩ 0x77
      (Vector.replicate 8 0xC5)).take 3
    c₀.after (calls ++ [.abandonMigration]) = { c₀ with sessionRef := 0x77, sessionValid := true } := by
  intro c₀ calls
  have hreach : MclContactReachable c₀ :=
    ⟨c₀, [], mclContactBegun_starts 0xB0 (by decide) (by decide), .nil⟩
  have run := c₀.history_run (calls ++ [.abandonMigration])
  rw [c₀.history_snoc] at run
  have h := mclContact_failure_leaves_no_trace hreach rfl run ?_ (Or.inl (by decide))
  · exact h.1
  · intro x hx
    rw [← c₀.history_snoc] at hx
    simp only [MclContact.history, mclContactMigrationCalls, List.take_succ_cons, List.take_zero,
      List.cons_append, List.nil_append, replay, List.mem_cons, List.not_mem_nil, or_false,
      calls] at hx
    rcases hx with rfl | rfl | rfl | rfl <;>
      simp [MclContactCompletesNothing, MclContactSettles, MclContactCall.isBegin,
        MclContactCall.isClose]

end MclLink
