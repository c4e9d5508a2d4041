import MclLink.Contact.Duplicate

/-!
# The memory of the last completed migration

A contact keeps one completed reference and one session. That these two name the completion the
history ends with, and nothing else, is an equivalence each call preserves.
-/

namespace MclLink

open LabelledRun

/-- The migration `m` completed under the session `s`. -/
def MclContactCompletes (m s : UInt32) (ev : MclContactEvent) : Prop :=
  (ev.before.state = .committing ∧ ev.label = (.commitConfirm m s, .ok)) ∨
    (ev.before.state = .validated ∧ ev.label = (.commitAccept m s, .ok))

/-- The call completed no migration. -/
def MclContactCompletesNone (ev : MclContactEvent) : Prop :=
  ∀ m s, ¬ MclContactCompletes m s ev

/-- The last migration that completed was `m`, under the session `s`. -/
def MclContactLastCompleted (m s : UInt32) : List MclContactEvent → Prop :=
  Then (fun _ => True) (MclContactCompletes m s) MclContactCompletesNone

/-- The two fields of an open contact against its history. -/
structure MclContactRemembers (tr : List MclContactEvent) (c : MclContact) : Prop where
  never : c.completedMigrationRef = mclContactMigrationNone ↔
    ∀ ev ∈ tr, MclContactCompletesNone ev
  last : ∀ m s, MclContactLastCompleted m s tr ↔
    c.completedMigrationRef ≠ mclContactMigrationNone ∧
      m = c.completedMigrationRef ∧ s = c.sessionRef

variable {c c' : MclContact} {e : MclContactCall × MclLinkStatus} {tr : List MclContactEvent}

private theorem MclContactStep.completes {m s : UInt32} (hstep : MclContactStep c e c')
    (h : MclContactCompletes m s ⟨c, e, c'⟩) :
    (c.state = .validated ∨ c.state = .committing) ∧ m = c.pendingMigrationRef ∧
      s = c.sessionRef ∧ c' = c.settled := by
  rcases h with ⟨hstate, hlabel⟩ | ⟨hstate, hlabel⟩
  · obtain rfl : e = (.commitConfirm m s, .ok) := hlabel
    rcases mclContactCommitConfirm_ok hstep with ⟨hs, hm, hsession, hc'⟩ | ⟨hactive, -⟩
    · exact ⟨Or.inr hs, hm, hsession, hc'⟩
    · have hcommitting : c.state = .committing := hstate
      rw [hcommitting] at hactive
      exact absurd hactive (by decide)
  · obtain rfl : e = (.commitAccept m s, .ok) := hlabel
    obtain ⟨hs, hm, hsession, hc'⟩ := mclContactCommitAccept_ok hstep
    exact ⟨Or.inl hs, hm, hsession, hc'⟩

private theorem MclContactStep.keeps_memory (hstep : MclContactStep c e c')
    (hbegin : ¬ (e.1.isBegin ∧ e.2 = .ok)) (hnone : MclContactCompletesNone ⟨c, e, c'⟩)
    (hopen : c'.state ≠ .closed) (hwf : MclContactWellFormed c) :
    c'.completedMigrationRef = c.completedMigrationRef ∧
      (c.completedMigrationRef ≠ mclContactMigrationNone → c'.sessionRef = c.sessionRef) := by
  rcases hstep.outcome with rfl | ⟨hok, heff⟩
  · exact ⟨rfl, fun _ => rfl⟩
  · obtain ⟨call, st⟩ := e
    obtain rfl : st = .ok := hok
    cases heff with
    | begin => exact absurd ⟨rfl, rfl⟩ hbegin
    | close => exact absurd rfl hopen
    | commitConfirm hs => exact absurd (Or.inl ⟨hs, rfl⟩) (hnone _ _)
    | commitAccept hs => exact absurd (Or.inr ⟨hs, rfl⟩) (hnone _ _)
    | agree hs hzero hbound =>
      refine ⟨rfl, fun hdone => hbound (hwf.memory hdone ?_)⟩
      rw [hs]
      decide
    | _ => exact ⟨rfl, fun _ => rfl⟩

private theorem MclContactStep.closed (hstep : MclContactStep c e c')
    (hbegin : ¬ (e.1.isBegin ∧ e.2 = .ok)) (hclosed : c.state = .closed) :
    c'.state = .closed := by
  rcases hstep.outcome with rfl | ⟨hok, heff⟩
  · exact hclosed
  · obtain ⟨call, st⟩ := e
    obtain rfl : st = .ok := hok
    cases heff with
    | begin => exact absurd ⟨rfl, rfl⟩ hbegin
    | close => rfl
    | bindPeer => exact hclosed
    | abandon hrev => simp [mclContactMigrationIsRevocable, hclosed] at hrev
    | openOffer hs | adoptOffer hs | tieAbort hs | agree hs | challenge hs | validate hs
    | commitBegin hs | commitConfirm hs | commitAccept hs => simp [hclosed] at hs

section Step

variable (hstep : MclContactStep c e c') (hwf : MclContactWellFormed c)

include hstep hwf

private theorem MclContactStep.remembers_completed {m s : UInt32}
    (h : MclContactCompletes m s ⟨c, e, c'⟩) :
    MclContactRemembers (tr ++ [⟨c, e, c'⟩]) c' := by
  obtain ⟨hstate, hm, hs, rfl⟩ := hstep.completes h
  have hpending : c.pendingMigrationRef ≠ mclContactMigrationNone :=
    (hwf.pending ((mclContactMigrationInProgress_iff c).mpr (by tauto))).1.1
  constructor
  case never =>
    refine iff_of_false hpending fun hnone => ?_
    exact hnone ⟨c, e, c.settled⟩ (by simp) m s h
  case last =>
    intro m' s'
    refine then_snoc.trans ⟨?_, ?_⟩
    · rintro (⟨-, h'⟩ | ⟨-, hnone⟩)
      · obtain ⟨-, hm', hs', -⟩ := hstep.completes h'
        exact ⟨hpending, hm', hs'⟩
      · exact absurd h (hnone m s)
    · rintro ⟨-, hm', hs'⟩
      have hm' : m' = c.pendingMigrationRef := hm'
      have hs' : s' = c.sessionRef := hs'
      rw [hm', hs', ← hm, ← hs]
      exact Or.inl ⟨trivial, h⟩

private theorem MclContactStep.remembers_kept (hbegin : ¬ (e.1.isBegin ∧ e.2 = .ok))
    (hnone : MclContactCompletesNone ⟨c, e, c'⟩) (hopen : c'.state ≠ .closed)
    (h : MclContactRemembers tr c) : MclContactRemembers (tr ++ [⟨c, e, c'⟩]) c' := by
  obtain ⟨hdone, hsession⟩ := hstep.keeps_memory hbegin hnone hopen hwf
  constructor
  case never =>
    rw [hdone, h.never, List.forall_mem_append, List.forall_mem_singleton]
    exact (and_iff_left hnone).symm
  case last =>
    intro m s
    have hlast : MclContactLastCompleted m s (tr ++ [⟨c, e, c'⟩]) ↔
        MclContactLastCompleted m s tr := by
      refine then_snoc.trans ⟨?_, fun h => Or.inr ⟨h, hnone⟩⟩
      rintro (⟨-, hcompletes⟩ | ⟨h, -⟩)
      · exact absurd hcompletes (hnone m s)
      · exact h
    rw [hlast, h.last, hdone]
    refine and_congr_right fun hne => ?_
    rw [hsession hne]

end Step

/-- An open contact remembers its last completion, over every run. -/
theorem MclContactRun.remembers {c₀ : MclContact} (hstart : MclContactStarts c₀)
    (run : MclContactRun c₀ tr c)
    (hbegin : ∀ ev ∈ tr, ¬ (ev.label.1.isBegin ∧ ev.label.2 = .ok)) (hopen : c.state ≠ .closed) :
    MclContactRemembers tr c := by
  have h := Run.history (H := fun tr c => MclContactWellFormed c ∧
    (c.state ≠ .closed → MclContactRemembers tr c)) run (along_of_forall hbegin) ?_ ?_
  · exact h.2 hopen
  · obtain ⟨role, localRef, t, ht, rfl⟩ := hstart.eq_begun
    refine ⟨mclContactBegun_wellFormed role localRef ht, fun _ => ⟨?_, fun m s => ?_⟩⟩
    · exact iff_of_true rfl (by simp)
    · exact iff_of_false then_nil fun h => h.1 rfl
  · intro tr d e d' ⟨hwf, hremembers⟩ hstep hev
    have hstep : MclContactStep d e d' := hstep
    refine ⟨hstep.wellFormed hwf, fun hopen' => ?_⟩
    by_cases hnone : MclContactCompletesNone ⟨d, e, d'⟩
    · refine hstep.remembers_kept hwf hev hnone hopen' (hremembers fun hclosed => ?_)
      exact hopen' (hstep.closed hev hclosed)
    · simp only [MclContactCompletesNone, not_forall, not_not] at hnone
      obtain ⟨m, s, hcompletes⟩ := hnone
      exact hstep.remembers_completed hwf hcompletes

private theorem mclContactCommitRepeat_answers (c : MclContact) (m s : UInt32) (r : Bool) :
    ∃ b, mclContactCommitRepeat c m s (some r) = (.ok, some b) := by
  simp only [mclContactCommitRepeat]
  split_ifs <;> exact ⟨_, rfl⟩

private theorem mclContactCommitConfirm_active (hactive : c.state = .active) (m s : UInt32) :
    mclContactCommitConfirm c m s =
      (if c.sessionValid = false ∨ c.completedMigrationRef = mclContactMigrationNone then
        .errInvalidState
      else if m = c.completedMigrationRef ∧ s = c.sessionRef then .ok
      else .errContextMismatch, c) := by
  rw [mclContactCommitConfirm, if_pos hactive]
  split_ifs with hnone hdiff hsame hsame
  · rfl
  · rcases hdiff with hm | hs
    · exact absurd hsame.1 hm
    · exact absurd hsame.2 hs
  · rfl
  · rfl
  · obtain ⟨hm, hs⟩ := not_or.mp hdiff
    exact absurd ⟨not_not.mp hm, not_not.mp hs⟩ hsame

section Answers

variable (h : MclContactRemembers tr c) (hwf : MclContactWellFormed c) {m s : UInt32}

include h hwf

private theorem MclContactRemembers.repeat_iff (hopen : c.state ≠ .closed) (r : Bool) :
    mclContactCommitRepeat c m s (some r) = (.ok, some true) ↔
      c.state = .active ∧ MclContactLastCompleted m s tr := by
  rw [mclContactCommitRepeat_iff, h.last]
  refine and_congr_right fun _ => and_congr_right fun hne => ?_
  exact and_iff_right (hwf.memory hne hopen)

private theorem MclContactRemembers.confirm (hactive : c.state = .active) :
    ∃ st, mclContactCommitConfirm c m s = (st, c) ∧
      (st = .ok ↔ MclContactLastCompleted m s tr) ∧
      (st = .errInvalidState ↔ ∀ ev ∈ tr, MclContactCompletesNone ev) ∧
      (st = .errContextMismatch ↔
        ¬ MclContactLastCompleted m s tr ∧ ¬ ∀ ev ∈ tr, MclContactCompletesNone ev) := by
  rw [mclContactCommitConfirm_active hactive, h.last, ← h.never]
  refine ⟨_, rfl, ?_⟩
  by_cases hnone : c.completedMigrationRef = mclContactMigrationNone
  · simp [hnone]
  · have hvalid : c.sessionValid = true := hwf.memory hnone (by simp [hactive])
    by_cases hsame : m = c.completedMigrationRef ∧ s = c.sessionRef
    · simp [hnone, hvalid, hsame]
    · simp [hnone, hvalid, hsame]

end Answers

private theorem MclContactRun.repeats {c₀ : MclContact} (hstart : MclContactStarts c₀)
    (run : MclContactRun c₀ tr c)
    (hbegin : ∀ ev ∈ tr, ¬ (ev.label.1.isBegin ∧ ev.label.2 = .ok)) (m s : UInt32) (r : Bool) :
    ∃ b, mclContactCommitRepeat c m s (some r) = (.ok, some b) ∧
      (b = true ↔ c.state = .active ∧ MclContactLastCompleted m s tr) := by
  obtain ⟨b, hb⟩ := mclContactCommitRepeat_answers c m s r
  refine ⟨b, hb, ?_⟩
  have htrue : b = true ↔ mclContactCommitRepeat c m s (some r) = (.ok, some true) := by
    simp [hb]
  by_cases hclosed : c.state = .closed
  · rw [htrue, mclContactCommitRepeat_iff, hclosed]
    simp
  · have hwf : MclContactWellFormed c := MclContactReachable.wellFormed ⟨c₀, tr, hstart, run⟩
    rw [htrue]
    exact (MclContactRun.remembers hstart run hbegin hclosed).repeat_iff hwf hclosed r

private theorem MclContactRun.confirms {c₀ : MclContact} (hstart : MclContactStarts c₀)
    (run : MclContactRun c₀ tr c)
    (hbegin : ∀ ev ∈ tr, ¬ (ev.label.1.isBegin ∧ ev.label.2 = .ok)) (hactive : c.state = .active)
    (m s : UInt32) :
    ∃ st, mclContactCommitConfirm c m s = (st, c) ∧
      (st = .ok ↔ MclContactLastCompleted m s tr) ∧
      (st = .errInvalidState ↔ ∀ ev ∈ tr, MclContactCompletesNone ev) ∧
      (st = .errContextMismatch ↔
        ¬ MclContactLastCompleted m s tr ∧ ¬ ∀ ev ∈ tr, MclContactCompletesNone ev) := by
  have hwf : MclContactWellFormed c := MclContactReachable.wellFormed ⟨c₀, tr, hstart, run⟩
  have hopen : c.state ≠ .closed := by simp [hactive]
  exact (MclContactRun.remembers hstart run hbegin hopen).confirm hwf hactive

private theorem MclContactLastCompleted.append {m s : UInt32} {tr' : List MclContactEvent}
    (h : ∀ ev ∈ tr', MclContactCompletesNone ev) :
    MclContactLastCompleted m s (tr ++ tr') ↔ MclContactLastCompleted m s tr := by
  induction tr' using List.reverseRecOn with
  | nil => rw [List.append_nil]
  | append_singleton front ev ih =>
    obtain ⟨hfront, hev⟩ := List.forall_mem_append.mp h
    have hnone : MclContactCompletesNone ev := hev ev (List.mem_singleton_self ev)
    rw [← List.append_assoc, ← ih hfront]
    refine then_snoc.trans ⟨?_, fun hlast => Or.inr ⟨hlast, hnone⟩⟩
    rintro (⟨-, hcompletes⟩ | ⟨hlast, -⟩)
    · exact absurd hcompletes (hnone m s)
    · exact hlast

/-- Both duplicate paths answer by the completion the history ends with, neither changes the
contact, and no call that completes nothing changes their answers. -/
theorem mclContact_memory_exact {c₀ : MclContact} (hstart : MclContactStarts c₀)
    (run : MclContactRun c₀ tr c)
    (hbegin : ∀ ev ∈ tr, ¬ (ev.label.1.isBegin ∧ ev.label.2 = .ok)) (m s : UInt32) :
    (∀ r, (∃ b, mclContactCommitRepeat c m s (some r) = (.ok, some b) ∧
        (b = true ↔ c.state = .active ∧ MclContactLastCompleted m s tr)) ∧
      (MclContactCall.commitRepeat m s (some r)).exec c = (.ok, c)) ∧
    (c.state = .active → ∃ st, mclContactCommitConfirm c m s = (st, c) ∧
      (st = .ok ↔ MclContactLastCompleted m s tr) ∧
      (st = .errInvalidState ↔ ∀ ev ∈ tr, MclContactCompletesNone ev) ∧
      (st = .errContextMismatch ↔
        ¬ MclContactLastCompleted m s tr ∧ ¬ ∀ ev ∈ tr, MclContactCompletesNone ev)) ∧
    (∀ {tr' c'}, MclContactRun c tr' c' →
      (∀ ev ∈ tr', ¬ (ev.label.1.isBegin ∧ ev.label.2 = .ok) ∧ MclContactCompletesNone ev) →
      c.state = .active → c'.state = .active →
      (∀ r, mclContactCommitRepeat c' m s (some r) = mclContactCommitRepeat c m s (some r)) ∧
      (mclContactCommitConfirm c' m s).1 = (mclContactCommitConfirm c m s).1) := by
  have hrepeat : ∀ r, ∃ b, mclContactCommitRepeat c m s (some r) = (.ok, some b) ∧
      (b = true ↔ c.state = .active ∧ MclContactLastCompleted m s tr) :=
    run.repeats hstart hbegin m s
  have hconfirm := fun hactive => run.confirms hstart hbegin hactive m s
  refine ⟨fun r => ⟨hrepeat r, ?_⟩, hconfirm, ?_⟩
  · obtain ⟨b, hb, -⟩ := hrepeat r
    rw [MclContactCall.exec, hb]
  · intro tr' c' run' hquiet hactive hactive'
    have hall := run.append run'
    have hbegin' : ∀ ev ∈ tr ++ tr', ¬ (ev.label.1.isBegin ∧ ev.label.2 = .ok) :=
      List.forall_mem_append.mpr ⟨hbegin, fun ev hev => (hquiet ev hev).1⟩
    have hnone : ∀ ev ∈ tr', MclContactCompletesNone ev := fun ev hev => (hquiet ev hev).2
    have hlast : MclContactLastCompleted m s (tr ++ tr') ↔ MclContactLastCompleted m s tr :=
      MclContactLastCompleted.append hnone
    have hnever : (∀ ev ∈ tr ++ tr', MclContactCompletesNone ev) ↔
        ∀ ev ∈ tr, MclContactCompletesNone ev :=
      List.forall_mem_append.trans (and_iff_left hnone)
    constructor
    · intro r
      obtain ⟨b, hb, hiff⟩ := hrepeat r
      obtain ⟨b', hb', hiff'⟩ := MclContactRun.repeats hstart hall hbegin' m s r
      have hsame : b' = b := by
        rw [Bool.eq_iff_iff, hiff, hiff', hlast]
        simp [hactive, hactive']
      rw [hb, hb', hsame]
    · obtain ⟨st, hst, hok, hinvalid, hmismatch⟩ := hconfirm hactive
      obtain ⟨st', hst', hok', hinvalid', hmismatch'⟩ :=
        MclContactRun.confirms hstart hall hbegin' hactive' m s
      rw [hst, hst']
      rw [hlast] at hok' hmismatch'
      rw [hnever] at hinvalid' hmismatch'
      by_cases h : MclContactLastCompleted m s tr
      · exact (hok'.mpr h).trans (hok.mpr h).symm
      · by_cases hnone : ∀ ev ∈ tr, MclContactCompletesNone ev
        · exact (hinvalid'.mpr hnone).trans (hinvalid.mpr hnone).symm
        · exact (hmismatch'.mpr ⟨h, hnone⟩).trans (hmismatch.mpr ⟨h, hnone⟩).symm

/-- The completed migration is confirmed again, also after a second one was abandoned. -/
theorem mclContact_memory_exact_abandoned :
    let c₀ := mclContactBegun mclContactRoleResponder 0xB0 1
    let calls := mclContactMigrationCalls ⟨0x5001, 2, 1, 0xD00D, 30⟩ 0x77 (Vector.replicate 8 0xC5)
    let later := [.recordOffer ⟨0x5002, 3, 1, 0xBEEF, 30⟩, .abandonMigration]
    let c := c₀.after calls
    MclContactLastCompleted 0x5001 0x77 (c₀.history calls) ∧
      (mclContactCommitConfirm (c.after later) 0x5001 0x77).1 = .ok ∧
      (mclContactCommitConfirm (c.after later) 0x5001 0x77).1 =
        (mclContactCommitConfirm c 0x5001 0x77).1 := by
  intro c₀ calls later c
  have hstart : MclContactStarts c₀ := mclContactBegun_starts 0xB0 (by decide) (by decide)
  have hbegin : ∀ ev ∈ c₀.history calls, ¬ ev.label.1.isBegin = true :=
    c₀.history_forall (P := fun call => ¬ call.isBegin = true) (by decide)
  obtain ⟨-, hconfirm, hlater⟩ := mclContact_memory_exact hstart (c₀.history_run calls)
    (fun ev hev h => hbegin ev hev h.1) 0x5001 0x77
  obtain ⟨st, hst, hok, -⟩ := hconfirm (by decide)
  have hsame := (hlater (c.history_run later) ?_ (by decide) (by decide)).2
  · exact ⟨hok.mp ((congrArg Prod.fst hst).symm.trans (by decide)), by decide, hsame⟩
  · intro ev hev
    have hcall : ev.label.1 ∈ later := c.history_forall (P := fun call => call ∈ later)
      (fun call h => h) ev hev
    constructor
    · rintro ⟨h, -⟩
      have hnot : ∀ call ∈ later, ¬ call.isBegin = true := by decide
      exact hnot _ hcall h
    · rintro m s (⟨-, h⟩ | ⟨-, h⟩)
      · rw [h] at hcall
        simp [later] at hcall
      · rw [h] at hcall
        simp [later] at hcall

end MclLink
