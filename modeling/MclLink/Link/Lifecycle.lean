import MclLink.Link.Residue

/-!
# A session is climbed into

`mcl_link_transition` checks one step only. Along a run the steps add up to a ladder: a link is in
contact only if it was discovered, exchanged capabilities and negotiated, in this order, and nothing
since has taken it back.
-/

namespace MclLink

open LabelledRun

/-- The rung a state stands on; what follows `established` is one rung with it. -/
def MclLinkState.rung : MclLinkState → MclLinkState
  | .adapting | .handoff | .fallback => .established
  | s => s

/-- The states that may come next. -/
def MclLinkState.successors : MclLinkState → List MclLinkState
  | .idle => [.discovered, .closed]
  | .discovered => [.capabilities, .idle, .closed]
  | .capabilities => [.negotiating, .idle, .closed]
  | .negotiating => [.established, .idle, .closed]
  | .established => [.adapting, .handoff, .fallback, .idle, .closed]
  | .adapting => [.established, .handoff, .fallback, .idle, .closed]
  | .handoff => [.established, .idle, .closed]
  | .fallback => [.established, .discovered, .idle, .closed]
  | .closed => [.idle]

/-- A transition that was accepted. -/
def MclLinkGoes (next : MclLinkState) (ev : MclLinkEvent) : Prop :=
  ∃ nextState, MclLinkState.ofValue nextState = some next ∧
    ev.label = (.transition nextState, .ok)

/-- No init and no reset, and whatever transition was accepted stays on the rung. -/
def MclLinkKeeps (rung : MclLinkState) (ev : MclLinkEvent) : Prop :=
  (∀ mask, ev.label.1 ≠ .init mask) ∧ ev.label.1 ≠ .reset ∧
    ∀ next, MclLinkGoes next ev → next.rung = rung

/-- The rungs were entered one after the other, the last one first in the list, and each was kept
until the next. -/
def MclLinkClimbed : List MclLinkState → List MclLinkEvent → Prop
  | [] => fun _ => True
  | rung :: below => Then (MclLinkClimbed below) (MclLinkGoes rung) (MclLinkKeeps rung)

variable {l l' l₀ : MclLinkT} {e : MclLinkCall × MclLinkStatus} {k : MclLinkContextKey}
  {tr : List MclLinkEvent} {st : MclLinkStatus} {rung : MclLinkState}

private theorem mclLinkMove_state {nextState : UInt8} {allowed clearing : List MclLinkState}
    (h : mclLinkMove l nextState allowed clearing = (st, l')) :
    (st = .errInvalidState ∧ l' = l) ∨ ∃ next ∈ allowed,
      MclLinkState.ofValue nextState = some next ∧ st = .ok ∧ l'.state = next := by
  unfold mclLinkMove at h
  split at h
  · obtain ⟨rfl, rfl⟩ := Prod.mk.inj h
    exact Or.inl ⟨rfl, rfl⟩
  · rename_i next hnext
    split_ifs at h with hallowed hclearing <;> obtain ⟨rfl, rfl⟩ := Prod.mk.inj h
    · exact Or.inr ⟨next, hallowed, hnext, rfl, rfl⟩
    · exact Or.inr ⟨next, hallowed, hnext, rfl, rfl⟩
    · exact Or.inl ⟨rfl, rfl⟩

private theorem mclLinkTransition_state {nextState : UInt8}
    (h : mclLinkTransition l nextState = (st, l')) :
    (st = .errInvalidState ∧ l' = l) ∨ ∃ next ∈ l.state.successors,
      MclLinkState.ofValue nextState = some next ∧ st = .ok ∧ l'.state = next := by
  obtain ⟨clearing, hmove⟩ : ∃ clearing, mclLinkTransition l nextState =
      mclLinkMove l nextState l.state.successors clearing := by
    unfold mclLinkTransition
    cases l.state <;> exact ⟨_, rfl⟩
  exact mclLinkMove_state (hmove ▸ h)

private theorem mclLinkInstallContext_state {key : Option MclLinkContextKey}
    (h : mclLinkInstallContext l key = (st, l')) : l'.state = l.state ∧
      l'.supportedWireMajorsMask = l.supportedWireMajorsMask := by
  unfold mclLinkInstallContext at h
  split at h
  · obtain ⟨-, rfl⟩ := Prod.mk.inj h
    exact ⟨rfl, rfl⟩
  · split_ifs at h <;> obtain ⟨-, rfl⟩ := Prod.mk.inj h <;> exact ⟨rfl, rfl⟩

/-- What one call does to the state of the link. -/
inductive MclLinkTurn (l : MclLinkT) : MclLinkCall × MclLinkStatus → MclLinkT → Prop where
  | restarts {e : MclLinkCall × MclLinkStatus} {l' : MclLinkT}
      (call : (∃ mask, e.1 = .init mask) ∨ e.1 = .reset) (idle : l'.state = .idle) :
      MclLinkTurn l e l'
  | goes {nextState : UInt8} {next : MclLinkState} {l' : MclLinkT}
      (value : MclLinkState.ofValue nextState = some next) (allowed : next ∈ l.state.successors)
      (state : l'.state = next) : MclLinkTurn l (.transition nextState, .ok) l'
  | stands {e : MclLinkCall × MclLinkStatus} {l' : MclLinkT}
      (call : (∀ mask, e.1 ≠ .init mask) ∧ e.1 ≠ .reset ∧
        ∀ nextState, e ≠ (.transition nextState, .ok))
      (state : l'.state = l.state) : MclLinkTurn l e l'

private theorem MclLinkStep.turn (h : MclLinkStep l e l') : MclLinkTurn l e l' := by
  obtain ⟨call, st⟩ := e
  cases call with
  | init mask =>
    obtain ⟨rfl, rfl⟩ := Prod.mk.inj h
    exact .restarts (Or.inl ⟨mask, rfl⟩) rfl
  | reset =>
    obtain ⟨rfl, rfl⟩ := Prod.mk.inj h
    exact .restarts (Or.inr rfl) rfl
  | transition nextState =>
    rcases mclLinkTransition_state h with ⟨rfl, rfl⟩ | ⟨next, hallowed, hvalue, rfl, hstate⟩
    · exact .stands (by simp) rfl
    · exact .goes hvalue hallowed hstate
  | installContext key => exact .stands (by simp) (mclLinkInstallContext_state h).1

private theorem MclLinkGoes.unique {ev : MclLinkEvent} {next next' : MclLinkState}
    (h : MclLinkGoes next ev) (h' : MclLinkGoes next' ev) : next = next' := by
  obtain ⟨value, hvalue, hlabel⟩ := h
  obtain ⟨value', hvalue', hlabel'⟩ := h'
  obtain rfl : value = value' := by simpa using hlabel.symm.trans hlabel'
  exact Option.some.inj (hvalue.symm.trans hvalue')

private theorem MclLinkStep.stands_on {P : Prop} (h : MclLinkStep l e l') (hself : rung.rung = rung)
    (hidle : rung ≠ .idle)
    (henter : ∀ next ∈ l.state.successors, next.rung = rung →
      l.state.rung = rung ∨ P ∧ next = rung) :
    l'.state.rung = rung ↔ (P ∧ MclLinkGoes rung ⟨l, e, l'⟩) ∨
      (l.state.rung = rung ∧ MclLinkKeeps rung ⟨l, e, l'⟩) := by
  cases h.turn with
  | restarts call idle =>
    have hquiet : ∀ next, ¬ MclLinkGoes next ⟨l, e, l'⟩ := by
      rintro next ⟨value, -, hlabel⟩
      obtain rfl : e = (.transition value, .ok) := hlabel
      simp at call
    refine iff_of_false ?_ ?_
    · rw [idle]
      exact hidle.symm
    · rintro (⟨-, hgoes⟩ | ⟨-, hinit, hreset, -⟩)
      · exact hquiet _ hgoes
      · rcases call with ⟨mask, hmask⟩ | hcall
        · exact hinit mask hmask
        · exact hreset hcall
  | @goes nextState next _ value allowed state =>
    have hgoes : MclLinkGoes next ⟨l, (.transition nextState, .ok), l'⟩ := ⟨nextState, value, rfl⟩
    rw [state]
    constructor
    · intro hnext
      rcases henter next allowed hnext with hrung | ⟨hP, rfl⟩
      · refine Or.inr ⟨hrung, by simp, by simp, fun other hother => ?_⟩
        rw [hother.unique hgoes]
        exact hnext
      · exact Or.inl ⟨hP, hgoes⟩
    · rintro (⟨-, hrung⟩ | ⟨-, -, -, hkeeps⟩)
      · rw [hgoes.unique hrung]
        exact hself
      · exact hkeeps next hgoes
  | stands call state =>
    have hquiet : ∀ next, ¬ MclLinkGoes next ⟨l, e, l'⟩ :=
      fun next ⟨value, _, hlabel⟩ => call.2.2 value hlabel
    rw [state]
    constructor
    · intro hrung
      exact Or.inr ⟨hrung, call.1, call.2.1, fun next hgoes => absurd hgoes (hquiet next)⟩
    · rintro (⟨-, hgoes⟩ | ⟨hrung, -⟩)
      · exact absurd hgoes (hquiet _)
      · exact hrung

/-- The link stands on a rung exactly when it was climbed to. -/
structure MclLinkLadder (tr : List MclLinkEvent) (l : MclLinkT) : Prop where
  discovered : l.state.rung = .discovered ↔ MclLinkClimbed [.discovered] tr
  capabilities : l.state.rung = .capabilities ↔ MclLinkClimbed [.capabilities, .discovered] tr
  negotiating : l.state.rung = .negotiating ↔
    MclLinkClimbed [.negotiating, .capabilities, .discovered] tr
  established : l.state.rung = .established ↔
    MclLinkClimbed [.established, .negotiating, .capabilities, .discovered] tr

private theorem MclLinkLadder.snoc (h : MclLinkLadder tr l) (hstep : MclLinkStep l e l') :
    MclLinkLadder (tr ++ [⟨l, e, l'⟩]) l' where
  discovered := by
    rw [MclLinkClimbed, then_snoc, ← MclLinkClimbed, ← h.discovered]
    exact hstep.stands_on rfl (by decide) (by cases l.state <;> simp [MclLinkClimbed] <;> decide)
  capabilities := by
    rw [MclLinkClimbed, then_snoc, ← MclLinkClimbed, ← h.discovered, ← h.capabilities]
    exact hstep.stands_on rfl (by decide) (by cases l.state <;> decide)
  negotiating := by
    rw [MclLinkClimbed, then_snoc, ← MclLinkClimbed, ← h.capabilities, ← h.negotiating]
    exact hstep.stands_on rfl (by decide) (by cases l.state <;> decide)
  established := by
    rw [MclLinkClimbed, then_snoc, ← MclLinkClimbed, ← h.negotiating, ← h.established]
    exact hstep.stands_on rfl (by decide) (by cases l.state <;> decide)

theorem mclLinkRun_ladder {before : List MclLinkEvent} (run : MclLinkRun l₀ tr l)
    (hidle : l₀.state = .idle)
    (hbefore : ∀ rung below, ¬ MclLinkClimbed (rung :: below) before) :
    MclLinkLadder (before ++ tr) l := by
  apply run.history (H := fun tr l => MclLinkLadder (before ++ tr) l) along_true
  · rw [List.append_nil]
    constructor <;> exact iff_of_false (by rw [hidle]; decide) (hbefore _ _)
  · intro tr l e l' hladder hstep _
    rw [← List.append_assoc]
    exact hladder.snoc hstep

private theorem MclLinkClimbed.not_init {first : MclLinkEvent} {mask : UInt16}
    (hinit : first.label.1 = .init mask) (rung : MclLinkState) (below : List MclLinkState) :
    ¬ MclLinkClimbed (rung :: below) [first] := by
  rw [MclLinkClimbed, ← List.nil_append [first], then_snoc]
  rintro (⟨-, value, -, hlabel⟩ | ⟨hnil, -⟩)
  · rw [hlabel] at hinit
    cases hinit
  · exact then_nil hnil

/-- A link is in contact exactly when its history climbed the whole ladder. -/
theorem mclLink_climbs {first : MclLinkEvent} {mask : UInt16}
    (run : MclLinkRun l₀ (first :: tr) l) (hinit : first.label.1 = .init mask) :
    (l.state = .discovered ↔ MclLinkClimbed [.discovered] (first :: tr)) ∧
      (l.state = .capabilities ↔ MclLinkClimbed [.capabilities, .discovered] (first :: tr)) ∧
      (l.state = .negotiating ↔
        MclLinkClimbed [.negotiating, .capabilities, .discovered] (first :: tr)) ∧
      ((l.state = .established ∨ l.state = .adapting ∨ l.state = .handoff ∨ l.state = .fallback) ↔
        MclLinkClimbed [.established, .negotiating, .capabilities, .discovered]
          (first :: tr)) := by
  obtain ⟨-, hfirst, hrest⟩ := run.head
  have hidle : first.after.state = .idle := by
    rw [MclLinkStep, hinit] at hfirst
    exact congrArg (fun r => r.2.state) hfirst.symm
  have hladder := mclLinkRun_ladder hrest hidle (MclLinkClimbed.not_init hinit)
  rw [List.singleton_append] at hladder
  rw [← hladder.discovered, ← hladder.capabilities, ← hladder.negotiating, ← hladder.established]
  cases l.state <;> decide

/-- A session that fell back to discovery once, was negotiated again and is adapting. -/
theorem mclLink_climbs_again :
    let link : MclLinkT := ⟨.established, true, mclLinkZeroContext, 0⟩
    let calls : List MclLinkCall := [.transition 1, .transition 4, .transition 2, .transition 3,
      .transition 4, .transition 7, .transition 1, .transition 2, .installContext none,
      .transition 3, .transition 4, .transition 6, .transition 4, .transition 5]
    MclLinkClimbed [.established, .negotiating, .capabilities, .discovered]
      (replay MclLinkCall.exec link (.init 2 :: calls)) := by
  intro link calls
  have run := Run.of_replay MclLinkCall.exec link (.init 2 :: calls)
  exact (mclLink_climbs run rfl).2.2.2.mp (Or.inr (Or.inl (by decide +kernel)))

private theorem mclLinkWireMajorMask_has {wireMajor : UInt32} {i : ℕ}
    (h : Bits.Has (mclLinkWireMajorMask wireMajor) i) : i = wireMajor.toNat := by
  unfold mclLinkWireMajorMask at h
  split_ifs at h with hwide
  · exact absurd h Bits.not_has_zero
  · have hnibble : ¬ 15 < wireMajor.toNat := hwide
    exact (Bits.has_bit (by omega)).mp h

private theorem MclLinkStep.mask (h : MclLinkStep l e l') (hinit : ∀ mask, e.1 ≠ .init mask) :
    l'.supportedWireMajorsMask = l.supportedWireMajorsMask := by
  obtain ⟨call, st⟩ := e
  cases call with
  | init mask => exact absurd rfl (hinit mask)
  | reset =>
    obtain ⟨rfl, rfl⟩ := Prod.mk.inj h
    rfl
  | transition nextState =>
    obtain ⟨allowed, clearing, hmove⟩ : ∃ allowed clearing,
        mclLinkTransition l nextState = mclLinkMove l nextState allowed clearing := by
      unfold mclLinkTransition
      split <;> exact ⟨_, _, rfl⟩
    rcases mclLinkMove_cases (hmove.symm.trans h) with
      ⟨-, rfl⟩ | ⟨next, -, -, ⟨-, rfl⟩ | ⟨-, rfl⟩⟩ <;> rfl
  | installContext key => exact (mclLinkInstallContext_state h).2

/-- A link that was initialised for one wire major reports a context exactly when one is installed
in the current session, and all such contexts are of that major; a major that does not fit in the
mask never has one. -/
theorem mclLinkHasActiveContext_single {first : MclLinkEvent} {wireMajor : UInt32}
    (run : MclLinkRun l₀ (first :: tr) l)
    (hinit : first.label.1 = .init (mclLinkWireMajorMask wireMajor))
    (hlater : ∀ ev ∈ tr, ∀ mask, ev.label.1 ≠ .init mask) (hasContext : Bool) :
    (mclLinkHasActiveContext l (some hasContext) = (.ok, some true) ↔
        ∃ k, Then (fun _ => True) (MclLinkInstalls k) MclLinkContinues (first :: tr)) ∧
      ∀ k, Then (fun _ => True) (MclLinkInstalls k) MclLinkContinues (first :: tr) →
        k.wireMajor.toNat = wireMajor.toNat ∧ wireMajor.toNat ≤ 15 := by
  obtain ⟨-, hfirst, hrest⟩ := run.head
  have hmask : l.supportedWireMajorsMask = mclLinkWireMajorMask wireMajor := by
    apply hrest.invariant_of (I := fun l => l.supportedWireMajorsMask =
      mclLinkWireMajorMask wireMajor) hlater
    · rw [MclLinkStep, hinit] at hfirst
      exact congrArg (fun r => r.2.supportedWireMajorsMask) hfirst.symm
    · exact fun hl hstep hquiet => (hstep.mask hquiet).trans hl
  have hreport : mclLinkHasActiveContext l (some hasContext) = (.ok, some true) ↔
      l.contextValid = true := by
    simp [mclLinkHasActiveContext]
  constructor
  · rw [hreport]
    constructor
    · intro hvalid
      have hself : l.activeContext.Matches l.activeContext :=
        ⟨rfl, rfl, rfl, rfl, (mclLinkRun_canonical run hinit).size hvalid, fun _ _ => rfl⟩
      have hholds := (mclLinkRun_holds hrest (mclLinkInit_clears hinit hfirst)).2 hvalid hself
      exact ⟨l.activeContext, hholds.cons fun _ => trivial⟩
    · rintro ⟨k, hk⟩
      exact (mclLinkRun_active run hk).1
  · intro k hk
    obtain ⟨hvalid, hactive⟩ := mclLinkRun_active run hk
    have hsession := (mclLinkRun_holds (k := k) hrest (mclLinkInit_clears hinit hfirst)).1
    have hhas := (hsession hvalid).2
    rw [hmask, hactive.wireMajor] at hhas
    have hmajor := mclLinkWireMajorMask_has hhas
    exact ⟨hmajor, hmajor ▸ Nat.le_of_lt_succ hhas.lt⟩

/-- The query after a context of the only major was installed. -/
theorem mclLinkHasActiveContext_single_major :
    let link : MclLinkT := ⟨.closed, true, mclLinkZeroContext, 0⟩
    let calls : List MclLinkCall := [.transition 1, .transition 2,
      .installContext (some ⟨2, 7, 1, Vector.replicate 32 0xAA, 1⟩),
      .installContext (some ⟨1, 7, 1, Vector.replicate 32 0xAA, 1⟩), .transition 3]
    ∃ k, Then (fun _ => True) (MclLinkInstalls k) MclLinkContinues
        (replay MclLinkCall.exec link (.init (mclLinkWireMajorMask 1) :: calls)) ∧
      k.wireMajor.toNat = 1 := by
  intro link calls
  have run := Run.of_replay MclLinkCall.exec link (.init (mclLinkWireMajorMask 1) :: calls)
  have hcalls : ∀ call ∈ calls, ∀ mask, call ≠ .init mask := by simp [calls]
  have hlater := forall_replay (P := fun call => ∀ mask, call ≠ .init mask) MclLinkCall.exec
    (mclLinkInit link (mclLinkWireMajorMask 1)).2 hcalls
  have hlaw := mclLinkHasActiveContext_single run rfl hlater false
  obtain ⟨k, hk⟩ := hlaw.1.mp (by decide +kernel)
  exact ⟨k, hk, (hlaw.2 k hk).1⟩

end MclLink
