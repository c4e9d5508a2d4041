import Mathlib.Tactic

/-!
# Labelled runs

Runs of a labelled transition relation, kept together with the events that happened.
Invariants may speak about the state reached, about the whole history, or about a history whose
events all meet a side condition; `Then` describes histories in which things happened in order.
-/

namespace LabelledRun

/-- One step of a run: the state before it, its label, the state after it. -/
structure Event (σ ε : Type*) where
  before : σ
  label : ε
  after : σ

/-- From `s₀` the events of the history, oldest first, lead to the last state. -/
inductive Run {σ ε : Type*} (Step : σ → ε → σ → Prop) (s₀ : σ) : List (Event σ ε) → σ → Prop where
  | nil : Run Step s₀ [] s₀
  | snoc {tr : List (Event σ ε)} {s s' : σ} {e : ε} :
      Run Step s₀ tr s → Step s e s' → Run Step s₀ (tr ++ [⟨s, e, s'⟩]) s'

variable {σ ε : Type*} {Step : σ → ε → σ → Prop} {s₀ s : σ} {tr tr' : List (Event σ ε)}

/-- Every event of the history stands in the relation to the history before it. -/
def Along (P : List (Event σ ε) → Event σ ε → Prop) (tr : List (Event σ ε)) : Prop :=
  ∀ past ev rest, tr = past ++ ev :: rest → P past ev

theorem along_nil {P : List (Event σ ε) → Event σ ε → Prop} : Along P [] := by
  intro past ev rest h
  simp at h

private theorem along_cons {P : List (Event σ ε) → Event σ ε → Prop} {ev : Event σ ε} :
    Along P (ev :: tr) ↔ P [] ev ∧ Along (fun past => P (ev :: past)) tr := by
  constructor
  · intro h
    exact ⟨h [] ev tr rfl, fun past x rest htr => h (ev :: past) x rest (by rw [htr]; rfl)⟩
  · rintro ⟨hev, htr⟩ past x rest heq
    rcases List.cons_eq_append_iff.mp heq with ⟨rfl, hx⟩ | ⟨past, rfl, hx⟩
    · obtain ⟨rfl, rfl⟩ := List.cons.inj hx
      exact hev
    · exact htr past x rest hx

theorem along_snoc {P : List (Event σ ε) → Event σ ε → Prop} {ev : Event σ ε} :
    Along P (tr ++ [ev]) ↔ Along P tr ∧ P tr ev := by
  constructor
  · intro h
    refine ⟨fun past x rest htr => h past x (rest ++ [ev]) ?_, h tr ev [] rfl⟩
    rw [htr, List.append_assoc]
    rfl
  · rintro ⟨htr, hev⟩ past x rest heq
    rcases List.eq_nil_or_concat' rest with rfl | ⟨front, last, rfl⟩
    · obtain ⟨rfl, hx⟩ := List.append_inj' heq rfl
      obtain rfl := List.singleton_inj.mp hx
      exact hev
    · rw [← List.cons_append, ← List.append_assoc] at heq
      exact htr past x front (List.append_inj' heq rfl).1

theorem along_true : Along (fun _ _ => True) tr := fun _ _ _ _ => trivial

instance decidableAlong (P : List (Event σ ε) → Event σ ε → Prop)
    [∀ past ev, Decidable (P past ev)] : ∀ tr, Decidable (Along P tr)
  | [] => isTrue along_nil
  | ev :: tr =>
    have := decidableAlong (fun past => P (ev :: past)) tr
    decidable_of_iff _ (@along_cons _ _ tr P ev).symm

/-- Induction on a run whose events all meet a condition on the history before them. -/
theorem Run.history {H : List (Event σ ε) → σ → Prop} {Ok : List (Event σ ε) → Event σ ε → Prop}
    (run : Run Step s₀ tr s) (hok : Along Ok tr) (init : H [] s₀)
    (step : ∀ {tr s e s'}, H tr s → Step s e s' → Ok tr ⟨s, e, s'⟩ →
      H (tr ++ [⟨s, e, s'⟩]) s') : H tr s := by
  induction run with
  | nil => exact init
  | snoc prior hstep ih =>
    obtain ⟨hpast, hev⟩ := along_snoc.mp hok
    exact step (ih hpast) hstep hev

theorem along_of_forall {P : Event σ ε → Prop} (h : ∀ ev ∈ tr, P ev) :
    Along (fun _ ev => P ev) tr := by
  rintro past ev rest rfl
  exact h ev (by simp)

theorem Run.invariant_of {I : σ → Prop} {Ok : Event σ ε → Prop}
    (run : Run Step s₀ tr s) (hok : ∀ ev ∈ tr, Ok ev) (init : I s₀)
    (step : ∀ {s e s'}, I s → Step s e s' → Ok ⟨s, e, s'⟩ → I s') : I s :=
  run.history (H := fun _ s => I s) (along_of_forall hok) init fun hI hstep hev =>
    step hI hstep hev

theorem Run.invariant_after {I : σ → Prop} {Ok : Event σ ε → Prop}
    (run : Run Step s₀ tr s) (hok : ∀ ev ∈ tr, Ok ev) (init : I s₀)
    (step : ∀ {s e s'}, I s → Step s e s' → Ok ⟨s, e, s'⟩ → I s') : ∀ ev ∈ tr, I ev.after := by
  have h := run.history (H := fun tr s => I s ∧ ∀ ev ∈ tr, I ev.after) (along_of_forall hok)
    ⟨init, by simp⟩ ?_
  · exact h.2
  · intro tr s e s' ⟨hs, htr⟩ hstep hev
    have hs' := step hs hstep hev
    refine ⟨hs', fun ev hmem => ?_⟩
    rcases List.mem_append.mp hmem with hmem | hmem
    · exact htr ev hmem
    · obtain rfl := List.mem_singleton.mp hmem
      exact hs'

theorem Run.invariant {I : σ → Prop} (run : Run Step s₀ tr s) (init : I s₀)
    (step : ∀ {s e s'}, I s → Step s e s' → I s') : I s :=
  run.history (H := fun _ s => I s) along_true init fun hI hstep _ => step hI hstep

theorem Run.append (first : Run Step s₀ tr s) {s' : σ} (rest : Run Step s tr' s') :
    Run Step s₀ (tr ++ tr') s' := by
  induction rest with
  | nil => simpa using first
  | snoc _ hstep ih => simpa [← List.append_assoc] using ih.snoc hstep

theorem Run.split {tr tr' : List (Event σ ε)} (run : Run Step s₀ (tr ++ tr') s) :
    ∃ mid, Run Step s₀ tr mid ∧ Run Step mid tr' s := by
  generalize hall : tr ++ tr' = all at run
  induction run generalizing tr' with
  | nil =>
    obtain ⟨rfl, rfl⟩ := List.append_eq_nil_iff.mp hall
    exact ⟨s₀, .nil, .nil⟩
  | @snoc past s s' e prior hstep ih =>
    rcases List.eq_nil_or_concat' tr' with rfl | ⟨front, last, rfl⟩
    · rw [List.append_nil] at hall
      exact ⟨s', hall ▸ prior.snoc hstep, .nil⟩
    · rw [← List.append_assoc] at hall
      obtain ⟨hfront, hlast⟩ := List.append_inj' hall rfl
      obtain ⟨mid, hfirst, hrest⟩ := ih hfront
      obtain rfl : last = ⟨s, e, s'⟩ := by simpa using hlast
      exact ⟨mid, hfirst, hrest.snoc hstep⟩

private theorem Run.eq_of_nil (run : Run Step s₀ tr s) (h : tr = []) : s₀ = s := by
  cases run with
  | nil => rfl
  | snoc => simp at h

theorem Run.last {ev : Event σ ε} (run : Run Step s₀ tr s) (h : tr = tr' ++ [ev]) :
    Run Step s₀ tr' ev.before ∧ Step ev.before ev.label ev.after ∧ ev.after = s := by
  cases run with
  | nil => simp at h
  | snoc prior hstep =>
    obtain ⟨rfl, hev⟩ := List.append_inj' h rfl
    obtain rfl := List.singleton_inj.mp hev
    exact ⟨prior, hstep, rfl⟩

theorem Run.head {ev : Event σ ε} (run : Run Step s₀ (ev :: tr) s) :
    s₀ = ev.before ∧ Step ev.before ev.label ev.after ∧ Run Step ev.after tr s := by
  obtain ⟨mid, hone, hrest⟩ := @Run.split _ _ _ _ _ [ev] tr run
  obtain ⟨hnil, hstep, rfl⟩ := hone.last (List.nil_append _).symm
  exact ⟨hnil.eq_of_nil rfl, hstep, hrest⟩

theorem Run.event {ev : Event σ ε} (run : Run Step s₀ tr s) (hev : ev ∈ tr) :
    ∃ past, Run Step s₀ past ev.before ∧ Step ev.before ev.label ev.after := by
  obtain ⟨past, rest, rfl⟩ := List.append_of_mem hev
  obtain ⟨mid, hpast, htail⟩ := run.split
  obtain ⟨rfl, hstep, -⟩ := htail.head
  exact ⟨past, hpast, hstep⟩

theorem Run.restrict {σ' ε' : Type*} {Step' : σ' → ε' → σ' → Prop} (view : σ → σ')
    (part : Event σ ε → Option (Event σ' ε')) (run : Run Step s₀ tr s)
    (step : ∀ {s e s'}, Step s e s' → (part ⟨s, e, s'⟩ = none ∧ view s' = view s) ∨
      ∃ e', part ⟨s, e, s'⟩ = some ⟨view s, e', view s'⟩ ∧ Step' (view s) e' (view s')) :
    Run Step' (view s₀) (tr.filterMap part) (view s) := by
  induction run with
  | nil => exact .nil
  | snoc _ hstep ih =>
    rw [List.filterMap_append]
    rcases step hstep with ⟨hnone, hview⟩ | ⟨e', hsome, hstep'⟩
    · rw [hview]
      simpa [hnone] using ih
    · simpa [hsome] using ih.snoc hstep'

/-- The run of a deterministic partial step function along a list of labels. -/
def script (step : σ → ε → Option σ) : σ → List ε → Option σ
  | s, [] => some s
  | s, e :: es => (step s e).bind fun s' => script step s' es

/-- The events of that run, up to the first label that is refused. -/
def trail (step : σ → ε → Option σ) : σ → List ε → List (Event σ ε)
  | _, [] => []
  | s, e :: es =>
    match step s e with
    | none => []
    | some s' => ⟨s, e, s'⟩ :: trail step s' es

theorem Run.of_script {step : σ → ε → Option σ} {es : List ε}
    (h : script step s₀ es = some s) :
    Run (fun s e s' => step s e = some s') s₀ (trail step s₀ es) s := by
  induction es generalizing s₀ with
  | nil =>
    obtain rfl : s₀ = s := by simpa [script] using h
    exact .nil
  | cons e es ih =>
    obtain ⟨mid, hmid, hrest⟩ := Option.bind_eq_some_iff.mp h
    simp only [trail, hmid]
    exact (Run.nil.snoc hmid).append (ih hrest)

/-- The history of an operation that always answers, along a list of its inputs. -/
def replay {α ρ : Type*} (exec : σ → α → ρ × σ) : σ → List α → List (Event σ (α × ρ))
  | _, [] => []
  | s, a :: as => ⟨s, (a, (exec s a).1), (exec s a).2⟩ :: replay exec (exec s a).2 as

theorem Run.of_replay {α ρ : Type*} (exec : σ → α → ρ × σ) (s : σ) (as : List α) :
    Run (fun s e s' => exec s e.1 = (e.2, s')) s (replay exec s as)
      (as.foldl (fun s a => (exec s a).2) s) := by
  induction as generalizing s with
  | nil => exact .nil
  | cons a as ih => exact (Run.nil.snoc rfl).append (ih (exec s a).2)

theorem replay_snoc {α ρ : Type*} (exec : σ → α → ρ × σ) (s : σ) (as : List α) (a : α) :
    replay exec s (as ++ [a]) =
      replay exec s as ++
        [⟨as.foldl (fun s a => (exec s a).2) s, (a, (exec (as.foldl (fun s a => (exec s a).2) s) a).1),
          (as ++ [a]).foldl (fun s a => (exec s a).2) s⟩] := by
  induction as generalizing s with
  | nil => rfl
  | cons b as ih => simpa [replay] using ih (exec s b).2

theorem forall_replay {α ρ : Type*} {P : α → Prop} (exec : σ → α → ρ × σ) (s : σ) {as : List α}
    (h : ∀ a ∈ as, P a) : ∀ ev ∈ replay exec s as, P ev.label.1 := by
  induction as generalizing s with
  | nil => simp [replay]
  | cons a as ih =>
    obtain ⟨ha, has⟩ := List.forall_mem_cons.mp h
    exact List.forall_mem_cons.mpr ⟨ha, ih (exec s a).2 has⟩

/-- Some run leads from one state to the other, each of its steps as `Ok` allows. -/
def Leads (Step : σ → ε → σ → Prop) (Ok : σ → ε → Prop) (s s' : σ) : Prop :=
  ∃ tr, Run Step s tr s' ∧ ∀ ev ∈ tr, Ok ev.before ev.label

variable {Ok : σ → ε → Prop}

theorem Leads.refl (s : σ) : Leads Step Ok s s := ⟨[], .nil, by simp⟩

theorem Leads.trans {s s' s'' : σ} (first : Leads Step Ok s s') (rest : Leads Step Ok s' s'') :
    Leads Step Ok s s'' := by
  obtain ⟨tr, run, hok⟩ := first
  obtain ⟨tr', run', hok'⟩ := rest
  refine ⟨tr ++ tr', run.append run', fun ev hev => ?_⟩
  rcases List.mem_append.mp hev with hev | hev
  · exact hok ev hev
  · exact hok' ev hev

theorem Leads.step {s s' : σ} {e : ε} (hstep : Step s e s') (hok : Ok s e) :
    Leads Step Ok s s' := by
  refine ⟨[⟨s, e, s'⟩], Run.nil.snoc hstep, fun ev hev => ?_⟩
  obtain rfl := List.mem_singleton.mp hev
  exact hok

theorem Leads.mono {Ok' : σ → ε → Prop} {s s' : σ} (h : Leads Step Ok s s')
    (hOk : ∀ s e, Ok s e → Ok' s e) : Leads Step Ok' s s' := by
  obtain ⟨tr, run, hok⟩ := h
  exact ⟨tr, run, fun ev hev => hOk _ _ (hok ev hev)⟩

theorem Leads.invariant {I : σ → Prop} {s s' : σ} (h : Leads Step Ok s s') (init : I s)
    (step : ∀ {s e s'}, I s → Step s e s' → Ok s e → I s') : I s' := by
  obtain ⟨tr, run, hok⟩ := h
  exact @Run.invariant_of _ _ _ _ _ _ _ (fun ev => Ok ev.before ev.label) run hok init step

/-- A run whose every step is, seen through `view`, a step of another system or none at all is a
run of that system, and each of its events there stems from one here. -/
theorem Run.project {σ' ε' : Type*} {Step' : σ' → ε' → σ' → Prop} {view : σ → σ'} {I : σ → Prop}
    {R : Event σ ε → Event σ' ε' → Prop} (run : Run Step s₀ tr s) (init : I s₀)
    (step : ∀ {s e s'}, I s → Step s e s' → I s' ∧ (view s' = view s ∨
      ∃ e', Step' (view s) e' (view s') ∧ R ⟨s, e, s'⟩ ⟨view s, e', view s'⟩)) :
    ∃ tr', Run Step' (view s₀) tr' (view s) ∧ ∀ ev' ∈ tr', ∃ ev ∈ tr, R ev ev' := by
  have h : I s ∧ ∃ tr', Run Step' (view s₀) tr' (view s) ∧ ∀ ev' ∈ tr', ∃ ev ∈ tr, R ev ev' := by
    induction run with
    | nil => exact ⟨init, [], .nil, by simp⟩
    | @snoc tr s s' e _ hstep ih =>
      obtain ⟨hI, tr', run', hstem⟩ := ih
      obtain ⟨hI', hsame | ⟨e', hstep', hR⟩⟩ := step hI hstep
      · refine ⟨hI', tr', hsame ▸ run', fun ev' hev' => ?_⟩
        obtain ⟨ev, hev, hR⟩ := hstem ev' hev'
        exact ⟨ev, by simp [hev], hR⟩
      · refine ⟨hI', tr' ++ [⟨view s, e', view s'⟩], run'.snoc hstep', fun ev' hev' => ?_⟩
        rcases List.mem_append.mp hev' with hev' | hev'
        · obtain ⟨ev, hev, hR⟩ := hstem ev' hev'
          exact ⟨ev, by simp [hev], hR⟩
        · obtain rfl := List.mem_singleton.mp hev'
          exact ⟨_, by simp, hR⟩
  exact h.2

/-- A system that can take, from every state that meets an invariant, a step seen as the one that
another system takes, can follow its runs event by event; `R` relates the two events that stand at a
place of the histories. -/
theorem Run.lift {σ' ε' : Type*} {Step' : σ' → ε' → σ' → Prop} {view : σ → σ'} {I : σ → Prop}
    {R : ℕ → Event σ ε → Event σ' ε' → Prop} {Ok' : Event σ' ε' → Prop} {t₀ t : σ'}
    {tr' : List (Event σ' ε')} (run : Run Step' t₀ tr' t) (hok : ∀ ev ∈ tr', Ok' ev)
    (hview : view s₀ = t₀) (init : I s₀)
    (step : ∀ i {s e' t}, I s → Step' (view s) e' t → Ok' ⟨view s, e', t⟩ →
      ∃ e s', Step s e s' ∧ view s' = t ∧ I s' ∧ R i ⟨s, e, s'⟩ ⟨view s, e', t⟩) :
    ∃ tr s, Run Step s₀ tr s ∧ view s = t ∧ I s ∧ tr.length = tr'.length ∧
      ∀ i ev, tr[i]? = some ev → ∃ ev', tr'[i]? = some ev' ∧ R i ev ev' := by
  induction run with
  | nil => exact ⟨[], s₀, .nil, hview, init, rfl, by simp⟩
  | @snoc tr' t t' e' _ hstep' ih =>
    obtain ⟨tr, s, run, rfl, hI, hlen, hR⟩ := ih fun ev hev => hok ev (by simp [hev])
    obtain ⟨e, s', hstep, hview', hI', hlast⟩ := step tr.length hI hstep' (hok _ (by simp))
    refine ⟨tr ++ [⟨s, e, s'⟩], s', run.snoc hstep, hview', hI', by simp [hlen], fun i ev hev => ?_⟩
    rcases Nat.lt_trichotomy i tr.length with hi | rfl | hi
    · rw [List.getElem?_append_left hi] at hev
      rw [List.getElem?_append_left (hlen ▸ hi)]
      exact hR i ev hev
    · rw [List.getElem?_concat_length] at hev
      obtain rfl := Option.some.inj hev
      exact ⟨_, by rw [hlen, List.getElem?_concat_length], hlast⟩
    · rw [List.getElem?_eq_none (by simp; omega)] at hev
      cases hev

theorem Leads.lift {σ' ε' : Type*} {Step' : σ' → ε' → σ' → Prop} {Ok' : σ' → ε' → Prop}
    {view : σ → σ'} {I : σ → Prop} {t : σ'} (h : Leads Step' Ok' (view s) t) (init : I s)
    (step : ∀ {s e' t}, I s → Step' (view s) e' t → Ok' (view s) e' →
      ∃ e s', Step s e s' ∧ view s' = t ∧ I s' ∧ Ok s e) :
    ∃ s', Leads Step Ok s s' ∧ view s' = t ∧ I s' := by
  obtain ⟨tr', run', hok'⟩ := h
  obtain ⟨tr, s', run, hview, hI, -, hok⟩ := run'.lift (R := fun _ ev _ => Ok ev.before ev.label)
    hok' rfl init fun _ => step
  refine ⟨s', ⟨tr, run, fun ev hev => ?_⟩, hview, hI⟩
  obtain ⟨i, hi⟩ := List.mem_iff_getElem?.mp hev
  obtain ⟨-, -, hev⟩ := hok i ev hi
  exact hev

/-- The history had a past satisfying `P`, then a `good` event, and only `quiet` events since. -/
def Then (P : List (Event σ ε) → Prop) (good quiet : Event σ ε → Prop)
    (tr : List (Event σ ε)) : Prop :=
  ∃ past ev since, tr = past ++ ev :: since ∧ P past ∧ good ev ∧ ∀ x ∈ since, quiet x

variable {P Q : List (Event σ ε) → Prop} {good quiet : Event σ ε → Prop} {ev : Event σ ε}

theorem Then.now (hP : P tr) (hgood : good ev) : Then P good quiet (tr ++ [ev]) :=
  ⟨tr, ev, [], rfl, hP, hgood, by simp⟩

theorem Then.wait (h : Then P good quiet tr) (hquiet : quiet ev) :
    Then P good quiet (tr ++ [ev]) := by
  obtain ⟨past, x, since, rfl, hP, hgood, hsince⟩ := h
  refine ⟨past, x, since ++ [ev], by simp, hP, hgood, ?_⟩
  intro y hy
  rcases List.mem_append.mp hy with hy | hy
  · exact hsince y hy
  · obtain rfl := List.mem_singleton.mp hy
    exact hquiet

theorem then_snoc : Then P good quiet (tr ++ [ev]) ↔
    (P tr ∧ good ev) ∨ (Then P good quiet tr ∧ quiet ev) := by
  constructor
  · rintro ⟨past, x, since, heq, hP, hgood, hsince⟩
    rcases List.eq_nil_or_concat' since with rfl | ⟨front, last, rfl⟩
    · obtain ⟨rfl, hx⟩ := List.append_inj' heq rfl
      obtain rfl := List.singleton_inj.mp hx
      exact Or.inl ⟨hP, hgood⟩
    · rw [← List.cons_append, ← List.append_assoc] at heq
      obtain ⟨rfl, hx⟩ := List.append_inj' heq rfl
      obtain rfl := List.singleton_inj.mp hx
      exact Or.inr ⟨⟨past, x, front, rfl, hP, hgood, fun y hy => hsince y (by simp [hy])⟩,
        hsince ev (by simp)⟩
  · rintro (⟨hP, hgood⟩ | ⟨h, hquiet⟩)
    · exact .now hP hgood
    · exact h.wait hquiet

theorem Then.cons (h : Then P good quiet tr) (hP : ∀ {past}, P past → Q (ev :: past)) :
    Then Q good quiet (ev :: tr) := by
  obtain ⟨past, x, since, rfl, hpast, hgood, hsince⟩ := h
  exact ⟨ev :: past, x, since, rfl, hP hpast, hgood, hsince⟩

theorem then_nil : ¬ Then P good quiet ([] : List (Event σ ε)) := by
  rintro ⟨past, x, since, heq, -⟩
  simp at heq

theorem Then.holds {I : σ → Prop} (h : Then P good quiet tr) (run : Run Step s₀ tr s)
    (enter : ∀ {past s e s'}, P past → Run Step s₀ past s → good ⟨s, e, s'⟩ → Step s e s' → I s')
    (keep : ∀ {s e s'}, I s → Step s e s' → quiet ⟨s, e, s'⟩ → I s') : I s := by
  obtain ⟨past, ev, since, rfl, hP, hgood, hsince⟩ := h
  obtain ⟨mid, hpast, hrest⟩ := run.split
  obtain ⟨rfl, hstep, htail⟩ := hrest.head
  exact htail.invariant_of hsince (enter hP hpast hgood hstep) keep

end LabelledRun
