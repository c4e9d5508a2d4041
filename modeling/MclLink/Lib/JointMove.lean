import Mathlib.Data.Set.Insert
import Mathlib.Tactic

/-!
# Two parties that move together

Each party is at a place and may propose to move both to another one. The other party joins the
proposal and assents, the proposer commits, the other settles and confirms, and the proposer
concludes. Everything ever said stays audible: a rule that listens looks for the sentence in all
that the other party has said, so loss, duplication, delay and reordering need no rules of their
own. Only a commitment binds; anything before it can be taken back.

The parties agree as long as nobody settles the same reference twice, the guard of `settle`.
-/

namespace JointMove

/-- What a party is engaged in: nothing, its own proposal at three stages, or the other's. -/
inductive Phase (Ref Loc : Type*) where
  | idle
  | proposing (m : Ref) (t : Loc)
  | joined (m : Ref) (t : Loc)
  | bound (m : Ref) (t : Loc)
  | committed (m : Ref) (t : Loc)
  | gone

variable {Ref Loc : Type*}

/-- The own proposal that is under way. -/
def Phase.own : Phase Ref Loc → Option (Ref × Loc)
  | .proposing m t | .bound m t | .committed m t => some (m, t)
  | .idle | .joined .. | .gone => none

/-- The own proposal that was committed and is not concluded. -/
def Phase.vow : Phase Ref Loc → Option (Ref × Loc)
  | .committed m t => some (m, t)
  | .idle | .proposing .. | .joined .. | .bound .. | .gone => none

/-- A party: where it is, what it is engaged in, the move it made last, and all it has said. -/
@[ext] structure Party (Ref Loc : Type*) where
  place : Loc
  phase : Phase Ref Loc
  last : Option Ref
  offers : Set (Ref × Loc)
  accepts : Set Ref
  commits : Set Ref
  confirms : Set Ref

/-- What `p` can do while the other party is `q`. -/
inductive Party.Moves (q p : Party Ref Loc) : Party Ref Loc → Prop where
  | propose {m : Ref} {t : Loc} : p.phase = .idle → (∀ t', (m, t') ∉ p.offers) → m ∉ p.accepts →
      Moves q p { p with phase := .proposing m t, offers := insert (m, t) p.offers }
  | join {m : Ref} {t : Loc} : p.phase ≠ .gone → p.phase.vow = none → (m, t) ∈ q.offers →
      Moves q p { p with phase := .joined m t }
  | assent {m : Ref} {t : Loc} : p.phase = .joined m t →
      Moves q p { p with accepts := insert m p.accepts }
  | bind {m : Ref} {t : Loc} : p.phase = .proposing m t → m ∈ q.accepts →
      Moves q p { p with phase := .bound m t }
  | commit {m : Ref} {t : Loc} : p.phase = .bound m t →
      Moves q p { p with phase := .committed m t, commits := insert m p.commits }
  | settle {m : Ref} {t : Loc} : p.phase = .joined m t ∨ p.phase = .bound m t → m ∈ q.commits →
      m ∉ p.confirms →
      Moves q p { p with
        place := t, phase := .idle, last := some m, confirms := insert m p.confirms }
  | reconfirm {m : Ref} : p.phase = .idle → p.last = some m → m ∈ q.commits →
      Moves q p { p with confirms := insert m p.confirms }
  | conclude {m : Ref} {t : Loc} : p.phase = .committed m t → m ∈ q.confirms →
      Moves q p { p with place := t, phase := .idle, last := some m }
  | retreat : p.phase ≠ .gone → p.phase.vow = none → Moves q p { p with phase := .idle }
  | leave : Moves q p { p with phase := .gone }

/-- What holds of a party against what the other one has said. -/
structure Consistent (p q : Party Ref Loc) : Prop where
  unique : ∀ m t t', (m, t) ∈ p.offers → (m, t') ∈ p.offers → t = t'
  owned : ∀ m t, p.phase.own = some (m, t) → (m, t) ∈ p.offers
  joined : ∀ m t, p.phase = .joined m t → (m, t) ∈ q.offers
  accepted : ∀ m, m ∈ p.accepts → ∃ t, (m, t) ∈ q.offers
  bound : ∀ m t, p.phase = .bound m t ∨ p.phase = .committed m t → m ∈ q.accepts
  fresh : ∀ m t, p.phase.own = some (m, t) → m ∉ p.accepts
  exclusive : ∀ m t m' t', p.phase.own = some (m, t) → m ∈ q.accepts →
    q.phase.own = some (m', t') → m' ∉ p.accepts
  committed : ∀ m, m ∈ p.commits → m ∈ q.accepts
  single : ∀ m, m ∈ p.commits → m ∉ q.commits
  underway : ∀ m t, m ∈ p.commits → p.phase.own = some (m, t) → p.phase = .committed m t
  pending : ∀ m, m ∈ p.commits →
    (∃ t, p.phase = .committed m t) ∨ m ∈ q.confirms ∨ p.phase = .gone
  confirmed : ∀ m, m ∈ p.confirms → m ∈ q.commits
  last : ∀ m, p.last = some m → m ∈ p.confirms ∨ m ∈ p.commits
  together : p.phase ≠ .gone → q.phase ≠ .gone → p.phase.vow = none → q.phase.vow = none →
    p.place = q.place
  ahead : ∀ m t, p.phase = .committed m t → q.phase ≠ .gone → q.phase.vow = none ∧
    ((m ∉ q.confirms ∧ q.place = p.place) ∨ (m ∈ q.confirms ∧ q.place = t ∧ q.last = some m))

variable {p p' q : Party Ref Loc} {m : Ref} {t : Loc}

private theorem Consistent.unowned {φ : Phase Ref Loc} {place : Loc} {last : Option Ref}
    {confirms : Set Ref} (h : Consistent p q) (hown : φ.own = none)
    (hjoined : ∀ m t, φ = .joined m t → (m, t) ∈ q.offers)
    (hpending : ∀ m, m ∈ p.commits → m ∈ q.confirms ∨ φ = .gone)
    (hconfirmed : ∀ m, m ∈ confirms → m ∈ q.commits)
    (hlast : ∀ m, last = some m → m ∈ confirms ∨ m ∈ p.commits)
    (htogether : φ ≠ .gone → q.phase ≠ .gone → q.phase.vow = none → place = q.place) :
    Consistent { p with place := place, phase := φ, last := last, confirms := confirms } q where
  unique := h.unique
  owned m t hphase := by simp [hown] at hphase
  joined := hjoined
  accepted := h.accepted
  bound m t hphase := by rcases hphase with rfl | rfl <;> simp [Phase.own] at hown
  fresh m t hphase := by simp [hown] at hphase
  exclusive m t m' t' hphase := by simp [hown] at hphase
  committed := h.committed
  single := h.single
  underway m t _ hphase := by simp [hown] at hphase
  pending m hm := Or.inr (hpending m hm)
  confirmed := hconfirmed
  last := hlast
  together hgone hgone' _ hvow' := htogether hgone hgone' hvow'
  ahead m t hphase := by
    rw [show φ = .committed m t from hphase] at hown
    simp [Phase.own] at hown

private theorem Consistent.beside_unowned {φ : Phase Ref Loc} {place : Loc} {last : Option Ref}
    {confirms : Set Ref} (h' : Consistent q p) (hown : φ.own = none)
    (hconfirms : p.confirms ⊆ confirms)
    (htogether : φ ≠ .gone → q.phase ≠ .gone → q.phase.vow = none → place = q.place)
    (hahead : ∀ m t, q.phase = .committed m t → φ ≠ .gone →
      (m ∉ confirms ∧ place = q.place) ∨ (m ∈ confirms ∧ place = t ∧ last = some m)) :
    Consistent q { p with place := place, phase := φ, last := last, confirms := confirms } :=
  { h' with
    exclusive := fun m t m' t' _ _ hphase => by simp [hown] at hphase
    pending := fun m hm => (h'.pending m hm).imp_right (Or.imp_left fun hc => hconfirms hc)
    together := fun hgone hgone' hvow _ => (htogether hgone' hgone hvow).symm
    ahead := fun m t hphase hgone => by
      refine ⟨?_, hahead m t hphase hgone⟩
      cases φ <;> simp_all [Phase.own, Phase.vow] }

private theorem Consistent.heard (h : Consistent p q) (hopen : p.phase ≠ .gone)
    (hvow : p.phase.vow = none) (hm : m ∈ p.commits) : m ∈ q.confirms := by
  rcases h.pending m hm with ⟨t, hcommitted⟩ | hc | hleft
  · simp [hcommitted, Phase.vow] at hvow
  · exact hc
  · exact absurd hleft hopen

private theorem Consistent.disengage {φ : Phase Ref Loc} (h : Consistent p q) (h' : Consistent q p)
    (hown : φ.own = none) (hjoined : ∀ m t, φ = .joined m t → (m, t) ∈ q.offers)
    (hfree : φ ≠ .gone → p.phase ≠ .gone ∧ p.phase.vow = none) :
    Consistent { p with phase := φ } q ∧ Consistent q { p with phase := φ } := by
  have htogether : φ ≠ .gone → q.phase ≠ .gone → q.phase.vow = none → p.place = q.place :=
    fun hgone hgone' hvow' => h.together (hfree hgone).1 hgone' (hfree hgone).2 hvow'
  constructor
  · refine h.unowned hown hjoined (fun m hm => ?_) h.confirmed h.last htogether
    by_cases hgone : φ = .gone
    · exact Or.inr hgone
    · exact Or.inl (h.heard (hfree hgone).1 (hfree hgone).2 hm)
  · exact h'.beside_unowned hown subset_rfl htogether
      fun m t hq hgone => (h'.ahead m t hq (hfree hgone).1).2

private theorem Consistent.propose (h : Consistent p q) (h' : Consistent q p)
    (hidle : p.phase = .idle) (hnew : ∀ t', (m, t') ∉ p.offers) (haccepts : m ∉ p.accepts) :
    Consistent { p with phase := .proposing m t, offers := insert (m, t) p.offers } q ∧
      Consistent q { p with phase := .proposing m t, offers := insert (m, t) p.offers } := by
  have hopen : p.phase ≠ .gone ∧ p.phase.vow = none := by simp [hidle, Phase.vow]
  -- Nobody accepted the new reference, so nothing was ever committed under it.
  have hunheard : m ∉ q.accepts := by
    intro hm
    obtain ⟨t', ht'⟩ := h'.accepted m hm
    exact hnew t' ht'
  have hown : ∀ m' t', (Phase.proposing m t).own = some (m', t') → m' = m ∧ t' = t := by
    intro m' t' hphase
    exact Prod.mk.inj (Option.some.inj hphase.symm)
  constructor
  · exact { h with
      unique := by
        rintro m' t₁ t₂ (h₁ | h₁) (h₂ | h₂)
        · exact (Prod.mk.inj h₁).2.trans (Prod.mk.inj h₂).2.symm
        · exact absurd ((Prod.mk.inj h₁).1 ▸ h₂) (hnew t₂)
        · exact absurd ((Prod.mk.inj h₂).1 ▸ h₁) (hnew t₁)
        · exact h.unique m' t₁ t₂ h₁ h₂
      owned := by
        intro m' t' hphase
        obtain ⟨rfl, rfl⟩ := hown m' t' hphase
        exact Set.mem_insert (m', t') p.offers
      joined := nofun
      bound := by rintro m' t' (hphase | hphase) <;> cases hphase
      fresh := by
        intro m' t' hphase
        rw [(hown m' t' hphase).1]
        exact haccepts
      exclusive := by
        intro m' t' _ _ hphase hm
        rw [(hown m' t' hphase).1] at hm
        exact absurd hm hunheard
      underway := by
        intro m' t' hm hphase
        rw [(hown m' t' hphase).1] at hm
        exact absurd (h.committed m hm) hunheard
      pending := fun m' hm => Or.inr (Or.inl (h.heard hopen.1 hopen.2 hm))
      together := fun _ hgone _ hvow => h.together hopen.1 hgone hopen.2 hvow
      ahead := nofun }
  · exact { h' with
      joined := fun m' t' hphase => Set.mem_insert_of_mem _ (h'.joined m' t' hphase)
      accepted := fun m' hm => (h'.accepted m' hm).imp fun _ => Set.mem_insert_of_mem _
      exclusive := by
        intro _ _ m' t' _ _ hphase
        rw [(hown m' t' hphase).1]
        exact hunheard
      together := fun hgone _ hvow _ => h'.together hgone hopen.1 hvow hopen.2
      ahead := fun m' t' hphase _ => ⟨rfl, (h'.ahead m' t' hphase hopen.1).2⟩ }

private theorem Consistent.assent (h : Consistent p q) (h' : Consistent q p)
    (hphase : p.phase = .joined m t) :
    Consistent { p with accepts := insert m p.accepts } q ∧
      Consistent q { p with accepts := insert m p.accepts } := by
  have hown : ∀ m' t', p.phase.own ≠ some (m', t') := by
    intro m' t'
    rw [hphase]
    nofun
  constructor
  · exact { h with
      accepted := by
        rintro m' (rfl | hm)
        · exact ⟨t, h.joined m' t hphase⟩
        · exact h.accepted m' hm
      fresh := fun m' t' hphase' => absurd hphase' (hown m' t')
      exclusive := fun m' t' _ _ hphase' => absurd hphase' (hown m' t') }
  · exact { h' with
      bound := fun m' t' hphase' => Set.mem_insert_of_mem m (h'.bound m' t' hphase')
      exclusive := fun _ _ m' t' _ _ hphase' => absurd hphase' (hown m' t')
      committed := fun m' hm => Set.mem_insert_of_mem m (h'.committed m' hm) }

private theorem Consistent.uncommitted (h : Consistent p q) (hown : p.phase.own = some (m, t))
    (hvow : p.phase.vow = none) : m ∉ p.commits := by
  intro hm
  rw [h.underway m t hm hown] at hvow
  simp [Phase.vow] at hvow

private theorem Consistent.bind (h : Consistent p q) (h' : Consistent q p)
    (hphase : p.phase = .proposing m t) (hm : m ∈ q.accepts) :
    Consistent { p with phase := .bound m t } q ∧ Consistent q { p with phase := .bound m t } := by
  have hown : p.phase.own = some (m, t) := by rw [hphase]; rfl
  have hopen : p.phase ≠ .gone ∧ p.phase.vow = none := by simp [hphase, Phase.vow]
  constructor
  · exact { h with
      owned := fun m' t' hown' => h.owned m' t' (hown.trans hown')
      joined := nofun
      bound := by
        rintro m' t' (hphase' | hphase')
        · rw [← (Phase.bound.inj hphase').1]
          exact hm
        · cases hphase'
      fresh := fun m' t' hown' => h.fresh m' t' (hown.trans hown')
      exclusive := fun m' t' m'' t'' hown' => h.exclusive m' t' m'' t'' (hown.trans hown')
      underway := by
        intro m' t' hm' hown'
        exact absurd hm' (h.uncommitted (hown.trans hown') hopen.2)
      pending := fun m' hm' => Or.inr (Or.inl (h.heard hopen.1 hopen.2 hm'))
      together := fun _ hgone _ hvow => h.together hopen.1 hgone hopen.2 hvow
      ahead := nofun }
  · exact { h' with
      exclusive := fun m' t' m'' t'' hphase' hm' hown' =>
        h'.exclusive m' t' m'' t'' hphase' hm' (hown.trans hown')
      together := fun hgone _ hvow _ => h'.together hgone hopen.1 hvow hopen.2
      ahead := fun m' t' hphase' _ => ⟨rfl, (h'.ahead m' t' hphase' hopen.1).2⟩ }

private theorem Consistent.free (h : Consistent p q) (h' : Consistent q p)
    (hown : p.phase.own = some (m, t)) (hm : m ∈ q.accepts) : q.phase.vow = none := by
  -- Two bound proposals exclude each other.
  cases hq : q.phase with
  | committed m' t' =>
    have hown' : q.phase.own = some (m', t') := by rw [hq]; rfl
    exact absurd (h'.bound m' t' (Or.inr hq)) (h.exclusive m t m' t' hown hm hown')
  | _ => rfl

private theorem Consistent.commit (h : Consistent p q) (h' : Consistent q p)
    (hphase : p.phase = .bound m t) :
    Consistent { p with phase := .committed m t, commits := insert m p.commits } q ∧
      Consistent q { p with phase := .committed m t, commits := insert m p.commits } := by
  have hown : p.phase.own = some (m, t) := by rw [hphase]; rfl
  have hopen : p.phase ≠ .gone ∧ p.phase.vow = none := by simp [hphase, Phase.vow]
  have hm := h.bound m t (Or.inl hphase)
  have hfree := h.free h' hown hm
  have hunconfirmed : m ∉ q.confirms := fun hc => h.uncommitted hown hopen.2 (h'.confirmed m hc)
  have hsingle : m ∉ q.commits := fun hc => h.fresh m t hown (h'.committed m hc)
  constructor
  · exact { h with
      owned := fun m' t' hown' => h.owned m' t' (hown.trans hown')
      joined := nofun
      bound := by
        rintro m' t' (hphase' | hphase')
        · cases hphase'
        · rw [← (Phase.committed.inj hphase').1]
          exact hm
      fresh := fun m' t' hown' => h.fresh m' t' (hown.trans hown')
      exclusive := fun m' t' m'' t'' hown' => h.exclusive m' t' m'' t'' (hown.trans hown')
      committed := by
        rintro m' (rfl | hm')
        · exact hm
        · exact h.committed m' hm'
      single := by
        rintro m' (rfl | hm')
        · exact hsingle
        · exact h.single m' hm'
      underway := by
        intro m' t' _ hown'
        obtain ⟨rfl, rfl⟩ := Prod.mk.inj (Option.some.inj hown')
        rfl
      pending := by
        rintro m' (rfl | hm')
        · exact Or.inl ⟨t, rfl⟩
        · exact Or.inr (Or.inl (h.heard hopen.1 hopen.2 hm'))
      last := fun m' hlast => (h.last m' hlast).imp_right (Set.mem_insert_of_mem m)
      together := fun _ _ hvow => nomatch hvow
      ahead := by
        intro m' t' hphase' hgone
        obtain ⟨rfl, rfl⟩ := Phase.committed.inj hphase'
        exact ⟨hfree, Or.inl ⟨hunconfirmed, (h.together hopen.1 hgone hopen.2 hfree).symm⟩⟩ }
  · exact { h' with
      exclusive := fun m' t' m'' t'' hphase' hm' hown' =>
        h'.exclusive m' t' m'' t'' hphase' hm' (hown.trans hown')
      single := by
        rintro m' hm' (rfl | hc)
        · exact hsingle hm'
        · exact h'.single m' hm' hc
      confirmed := fun m' hc => Set.mem_insert_of_mem m (h'.confirmed m' hc)
      together := fun _ _ _ hvow => nomatch hvow
      ahead := by
        intro m' t' hphase' _
        simp [hphase', Phase.vow] at hfree }

private theorem Consistent.committed_of_unsettled (h' : Consistent q p) (hgone : q.phase ≠ .gone)
    (hm : m ∈ q.commits) (hnew : m ∉ p.confirms) : ∃ t, q.phase = .committed m t := by
  rcases h'.pending m hm with hcommitted | hc | hleft
  · exact hcommitted
  · exact absurd hc hnew
  · exact absurd hleft hgone

private theorem Consistent.same_place (h : Consistent p q) (h' : Consistent q p) {t' : Loc}
    (hphase : p.phase = .joined m t ∨ p.phase = .bound m t) (hq : q.phase = .committed m t') :
    t = t' := by
  have hown' : q.phase.own = some (m, t') := by rw [hq]; rfl
  rcases hphase with hphase | hphase
  · exact h'.unique m t t' (h.joined m t hphase) (h'.owned m t' hown')
  · have hown : p.phase.own = some (m, t) := by rw [hphase]; rfl
    have hm := h.bound m t (Or.inl hphase)
    exact absurd (h'.bound m t' (Or.inr hq)) (h.exclusive m t m t' hown hm hown')

private theorem Consistent.settle (h : Consistent p q) (h' : Consistent q p)
    (hphase : p.phase = .joined m t ∨ p.phase = .bound m t) (hm : m ∈ q.commits)
    (hnew : m ∉ p.confirms) :
    let p' : Party Ref Loc := { p with
      place := t, phase := .idle, last := some m, confirms := insert m p.confirms }
    Consistent p' q ∧ Consistent q p' := by
  intro p'
  have hopen : p.phase ≠ .gone ∧ p.phase.vow = none := by
    rcases hphase with hp | hp <;> simp [hp, Phase.vow]
  have hcommitted : q.phase ≠ .gone → q.phase = .committed m t := fun hgone => by
    obtain ⟨t', ht'⟩ := h'.committed_of_unsettled hgone hm hnew
    rw [ht', h.same_place h' hphase ht']
  -- Where the other party has not left, it has committed to this very move.
  have htogether : Phase.idle ≠ (.gone : Phase Ref Loc) → q.phase ≠ .gone →
      q.phase.vow = none → t = q.place := by
    intro _ hgone hvow
    simp [hcommitted hgone, Phase.vow] at hvow
  constructor
  · refine h.unowned rfl nofun (fun m' hm' => Or.inl (h.heard hopen.1 hopen.2 hm')) ?_ ?_ htogether
    · rintro m' (rfl | hm')
      · exact hm
      · exact h.confirmed m' hm'
    · rintro m' hlast
      obtain rfl := Option.some.inj hlast
      exact Or.inl (Set.mem_insert m p.confirms)
  · refine h'.beside_unowned rfl (Set.subset_insert m p.confirms) htogether ?_
    intro m' t' hq _
    obtain ⟨rfl, rfl⟩ := Phase.committed.inj (hq.symm.trans (hcommitted (by simp [hq])))
    exact Or.inr ⟨Set.mem_insert m' p.confirms, rfl, rfl⟩

private theorem Consistent.reconfirm (h : Consistent p q) (hlast : p.last = some m)
    (hm : m ∈ q.commits) : { p with confirms := insert m p.confirms } = p := by
  have hmem : m ∈ p.confirms := by
    rcases h.last m hlast with hc | hc
    · exact hc
    · exact absurd hm (h.single m hc)
  rw [Set.insert_eq_of_mem hmem]

private theorem Consistent.conclude (h : Consistent p q) (h' : Consistent q p)
    (hphase : p.phase = .committed m t) (hm : m ∈ q.confirms) :
    Consistent { p with place := t, phase := .idle, last := some m } q ∧
      Consistent q { p with place := t, phase := .idle, last := some m } := by
  have hfollowed : q.phase ≠ .gone → q.phase.vow = none ∧ t = q.place := by
    intro hgone
    obtain ⟨hvow, ⟨hc, -⟩ | ⟨-, hplace, -⟩⟩ := h.ahead m t hphase hgone
    · exact absurd hm hc
    · exact ⟨hvow, hplace.symm⟩
  constructor
  · refine h.unowned rfl nofun (fun m' hm' => ?_) h.confirmed ?_
      (fun _ hgone _ => (hfollowed hgone).2)
    · rcases h.pending m' hm' with ⟨t', ht'⟩ | hc | hleft
      · obtain ⟨rfl, -⟩ := Phase.committed.inj (hphase.symm.trans ht')
        exact Or.inl hm
      · exact Or.inl hc
      · simp [hphase] at hleft
    · rintro m' hlast
      obtain rfl := Option.some.inj hlast
      exact Or.inr (h'.confirmed m hm)
  · refine h'.beside_unowned rfl subset_rfl (fun _ hgone _ => (hfollowed hgone).2) ?_
    intro m' t' hq _
    have hvow := (hfollowed (by simp [hq])).1
    simp [hq, Phase.vow] at hvow

/-- Every move keeps the two parties consistent with each other. -/
theorem Consistent.moves (h : Consistent p q) (h' : Consistent q p) (hmove : q.Moves p p') :
    Consistent p' q ∧ Consistent q p' := by
  cases hmove with
  | propose hidle hnew haccepts => exact h.propose h' hidle hnew haccepts
  | @join m t hopen hvow hoffer =>
    refine h.disengage h' rfl ?_ fun _ => ⟨hopen, hvow⟩
    intro m' t' hphase
    obtain ⟨rfl, rfl⟩ := Phase.joined.inj hphase
    exact hoffer
  | assent hphase => exact h.assent h' hphase
  | bind hphase hm => exact h.bind h' hphase hm
  | commit hphase => exact h.commit h' hphase
  | settle hphase hm hnew => exact h.settle h' hphase hm hnew
  | reconfirm _ hlast hm => rw [h.reconfirm hlast hm]; exact ⟨h, h'⟩
  | conclude hphase hm => exact h.conclude h' hphase hm
  | retreat hopen hvow => exact h.disengage h' rfl nofun fun _ => ⟨hopen, hvow⟩
  | leave => exact h.disengage h' rfl nofun fun hgone => absurd rfl hgone

/-- The move made last was a proposal of the other party, confirmed to it, or an own one that was
committed to, and led to where the party is. -/
def Party.Located (p q : Party Ref Loc) : Prop :=
  ∀ m, p.last = some m → (m ∈ p.confirms ∧ (m, p.place) ∈ q.offers) ∨
    (m ∈ p.commits ∧ (m, p.place) ∈ p.offers)

private theorem Party.Moves.offers (hmove : q.Moves p p') : p.offers ⊆ p'.offers := by
  cases hmove with
  | propose => exact Set.subset_insert _ _
  | _ => exact subset_rfl

theorem Party.Located.beside (h : q.Located p) (hmove : q.Moves p p') : q.Located p' := by
  intro m hlast
  rcases h m hlast with ⟨hc, ho⟩ | hown
  · exact Or.inl ⟨hc, hmove.offers ho⟩
  · exact Or.inr hown

theorem Party.Located.moves (h : p.Located q) (hcons : Consistent p q) (hcons' : Consistent q p)
    (hmove : q.Moves p p') : p'.Located q := by
  cases hmove with
  | propose | commit =>
    intro m hlast
    rcases h m hlast with hother | ⟨hc, ho⟩
    · exact Or.inl hother
    · exact Or.inr ⟨by simp [hc], by simp [ho]⟩
  | reconfirm =>
    intro m hlast
    rcases h m hlast with ⟨hc, ho⟩ | hown
    · exact Or.inl ⟨by simp [hc], ho⟩
    · exact Or.inr hown
  | @settle m t hphase hm =>
    rintro _ ⟨⟩
    refine Or.inl ⟨Set.mem_insert m p.confirms, ?_⟩
    rcases hphase with hphase | hphase
    · exact hcons.joined m t hphase
    · have hown : p.phase.own = some (m, t) := by rw [hphase]; rfl
      exact absurd (hcons'.committed m hm) (hcons.fresh m t hown)
  | @conclude m t hphase hm =>
    rintro _ ⟨⟩
    have hown : p.phase.own = some (m, t) := by rw [hphase]; rfl
    exact Or.inr ⟨hcons'.confirmed m hm, hcons.owned m t hown⟩
  | _ => exact h

/-- A party that has said nothing yet. -/
def Party.start (place : Loc) : Party Ref Loc := ⟨place, .idle, none, ∅, ∅, ∅, ∅⟩

theorem Consistent.start (place : Loc) :
    Consistent (Party.start place : Party Ref Loc) (Party.start place) := by
  constructor <;> simp [Party.start, Phase.own]

/-- As long as nobody left, the parties are at one place, or the one that committed is about to
follow the other. -/
theorem Consistent.agreement (h : Consistent p q) (h' : Consistent q p) (hp : p.phase ≠ .gone)
    (hq : q.phase ≠ .gone) :
    p.place = q.place ∨
      (∃ m t, p.phase = .committed m t ∧ q.phase.vow = none ∧ q.place = t ∧ q.last = some m) ∨
      ∃ m t, q.phase = .committed m t ∧ p.phase.vow = none ∧ p.place = t ∧ p.last = some m := by
  cases hphase : p.phase with
  | committed m t =>
    obtain ⟨hfree, ⟨-, hplace⟩ | ⟨-, hplace, hlast⟩⟩ := h.ahead m t hphase hq
    · exact Or.inl hplace.symm
    · exact Or.inr (Or.inl ⟨m, t, rfl, hfree, hplace, hlast⟩)
  | _ =>
    cases hphase' : q.phase with
    | committed m t =>
      obtain ⟨hfree, ⟨-, hplace⟩ | ⟨-, hplace, hlast⟩⟩ := h'.ahead m t hphase' hp
      · exact Or.inl hplace
      · exact Or.inr (Or.inr ⟨m, t, rfl, by rw [← hphase]; exact hfree, hplace, hlast⟩)
    | _ => exact Or.inl (h.together hp hq (by rw [hphase]; rfl) (by rw [hphase']; rfl))

end JointMove
