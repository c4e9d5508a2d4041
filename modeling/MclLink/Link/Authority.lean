import MclLink.Lib.Run
import MclLink.Link.Context

/-!
# A context authorises what was installed last

The history of a link decides whether a key is authorised: the key must match the last one that
was installed, and nothing since may have ended the session it was installed in.
-/

namespace MclLink

open LabelledRun

/-- The functions that change a link, with their arguments. -/
inductive MclLinkCall where
  | init (supportedWireMajorsMask : UInt16)
  | reset
  | transition (nextState : UInt8)
  | installContext (key : Option MclLinkContextKey)
  deriving DecidableEq, Repr

def MclLinkCall.exec (link : MclLinkT) : MclLinkCall → MclLinkStatus × MclLinkT
  | .init mask => mclLinkInit link mask
  | .reset => mclLinkReset link
  | .transition nextState => mclLinkTransition link nextState
  | .installContext key => mclLinkInstallContext link key

/-- One call, answered with a status. -/
def MclLinkStep (l : MclLinkT) (e : MclLinkCall × MclLinkStatus) (l' : MclLinkT) : Prop :=
  e.1.exec l = (e.2, l')

abbrev MclLinkEvent := Event MclLinkT (MclLinkCall × MclLinkStatus)

abbrev MclLinkRun := Run MclLinkStep

/-- The states in which a context may be installed. -/
def MclLinkState.inSession : MclLinkState → Bool
  | .idle | .discovered | .closed => false
  | .capabilities | .negotiating | .established | .adapting | .handoff | .fallback => true

/-- Two keys name the same context; bytes past the digest size do not count. -/
structure MclLinkContextKey.Matches (key k : MclLinkContextKey) : Prop where
  wireMajor : key.wireMajor = k.wireMajor
  contextId : key.contextId = k.contextId
  generation : key.generation = k.generation
  size : key.rulesetDigestSize = k.rulesetDigestSize
  bounds : 1 ≤ key.rulesetDigestSize.toNat ∧ key.rulesetDigestSize.toNat ≤ 32
  digest : ∀ i < key.rulesetDigestSize.toNat, key.rulesetDigest[i]? = k.rulesetDigest[i]?

/-- A successful install of a key that matches. -/
def MclLinkInstalls (k : MclLinkContextKey) (ev : MclLinkEvent) : Prop :=
  ∃ key, ev.label = (.installContext (some key), .ok) ∧ key.Matches k

/-- No successful install, no init, no reset, and the session goes on. -/
def MclLinkContinues (ev : MclLinkEvent) : Prop :=
  (∀ key, ev.label ≠ (.installContext key, .ok)) ∧ (∀ mask, ev.label.1 ≠ .init mask) ∧
    ev.label.1 ≠ .reset ∧ ev.after.state ≠ .idle ∧ ev.after.state ≠ .discovered ∧
    ev.after.state ≠ .closed

variable {l l' l₀ : MclLinkT} {e : MclLinkCall × MclLinkStatus} {k key : MclLinkContextKey}
  {tr : List MclLinkEvent} {st : MclLinkStatus}

theorem MclLinkContextKey.matches_iff :
    mclLinkContextKeyEquals (some key) (some k) = true ↔ key.Matches k := by
  have hzero : ∀ n : UInt8, n ≠ 0 ↔ 1 ≤ n.toNat := by
    intro n
    rw [Ne, ← UInt8.toNat_inj]
    exact Nat.one_le_iff_ne_zero.symm
  simp only [mclLinkContextKeyEquals]
  constructor
  · intro h
    split_ifs at h with hbounds hfields
    simp only [not_or, not_not, not_lt, hzero] at hbounds hfields
    obtain ⟨hwire, hid, hgeneration, hsize⟩ := hfields
    refine ⟨hwire, hid, hgeneration, hsize, ⟨hbounds.1, hbounds.2.1⟩, fun i hi => ?_⟩
    exact eq_of_beq (List.all_eq_true.mp h i (List.mem_range.mpr hi))
  · intro h
    obtain ⟨hlow, hhigh⟩ := h.bounds
    rw [if_neg, if_neg]
    · exact List.all_eq_true.mpr fun i hi => beq_iff_eq.mpr (h.digest i (List.mem_range.mp hi))
    · simp [h.wireMajor, h.contextId, h.generation, h.size]
    · rw [← h.size]
      simp only [not_or, not_lt, hzero]
      exact ⟨hlow, hhigh, hlow, hhigh⟩

private theorem MclLinkContextKey.matches_stored :
    ({ key with rulesetDigest := mclLinkCopyDigest key } : MclLinkContextKey).Matches k ↔
      key.Matches k := by
  have hcopy : ∀ i < key.rulesetDigestSize.toNat, key.rulesetDigestSize.toNat ≤ 32 →
      (mclLinkCopyDigest key)[i]? = key.rulesetDigest[i]? := by
    intro i hi hsize
    have hlt : i < mclLinkRulesetDigestMaxSize := lt_of_lt_of_le hi hsize
    rw [Vector.getElem?_eq_getElem hlt, Vector.getElem?_eq_getElem hlt]
    simp [mclLinkCopyDigest, hi]
  constructor
  · intro h
    refine ⟨h.wireMajor, h.contextId, h.generation, h.size, h.bounds, fun i hi => ?_⟩
    rw [← hcopy i hi h.bounds.2]
    exact h.digest i hi
  · intro h
    refine ⟨h.wireMajor, h.contextId, h.generation, h.size, h.bounds, fun i hi => ?_⟩
    exact (hcopy i hi h.bounds.2).trans (h.digest i hi)

theorem mclLinkAuthorizeContext_iff : mclLinkAuthorizeContext l (some k) = .ok ↔
    l.contextValid = true ∧ l.activeContext.Matches k := by
  rw [← MclLinkContextKey.matches_iff]
  simp only [mclLinkAuthorizeContext]
  split_ifs with hvalid hequal <;> simp_all

theorem mclLinkMove_cases {nextState : UInt8} {allowed clearing : List MclLinkState}
    (h : mclLinkMove l nextState allowed clearing = (st, l')) :
    (st = .errInvalidState ∧ l' = l) ∨ ∃ next ∈ allowed, st = .ok ∧
      ((next ∈ clearing ∧ l' = mclLinkClearContext { l with state := next }) ∨
        (next ∉ clearing ∧ l' = { l with state := next })) := by
  unfold mclLinkMove at h
  split at h
  · obtain ⟨rfl, rfl⟩ := Prod.mk.inj h
    exact Or.inl ⟨rfl, rfl⟩
  · rename_i next _
    split_ifs at h with hallowed hclearing
    · obtain ⟨rfl, rfl⟩ := Prod.mk.inj h
      exact Or.inr ⟨next, hallowed, rfl, Or.inl ⟨hclearing, rfl⟩⟩
    · obtain ⟨rfl, rfl⟩ := Prod.mk.inj h
      exact Or.inr ⟨next, hallowed, rfl, Or.inr ⟨hclearing, rfl⟩⟩
    · obtain ⟨rfl, rfl⟩ := Prod.mk.inj h
      exact Or.inl ⟨rfl, rfl⟩

private theorem MclLinkState.inSession_iff {s : MclLinkState} :
    s.inSession = true ↔ s ≠ .idle ∧ s ≠ .discovered ∧ s ≠ .closed := by
  cases s <;> simp [inSession]

/-- What one call does to the context of the link. -/
inductive MclLinkEffect (l : MclLinkT) : MclLinkCall × MclLinkStatus → MclLinkT → Prop where
  | installs (key : MclLinkContextKey) (session : l.state.inSession = true)
      (supported : Bits.Has l.supportedWireMajorsMask key.wireMajor.toNat) :
      MclLinkEffect l (.installContext (some key), .ok) { l with
        activeContext := { key with rulesetDigest := mclLinkCopyDigest key }
        contextValid := true }
  | ends {e : MclLinkCall × MclLinkStatus} {l' : MclLinkT}
      (quiet : ∀ key, e ≠ (.installContext key, .ok)) (clear : l'.contextValid = false)
      (outside : l'.state.inSession = false) : MclLinkEffect l e l'
  | stays {e : MclLinkCall × MclLinkStatus} {next : MclLinkState}
      (quiet : (∀ key, e ≠ (.installContext key, .ok)) ∧ (∀ mask, e.1 ≠ .init mask) ∧
        e.1 ≠ .reset)
      (move : next.inSession = true ∨ l.state.inSession = false ∨ next = l.state) :
      MclLinkEffect l e { l with state := next }

private theorem mclLinkTransition_effect {nextState : UInt8}
    (h : mclLinkTransition l nextState = (st, l')) :
    MclLinkEffect l (.transition nextState, st) l' := by
  obtain ⟨allowed, clearing, hmove, hout, hin⟩ : ∃ allowed clearing,
      mclLinkTransition l nextState = mclLinkMove l nextState allowed clearing ∧
        (∀ next ∈ clearing, next.inSession = false) ∧
        ∀ next ∈ allowed, next ∉ clearing →
          next.inSession = true ∨ l.state.inSession = false := by
    unfold mclLinkTransition
    split <;> exact ⟨_, _, rfl, by simp_all [MclLinkState.inSession]⟩
  rw [hmove] at h
  rcases mclLinkMove_cases h with
    ⟨rfl, rfl⟩ | ⟨next, hallowed, rfl, ⟨hclearing, rfl⟩ | ⟨hclearing, rfl⟩⟩
  · exact .stays (by simp) (Or.inr (Or.inr rfl))
  · exact .ends (by simp) rfl (hout next hclearing)
  · refine .stays (by simp) ?_
    rcases hin next hallowed hclearing with hnext | hbefore
    · exact Or.inl hnext
    · exact Or.inr (Or.inl hbefore)

private theorem mclLinkInstallContext_effect {key : Option MclLinkContextKey}
    (h : mclLinkInstallContext l key = (st, l')) :
    MclLinkEffect l (.installContext key, st) l' := by
  have hrefused : ∀ st, st ≠ .ok → MclLinkEffect l (.installContext key, st) l := by
    intro st hst
    exact .stays (by simp [hst]) (Or.inr (Or.inr rfl))
  cases key with
  | none =>
    obtain ⟨rfl, rfl⟩ := Prod.mk.inj h
    exact hrefused _ (by decide)
  | some key =>
    simp only [mclLinkInstallContext] at h
    split_ifs at h with hstate hwire hsize hmask <;> obtain ⟨rfl, rfl⟩ := Prod.mk.inj h
    · exact hrefused _ (by decide)
    · exact hrefused _ (by decide)
    · exact hrefused _ (by decide)
    · exact hrefused _ (by decide)
    · have hnibble : key.wireMajor.toUInt32.toNat < 16 := by
        have hbound : ¬ 15 < key.wireMajor.toNat := hwire
        rw [UInt8.toNat_toUInt32]
        omega
      have hsupported := (Bits.and_bit_ne_zero hnibble).mp hmask
      rw [UInt8.toNat_toUInt32] at hsupported
      exact .installs key (by simpa [MclLinkState.inSession_iff] using hstate) hsupported

theorem MclLinkStep.effect (h : MclLinkStep l e l') : MclLinkEffect l e l' := by
  obtain ⟨call, st⟩ := e
  cases call with
  | init mask =>
    obtain ⟨rfl, rfl⟩ := Prod.mk.inj h
    exact .ends (by simp) rfl rfl
  | reset =>
    obtain ⟨rfl, rfl⟩ := Prod.mk.inj h
    exact .ends (by simp) rfl rfl
  | transition nextState => exact mclLinkTransition_effect h
  | installContext key => exact mclLinkInstallContext_effect h

/-- A link with a context is in a session, on a major it supports. -/
def MclLinkSession (l : MclLinkT) : Prop :=
  l.contextValid = true →
    l.state.inSession = true ∧
      Bits.Has l.supportedWireMajorsMask l.activeContext.wireMajor.toNat

private theorem MclLinkStep.session (h : MclLinkStep l e l') (hl : MclLinkSession l) :
    MclLinkSession l' := by
  cases h.effect with
  | installs key session supported => exact fun _ => ⟨session, supported⟩
  | ends quiet clear outside => exact fun hvalid => absurd (clear.symm.trans hvalid) (by decide)
  | stays quiet move =>
    intro hvalid
    obtain ⟨hsession, hsupported⟩ := hl hvalid
    refine ⟨?_, hsupported⟩
    rcases move with hmove | hmove | rfl
    · exact hmove
    · exact absurd (hsession.symm.trans hmove) (by decide)
    · exact hsession

theorem mclLinkInit_clears {mask : UInt16} (hinit : e.1 = .init mask) (h : MclLinkStep l e l') :
    l'.contextValid = false := by
  rw [MclLinkStep, hinit] at h
  exact congrArg (fun r => r.2.contextValid) h.symm

/-- The context was installed, and the session it was installed in still goes on. -/
abbrev MclLinkHolds (k : MclLinkContextKey) : List MclLinkEvent → Prop :=
  Then (fun _ => True) (MclLinkInstalls k) MclLinkContinues

theorem mclLinkRun_holds (run : MclLinkRun l₀ tr l) (hclear : l₀.contextValid = false) :
    MclLinkSession l ∧
      (l.contextValid = true → l.activeContext.Matches k → MclLinkHolds k tr) := by
  apply run.history (H := fun tr l => MclLinkSession l ∧
    (l.contextValid = true → l.activeContext.Matches k → MclLinkHolds k tr)) along_true
  · constructor <;> exact fun hvalid => absurd (hclear.symm.trans hvalid) (by decide)
  · intro tr l e l' ⟨hl, ih⟩ hstep _
    have hl' := hstep.session hl
    refine ⟨hl', fun hvalid hactive => ?_⟩
    cases hstep.effect with
    | installs key session supported =>
      exact Then.now trivial ⟨key, rfl, MclLinkContextKey.matches_stored.mp hactive⟩
    | ends quiet clear outside => exact absurd (clear.symm.trans hvalid) (by decide)
    | stays quiet move =>
      obtain ⟨hinstall, hinit, hreset⟩ := quiet
      have hsession := MclLinkState.inSession_iff.mp (hl' hvalid).1
      exact (ih hvalid hactive).wait ⟨hinstall, hinit, hreset, hsession⟩

theorem mclLinkRun_active (run : MclLinkRun l₀ tr l) (h : MclLinkHolds k tr) :
    l.contextValid = true ∧ l.activeContext.Matches k := by
  apply h.holds (I := fun l => l.contextValid = true ∧ l.activeContext.Matches k) run
  · intro past l e l' _ _ ⟨key, hlabel, hmatches⟩ hstep
    cases hstep.effect with
    | installs key' session supported =>
      obtain rfl : key' = key := by simpa using hlabel
      exact ⟨rfl, MclLinkContextKey.matches_stored.mpr hmatches⟩
    | ends quiet clear outside => exact absurd hlabel (quiet _)
    | stays quiet move => exact absurd hlabel (quiet.1 _)
  · intro l e l' hl hstep ⟨hinstall, _, _, hstate⟩
    cases hstep.effect with
    | installs key session supported => exact absurd rfl (hinstall _)
    | ends quiet clear outside =>
      exact absurd (outside.symm.trans (MclLinkState.inSession_iff.mpr hstate)) (by decide)
    | stays quiet move => exact hl

/-- A key is authorised exactly when the last context installed in the current session matches
it. The link then is in a session and supports the wire major of the key. -/
theorem mclLinkAuthorizeContext_installed {first : MclLinkEvent} {mask : UInt16}
    (run : MclLinkRun l₀ (first :: tr) l) (hinit : first.label.1 = .init mask)
    (k : MclLinkContextKey) :
    (mclLinkAuthorizeContext l (some k) = .ok ↔
        Then (fun _ => True) (MclLinkInstalls k) MclLinkContinues (first :: tr)) ∧
      (mclLinkAuthorizeContext l (some k) = .ok →
        (l.state = .capabilities ∨ l.state = .negotiating ∨ l.state = .established ∨
            l.state = .adapting ∨ l.state = .handoff ∨ l.state = .fallback) ∧
          Bits.Has l.supportedWireMajorsMask k.wireMajor.toNat) := by
  obtain ⟨-, hfirst, hrest⟩ := run.head
  obtain ⟨hsession, hholds⟩ := mclLinkRun_holds (k := k) hrest (mclLinkInit_clears hinit hfirst)
  rw [mclLinkAuthorizeContext_iff]
  refine ⟨⟨?_, mclLinkRun_active run⟩, ?_⟩
  · rintro ⟨hvalid, hactive⟩
    obtain ⟨past, ev, since, rfl, -, hev, hsince⟩ := hholds hvalid hactive
    exact ⟨first :: past, ev, since, rfl, trivial, hev, hsince⟩
  · rintro ⟨hvalid, hactive⟩
    obtain ⟨hstate, hsupported⟩ := hsession hvalid
    rw [hactive.wireMajor] at hsupported
    refine ⟨?_, hsupported⟩
    cases hl : l.state <;> simp_all [MclLinkState.inSession]

/-- A link that loses its first context to a reset authorises the second one it installs. -/
theorem mclLinkAuthorizeContext_installed_second :
    let link : MclLinkT := ⟨.closed, true, mclLinkZeroContext, 0⟩
    let calls : List MclLinkCall := [.transition 1, .transition 2,
      .installContext (some ⟨1, 7, 1, Vector.replicate 32 0xAA, 1⟩), .reset, .transition 1,
      .transition 2, .installContext (some ⟨2, 8, 1, Vector.replicate 32 0xBB, 4⟩), .transition 3]
    let k : MclLinkContextKey := ⟨2, 8, 1, (Vector.replicate 32 0xBB).set 4 0, 4⟩
    Then (fun _ => True) (MclLinkInstalls k) MclLinkContinues
        (replay MclLinkCall.exec link (.init 6 :: calls)) ∧
      Bits.Has 6 2 := by
  intro link calls k
  have run := Run.of_replay MclLinkCall.exec link (.init 6 :: calls)
  have hlaw := mclLinkAuthorizeContext_installed run rfl k
  have hok : mclLinkAuthorizeContext
      ((.init 6 :: calls).foldl (fun l call => (MclLinkCall.exec l call).2) link) (some k) =
        .ok := by
    decide +kernel
  have hmask : ((.init 6 :: calls).foldl (fun l call => (MclLinkCall.exec l call).2)
      link).supportedWireMajorsMask = 6 := by
    decide +kernel
  have hsupported := (hlaw.2 hok).2
  rw [hmask] at hsupported
  exact ⟨hlaw.1.mp hok, hsupported⟩

end MclLink
