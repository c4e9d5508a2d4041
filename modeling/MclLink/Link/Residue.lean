import MclLink.Link.Authority

/-!
# Nothing is left of an earlier context

A context that ended is zeroed, and an installed one has zeros behind its digest. Links that agree
in what can be observed of them therefore agree in every byte.
-/

namespace MclLink

open LabelledRun

/-- The bytes of the context that nothing reads are zero. -/
structure MclLinkT.Canonical (l : MclLinkT) : Prop where
  absent : l.contextValid = false → l.activeContext = mclLinkZeroContext
  size : l.contextValid = true → 1 ≤ l.activeContext.rulesetDigestSize.toNat ∧
    l.activeContext.rulesetDigestSize.toNat ≤ mclLinkRulesetDigestMaxSize
  tail : l.contextValid = true → ∀ i < mclLinkRulesetDigestMaxSize,
    l.activeContext.rulesetDigestSize.toNat ≤ i → l.activeContext.rulesetDigest[i]? = some 0

/-- The key that was installed last, in a session that goes on. -/
abbrev MclLinkInstalledLast (key : MclLinkContextKey) : List MclLinkEvent → Prop :=
  Then (fun _ => True) (fun ev => ev.label = (.installContext (some key), .ok)) MclLinkContinues

variable {l l' l₀ l₀' : MclLinkT} {e : MclLinkCall × MclLinkStatus} {k key : MclLinkContextKey}
  {tr tr' : List MclLinkEvent} {st : MclLinkStatus}

private theorem MclLinkContextKey.Matches.symm (h : key.Matches k) : k.Matches key where
  wireMajor := h.wireMajor.symm
  contextId := h.contextId.symm
  generation := h.generation.symm
  size := h.size.symm
  bounds := h.size ▸ h.bounds
  digest := fun i hi => (h.digest i (h.size ▸ hi)).symm

private theorem MclLinkContextKey.Matches.trans {k' : MclLinkContextKey} (h : key.Matches k)
    (h' : k.Matches k') : key.Matches k' where
  wireMajor := h.wireMajor.trans h'.wireMajor
  contextId := h.contextId.trans h'.contextId
  generation := h.generation.trans h'.generation
  size := h.size.trans h'.size
  bounds := h.bounds
  digest := fun i hi => (h.digest i hi).trans (h'.digest i (h.size ▸ hi))

private theorem MclLinkT.Canonical.eq (h : l.Canonical) (h' : l'.Canonical)
    (hstate : l.state = l'.state) (hmask : l.supportedWireMajorsMask = l'.supportedWireMajorsMask)
    (hvalid : l.contextValid = l'.contextValid)
    (hcontext : l.contextValid = true → l.activeContext.Matches l'.activeContext) : l = l' := by
  have hactive : l.activeContext = l'.activeContext := by
    cases hv : l.contextValid with
    | false => rw [h.absent hv, h'.absent (hvalid.symm.trans hv)]
    | true =>
      have hsame := hcontext hv
      apply MclLinkContextKey.ext hsame.wireMajor hsame.contextId hsame.generation _ hsame.size
      apply Vector.ext
      intro i hi
      have hbyte : l.activeContext.rulesetDigest[i]? = l'.activeContext.rulesetDigest[i]? := by
        by_cases hdigest : i < l.activeContext.rulesetDigestSize.toNat
        · exact hsame.digest i hdigest
        · have hpast := Nat.le_of_not_lt hdigest
          rw [h.tail hv i hi hpast, h'.tail (hvalid ▸ hv) i hi (hsame.size ▸ hpast)]
      rw [Vector.getElem?_eq_getElem hi, Vector.getElem?_eq_getElem hi] at hbyte
      exact Option.some.inj hbyte
  obtain ⟨state, valid, active, mask⟩ := l
  obtain rfl : state = l'.state := hstate
  obtain rfl : mask = l'.supportedWireMajorsMask := hmask
  obtain rfl : valid = l'.contextValid := hvalid
  obtain rfl : active = l'.activeContext := hactive
  rfl

private theorem MclLinkT.Canonical.of_clear (hvalid : l.contextValid = false)
    (hzero : l.activeContext = mclLinkZeroContext) : l.Canonical where
  absent := fun _ => hzero
  size := fun h => absurd (hvalid.symm.trans h) (by decide)
  tail := fun h => absurd (hvalid.symm.trans h) (by decide)

private theorem mclLinkCopyDigest_tail {i : Nat} (hi : i < mclLinkRulesetDigestMaxSize)
    (hpast : key.rulesetDigestSize.toNat ≤ i) : (mclLinkCopyDigest key)[i]? = some 0 := by
  rw [Vector.getElem?_eq_getElem hi]
  simp [mclLinkCopyDigest, hpast]

private theorem mclLinkInstallContext_canonical {key : Option MclLinkContextKey} (hl : l.Canonical)
    (h : mclLinkInstallContext l key = (st, l')) : l'.Canonical := by
  cases key with
  | none =>
    obtain ⟨-, rfl⟩ := Prod.mk.inj h
    exact hl
  | some key =>
    simp only [mclLinkInstallContext] at h
    split_ifs at h with hstate hwire hsize hmask <;> obtain ⟨-, rfl⟩ := Prod.mk.inj h
    · exact hl
    · exact hl
    · exact hl
    · exact hl
    · obtain ⟨hzero, hmax⟩ := not_or.mp hsize
      refine ⟨fun hvalid => by simp at hvalid, fun _ => ⟨?_, Nat.le_of_not_lt hmax⟩, ?_⟩
      · rw [← UInt8.toNat_inj] at hzero
        exact Nat.one_le_iff_ne_zero.mpr hzero
      · exact fun _ i hi hpast => mclLinkCopyDigest_tail hi hpast

private theorem mclLinkTransition_canonical {nextState : UInt8} (hl : l.Canonical)
    (h : mclLinkTransition l nextState = (st, l')) : l'.Canonical := by
  obtain ⟨allowed, clearing, hmove⟩ : ∃ allowed clearing,
      mclLinkTransition l nextState = mclLinkMove l nextState allowed clearing := by
    unfold mclLinkTransition
    split <;> exact ⟨_, _, rfl⟩
  rw [hmove] at h
  rcases mclLinkMove_cases h with ⟨-, rfl⟩ | ⟨next, -, -, ⟨-, rfl⟩ | ⟨-, rfl⟩⟩
  · exact hl
  · exact .of_clear rfl rfl
  · exact ⟨hl.absent, hl.size, hl.tail⟩

private theorem MclLinkStep.canonical (h : MclLinkStep l e l') (hl : l.Canonical) :
    l'.Canonical := by
  obtain ⟨call, st⟩ := e
  cases call with
  | init mask =>
    obtain ⟨-, rfl⟩ := Prod.mk.inj h
    exact .of_clear rfl rfl
  | reset =>
    obtain ⟨-, rfl⟩ := Prod.mk.inj h
    exact .of_clear rfl rfl
  | transition nextState => exact mclLinkTransition_canonical hl h
  | installContext key => exact mclLinkInstallContext_canonical hl h

/-- However a link was used before, an init leaves it canonical, and so does all that follows. -/
theorem mclLinkRun_canonical {first : MclLinkEvent} {mask : UInt16}
    (run : MclLinkRun l₀ (first :: tr) l) (hinit : first.label.1 = .init mask) : l.Canonical := by
  obtain ⟨-, hfirst, hrest⟩ := run.head
  apply hrest.invariant (I := MclLinkT.Canonical)
  · rw [MclLinkStep, hinit] at hfirst
    have hafter : ⟨.idle, false, mclLinkZeroContext, mask⟩ = first.after :=
      congrArg Prod.snd hfirst
    exact .of_clear (hafter ▸ rfl) (hafter ▸ rfl)
  · exact fun hl hstep => hstep.canonical hl

private theorem MclLinkT.Canonical.authorizes (h : l.Canonical) :
    (∀ k, mclLinkAuthorizeContext l (some k) ≠ .ok) ↔ l.contextValid = false := by
  constructor
  · intro hnone
    by_contra hvalid
    have hvalid := Bool.not_eq_false _ ▸ hvalid
    apply hnone l.activeContext
    exact mclLinkAuthorizeContext_iff.mpr
      ⟨hvalid, ⟨rfl, rfl, rfl, rfl, h.size hvalid, fun _ _ => rfl⟩⟩
  · intro hclear k hok
    have hvalid := (mclLinkAuthorizeContext_iff.mp hok).1
    exact absurd (hclear.symm.trans hvalid) (by decide)

private theorem mclLinkRun_installed (run : MclLinkRun l₀ tr l) (h : MclLinkInstalledLast key tr)
    (hmatches : key.Matches k) : l.contextValid = true ∧ l.activeContext.Matches k := by
  apply mclLinkRun_active run
  obtain ⟨past, ev, since, rfl, hpast, hlabel, hsince⟩ := h
  exact ⟨past, ev, since, rfl, hpast, ⟨key, hlabel, hmatches⟩, hsince⟩

private theorem MclLinkInstalledLast.of_replay (l : MclLinkT) (calls : List MclLinkCall)
    (key : MclLinkContextKey)
    (h : (MclLinkCall.exec (calls.foldl (fun l call => (MclLinkCall.exec l call).2) l)
      (.installContext (some key))).1 = .ok) :
    MclLinkInstalledLast key
      (replay MclLinkCall.exec l (calls ++ [.installContext (some key)])) := by
  rw [replay_snoc, h]
  exact Then.now trivial rfl

/-- No residue of an earlier context: links that end in the same state with the same mask are
equal in every byte if neither authorises a context, or if the keys they installed last are
equal in what a key names. -/
theorem mclLink_no_residue {first first' : MclLinkEvent} {mask mask' : UInt16}
    (run : MclLinkRun l₀ (first :: tr) l) (hinit : first.label.1 = .init mask)
    (run' : MclLinkRun l₀' (first' :: tr') l') (hinit' : first'.label.1 = .init mask')
    (hstate : l.state = l'.state)
    (hmask : l.supportedWireMajorsMask = l'.supportedWireMajorsMask)
    (hcontext : ((∀ k, mclLinkAuthorizeContext l (some k) ≠ .ok) ∧
        ∀ k, mclLinkAuthorizeContext l' (some k) ≠ .ok) ∨
      ∃ k k', MclLinkInstalledLast k (first :: tr) ∧ MclLinkInstalledLast k' (first' :: tr') ∧
        mclLinkContextKeyEquals (some k) (some k') = true) : l = l' := by
  have hl := mclLinkRun_canonical run hinit
  have hl' := mclLinkRun_canonical run' hinit'
  rcases hcontext with ⟨hnone, hnone'⟩ | ⟨k, k', hlast, hlast', hequal⟩
  · rw [hl.authorizes] at hnone
    rw [hl'.authorizes] at hnone'
    exact hl.eq hl' hstate hmask (hnone.trans hnone'.symm)
      fun hvalid => absurd (hnone.symm.trans hvalid) (by decide)
  · have hmatches := MclLinkContextKey.matches_iff.mp hequal
    obtain ⟨hvalid, hactive⟩ := mclLinkRun_installed run hlast hmatches
    obtain ⟨hvalid', hactive'⟩ :=
      mclLinkRun_installed run' hlast' (hmatches.symm.trans hmatches)
    exact hl.eq hl' hstate hmask (hvalid.trans hvalid'.symm) fun _ => hactive.trans hactive'.symm

/-- A short digest installed over a long one, and a digest of the same size before other bytes. -/
theorem mclLink_no_residue_shorter :
    let k : MclLinkContextKey := ⟨1, 7, 1, Vector.replicate 32 0xAA, 4⟩
    let k' : MclLinkContextKey := ⟨1, 7, 1, (Vector.replicate 32 0xAA).setIfInBounds 4 0xBB, 4⟩
    let calls : List MclLinkCall := [.transition 1, .transition 2]
    let l := calls.foldl (fun l call => (MclLinkCall.exec l call).2)
      ⟨.idle, false, mclLinkZeroContext, 6⟩
    let long := (MclLinkCall.exec l
      (.installContext (some ⟨2, 8, 1, Vector.replicate 32 0xCC, 32⟩))).2
    (MclLinkCall.exec long (.installContext (some k))).2 =
      (MclLinkCall.exec l (.installContext (some k'))).2 := by
  intro k k' calls l long
  let used : MclLinkT := ⟨.handoff, true, ⟨3, 9, 9, Vector.replicate 32 0xEE, 32⟩, 8⟩
  have run := Run.of_replay MclLinkCall.exec used (.init 6 :: calls ++
    [.installContext (some ⟨2, 8, 1, Vector.replicate 32 0xCC, 32⟩)] ++ [.installContext (some k)])
  have run' := Run.of_replay MclLinkCall.exec used
    (.init 6 :: calls ++ [.installContext (some k')])
  apply mclLink_no_residue run rfl run' rfl (by decide +kernel) (by decide +kernel)
  refine Or.inr ⟨k, k', ?_, ?_, by decide +kernel⟩
  · exact .of_replay used (.init 6 :: calls ++
      [.installContext (some ⟨2, 8, 1, Vector.replicate 32 0xCC, 32⟩)]) k (by decide +kernel)
  · exact .of_replay used (.init 6 :: calls) k' (by decide +kernel)

end MclLink
