import MclLink.Contact.Stage

/-!
# Glare

Two contacts that offered at the same moment hand each other's offer to
`mcl_contact_resolve_offer_collision`. Their comparisons are the two sides of one comparison
in a linear order, so they agree on the surviving offer, or on none, without another message.
-/

namespace MclLink

/-- The offer that is pending was recorded by this machine itself, from `active`; calls since
then left the transaction alone. -/
def MclContactOwnOffer (c : MclContact) (o : MclOffer) : Prop :=
  ∃ c₀ c₁ : MclContact, c₀.state = .active ∧ c₀.recordOffer o = (.ok, c₁) ∧ MclContactStays c₁ c ∧
    c.localRef = c₁.localRef ∧ c.activeTransport = c₁.activeTransport

/-- The same peer offer delivered once for each prior content of the outcome variable: the
statuses and outcomes in order, and the contact after the last call. -/
def MclContact.resolveAll (source : UInt32) (o : MclOffer) :
    List MclContactCollision → MclContact →
      List (MclLinkStatus × Option MclContactCollision) × MclContact
  | [], c => ([], c)
  | prior :: priors, c =>
      let r := c.resolveOfferCollision source o (some prior)
      let rest := MclContact.resolveAll source o priors r.2.1
      ((r.1, r.2.2) :: rest.1, rest.2)

variable {c : MclContact} {o : MclOffer} {source : UInt32}

theorem MclContactOwnOffer.spec (h : MclContactOwnOffer c o) :
    c.state = .offered ∧ c.pendingOffer = o ∧ o.WellFormed ∧ o.transport ≠ c.activeTransport := by
  obtain ⟨c₀, c₁, hactive, hrec, ⟨hstate, hoffer, -⟩, -, hcur⟩ := h
  obtain ⟨rfl, ho, hne⟩ := recordOffer_active hactive hrec
  exact ⟨hstate, hoffer, ho, by rw [hcur]; exact hne⟩

private theorem resolveAll_localWins (hstate : c.state = .offered) (ho : o.WellFormed)
    (hlt : offerKey source o.migrationRef < offerKey c.localRef c.pendingMigrationRef)
    (priors : List MclContactCollision) :
    MclContact.resolveAll source o priors c =
      (priors.map fun _ => (.ok, some .localWins), c) := by
  induction priors with
  | nil => rfl
  | cons prior priors ih =>
    simp only [MclContact.resolveAll, resolveOfferCollision_eq hstate ho]
    rw [if_neg hlt.ne', if_neg hlt.asymm, ih]
    rfl

private theorem resolveAll_peerWins (hstate : c.state = .offered) (ho : o.WellFormed)
    (hcur : o.transport ≠ c.activeTransport)
    (hlt : offerKey c.localRef c.pendingMigrationRef < offerKey source o.migrationRef)
    {priors : List MclContactCollision} (hne : priors ≠ [])
    (honce : c.localRef ≠ source ∨ priors.length = 1) :
    MclContact.resolveAll source o priors c =
      (priors.map fun _ => (.ok, some .peerWins), c.withOffer o) := by
  induction priors generalizing c with
  | nil => exact absurd rfl hne
  | cons prior priors ih =>
    simp only [MclContact.resolveAll, resolveOfferCollision_eq hstate ho]
    rw [if_neg hlt.ne, if_pos hlt, if_neg hcur]
    cases priors with
    | nil => rfl
    | cons next priors =>
      -- A repetition meets the adopted reference, so the local references have to decide.
      have href : c.localRef ≠ source := honce.resolve_right (by simp)
      have hsource : c.localRef < source := by
        rw [offerKey_lt_iff] at hlt
        exact hlt.resolve_right fun h => href h.1
      rw [ih (c := c.withOffer o) rfl hcur ((offerKey_lt_iff ..).mpr (Or.inl hsource))
        (by simp) (Or.inl href)]
      rfl

private theorem resolveAll_tieAbort (hstate : c.state = .offered) (ho : o.WellFormed)
    (htie : offerKey c.localRef c.pendingMigrationRef = offerKey source o.migrationRef)
    (prior : MclContactCollision) :
    MclContact.resolveAll source o [prior] c = ([(.ok, some .tieAbort)], c.retired) := by
  simp only [MclContact.resolveAll, tieAbort_result hstate ho htie]

/-- One side of a resolved glare: every call answered the same, and the offer left pending. -/
structure MclContactGlareEnd (priors : List MclContactCollision)
    (r : List (MclLinkStatus × Option MclContactCollision) × MclContact)
    (outcome : MclContactCollision) (o : MclOffer) : Prop where
  answers : r.1 = priors.map fun _ => (.ok, some outcome)
  offered : r.2.state = .offered
  pending : r.2.pendingOffer = o

private theorem MclContactGlareEnd.of_eq {priors : List MclContactCollision}
    {r : List (MclLinkStatus × Option MclContactCollision) × MclContact}
    {outcome : MclContactCollision} (h : r = (priors.map fun _ => (.ok, some outcome), c))
    (hstate : c.state = .offered) (hpending : c.pendingOffer = o) :
    MclContactGlareEnd priors r outcome o := by
  subst h
  exact ⟨rfl, hstate, hpending⟩

/-- Both sides of a glare reach the same conclusion, each from the other's original offer: the
offer with the greater key survives on both, or equal keys abort both. -/
theorem mclContact_glare_converges {a b : MclContact} {oa ob : MclOffer}
    (ha : MclContactOwnOffer a oa) (hb : MclContactOwnOffer b ob)
    (hcur : a.activeTransport = b.activeTransport)
    {priorsA priorsB : List MclContactCollision} (hneA : priorsA ≠ []) (hneB : priorsB ≠ [])
    (honce : a.localRef ≠ b.localRef ∨ priorsA.length = 1 ∧ priorsB.length = 1) :
    let ra := MclContact.resolveAll b.localRef ob priorsA a
    let rb := MclContact.resolveAll a.localRef oa priorsB b
    (offerKey b.localRef ob.migrationRef < offerKey a.localRef oa.migrationRef ∧
      MclContactGlareEnd priorsA ra .localWins oa ∧ MclContactGlareEnd priorsB rb .peerWins oa) ∨
    (offerKey a.localRef oa.migrationRef < offerKey b.localRef ob.migrationRef ∧
      MclContactGlareEnd priorsA ra .peerWins ob ∧ MclContactGlareEnd priorsB rb .localWins ob) ∨
    (offerKey a.localRef oa.migrationRef = offerKey b.localRef ob.migrationRef ∧
      ra.1 = [(.ok, some .tieAbort)] ∧ rb.1 = [(.ok, some .tieAbort)] ∧
      ra.2.state = .active ∧ ra.2.pendingOffer = ⟨0, 0, 0, 0, 0⟩ ∧
      rb.2.state = .active ∧ rb.2.pendingOffer = ⟨0, 0, 0, 0, 0⟩) := by
  obtain ⟨hsa, hpa, hoa, hta⟩ := ha.spec
  obtain ⟨hsb, hpb, hob, htb⟩ := hb.spec
  have hma : a.pendingMigrationRef = oa.migrationRef := congrArg MclOffer.migrationRef hpa
  have hmb : b.pendingMigrationRef = ob.migrationRef := congrArg MclOffer.migrationRef hpb
  have honceA : a.localRef ≠ b.localRef ∨ priorsA.length = 1 := honce.imp_right And.left
  have honceB : b.localRef ≠ a.localRef ∨ priorsB.length = 1 := honce.imp Ne.symm And.right
  intro ra rb
  rcases lt_trichotomy (offerKey a.localRef oa.migrationRef)
    (offerKey b.localRef ob.migrationRef) with hlt | heq | hlt
  · have hra := resolveAll_peerWins hsa hob (hcur ▸ htb) (hma ▸ hlt) hneA honceA
    have hrb := resolveAll_localWins hsb hoa (hmb ▸ hlt) priorsB
    exact Or.inr (Or.inl ⟨hlt, .of_eq hra rfl rfl, .of_eq hrb hsb hpb⟩)
  · -- Equal keys mean equal local references, so each side was called once.
    have hsame : a.localRef = b.localRef := ((offerKey_inj ..).mp heq).1
    obtain ⟨hlenA, hlenB⟩ := honce.resolve_left (not_not.mpr hsame)
    obtain ⟨priorA, rfl⟩ := List.length_eq_one_iff.mp hlenA
    obtain ⟨priorB, rfl⟩ := List.length_eq_one_iff.mp hlenB
    have hra := resolveAll_tieAbort hsa hob (hma ▸ heq) priorA
    have hrb := resolveAll_tieAbort hsb hoa (hmb ▸ heq.symm) priorB
    refine Or.inr (Or.inr ⟨heq, ?_, ?_, ?_, ?_, ?_, ?_⟩)
    · exact congrArg Prod.fst hra
    · exact congrArg Prod.fst hrb
    · exact congrArg (fun r => r.2.state) hra
    · exact congrArg (fun r => r.2.pendingOffer) hra
    · exact congrArg (fun r => r.2.state) hrb
    · exact congrArg (fun r => r.2.pendingOffer) hrb
  · have hra := resolveAll_localWins hsa hob (hma ▸ hlt) priorsA
    have hrb := resolveAll_peerWins hsb hoa (hcur ▸ hta) (hmb ▸ hlt) hneB honceB
    exact Or.inl ⟨hlt, .of_eq hra hsa hpa, .of_eq hrb rfl rfl⟩

/-- Two offers recorded at once: the larger local reference keeps its own on both sides. -/
theorem mclContact_glare_converges_larger_source :
    let oa : MclOffer := ⟨0x5001, 2, 1, 0xD00D, 30⟩
    let ob : MclOffer := ⟨0x5002, 3, 1, 0xBEEF, 30⟩
    let a := (mclContactBegun mclContactRoleInitiator 0xA0 1).withOffer oa
    let b := (mclContactBegun mclContactRoleResponder 0xB0 1).withOffer ob
    let ra := MclContact.resolveAll b.localRef ob [.localWins, .peerWins] a
    let rb := MclContact.resolveAll a.localRef oa [.tieAbort] b
    ra.2.pendingOffer = ob ∧ rb.2.pendingOffer = ob := by
  intro oa ob a b ra rb
  have ha : MclContactOwnOffer a oa :=
    ⟨mclContactBegun mclContactRoleInitiator 0xA0 1, a, rfl, by decide, ⟨rfl, rfl, rfl, rfl⟩,
      rfl, rfl⟩
  have hb : MclContactOwnOffer b ob :=
    ⟨mclContactBegun mclContactRoleResponder 0xB0 1, b, rfl, by decide, ⟨rfl, rfl, rfl, rfl⟩,
      rfl, rfl⟩
  have hpriorsA : [MclContactCollision.localWins, .peerWins] ≠ [] := by decide
  have hpriorsB : [MclContactCollision.tieAbort] ≠ [] := by decide
  rcases mclContact_glare_converges ha hb rfl hpriorsA hpriorsB (Or.inl (by decide)) with
    ⟨hlt, -⟩ | ⟨-, hra, hrb⟩ | ⟨heq, -⟩
  · exact absurd hlt (by rw [offerKey_lt_iff]; decide)
  · exact ⟨hra.pending, hrb.pending⟩
  · exact absurd heq (by rw [offerKey_inj]; decide)

end MclLink
