import MclLink.Contact.Glare

/-!
# Offers that keep arriving

A contact with an offer of its own is handed offers of its peers, in any order and more than once.
The comparison is made under the local reference, whatever offer is pending. The largest key leads
while that agrees with a comparison under the key of the leading offer.
-/

namespace MclLink

/-- An offer and the machine it came from. -/
structure MclSourcedOffer where
  source : UInt32
  offer : MclOffer
  deriving DecidableEq, Repr

def MclSourcedOffer.key (d : MclSourcedOffer) : ℕ ×ₗ ℕ := offerKey d.source d.offer.migrationRef

/-- One offer arrives; the outcome is written over the last one. -/
def mclContactDeliver (r : MclContact × MclContactCollision) (d : MclSourcedOffer) :
    MclContact × MclContactCollision :=
  let after := r.1.resolveOfferCollision d.source d.offer (some r.2)
  (after.2.1, after.2.2.getD r.2)

/-- The contact after a sequence of offers has arrived. -/
def mclContactDeliverAll (c : MclContact) (out : MclContactCollision)
    (ds : List MclSourcedOffer) : MclContact :=
  (ds.foldl mclContactDeliver (c, out)).1

/-- The offer is on the list under the largest key there is. -/
def MclOfferLeads (ds : List MclSourcedOffer) (o : MclOffer) : Prop :=
  ∃ top ∈ ds, top.offer = o ∧ ∀ d ∈ ds, d.key ≤ top.key

/-- Compared under the local reference the offer does not tie with the one that leads, and it beats
that one only if its key is no smaller, or if it is the same offer again. -/
def MclOfferFair (localRef : UInt32) (past : List MclSourcedOffer) (d : MclSourcedOffer) : Prop :=
  ∃ top ∈ past, (∀ x ∈ past, x.key ≤ top.key) ∧
    offerKey localRef top.offer.migrationRef ≠ d.key ∧
    (offerKey localRef top.offer.migrationRef < d.key → top.key ≤ d.key ∨ d.offer = top.offer)

/-- The offer may win a collision at the contact. -/
def MclOfferContends (c : MclContact) (d : MclSourcedOffer) : Prop :=
  d.offer.WellFormed ∧ d.offer.transport ≠ c.activeTransport

instance (c : MclContact) (d : MclSourcedOffer) : Decidable (MclOfferContends c d) :=
  inferInstanceAs (Decidable ((_ ∧ _ ∧ _) ∧ _))

variable {c : MclContact} {out : MclContactCollision} {own d : MclSourcedOffer}
  {past ds ds' : List MclSourcedOffer} {o o' : MclOffer}

private theorem mclContactDeliver_eq (hstate : c.state = .offered) (hd : MclOfferContends c d) :
    (mclContactDeliver (c, out) d).1 =
      if offerKey c.localRef c.pendingOffer.migrationRef = d.key then c.retired
      else if offerKey c.localRef c.pendingOffer.migrationRef < d.key then c.withOffer d.offer
      else c := by
  have hresolve := @resolveOfferCollision_eq c d.source d.offer out hstate hd.1
  rw [if_neg hd.2] at hresolve
  show (c.resolveOfferCollision d.source d.offer (some out)).2.1 = _
  rw [hresolve, apply_ite Prod.snd, apply_ite Prod.fst, apply_ite Prod.snd, apply_ite Prod.fst]
  rfl

private theorem MclOfferLeads.migrationRef_eq (h : MclOfferLeads ds o) (h' : MclOfferLeads ds o') :
    o.migrationRef = o'.migrationRef := by
  obtain ⟨top, htop, rfl, hmax⟩ := h
  obtain ⟨top', htop', rfl, hmax'⟩ := h'
  have hkey : top.key = top'.key := le_antisymm (hmax' top htop) (hmax top' htop')
  exact ((offerKey_inj ..).mp hkey).2

private theorem MclOfferLeads.snoc {top : MclSourcedOffer} (htop : top ∈ past ++ [d])
    (hmax : ∀ x ∈ past, x.key ≤ top.key) (hd : d.key ≤ top.key) :
    MclOfferLeads (past ++ [d]) top.offer := by
  refine ⟨top, htop, rfl, fun x hx => ?_⟩
  rcases List.mem_append.mp hx with hx | hx
  · exact hmax x hx
  · obtain rfl := List.mem_singleton.mp hx
    exact hd

private theorem MclOfferLeads.fair_iff {localRef : UInt32} (h : MclOfferLeads past o) :
    MclOfferFair localRef past d ↔ offerKey localRef o.migrationRef ≠ d.key ∧
      (offerKey localRef o.migrationRef < d.key → MclOfferLeads (past ++ [d]) d.offer) := by
  constructor
  · rintro ⟨top, htop, hmax, hne, hbeats⟩
    have href := h.migrationRef_eq ⟨top, htop, rfl, hmax⟩
    rw [href]
    refine ⟨hne, fun hlt => ?_⟩
    rcases le_or_gt top.key d.key with hle | hgt
    · exact .snoc (List.mem_append_right _ (List.mem_singleton_self d))
        (fun x hx => (hmax x hx).trans hle) (le_refl _)
    · rw [(hbeats hlt).resolve_left (not_le_of_gt hgt)]
      exact .snoc (List.mem_append_left _ htop) hmax hgt.le
  · rintro ⟨hne, hbeats⟩
    have hleads := h
    obtain ⟨top, htop, rfl, hmax⟩ := h
    by_cases hlt : offerKey localRef top.offer.migrationRef < d.key
    · obtain ⟨new, hnew, hoffer, hall⟩ := hbeats hlt
      rcases List.mem_append.mp hnew with hnew | hnew
      · have hmax' : ∀ x ∈ past, x.key ≤ new.key := fun x hx => hall x (List.mem_append_left _ hx)
        rw [hleads.migrationRef_eq ⟨new, hnew, rfl, hmax'⟩] at hne
        exact ⟨new, hnew, hmax', hne, fun _ => Or.inr hoffer.symm⟩
      · obtain rfl := List.mem_singleton.mp hnew
        exact ⟨top, htop, hmax, hne, fun _ => Or.inl (hall top (List.mem_append_left _ htop))⟩
    · exact ⟨top, htop, hmax, hne, fun h => absurd h hlt⟩

private theorem MclOfferLeads.localKey_le {top : MclSourcedOffer} (hown : own.key ≤ top.key) :
    offerKey own.source top.offer.migrationRef ≤ top.key := by
  rw [← not_lt] at hown ⊢
  intro hlt
  apply hown
  obtain hsource | ⟨-, href⟩ := (offerKey_lt_iff ..).mp hlt
  · exact (offerKey_lt_iff ..).mpr (Or.inl hsource)
  · exact absurd href (UInt32.lt_irrefl _)

private theorem mclContactDeliver_leads (hown : own ∈ past) (hsource : own.source = c.localRef)
    (hstate : c.state = .offered) (hleads : MclOfferLeads past c.pendingOffer)
    (hd : MclOfferContends c d) :
    ((mclContactDeliver (c, out) d).1.state = .offered ∧
        MclOfferLeads (past ++ [d]) (mclContactDeliver (c, out) d).1.pendingOffer) ↔
      MclOfferFair c.localRef past d := by
  rw [hleads.fair_iff, mclContactDeliver_eq hstate hd]
  rcases lt_trichotomy (offerKey c.localRef c.pendingOffer.migrationRef) d.key with
    hlt | heq | hgt
  · rw [if_neg hlt.ne, if_pos hlt]
    constructor
    · rintro ⟨-, hnew⟩
      exact ⟨hlt.ne, fun _ => hnew⟩
    · rintro ⟨-, hnew⟩
      exact ⟨rfl, hnew hlt⟩
  · rw [if_pos heq]
    constructor
    · rintro ⟨hretired, -⟩
      exact absurd hretired (by simp)
    · rintro ⟨hne, -⟩
      exact absurd heq hne
  · rw [if_neg hgt.ne', if_neg hgt.asymm]
    constructor
    · intro _
      exact ⟨hgt.ne', fun hlt => absurd hlt hgt.asymm⟩
    · intro _
      obtain ⟨top, htop, hoffer, hmax⟩ := hleads
      have hle := MclOfferLeads.localKey_le (hmax own hown)
      rw [hsource, hoffer] at hle
      rw [← hoffer]
      exact ⟨hstate, .snoc (List.mem_append_left _ htop) hmax (hgt.le.trans hle)⟩

private theorem mclContactDeliver_frame (hd : MclOfferContends c d) :
    (mclContactDeliver (c, out) d).1.localRef = c.localRef ∧
      (mclContactDeliver (c, out) d).1.activeTransport = c.activeTransport := by
  by_cases hstate : c.state = .offered
  · rw [mclContactDeliver_eq hstate hd]
    split_ifs <;> exact ⟨rfl, rfl⟩
  · obtain ⟨st, -, hsame⟩ := @resolveOfferCollision_refused c d.source d.offer (some out)
      (Or.inr (Or.inr hstate))
    simp only [mclContactDeliver, hsame, and_self]

private theorem mclContactDeliverAll_snoc :
    mclContactDeliverAll c out (ds ++ [d]) =
      (mclContactDeliver (ds.foldl mclContactDeliver (c, out)) d).1 := by
  rw [mclContactDeliverAll, List.foldl_append]
  rfl

private theorem mclContactDeliverAll_frame (hds : ∀ d ∈ ds, MclOfferContends c d) :
    (mclContactDeliverAll c out ds).localRef = c.localRef ∧
      (mclContactDeliverAll c out ds).activeTransport = c.activeTransport := by
  induction ds using List.reverseRecOn with
  | nil => exact ⟨rfl, rfl⟩
  | append_singleton ds d ih =>
    obtain ⟨hlocal, hcur⟩ := ih fun x hx => hds x (List.mem_append_left _ hx)
    have hd := hds d (by simp)
    have hstep := @mclContactDeliver_frame (mclContactDeliverAll c out ds)
      (ds.foldl mclContactDeliver (c, out)).2 d ⟨hd.1, hcur ▸ hd.2⟩
    rw [mclContactDeliverAll_snoc]
    exact ⟨hstep.1.trans hlocal, hstep.2.trans hcur⟩

/-- The contact is still offered, and what is pending leads among the offers so far. -/
def MclContactFollows (own : MclSourcedOffer) (past : List MclSourcedOffer) (c : MclContact) :
    Prop :=
  c.state = .offered ∧ MclOfferLeads (own :: past) c.pendingOffer

private theorem mclContactDeliverAll_follows (out : MclContactCollision)
    (hsource : own.source = c.localRef)
    (hstart : MclContactFollows own [] c) (hds : ∀ d ∈ ds, MclOfferContends c d) :
    (∀ past, past <+: ds → MclContactFollows own past (mclContactDeliverAll c out past)) ↔
      ∀ past d, past ++ [d] <+: ds → MclOfferFair c.localRef (own :: past) d := by
  induction ds using List.reverseRecOn with
  | nil =>
    constructor
    · intro _ past d hpast
      simp at hpast
    · intro _ past hpast
      obtain rfl := List.prefix_nil.mp hpast
      exact hstart
  | append_singleton ds d ih =>
    have hfront : ∀ x ∈ ds, MclOfferContends c x := fun x hx => hds x (List.mem_append_left _ hx)
    have ih := ih hfront
    obtain ⟨hlocal, hcur⟩ := @mclContactDeliverAll_frame c out ds hfront
    have hstep : MclContactFollows own ds (mclContactDeliverAll c out ds) →
        (MclContactFollows own (ds ++ [d]) (mclContactDeliverAll c out (ds ++ [d])) ↔
          MclOfferFair c.localRef (own :: ds) d) := by
      rintro ⟨hstate, hleads⟩
      rw [mclContactDeliverAll_snoc, ← hlocal]
      have hd := hds d (by simp)
      exact mclContactDeliver_leads (List.mem_cons_self ..) (hsource.trans hlocal.symm) hstate
        hleads ⟨hd.1, hcur ▸ hd.2⟩
    constructor
    · intro hall past x hpast
      have hbefore := fun past hpast =>
        hall past (List.IsPrefix.trans hpast (List.prefix_append _ _))
      rcases List.prefix_concat_iff.mp hpast with heq | hpast
      · obtain ⟨rfl, hx⟩ := List.append_inj' heq rfl
        obtain rfl := List.singleton_inj.mp hx
        exact (hstep (hbefore past List.prefix_rfl)).mp (hall _ List.prefix_rfl)
      · exact ih.mp hbefore past x hpast
    · intro hall past hpast
      have hbefore := ih.mpr fun past x hpast => hall past x (hpast.trans (List.prefix_append _ _))
      rcases List.prefix_concat_iff.mp hpast with rfl | hpast
      · exact (hstep (hbefore ds List.prefix_rfl)).mpr (hall ds d List.prefix_rfl)
      · exact hbefore past hpast

private theorem MclOfferLeads.unique (h : MclOfferLeads ds o) (h' : MclOfferLeads ds' o')
    (hsame : ∀ d, d ∈ ds ↔ d ∈ ds')
    (hkeys : ∀ x ∈ ds, ∀ y ∈ ds, x.key = y.key → x.offer = y.offer) : o = o' := by
  obtain ⟨top, htop, rfl, hmax⟩ := h
  obtain ⟨top', htop', rfl, hmax'⟩ := h'
  have hmem := (hsame top').mpr htop'
  exact hkeys top htop top' hmem
    (le_antisymm (hmax' top ((hsame top).mp htop)) (hmax top' hmem))

/-- A contact that offered on its own keeps the offer with the largest key pending, all along a
sequence of peer offers, exactly if each of them is fair when it arrives. Sequences of fair offers
with the same members then leave the same offer, in whatever order and however often they come. -/
theorem mclContact_largest_offer_leads (hown : MclContactOwnOffer c o)
    (hds : ∀ d ∈ ds, MclOfferContends c d) :
    let own : MclSourcedOffer := ⟨c.localRef, o⟩
    let fair := fun ds : List MclSourcedOffer =>
      ∀ past d, past ++ [d] <+: ds → MclOfferFair c.localRef (own :: past) d
    ((∀ past, past <+: ds → (mclContactDeliverAll c out past).state = .offered ∧
        MclOfferLeads (own :: past) (mclContactDeliverAll c out past).pendingOffer) ↔ fair ds) ∧
      ∀ ds', (∀ d, d ∈ ds ↔ d ∈ ds') → fair ds → fair ds' →
        (∀ x ∈ own :: ds, ∀ y ∈ own :: ds, x.key = y.key → x.offer = y.offer) →
          (mclContactDeliverAll c out ds).pendingOffer =
            (mclContactDeliverAll c out ds').pendingOffer := by
  intro own fair
  obtain ⟨hstate, hpending, -, -⟩ := hown.spec
  have hstart : MclContactFollows own [] c := by
    refine ⟨hstate, own, by simp, hpending.symm, fun d hd => ?_⟩
    obtain rfl := List.mem_singleton.mp hd
    exact le_refl _
  refine ⟨mclContactDeliverAll_follows out rfl hstart hds, fun ds' hsame hfair hfair' hkeys => ?_⟩
  have hds' : ∀ d ∈ ds', MclOfferContends c d := fun d hd => hds d ((hsame d).mpr hd)
  have hleads := (mclContactDeliverAll_follows out rfl hstart hds).mpr hfair ds List.prefix_rfl
  have hleads' := (mclContactDeliverAll_follows out rfl hstart hds').mpr hfair' ds' List.prefix_rfl
  apply hleads.2.unique hleads'.2 _ hkeys
  intro d
  simp only [List.mem_cons, hsame]

/-- A smaller offer arrives, and then a larger one: that is left. -/
theorem mclContact_largest_offer_leads_rising :
    let o : MclOffer := ⟨0x5001, 2, 1, 0xD00D, 30⟩
    let c := (mclContactBegun mclContactRoleInitiator 0xA0 1).withOffer o
    let small : MclSourcedOffer := ⟨0x90, ⟨0x5009, 2, 1, 0xBEEF, 30⟩⟩
    let large : MclSourcedOffer := ⟨0xB0, ⟨0x5003, 3, 1, 0xBEEF, 30⟩⟩
    MclOfferLeads [⟨c.localRef, o⟩, small, large]
      (mclContactDeliverAll c .localWins [small, large]).pendingOffer := by
  intro o c small large
  have hown : MclContactOwnOffer c o :=
    ⟨mclContactBegun mclContactRoleInitiator 0xA0 1, c, rfl, by decide, ⟨rfl, rfl, rfl, rfl⟩,
      rfl, rfl⟩
  have hds : ∀ d ∈ [small, large], MclOfferContends c d := by decide
  have hfair : ∀ past d, past ++ [d] <+: [small] ++ [large] →
      MclOfferFair c.localRef (⟨c.localRef, o⟩ :: past) d := by
    intro past d hpast
    unfold MclOfferFair
    rcases List.prefix_concat_iff.mp hpast with heq | hpast
    · obtain ⟨rfl, hd⟩ := List.append_inj' heq rfl
      obtain rfl := List.singleton_inj.mp hd
      decide
    · rw [← List.nil_append [small]] at hpast
      rcases List.prefix_concat_iff.mp hpast with heq | hnil
      · obtain ⟨rfl, hd⟩ := List.append_inj' heq rfl
        obtain rfl := List.singleton_inj.mp hd
        decide
      · simp at hnil
  have hleads := (@mclContact_largest_offer_leads c .localWins _ o hown hds).1.mpr hfair
  exact (hleads [small, large] List.prefix_rfl).2

/-- An offer replaces a larger one from the same peer, and the order of arrival decides. -/
theorem mclContact_largest_offer_loses :
    let o : MclOffer := ⟨0x5001, 2, 1, 0xD00D, 30⟩
    let c := (mclContactBegun mclContactRoleInitiator 0xA0 1).withOffer o
    let first : MclSourcedOffer := ⟨0xB0, ⟨0x5009, 2, 1, 0xBEEF, 30⟩⟩
    let second : MclSourcedOffer := ⟨0xB0, ⟨0x5005, 3, 1, 0xBEEF, 30⟩⟩
    MclContactOwnOffer c o ∧
      (∀ d ∈ [first, second], MclOfferContends c d ∧ d.key ≠ offerKey c.localRef o.migrationRef) ∧
      (mclContactDeliverAll c .localWins [first, second]).pendingOffer = second.offer ∧
      ¬ MclOfferLeads [⟨c.localRef, o⟩, first, second] second.offer ∧
      (mclContactDeliverAll c .localWins [second, first]).pendingOffer = first.offer := by
  intro o c first second
  refine ⟨⟨mclContactBegun mclContactRoleInitiator 0xA0 1, c, rfl, by decide, ⟨rfl, rfl, rfl, rfl⟩,
    rfl, rfl⟩, by decide, by decide, ?_, by decide⟩
  unfold MclOfferLeads
  decide

end MclLink
