import MclLink.Registry.Grammar

/-!
# What the validator accepts

The rules of the transport registry, and that the validator passes exactly the files whose texts
write assignments that keep them.
-/

namespace MclLink

open Text

/-- What a stable assignment costs. -/
structure RegistryStatus (a : TransportAssignment) : Prop where
  known : a.status = bytes "stable" ∨ a.status = bytes "provisional"
  agrees : a.status = bytes "stable" ↔ a.specificationStatus = bytes "Stable"
  cites : a.status = bytes "stable" → a.normativeSpecification ≠ []

def TransportAssignment.Apart (a b : TransportAssignment) : Prop :=
  a.id ≠ b.id ∧ a.name ≠ b.name ∧ a.ownerRepo ≠ b.ownerRepo

/-- The rules of the registry. -/
structure RegistryRules (l : List TransportAssignment) : Prop where
  room : l.length ≤ registryMaxAssignments
  ids : ∀ a ∈ l, 1 ≤ a.id ∧ a.id ≤ 0x7F
  status : ∀ a ∈ l, RegistryStatus a
  apart : l.Pairwise TransportAssignment.Apart
  ap : ∃ a ∈ l, a.binds 1 "MCL_AP" "mcl-ap" = true
  ip : ∃ a ∈ l, a.binds 2 "MCL_IP" "mcl-ip" = true
  ble : ∃ a ∈ l, a.binds 3 "MCL_BLE" "mcl-ble" = true
  uwb : ∃ a ∈ l, a.binds 4 "MCL_UWB" "mcl-uwb" = true

/-- The text that says that identifiers are eight bits wide. -/
def RegistryWidth (buf : List UInt8) : Prop :=
  ∃ w d rest, FirstAt 0 registryWidthKey buf (registryWidthKey ++ (w ++ (d ++ rest))) ∧
    RegistrySpace w ∧ RegistryNumber 8 d ∧ ∀ b ∈ rest.head?, isDigit b = false

/-- The text writes these assignments: behind the first bracket that follows the key. -/
def RegistryText (l : List TransportAssignment) (buf : List UInt8) : Prop :=
  RegistryWidth buf ∧ ∃ p q, FirstAt 0 registryAssignmentsKey buf p ∧
    FirstAt 0 [registryOpenBracket] p (registryOpenBracket :: q) ∧ RegistryItems l q

variable {p q : List UInt8} {n : ℕ} {a : TransportAssignment} {l : List TransportAssignment}

section Rules

variable {α β : Type} {x : Except RegistryFailure α} {f : α → Except RegistryFailure β} {y : β}
  {has : RegistryBindings}

private theorem bind_eq_ok : (x >>= f) = .ok y ↔ ∃ v, x = .ok v ∧ f v = .ok y := by
  cases x with
  | error e => simp [bind, Except.bind]
  | ok v => simp [bind, Except.bind]

private theorem bind_unit_eq_ok {x : Except RegistryFailure Unit}
    {f : Unit → Except RegistryFailure β} : (x >>= f) = .ok y ↔ x = .ok () ∧ f () = .ok y := by
  rw [bind_eq_ok]
  exact ⟨fun ⟨_, h⟩ => h, fun h => ⟨(), h⟩⟩

private theorem checkDuplicates_eq_ok : checkDuplicates a l = .ok () ↔ ∀ b ∈ l, a.Apart b := by
  induction l with
  | nil => simp [checkDuplicates]
  | cons b l ih =>
    rw [checkDuplicates, List.forall_mem_cons, ← ih, TransportAssignment.Apart]
    split_ifs with hid hname howner
    · simp [hid]
    · simp [hname]
    · simp [howner]
    · simp [hid, hname, howner]

private theorem checkStatus_eq_ok : checkStatus a = .ok () ↔ RegistryStatus a := by
  rw [checkStatus]
  constructor
  · intro h
    split_ifs at h with hknown hstable hcites hspecification hclaims
    · exact ⟨Or.inl hstable, iff_of_true hstable (not_not.mp hspecification), fun _ => hcites⟩
    · have hprovisional : a.status = bytes "provisional" := by
        by_contra hneither
        exact hknown ⟨hstable, hneither⟩
      exact ⟨Or.inr hprovisional, iff_of_false hstable hclaims, fun h => absurd h hstable⟩
  · rintro ⟨hknown, hagrees, hcites⟩
    rw [if_neg (by tauto)]
    by_cases hstable : a.status = bytes "stable"
    · rw [if_pos hstable, if_neg (hcites hstable), if_neg (not_not.mpr (hagrees.mp hstable))]
    · rw [if_neg hstable, if_neg (mt hagrees.mpr hstable)]

private theorem checkAssignments_eq_ok {has' : RegistryBindings} :
    checkAssignments has l = .ok has' ↔ (∀ a ∈ l, 1 ≤ a.id ∧ a.id ≤ 0x7F) ∧
      (∀ a ∈ l, RegistryStatus a) ∧ l.Pairwise TransportAssignment.Apart ∧
        l.foldl RegistryBindings.note has = has' := by
  induction l generalizing has with
  | nil => simp [checkAssignments]
  | cons a l ih =>
    rw [checkAssignments, List.forall_mem_cons, List.forall_mem_cons, List.pairwise_cons,
      List.foldl_cons]
    by_cases hid : a.id < 1 ∨ a.id > 0x7F
    · rw [if_pos hid]
      refine iff_of_false (by simp) fun h => ?_
      omega
    · rw [if_neg hid]
      rw [bind_unit_eq_ok, bind_unit_eq_ok, checkDuplicates_eq_ok, checkStatus_eq_ok, ih]
      have hrange : 1 ≤ a.id ∧ a.id ≤ 0x7F := by omega
      tauto

private theorem foldl_note {g : RegistryBindings → Bool} {made : TransportAssignment → Bool}
    (hg : ∀ has a, g (has.note a) = if made a then true else g has) :
    g (l.foldl RegistryBindings.note has) = true ↔ g has = true ∨ ∃ a ∈ l, made a = true := by
  induction l generalizing has with
  | nil => simp
  | cons a l ih =>
    rw [List.foldl_cons, ih, hg]
    by_cases hmade : made a = true
    · simp [hmade]
    · simp [hmade]

private theorem checkRegistry_eq_ok (hroom : l.length ≤ registryMaxAssignments) :
    checkRegistry l = .ok n ↔ RegistryRules l ∧ l.length = n := by
  let blank : RegistryBindings := ⟨false, false, false, false⟩
  have hbound : l.foldl RegistryBindings.note blank = ⟨true, true, true, true⟩ ↔
      (∃ a ∈ l, a.binds 1 "MCL_AP" "mcl-ap" = true) ∧
        (∃ a ∈ l, a.binds 2 "MCL_IP" "mcl-ip" = true) ∧
          (∃ a ∈ l, a.binds 3 "MCL_BLE" "mcl-ble" = true) ∧
            ∃ a ∈ l, a.binds 4 "MCL_UWB" "mcl-uwb" = true := by
    have hap := @foldl_note l blank RegistryBindings.hasAp _ fun _ _ => rfl
    have hip := @foldl_note l blank RegistryBindings.hasIp _ fun _ _ => rfl
    have hble := @foldl_note l blank RegistryBindings.hasBle _ fun _ _ => rfl
    have huwb := @foldl_note l blank RegistryBindings.hasUwb _ fun _ _ => rfl
    simp only [blank, Bool.false_eq_true, false_or] at hap hip hble huwb
    rw [← hap, ← hip, ← hble, ← huwb]
    cases l.foldl RegistryBindings.note blank
    simp
  rw [checkRegistry]
  split_ifs with hnone
  · refine iff_of_false (by simp) ?_
    rintro ⟨hrules, -⟩
    obtain ⟨a, ha, -⟩ := hrules.ap
    exact absurd (List.length_pos_of_mem ha) (by omega)
  · rw [bind_eq_ok]
    simp only [checkAssignments_eq_ok]
    constructor
    · rintro ⟨has, ⟨hids, hstatus, hapart, hhas⟩, h⟩
      by_cases hmissing : has ≠ ⟨true, true, true, true⟩
      · rw [if_pos hmissing] at h
        cases h
      · rw [if_neg hmissing] at h
        obtain ⟨hap, hip, hble, huwb⟩ := hbound.mp (hhas.trans (not_not.mp hmissing))
        exact ⟨⟨hroom, hids, hstatus, hapart, hap, hip, hble, huwb⟩, Except.ok.inj h⟩
    · rintro ⟨hrules, rfl⟩
      refine ⟨_, ⟨hrules.ids, hrules.status, hrules.apart, rfl⟩, ?_⟩
      rw [hbound.mpr ⟨hrules.ap, hrules.ip, hrules.ble, hrules.uwb⟩, if_neg (not_not.mpr rfl)]
      rfl

end Rules

section Files

variable {buf file : List UInt8}

private theorem checkFieldWidth_eq_ok : checkFieldWidth buf = .ok () ↔ RegistryWidth buf := by
  have hfirst : ∀ p, search 0 registryWidthKey buf = some p ↔ FirstAt 0 registryWidthKey buf p :=
    fun _ => search_eq_some (by decide)
  rw [checkFieldWidth]
  constructor
  · intro h
    split at h
    · cases h
    · next p hp =>
      obtain ⟨q, hq⟩ := ((hfirst p).mp hp).found
      obtain ⟨r, hr, h⟩ := bind_eq_ok.mp h
      rw [← hq, List.drop_left] at hr
      cases r with
      | none => cases h
      | some r =>
        obtain ⟨w, d, hw, hd, hspace, hrest⟩ := parseInt_eq_some.mp hr
        dsimp only at h
        by_cases hbits : r.1 ≠ 8
        · rw [if_pos hbits] at h
          cases h
        · refine ⟨w, d, r.2, ?_, hw, not_not.mp hbits ▸ hd, hrest⟩
          rw [← hspace, hq]
          exact (hfirst p).mp hp
  · rintro ⟨w, d, rest, hfound, hw, hd, hrest⟩
    rw [(hfirst _).mpr hfound]
    dsimp only
    rw [List.drop_left, parseInt_eq_some.mpr ⟨w, d, hw, hd, rfl, hrest⟩]
    rfl

theorem findAssignments_eq_ok : findAssignments buf = .ok q ↔
    ∃ p, FirstAt 0 registryAssignmentsKey buf p ∧
      FirstAt 0 [registryOpenBracket] p (registryOpenBracket :: q) := by
  have hkey : ∀ p, search 0 registryAssignmentsKey buf = some p ↔
      FirstAt 0 registryAssignmentsKey buf p := fun _ => search_eq_some (by decide)
  have hbracket : ∀ p q, search 0 [registryOpenBracket] p = some q ↔
      FirstAt 0 [registryOpenBracket] p q := fun _ _ => search_eq_some (by decide)
  rw [findAssignments]
  constructor
  · intro h
    split at h
    · cases h
    · next p hp =>
      split at h
      · cases h
      · next r hr =>
        cases h
        refine ⟨p, (hkey p).mp hp, ?_⟩
        have hfirst := (hbracket p r).mp hr
        obtain ⟨q, rfl⟩ := hfirst.found
        exact hfirst
  · rintro ⟨p, hp, hq⟩
    rw [(hkey p).mpr hp]
    dsimp only
    rw [(hbracket p _).mpr hq]
    rfl

/-- What the text writes is what is parsed. -/
theorem RegistryText.parse (h : RegistryText l buf) (hroom : l.length ≤ registryMaxAssignments) :
    ∃ q, findAssignments buf = .ok q ∧ parseAssignments (q.length + 1) [] q = .ok l := by
  obtain ⟨-, p, q, hp, hq, hitems⟩ := h
  refine ⟨q, findAssignments_eq_ok.mpr ⟨p, hp, hq⟩, ?_⟩
  apply parseAssignments_complete hitems (Nat.lt_succ_self _)
  rw [List.length_nil, Nat.zero_add]
  exact hroom

private theorem RegistryText.unique {l' : List TransportAssignment} (h : RegistryText l buf)
    (h' : RegistryText l' buf) (hroom : l.length ≤ registryMaxAssignments)
    (hroom' : l'.length ≤ registryMaxAssignments) : l = l' := by
  obtain ⟨q, hq, hl⟩ := h.parse hroom
  obtain ⟨q', hq', hl'⟩ := h'.parse hroom'
  obtain rfl := Except.ok.inj (hq.symm.trans hq')
  exact Except.ok.inj (hl.symm.trans hl')

/-- A file passes exactly when its text writes assignments that keep the rules; which ones these are
is not in doubt. -/
theorem validateTransportRegistry_accepts : validateTransportRegistry file = .ok n ↔
    ∃! l, RegistryText l (file.take (registryMaxFileSize - 1)) ∧ RegistryRules l ∧
      l.length = n := by
  constructor
  · intro h
    rw [validateTransportRegistry, bind_unit_eq_ok, checkFieldWidth_eq_ok] at h
    simp only [bind_eq_ok, findAssignments_eq_ok] at h
    obtain ⟨hwidth, q, ⟨p, hp, hq⟩, l, hl, h⟩ := h
    obtain ⟨l, hitems, rfl, hroom⟩ := parseAssignments_sound hl (Nat.zero_le _)
    have htext : RegistryText l (file.take (registryMaxFileSize - 1)) :=
      ⟨hwidth, p, q, hp, hq, hitems⟩
    refine ⟨l, ⟨htext, (checkRegistry_eq_ok hroom).mp h⟩, ?_⟩
    rintro l' ⟨htext', hrules, -⟩
    exact htext'.unique htext hrules.room hroom
  · rintro ⟨l, ⟨htext, hrules, hn⟩, -⟩
    obtain ⟨q, hq, hl⟩ := htext.parse hrules.room
    rw [validateTransportRegistry, bind_unit_eq_ok, checkFieldWidth_eq_ok]
    refine ⟨htext.1, bind_eq_ok.mpr ⟨q, hq, bind_eq_ok.mpr ⟨l, hl, ?_⟩⟩⟩
    exact (checkRegistry_eq_ok hrules.room).mpr ⟨hrules, hn⟩

end Files

end MclLink
