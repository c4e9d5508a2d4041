import MclLink.Registry.Validator

/-!
# What the validator reads

The texts that the validator of the transport registry takes, as a grammar: which text is which list
of assignments. A parse takes exactly the texts of the grammar.
-/

namespace MclLink

open Text

def RegistrySpace (w : List UInt8) : Prop := ∀ b ∈ w, isSpace b = true

/-- What may stand behind a value or an assignment. -/
def RegistryGap (g : List UInt8) : Prop :=
  RegistrySpace g ∨ ∃ w, RegistrySpace w ∧ g = w ++ [registryComma]

/-- A quoted text that fits into an array. -/
structure RegistryQuoted (outSize : ℕ) (s text : List UInt8) : Prop where
  quoted : text = registryQuote :: (s ++ [registryQuote])
  fits : s.length < outSize
  plain : ∀ b ∈ s, b ≠ registryQuote ∧ b ≠ registryBackslash

/-- The digits of a number that is an `int`. -/
structure RegistryNumber (n : ℕ) (d : List UInt8) : Prop where
  written : d ≠ []
  digits : ∀ b ∈ d, isDigit b = true
  value : number d = n
  small : n ≤ registryIntMax

/-- The text of a value, and the assignment with it. -/
inductive RegistryValue (a : TransportAssignment) :
    List UInt8 → List UInt8 → TransportAssignment → Prop where
  | id {n d} : RegistryNumber n d → RegistryValue a (bytes "id") d { a with id := n }
  | name {s t} : RegistryQuoted registryMaxStrLen s t →
      RegistryValue a (bytes "name") t { a with name := untilZero s }
  | status {s t} : RegistryQuoted registryMaxStrLen s t →
      RegistryValue a (bytes "status") t { a with status := untilZero s }
  | ownerRepo {s t} : RegistryQuoted registryMaxStrLen s t →
      RegistryValue a (bytes "owner_repo") t { a with ownerRepo := untilZero s }
  | normativeSpecification {s t} : RegistryQuoted registryMaxStrLen s t →
      RegistryValue a (bytes "normative_specification") t
        { a with normativeSpecification := untilZero s }
  | specificationStatus {s t} : RegistryQuoted registryMaxStrLen s t →
      RegistryValue a (bytes "specification_status") t { a with specificationStatus := untilZero s }
  | description {key s t} :
      key = bytes "family" ∨ key = bytes "detail" ∨ key = bytes "specification_note" →
      RegistryQuoted registryMaxDescLen s t → RegistryValue a key t a

/-- A key, the colon and the value. -/
inductive RegistryField (a : TransportAssignment) : List UInt8 → TransportAssignment → Prop where
  | mk {w key k v u t b} : RegistrySpace w → RegistryQuoted registryMaxStrLen key k →
      RegistrySpace v → RegistrySpace u → RegistryValue a (untilZero key) t b →
      RegistryField a (w ++ (k ++ (v ++ registryColon :: (u ++ t)))) b

/-- The inside of an object. -/
inductive RegistryFields : TransportAssignment → List UInt8 → TransportAssignment → Prop where
  | nil {a} : RegistryFields a [] a
  | cons {a b c f g rest} : RegistryField a f b → RegistryGap g → RegistryFields b rest c →
      RegistryFields a (f ++ (g ++ rest)) c

/-- The inside of the array, and whatever stands behind its bracket. -/
inductive RegistryItems : List TransportAssignment → List UInt8 → Prop where
  | nil {w rest} : RegistrySpace w → rest = [] ∨ rest.head? = some registryCloseBracket →
      RegistryItems [] (w ++ rest)
  | cons {w body a g rest l} : RegistrySpace w → RegistryFields transportAssignmentBlank body a →
      RegistryGap g → RegistryItems l rest →
      RegistryItems (a :: l)
        (w ++ registryOpenBrace :: (body ++ registryCloseBrace :: (g ++ rest)))

variable {w d s t p q rest key : List UInt8} {n outSize fuel : ℕ} {b : UInt8}
  {a c : TransportAssignment} {l found : List TransportAssignment}

section Scanning

private theorem takeWhile_space : RegistrySpace (p.takeWhile isSpace) :=
  fun _ hb => List.mem_takeWhile_imp hb

private theorem skipWs_split (p : List UInt8) : ∃ w, RegistrySpace w ∧ p = w ++ skipWs p :=
  ⟨p.takeWhile isSpace, takeWhile_space, List.takeWhile_append_dropWhile.symm⟩

private theorem skipWs_append (hw : RegistrySpace w) : skipWs (w ++ p) = skipWs p :=
  List.dropWhile_append_of_pos hw

private theorem skipWs_cons (hb : isSpace b = false) : skipWs (b :: p) = b :: p := by
  rw [skipWs, List.dropWhile_cons, if_neg (by simp [hb])]

private theorem skipWs_skipWs : skipWs (skipWs p) = skipWs p := by
  obtain ⟨w, hw, hp⟩ := skipWs_split p
  conv_rhs => rw [hp, skipWs_append hw]

private theorem parseStringLoop_sound (h : parseStringLoop outSize s p = some (t, rest)) :
    ∃ more, t = s ++ more ∧ p = more ++ registryQuote :: rest ∧
      (more = [] ∨ t.length < outSize) ∧
      ∀ b ∈ more, b ≠ registryQuote ∧ b ≠ registryBackslash := by
  induction p generalizing s with
  | nil => cases h
  | cons b p ih =>
    rw [parseStringLoop] at h
    split_ifs at h with hquote hstop
    · cases h
      exact ⟨[], (List.append_nil _).symm, by rw [hquote, List.nil_append], Or.inl rfl, by simp⟩
    · obtain ⟨hback, hfull⟩ := not_or.mp hstop
      obtain ⟨more, rfl, rfl, hfits, hplain⟩ := ih h
      refine ⟨b :: more, by simp, rfl, Or.inr ?_,
        List.forall_mem_cons.mpr ⟨⟨hquote, hback⟩, hplain⟩⟩
      rcases hfits with rfl | hfits
      · simpa using Nat.lt_of_not_le hfull
      · exact hfits

private theorem parseStringLoop_complete (hfits : s.length + t.length < outSize)
    (hplain : ∀ b ∈ t, b ≠ registryQuote ∧ b ≠ registryBackslash) :
    parseStringLoop outSize s (t ++ registryQuote :: rest) = some (s ++ t, rest) := by
  induction t generalizing s with
  | nil => rw [List.nil_append, parseStringLoop, if_pos rfl, List.append_nil]
  | cons b t ih =>
    obtain ⟨⟨hquote, hback⟩, hplain⟩ := List.forall_mem_cons.mp hplain
    rw [List.length_cons] at hfits
    have hstop : ¬ (b = registryBackslash ∨ s.length + 1 ≥ outSize) := by
      rintro (hb | hfull)
      · exact hback hb
      · omega
    have hlength : (s ++ [b]).length + t.length < outSize := by
      rw [List.length_append, List.length_singleton]
      omega
    rw [List.cons_append, parseStringLoop, if_neg hquote, if_neg hstop, ih hlength hplain,
      List.append_assoc, List.singleton_append]

theorem parseString_eq_some (hsize : 0 < outSize) : parseString p outSize = some (s, rest) ↔
    ∃ w t, RegistrySpace w ∧ RegistryQuoted outSize s t ∧ p = w ++ (t ++ rest) := by
  constructor
  · intro h
    obtain ⟨w, hw, hp⟩ := skipWs_split p
    rw [parseString] at h
    split at h
    · cases h
    · next b q hq =>
      split_ifs at h with hquote
      obtain ⟨more, hs, hrest, hfits, hplain⟩ := parseStringLoop_sound h
      obtain rfl : s = more := hs
      refine ⟨w, _, hw, ⟨rfl, ?_, hplain⟩, ?_⟩
      · rcases hfits with rfl | hfits
        · exact hsize
        · exact hfits
      · rw [hp, hq, not_not.mp hquote, hrest, List.cons_append, List.append_assoc,
          List.singleton_append]
  · rintro ⟨w, t, hw, ⟨rfl, hfits, hplain⟩, rfl⟩
    rw [parseString, skipWs_append hw, List.cons_append, skipWs_cons (by decide),
      List.append_assoc, List.singleton_append]
    have hloop : parseStringLoop outSize [] (s ++ registryQuote :: rest) = some (s, rest) :=
      parseStringLoop_complete (by rwa [List.length_nil, Nat.zero_add]) hplain
    exact (if_neg (not_not.mpr rfl)).trans hloop

private theorem parseIntLoop_sound (hsmall : number d ≤ registryIntMax)
    (h : parseIntLoop (number d) p = .ok (n, rest)) :
    ∃ more, p = more ++ rest ∧ (∀ b ∈ more, isDigit b = true) ∧ number (d ++ more) = n ∧
      n ≤ registryIntMax ∧ ∀ b ∈ rest.head?, isDigit b = false := by
  induction p generalizing d with
  | nil =>
    cases h
    exact ⟨[], rfl, by simp, by rw [List.append_nil], hsmall, by simp⟩
  | cons b p ih =>
    rw [parseIntLoop] at h
    by_cases hdigit : isDigit b = true
    · simp only [if_pos hdigit, ← number_snoc] at h
      by_cases hmore : number (d ++ [b]) > registryIntMax
      · rw [if_pos hmore] at h
        cases h
      · rw [if_neg hmore] at h
        obtain ⟨more, rfl, hdigits, hn, hmax, hrest⟩ := ih (Nat.le_of_not_lt hmore) h
        refine ⟨b :: more, rfl, List.forall_mem_cons.mpr ⟨hdigit, hdigits⟩, ?_, hmax, hrest⟩
        rw [← hn, List.append_assoc, List.singleton_append]
    · rw [if_neg hdigit] at h
      cases h
      exact ⟨[], rfl, by simp, by rw [List.append_nil], hsmall, by simpa using hdigit⟩

private theorem parseIntLoop_complete (hdigits : ∀ b ∈ t, isDigit b = true)
    (hmax : number (d ++ t) ≤ registryIntMax) (hrest : ∀ b ∈ rest.head?, isDigit b = false) :
    parseIntLoop (number d) (t ++ rest) = .ok (number (d ++ t), rest) := by
  induction t generalizing d with
  | nil =>
    rw [List.nil_append, List.append_nil]
    cases rest with
    | nil => rfl
    | cons b rest => rw [parseIntLoop, if_neg (by simp [hrest b rfl])]
  | cons b t ih =>
    obtain ⟨hdigit, hdigits⟩ := List.forall_mem_cons.mp hdigits
    have hall : d ++ b :: t = d ++ [b] ++ t := by rw [List.append_assoc, List.singleton_append]
    rw [hall] at hmax ⊢
    have hsmall : ¬ number (d ++ [b]) > registryIntMax :=
      Nat.not_lt.mpr (number_le_append.trans hmax)
    rw [List.cons_append, parseIntLoop]
    simp only [if_pos hdigit, ← number_snoc, if_neg hsmall]
    exact ih hdigits hmax

theorem parseInt_eq_some : parseInt p = .ok (some (n, rest)) ↔
    ∃ w d, RegistrySpace w ∧ RegistryNumber n d ∧ p = w ++ (d ++ rest) ∧
      ∀ b ∈ rest.head?, isDigit b = false := by
  constructor
  · intro h
    obtain ⟨w, hw, hp⟩ := skipWs_split p
    rw [parseInt] at h
    split at h
    · cases h
    · next b q hq =>
      split_ifs at h with hdigit
      · cases hval : parseIntLoop 0 (b :: q) with
        | error e => rw [hval] at h; cases h
        | ok r =>
          rw [hval] at h
          cases h
          obtain ⟨d, hd, hdigits, hn, hmax, hrest⟩ :=
            @parseIntLoop_sound [] (b :: q) rest n (Nat.zero_le _) hval
          refine ⟨w, d, hw, ⟨?_, hdigits, hn, hmax⟩, by rw [hp, hq, hd], hrest⟩
          rintro rfl
          rw [List.nil_append] at hd
          rw [← hd] at hrest
          exact absurd hdigit (by simp [hrest b rfl])
      · cases h
  · rintro ⟨w, d, hw, ⟨hwritten, hdigits, hn, hmax⟩, rfl, hrest⟩
    obtain ⟨b, d, rfl⟩ := List.exists_cons_of_ne_nil hwritten
    have hdigit := hdigits b List.mem_cons_self
    rw [parseInt, skipWs_append hw, List.cons_append, skipWs_cons (isDigit_not_space hdigit)]
    have hval : parseIntLoop 0 (b :: (d ++ rest)) = .ok (n, rest) :=
      hn ▸ @parseIntLoop_complete [] (b :: d) rest hdigits (hn.le.trans hmax) hrest
    change (if isDigit b = true then (parseIntLoop 0 (b :: (d ++ rest))).map some else _) = _
    rw [if_pos hdigit, hval]
    rfl

theorem skipComma_split (p : List UInt8) : ∃ g, RegistryGap g ∧ p = g ++ skipComma p := by
  obtain ⟨w, hw, hp⟩ := skipWs_split p
  by_cases hcomma : (skipWs p).head? = some registryComma
  · obtain ⟨q, hq⟩ := List.head?_eq_some_iff.mp hcomma
    refine ⟨w ++ [registryComma], Or.inr ⟨w, hw, rfl⟩, ?_⟩
    have htail : skipComma p = q := (if_pos hcomma).trans (congrArg List.tail hq)
    rw [htail, List.append_assoc, List.singleton_append, ← hq]
    exact hp
  · refine ⟨w, Or.inl hw, ?_⟩
    rw [skipComma, if_neg hcomma]
    exact hp

private theorem skipComma_gap (hg : RegistryGap w) (hp : (skipWs p).head? ≠ some registryComma) :
    skipComma (w ++ p) = p ∨ skipComma (w ++ p) = skipWs p := by
  rcases hg with hg | ⟨v, hv, rfl⟩
  · right
    rw [skipComma, skipWs_append hg, if_neg hp]
  · left
    rw [skipComma, List.append_assoc, skipWs_append hv, List.singleton_append,
      skipWs_cons (by decide)]
    rfl

private theorem RegistryGap.not_digit (hg : RegistryGap w) (hp : ∀ b ∈ p.head?, isDigit b = false) :
    ∀ b ∈ (w ++ p).head?, isDigit b = false := by
  rcases hg with hg | ⟨v, hv, rfl⟩
  · cases w with
    | nil => exact hp
    | cons c w =>
      rintro _ ⟨⟩
      exact isSpace_not_digit (hg c List.mem_cons_self)
  · cases v with
    | nil =>
      rintro _ ⟨⟩
      decide
    | cons c v =>
      rintro _ ⟨⟩
      exact isSpace_not_digit (hv c List.mem_cons_self)

end Scanning

section Objects

variable {set : List UInt8 → TransportAssignment}

private theorem assignText_eq_ok : assignText set p = .ok (c, rest) ↔
    ∃ w s t, RegistrySpace w ∧ RegistryQuoted registryMaxStrLen s t ∧ p = w ++ (t ++ rest) ∧
      c = set (untilZero s) := by
  rw [assignText]
  constructor
  · intro h
    split at h
    · cases h
    · next s q hs =>
      cases h
      obtain ⟨w, t, hw, ht, hp⟩ := (parseString_eq_some (by decide)).mp hs
      exact ⟨w, s, t, hw, ht, hp, rfl⟩
  · rintro ⟨w, s, t, hw, ht, hp, rfl⟩
    rw [(parseString_eq_some (by decide)).mpr ⟨w, t, hw, ht, hp⟩]

private theorem assignValue_sound (h : assignValue a key p = .ok (c, rest)) :
    ∃ w t, RegistrySpace w ∧ RegistryValue a key t c ∧ p = w ++ (t ++ rest) := by
  rw [assignValue] at h
  split_ifs at h with hid hname hstatus howner hnormative hspecification hdescription
  · cases hparse : parseInt p with
    | error e => rw [hparse] at h; cases h
    | ok r =>
      rw [hparse] at h
      cases r with
      | none => cases h
      | some r =>
        cases h
        obtain ⟨w, d, hw, hd, hp, -⟩ := parseInt_eq_some.mp hparse
        exact ⟨w, d, hw, hid ▸ .id hd, hp⟩
  · obtain ⟨w, s, t, hw, ht, hp, rfl⟩ := assignText_eq_ok.mp h
    exact ⟨w, t, hw, hname ▸ .name ht, hp⟩
  · obtain ⟨w, s, t, hw, ht, hp, rfl⟩ := assignText_eq_ok.mp h
    exact ⟨w, t, hw, hstatus ▸ .status ht, hp⟩
  · obtain ⟨w, s, t, hw, ht, hp, rfl⟩ := assignText_eq_ok.mp h
    exact ⟨w, t, hw, howner ▸ .ownerRepo ht, hp⟩
  · obtain ⟨w, s, t, hw, ht, hp, rfl⟩ := assignText_eq_ok.mp h
    exact ⟨w, t, hw, hnormative ▸ .normativeSpecification ht, hp⟩
  · obtain ⟨w, s, t, hw, ht, hp, rfl⟩ := assignText_eq_ok.mp h
    exact ⟨w, t, hw, hspecification ▸ .specificationStatus ht, hp⟩
  · split at h
    · cases h
    · next s q hs =>
      cases h
      obtain ⟨w, t, hw, ht, hp⟩ := (parseString_eq_some (by decide)).mp hs
      exact ⟨w, t, hw, .description hdescription ht, hp⟩

private theorem assignValue_complete (hw : RegistrySpace w) (h : RegistryValue a key t c)
    (hrest : ∀ b ∈ rest.head?, isDigit b = false) :
    assignValue a key (w ++ (t ++ rest)) = .ok (c, rest) := by
  cases h with
  | id hd =>
    rw [assignValue, if_pos rfl, parseInt_eq_some.mpr ⟨w, t, hw, hd, rfl, hrest⟩]
    rfl
  | name ht =>
    rw [assignValue, if_neg (by decide), if_pos rfl]
    exact assignText_eq_ok.mpr ⟨w, _, t, hw, ht, rfl, rfl⟩
  | status ht =>
    rw [assignValue, if_neg (by decide), if_neg (by decide), if_pos rfl]
    exact assignText_eq_ok.mpr ⟨w, _, t, hw, ht, rfl, rfl⟩
  | ownerRepo ht =>
    rw [assignValue, if_neg (by decide), if_neg (by decide), if_neg (by decide), if_pos rfl]
    exact assignText_eq_ok.mpr ⟨w, _, t, hw, ht, rfl, rfl⟩
  | normativeSpecification ht =>
    rw [assignValue, if_neg (by decide), if_neg (by decide), if_neg (by decide),
      if_neg (by decide), if_pos rfl]
    exact assignText_eq_ok.mpr ⟨w, _, t, hw, ht, rfl, rfl⟩
  | specificationStatus ht =>
    rw [assignValue, if_neg (by decide), if_neg (by decide), if_neg (by decide),
      if_neg (by decide), if_neg (by decide), if_pos rfl]
    exact assignText_eq_ok.mpr ⟨w, _, t, hw, ht, rfl, rfl⟩
  | description hkey ht =>
    have hskip : ∀ k ∈ ["id", "name", "status", "owner_repo", "normative_specification",
        "specification_status"], key ≠ bytes k := by
      rcases hkey with rfl | rfl | rfl <;> decide
    rw [assignValue, if_neg (hskip _ (by decide)), if_neg (hskip _ (by decide)),
      if_neg (hskip _ (by decide)), if_neg (hskip _ (by decide)), if_neg (hskip _ (by decide)),
      if_neg (hskip _ (by decide)), if_pos hkey,
      (parseString_eq_some (by decide)).mpr ⟨w, t, hw, ht, rfl⟩]

theorem parseField_sound (h : parseField a p = .ok (c, rest)) :
    ∃ f g, RegistryField a f c ∧ RegistryGap g ∧ p = f ++ (g ++ rest) := by
  rw [parseField] at h
  split at h
  · cases h
  · next key q hkey =>
    obtain ⟨w, k, hw, hk, rfl⟩ := (parseString_eq_some (by decide)).mp hkey
    obtain ⟨v, hv, hq⟩ := skipWs_split q
    dsimp only at h
    split at h
    · cases h
    · next b r hr =>
      split_ifs at h with hcolon
      cases hval : assignValue a (untilZero key) r with
      | error e => rw [hval] at h; cases h
      | ok x =>
        rw [hval] at h
        cases h
        obtain ⟨u, t, hu, ht, hx⟩ := assignValue_sound hval
        obtain ⟨g, hg, hgap⟩ := skipComma_split x.2
        refine ⟨_, g, .mk hw hk hv hu ht, hg, ?_⟩
        rw [hq, hr, not_not.mp hcolon, hx]
        conv_lhs => rw [hgap]
        simp only [List.append_assoc, List.cons_append]

private theorem parseField_complete (h : RegistryField a d c)
    (hrest : ∀ b ∈ rest.head?, isDigit b = false) :
    parseField a (d ++ rest) = .ok (c, skipComma rest) := by
  obtain ⟨hw, hk, hv, hu, ht⟩ := h
  simp only [List.append_assoc, List.cons_append]
  rw [parseField, (parseString_eq_some (by decide)).mpr ⟨_, _, hw, hk, rfl⟩]
  dsimp only
  rw [skipWs_append hv, skipWs_cons (by decide)]
  dsimp only
  rw [if_neg (not_not.mpr rfl), assignValue_complete hu ht hrest]
  rfl

private theorem parseField_skipWs : parseField a (skipWs p) = parseField a p := by
  rw [parseField, parseString, skipWs_skipWs]
  rfl

theorem RegistryField.front (h : RegistryField a d c) :
    ∃ w more, RegistrySpace w ∧ d = w ++ registryQuote :: more := by
  obtain ⟨hw, hk, hv, hu, ht⟩ := h
  exact ⟨_, _, hw, by rw [hk.quoted, List.cons_append]⟩

private theorem RegistryFields.front (h : RegistryFields a d c) :
    d = [] ∨ ∃ w more, RegistrySpace w ∧ d = w ++ registryQuote :: more := by
  cases h with
  | nil => exact Or.inl rfl
  | cons hfield hgap hfields =>
    obtain ⟨w, more, hw, rfl⟩ := hfield.front
    exact Or.inr ⟨w, _, hw, by rw [List.append_assoc, List.cons_append]⟩

private theorem head_space_quote (hw : RegistrySpace w) :
    ∀ b ∈ (w ++ registryQuote :: p).head?, isDigit b = false ∧ b ≠ registryCloseBrace := by
  cases w with
  | nil =>
    rintro _ ⟨⟩
    decide
  | cons c w =>
    rintro _ ⟨⟩
    have hc := hw c List.mem_cons_self
    refine ⟨isSpace_not_digit hc, ?_⟩
    rintro rfl
    revert hc
    decide

private theorem RegistryFields.not_digit (h : RegistryFields a d c) (rest : List UInt8) :
    ∀ b ∈ (d ++ registryCloseBrace :: rest).head?, isDigit b = false := by
  rcases h.front with rfl | ⟨w, more, hw, rfl⟩
  · rintro _ ⟨⟩
    decide
  · rw [List.append_assoc, List.cons_append]
    exact fun b hb => (head_space_quote hw b hb).1

private theorem RegistryFields.not_comma (h : RegistryFields a d c) :
    (skipWs (d ++ registryCloseBrace :: rest)).head? ≠ some registryComma := by
  rcases h.front with rfl | ⟨w, more, hw, rfl⟩
  · rw [List.nil_append, skipWs_cons (by decide)]
    exact mt Option.some.inj (by decide)
  · rw [List.append_assoc, skipWs_append hw, List.cons_append, skipWs_cons (by decide)]
    exact mt Option.some.inj (by decide)

theorem parseFields_sound (h : parseFields fuel a p = .ok (c, rest)) :
    ∃ body, RegistryFields a body c ∧ p = body ++ registryCloseBrace :: rest := by
  induction fuel generalizing a p with
  | zero => cases h
  | succ fuel ih =>
    cases p with
    | nil => cases h
    | cons b p =>
      rw [parseFields] at h
      split_ifs at h with hclose
      · cases h
        exact ⟨[], .nil, by rw [hclose, List.nil_append]⟩
      · cases hfield : parseField a (b :: p) with
        | error e => rw [hfield] at h; cases h
        | ok r =>
          rw [hfield] at h
          obtain ⟨f, g, hf, hg, hp⟩ := parseField_sound hfield
          obtain ⟨body, hbody, hr⟩ := ih h
          exact ⟨f ++ (g ++ body), .cons hf hg hbody, by rw [hp, hr]; simp only [List.append_assoc]⟩

private theorem parseFields_complete (h : RegistryFields a d c) (hfuel : d.length < fuel)
    (hp : p = d ++ registryCloseBrace :: rest ∨ p = skipWs (d ++ registryCloseBrace :: rest)) :
    parseFields fuel a p = .ok (c, rest) := by
  -- White space in front of a next key may be gone already, but none stands in front of the brace.
  induction h generalizing fuel p with
  | nil =>
    rw [List.nil_append, skipWs_cons (by decide), or_self] at hp
    obtain ⟨fuel, rfl⟩ := Nat.exists_eq_add_of_lt hfuel
    rw [hp, parseFields, if_pos rfl]
  | @cons a b c f g more hfield hgap hfields ih =>
    obtain ⟨w, k, hw, hf⟩ := hfield.front
    obtain ⟨fuel, rfl⟩ : ∃ n, fuel = n + 1 := ⟨fuel - 1, by omega⟩
    have hlength : more.length < fuel := by
      rw [hf] at hfuel
      simp only [List.length_append, List.length_cons] at hfuel
      omega
    have hall : (f ++ (g ++ more)) ++ registryCloseBrace :: rest =
        f ++ (g ++ (more ++ registryCloseBrace :: rest)) := by simp only [List.append_assoc]
    have hround : parseField a p =
        .ok (b, skipComma (g ++ (more ++ registryCloseBrace :: rest))) := by
      have hplain := parseField_complete hfield
        (hgap.not_digit (hfields.not_digit rest))
      rcases hp with rfl | rfl
      · rw [hall, hplain]
      · rw [parseField_skipWs, hall, hplain]
    have hhead : ∃ x q, p = x :: q ∧ x ≠ registryCloseBrace := by
      rw [hall, hf, List.append_assoc, List.cons_append] at hp
      rcases hp with rfl | rfl
      · have hquote := @head_space_quote w
          (k ++ (g ++ (more ++ registryCloseBrace :: rest))) hw
        cases w with
        | nil => exact ⟨_, _, rfl, by decide⟩
        | cons x w => exact ⟨x, _, rfl, (hquote x rfl).2⟩
      · rw [skipWs_append hw, skipWs_cons (by decide)]
        exact ⟨_, _, rfl, by decide⟩
    obtain ⟨x, q, rfl, hx⟩ := hhead
    rw [parseFields, if_neg hx, hround]
    exact ih hlength (skipComma_gap hgap hfields.not_comma)

end Objects

section Items

private theorem parseAssignments_skipWs :
    parseAssignments fuel found (skipWs p) = parseAssignments fuel found p := by
  cases fuel with
  | zero => rfl
  | succ fuel => rw [parseAssignments, parseAssignments, skipWs_skipWs]

private theorem RegistryItems.not_comma (h : RegistryItems l p) :
    (skipWs p).head? ≠ some registryComma := by
  cases h with
  | @nil w rest hw hend =>
    rw [skipWs_append hw]
    cases rest with
    | nil => simp [skipWs]
    | cons b rest =>
      obtain rfl : b = registryCloseBracket := by simpa using hend
      rw [skipWs_cons (by decide)]
      exact mt Option.some.inj (by decide)
  | cons hw =>
    rw [skipWs_append hw, skipWs_cons (by decide)]
    exact mt Option.some.inj (by decide)

theorem parseAssignments_sound (h : parseAssignments fuel found p = .ok l)
    (hroom : found.length ≤ registryMaxAssignments) :
    ∃ more, RegistryItems more p ∧ l = found ++ more ∧ l.length ≤ registryMaxAssignments := by
  induction fuel generalizing found p with
  | zero => cases h
  | succ fuel ih =>
    obtain ⟨w, hw, hp⟩ := skipWs_split p
    rw [parseAssignments] at h
    split at h
    · next hq =>
      cases h
      refine ⟨[], ?_, (List.append_nil _).symm, hroom⟩
      rw [hp, hq]
      exact .nil hw (Or.inl rfl)
    · next b q hq =>
      by_cases hclose : b = registryCloseBracket
      · rw [if_pos hclose] at h
        cases h
        refine ⟨[], ?_, (List.append_nil _).symm, hroom⟩
        rw [hp, hq]
        exact .nil hw (Or.inr (congrArg some hclose))
      rw [if_neg hclose] at h
      by_cases hopen : b = registryOpenBrace
      · rw [if_neg (not_not.mpr hopen)] at h
        cases hfields : parseFields (q.length + 1) transportAssignmentBlank q with
        | error e => rw [hfields] at h; cases h
        | ok r =>
          obtain ⟨body, hbody, hq'⟩ := parseFields_sound hfields
          obtain ⟨g, hg, hgap⟩ := skipComma_split r.2
          rw [hfields] at h
          change (if _ then _ else parseAssignments fuel (found ++ [r.1]) (skipComma r.2)) = _ at h
          by_cases hfull : found.length ≥ registryMaxAssignments
          · rw [if_pos hfull] at h
            cases h
          · rw [if_neg hfull] at h
            obtain ⟨more, hmore, hl, hlength⟩ := ih h (by
              rw [List.length_append, List.length_singleton]
              omega)
            refine ⟨r.1 :: more, ?_, by simp [hl], hlength⟩
            rw [hp, hq, hopen, hq', hgap]
            exact .cons hw hbody hg hmore
      · rw [if_pos hopen] at h
        cases h

theorem parseAssignments_complete (h : RegistryItems l p) (hfuel : p.length < fuel)
    (hroom : found.length + l.length ≤ registryMaxAssignments) :
    parseAssignments fuel found p = .ok (found ++ l) := by
  induction h generalizing found fuel with
  | @nil w rest hw hend =>
    obtain ⟨fuel, rfl⟩ : ∃ n, fuel = n + 1 := ⟨fuel - 1, by omega⟩
    rw [parseAssignments, skipWs_append hw, List.append_nil]
    cases rest with
    | nil => rfl
    | cons b rest =>
      obtain rfl : b = registryCloseBracket := by simpa using hend
      rw [skipWs_cons (by decide)]
      exact if_pos rfl
  | @cons w body a g rest l hw hbody hg hitems ih =>
    obtain ⟨fuel, rfl⟩ : ∃ n, fuel = n + 1 := ⟨fuel - 1, by omega⟩
    simp only [List.length_append, List.length_cons] at hfuel hroom
    rw [parseAssignments, skipWs_append hw, skipWs_cons (by decide)]
    dsimp only
    rw [if_neg (by decide), if_neg (by decide),
      parseFields_complete hbody (by simp) (Or.inl rfl)]
    have hfull : ¬ found.length ≥ registryMaxAssignments := by omega
    change (if _ then _ else parseAssignments fuel (found ++ [a]) (skipComma (g ++ rest))) = _
    rw [if_neg hfull]
    have hrest : parseAssignments fuel (found ++ [a]) rest = .ok (found ++ a :: l) := by
      rw [ih (by omega) (by rw [List.length_append, List.length_singleton]; omega)]
      rw [List.append_assoc, List.singleton_append]
    rcases skipComma_gap hg hitems.not_comma with hnext | hnext
    · rw [hnext, hrest]
    · rw [hnext, parseAssignments_skipWs, hrest]

-- Commas may be left out, and nothing is read behind the bracket.
example : parseAssignments 3 [] (bytes " \x7b\"id\": 12 \"name\":\"MCL_AP\",\x7d] 5") =
    .ok [{ transportAssignmentBlank with id := 12, name := bytes "MCL_AP" }] := by
  decide +kernel

end Items

end MclLink
