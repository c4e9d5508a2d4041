import MclLink.Registry.Rules

/-!
# How the validator ends

No file keeps the validator of the transport registry from ending, and its behaviour is undefined
only for a number that is no `int`.
-/

namespace MclLink

open Text

/-- Somewhere in the text stands a row of digits that writes no `int`. -/
def RegistryOverlong (p : List UInt8) : Prop :=
  ∃ d, d <:+: p ∧ (∀ b ∈ d, isDigit b = true) ∧ registryIntMax < number d

/-- Whether an overlong number is found from some place on. -/
def registryFindsOverlong (p : List UInt8) : Bool :=
  p.tails.any fun t => t.inits.any fun d => d.all isDigit && registryIntMax.blt (number d)

private theorem registryFindsOverlong_iff {p : List UInt8} :
    registryFindsOverlong p = true ↔ RegistryOverlong p := by
  simp only [registryFindsOverlong, List.any_eq_true, List.mem_tails, List.mem_inits,
    Bool.and_eq_true, List.all_eq_true, Nat.blt_eq, RegistryOverlong,
    List.infix_iff_prefix_suffix]
  constructor
  · rintro ⟨t, ht, d, hd, hlong⟩
    exact ⟨d, ⟨t, hd, ht⟩, hlong⟩
  · rintro ⟨d, ⟨t, hd, ht⟩, hlong⟩
    exact ⟨t, ht, d, hd, hlong⟩

instance (p : List UInt8) : Decidable (RegistryOverlong p) :=
  decidable_of_bool (registryFindsOverlong p) registryFindsOverlong_iff

/-- There are rounds enough, and an overlong number stands in the text if the behaviour is
undefined. -/
def RegistryEnds {α : Type} (p : List UInt8) (x : Except RegistryFailure α) : Prop :=
  ∀ e, x = .error e → e ≠ .unfinished ∧ (e = .undefined → RegistryOverlong p)

variable {α β : Type} {x : Except RegistryFailure α} {f : α → Except RegistryFailure β} {v : α}
  {e : RegistryFailure} {d key p q file : List UInt8} {fuel : ℕ} {a : TransportAssignment}
  {l found : List TransportAssignment}

section Ends

private theorem RegistryEnds.ok : RegistryEnds p (.ok v) := by
  rintro e ⟨⟩

private theorem RegistryEnds.error (hunfinished : e ≠ .unfinished) (hundefined : e ≠ .undefined) :
    RegistryEnds p (.error e : Except RegistryFailure α) := by
  rintro e ⟨⟩
  exact ⟨hunfinished, fun h => absurd h hundefined⟩

private theorem RegistryEnds.bind (hx : RegistryEnds p x)
    (hf : ∀ v, x = .ok v → RegistryEnds p (f v)) : RegistryEnds p (x >>= f) := by
  cases x with
  | error e =>
    rintro _ ⟨⟩
    exact hx e rfl
  | ok v => exact hf v rfl

private theorem RegistryEnds.mono (h : RegistryEnds q x) (hq : q <:+: p) : RegistryEnds p x := by
  intro e he
  obtain ⟨hunfinished, hundefined⟩ := h e he
  refine ⟨hunfinished, fun h => ?_⟩
  obtain ⟨d, hd, hdigits, hlong⟩ := hundefined h
  exact ⟨d, hd.trans hq, hdigits, hlong⟩

end Ends

private theorem parseIntLoop_ends (hdigits : ∀ b ∈ d, isDigit b = true) :
    RegistryEnds (d ++ p) (parseIntLoop (number d) p) := by
  induction p generalizing d with
  | nil => exact .ok
  | cons b p ih =>
    rw [parseIntLoop]
    split_ifs with hdigit
    · simp only [← number_snoc]
      have hall : d ++ b :: p = (d ++ [b]) ++ p := by
        rw [List.append_assoc, List.singleton_append]
      have hmore : ∀ c ∈ d ++ [b], isDigit c = true := by
        intro c hc
        rcases List.mem_append.mp hc with hc | hc
        · exact hdigits c hc
        · exact List.mem_singleton.mp hc ▸ hdigit
      by_cases hlong : number (d ++ [b]) > registryIntMax
      · rw [if_pos hlong, hall]
        rintro _ ⟨⟩
        exact ⟨by simp, fun _ => ⟨d ++ [b], (List.prefix_append _ _).isInfix, hmore, hlong⟩⟩
      · rw [if_neg hlong, hall]
        exact ih hmore
    · exact .ok

private theorem parseInt_ends : RegistryEnds p (parseInt p) := by
  rw [parseInt]
  split
  · exact .ok
  · next b q hq =>
    split_ifs
    · have hsuffix : b :: q <:+: p := hq ▸ (List.dropWhile_suffix isSpace).isInfix
      have hloop := (@parseIntLoop_ends [] (b :: q) (by simp)).mono hsuffix
      cases hval : parseIntLoop 0 (b :: q) with
      | error e =>
        rintro _ ⟨⟩
        exact hloop e hval
      | ok r => exact .ok
    · exact .ok

private theorem assignText_ends {set : List UInt8 → TransportAssignment} :
    RegistryEnds p (assignText set q) := by
  rw [assignText]
  split
  · exact .error (by simp) (by simp)
  · exact .ok

private theorem assignValue_ends : RegistryEnds p (assignValue a key p) := by
  rw [assignValue]
  split_ifs
  · refine parseInt_ends.bind fun r _ => ?_
    cases r with
    | none => exact .error (by simp) (by simp)
    | some r => exact .ok
  iterate 5 exact assignText_ends
  · split
    · exact .error (by simp) (by simp)
    · exact .ok
  · exact .error (by simp) (by simp)

private theorem parseField_ends : RegistryEnds p (parseField a p) := by
  rw [parseField]
  split
  · exact .error (by simp) (by simp)
  · next key q hkey =>
    obtain ⟨w, t, -, -, rfl⟩ := (parseString_eq_some (by decide)).mp hkey
    dsimp only
    split
    · exact .error (by simp) (by simp)
    · next b r hr =>
      split_ifs
      · exact .error (by simp) (by simp)
      · have hsuffix : r <:+: w ++ (t ++ q) := by
          have hrest : b :: r <:+ q := hr ▸ List.dropWhile_suffix isSpace
          exact (((List.suffix_cons b r).trans hrest).trans
            ((List.suffix_append t q).trans (List.suffix_append w _))).isInfix
        exact (assignValue_ends.mono hsuffix).bind fun _ _ => .ok

private theorem parseFields_ends (hfuel : p.length < fuel) :
    RegistryEnds p (parseFields fuel a p) := by
  -- Each round takes a key at least.
  induction fuel generalizing a p with
  | zero => omega
  | succ fuel ih =>
    cases p with
    | nil => exact .error (by simp) (by simp)
    | cons b p =>
      rw [parseFields]
      split_ifs
      · exact .ok
      · refine parseField_ends.bind fun r hr => ?_
        obtain ⟨f, g, hf, -, hp⟩ := parseField_sound hr
        obtain ⟨w, k, -, hfront⟩ := hf.front
        have hlength := congrArg List.length hp
        rw [hfront] at hlength
        simp only [List.length_append, List.length_cons] at hlength hfuel
        refine (ih (by omega)).mono ?_
        rw [hp]
        exact ((List.suffix_append g r.2).trans (List.suffix_append f _)).isInfix

private theorem parseAssignments_ends (hfuel : p.length < fuel) :
    RegistryEnds p (parseAssignments fuel found p) := by
  induction fuel generalizing found p with
  | zero => omega
  | succ fuel ih =>
    rw [parseAssignments]
    split
    · exact .ok
    · next b q hq =>
      have hq : b :: q <:+ p := hq ▸ List.dropWhile_suffix isSpace
      have hsuffix : q <:+ p := (List.suffix_cons b q).trans hq
      by_cases hclose : b = registryCloseBracket
      · rw [if_pos hclose]
        exact .ok
      rw [if_neg hclose]
      by_cases hopen : b ≠ registryOpenBrace
      · rw [if_pos hopen]
        exact .error (by simp) (by simp)
      rw [if_neg hopen]
      refine ((parseFields_ends (Nat.lt_succ_self _)).mono hsuffix.isInfix).bind fun r hr => ?_
      obtain ⟨body, -, hbody⟩ := parseFields_sound hr
      obtain ⟨g, -, hgap⟩ := skipComma_split r.2
      dsimp only
      split_ifs
      · exact .error (by simp) (by simp)
      · have hrest : skipComma r.2 <:+ q := by
          have hcomma : skipComma r.2 <:+ r.2 := ⟨g, hgap.symm⟩
          rw [hbody]
          exact (hcomma.trans (List.suffix_cons _ _)).trans (List.suffix_append body _)
        have hshort := hrest.length_le
        have hlength := hq.length_le
        rw [List.length_cons] at hlength
        exact (ih (by omega)).mono (hrest.trans hsuffix).isInfix

private theorem checkDuplicates_ends : RegistryEnds p (checkDuplicates a l) := by
  induction l with
  | nil => exact .ok
  | cons b l ih =>
    rw [checkDuplicates]
    split_ifs
    iterate 3 exact .error (by simp) (by simp)
    exact ih

private theorem checkStatus_ends : RegistryEnds p (checkStatus a) := by
  rw [checkStatus]
  split_ifs
  iterate 3 exact .error (by simp) (by simp)
  · exact .ok
  · exact .error (by simp) (by simp)
  · exact .ok

private theorem checkAssignments_ends {has : RegistryBindings} :
    RegistryEnds p (checkAssignments has l) := by
  induction l generalizing has with
  | nil => exact .ok
  | cons a l ih =>
    rw [checkAssignments]
    split_ifs
    · exact .error (by simp) (by simp)
    · exact checkDuplicates_ends.bind fun _ _ => checkStatus_ends.bind fun _ _ => ih

private theorem checkRegistry_ends : RegistryEnds p (checkRegistry l) := by
  rw [checkRegistry]
  split_ifs
  · exact .error (by simp) (by simp)
  · refine checkAssignments_ends.bind fun has _ => ?_
    split_ifs
    · exact .error (by simp) (by simp)
    · exact .ok

private theorem checkFieldWidth_ends : RegistryEnds p (checkFieldWidth p) := by
  rw [checkFieldWidth]
  split
  · exact .error (by simp) (by simp)
  · next q hq =>
    obtain ⟨skipped, rfl, -⟩ := (search_eq_some (by decide)).mp hq
    have hsuffix : q.drop registryWidthKey.length <:+: skipped ++ q :=
      ((List.drop_suffix _ _).trans (List.suffix_append skipped q)).isInfix
    refine (parseInt_ends.mono hsuffix).bind fun r _ => ?_
    cases r with
    | none => exact .error (by simp) (by simp)
    | some r =>
      dsimp only
      split_ifs
      · exact .error (by simp) (by simp)
      · exact .ok

private theorem findAssignments_ends : RegistryEnds p (findAssignments p) := by
  rw [findAssignments]
  split
  · exact .error (by simp) (by simp)
  · split
    · exact .error (by simp) (by simp)
    · exact .ok

private theorem findAssignments_suffix (h : findAssignments p = .ok q) : q <:+ p := by
  obtain ⟨r, ⟨skipped, hskipped, -⟩, ⟨between, hbetween, -⟩⟩ := findAssignments_eq_ok.mp h
  rw [hskipped, hbetween]
  exact ((List.suffix_cons _ q).trans (List.suffix_append between _)).trans
    (List.suffix_append skipped _)

private theorem validateTransportRegistry_ends :
    RegistryEnds file (validateTransportRegistry file) := by
  have hbuf : file.take (registryMaxFileSize - 1) <:+: file := (List.take_prefix _ _).isInfix
  rw [validateTransportRegistry]
  refine (checkFieldWidth_ends.mono hbuf).bind fun _ _ => ?_
  refine (findAssignments_ends.mono hbuf).bind fun q hq => ?_
  have hsuffix := (findAssignments_suffix hq).isInfix.trans hbuf
  exact ((parseAssignments_ends (Nat.lt_succ_self _)).mono hsuffix).bind
    fun _ _ => checkRegistry_ends

/-- Every file without an overlong number is answered, by an exit code and what is printed. -/
theorem registryMain_answers (hshort : ¬ RegistryOverlong file) :
    ∃ code printed, registryMain file = some (code, printed) ∧ code ≤ 1 := by
  have hends := @validateTransportRegistry_ends file
  rw [registryMain]
  cases hval : validateTransportRegistry file with
  | ok count => exact ⟨0, _, rfl, Nat.zero_le 1⟩
  | error e =>
    obtain ⟨hunfinished, hundefined⟩ := hends e hval
    have hdefined : e ≠ .undefined := fun h => hshort (hundefined h)
    cases e with
    | undefined => exact absurd rfl hdefined
    | unfinished => exact absurd rfl hunfinished
    | _ => exact ⟨1, _, rfl, Nat.le_refl 1⟩

/-- Two assignments under one identifier, and white space and commas where the validator tolerates
them. -/
theorem registryMain_answers_duplicate :
    ∃ code printed, registryMain (bytes "\"field_width_bits\": 8, \"assignments\": " ++
      bytes "[\x7b\"identifier\": 9, \"name\": \"x\"\x7d, \x7b\"identifier\": 9\x7d,]") =
        some (code, printed) ∧ code ≤ 1 :=
  registryMain_answers (by decide +kernel)

end MclLink
