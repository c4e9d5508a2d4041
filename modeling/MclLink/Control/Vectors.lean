import MclLink.Control.Framing
import MclLink.Lib.Text

/-!
# The validator of the handoff vectors

`tools/validate_handoff_vectors.c`. A pointer into the file is what the file still holds from there
on, and a pointer that bounds a search is the number of bytes from there on; `ulongMax` is the
largest `unsigned long`.
-/

namespace MclLink

open Bytes Text

abbrev handoffVectorsMaxFileSize : ℕ := 65536
abbrev handoffVectorsMaxHexChars : ℕ := 512
abbrev handoffVectorsQuote : UInt8 := 34

/-- Why a vector fails, with the two numbers that are compared. -/
inductive HandoffVectorFailure where
  | badHex
  | notDecoded (status : MclLinkStatus)
  | noOperation
  | operation (got expected : ℕ)
  | migrationRef (got : ℕ) (expected : Option ℕ)
  | sessionRef (got : ℕ) (expected : Option ℕ)
  | size (got : ℕ) (expected : Option ℕ)
  | notEncoded
  | encodedLength (got expected : ℕ)
  | encodedBytes
  | noExpect
  | status (got expected : MclLinkStatus)
  deriving DecidableEq, Repr

/-- The text that `fail` prints about it. -/
def HandoffVectorFailure.why : HandoffVectorFailure → String
  | .badHex => "bytes_hex is not valid hex or is too long"
  | .notDecoded _ => "a positive vector did not decode"
  | .noOperation => "positive vector declares no operation"
  | .operation .. => "bytes decode to a different operation"
  | .migrationRef .. => "bytes decode to a different migration_ref"
  | .sessionRef .. => "bytes decode to a different session_ref"
  | .size .. => "declared size differs from the byte count"
  | .notEncoded => "decoded vector did not re-encode"
  | .encodedLength .. => "re-encoded length differs"
  | .encodedBytes => "re-encoded bytes differ"
  | .noExpect => "negative vector has no expect field"
  | .status .. => "negative vector produced the wrong status"

/-- What is declared about a vector: numbers beside the bytes, or the status they lead to. -/
inductive HandoffDeclared where
  | positive (operation migrationRef sessionRef size : Option ℕ)
  | negative (expect : Option (List UInt8))
  deriving DecidableEq, Repr

/-- A vector as it is read; there are no bytes if they are not written in hexadecimal. -/
structure HandoffVector where
  name : List UInt8
  bytes : Option (List UInt8)
  declared : HandoffDeclared
  deriving DecidableEq, Repr

def handoffSeparator (b : UInt8) : Bool := b = 32 ∨ b = 58 ∨ b = 9 ∨ b = 10 ∨ b = 13

def skipSeparators (left : ℕ) : List UInt8 → List UInt8
  | [] => []
  | b :: p =>
    if left < (b :: p).length ∧ handoffSeparator b = true then skipSeparators left p else b :: p

/-- The characters up to a quote, if they fit. -/
def readStringValue (left outSize : ℕ) (out : List UInt8) :
    List UInt8 → Option (List UInt8 × List UInt8)
  | [] => none
  | b :: p =>
    if (b :: p).length ≤ left then none
    else if b = handoffVectorsQuote then some (out, p)
    else if out.length + 1 ≥ outSize then none
    else readStringValue left outSize (out ++ [b]) p

def handoffKey (key : String) : List UInt8 :=
  handoffVectorsQuote :: (bytes key ++ [handoffVectorsQuote])

/-- The loop over the places at which a key stands, which leaves out those without a text. -/
def findStringLoop (left outSize : ℕ) (key : String) :
    ℕ → List UInt8 → Option (List UInt8 × List UInt8)
  | 0, _ => none
  | fuel + 1, p =>
    match search 0 (handoffKey key) p with
    | none => none
    | some p =>
      if p.length ≤ left then none
      else
        let p := skipSeparators left (p.drop (handoffKey key).length)
        if left < p.length ∧ p.head? = some handoffVectorsQuote then
          readStringValue left outSize [] p.tail
        else findStringLoop left outSize key fuel p

def findStringValue (left outSize : ℕ) (key : String) (p : List UInt8) :
    Option (List UInt8 × List UInt8) :=
  findStringLoop left outSize key (p.length + 1) p

def findNumberValue (ulongMax left : ℕ) (key : String) (p : List UInt8) : Option ℕ :=
  match search 0 (handoffKey key) p with
  | none => none
  | some p =>
    if p.length ≤ left then none
    else
      let p := skipSeparators left (p.drop (handoffKey key).length)
      if p.length ≤ left ∨ p.head?.any isDigit = false then none
      else some (min (number (p.takeWhile isDigit)) ulongMax)

def hexValue (c : UInt8) : Option ℕ :=
  if 48 ≤ c ∧ c ≤ 57 then some (c.toNat - 48)
  else if 97 ≤ c ∧ c ≤ 102 then some (10 + (c.toNat - 97))
  else if 65 ≤ c ∧ c ≤ 70 then some (10 + (c.toNat - 65))
  else none

def decodeHexPairs : List UInt8 → Option (List UInt8)
  | [] => some []
  | [_] => none
  | hi :: lo :: hex => do
    let hi ← hexValue hi
    let lo ← hexValue lo
    let out ← decodeHexPairs hex
    some (UInt8.ofNat (hi <<< 4 ||| lo) :: out)

def decodeHex (hex : List UInt8) (outCapacity : ℕ) : Option (List UInt8) :=
  if hex.length % 2 ≠ 0 ∨ hex.length / 2 > outCapacity then none else decodeHexPairs hex

def statusFromName (name : List UInt8) : MclLinkStatus :=
  if name = bytes "TRUNCATED" then .errTruncated
  else if name = bytes "RANGE" then .errRange
  else if name = bytes "INCOMPATIBLE_VERSION" then .errIncompatibleVersion
  else .errInvalidArgument

/-- Encoding what was decoded. -/
def checkEncoded (control : MclHandoffControl) (vector : List UInt8) :
    Option HandoffVectorFailure :=
  match mclHandoffControlEncode (some control)
      (some (List.replicate mclHandoffControlMaxSize 0)) (some 0) with
  | (.ok, some out, some written) =>
    if written ≠ vector.length then some (.encodedLength written vector.length)
    else if out.take written ≠ vector then some .encodedBytes
    else none
  | _ => some .notEncoded

/-- The checks on one vector of `check_section`; `none` when it passes. -/
def HandoffVector.check (v : HandoffVector) : Option HandoffVectorFailure :=
  match v.bytes with
  | none => some .badHex
  | some vector =>
    match v.declared with
    | .positive operation migrationRef sessionRef size =>
      match mclHandoffControlDecode (some vector) (some mclHandoffControlBlank) with
      | (.ok, some control) =>
        match operation with
        | none => some .noOperation
        | some operation =>
          if control.operation.toNat ≠ operation then
            some (.operation control.operation.toNat operation)
          else if migrationRef ≠ some control.migrationRef.toNat then
            some (.migrationRef control.migrationRef.toNat migrationRef)
          else if sessionRef ≠ some control.sessionRef.toNat then
            some (.sessionRef control.sessionRef.toNat sessionRef)
          else if size ≠ some vector.length then some (.size vector.length size)
          else checkEncoded control vector
      | (status, _) => some (.notDecoded status)
    | .negative none => some .noExpect
    | .negative (some expect) =>
      let status := (mclHandoffControlDecode (some vector) (some mclHandoffControlBlank)).1
      if status ≠ statusFromName expect then some (.status status (statusFromName expect))
      else none

/-- The walk of `check_section`: the vectors it comes by; `none` when the fuel runs out. -/
def handoffSection (ulongMax left : ℕ) (positive : Bool) :
    ℕ → List UInt8 → Option (List HandoffVector)
  | 0, _ => none
  | fuel + 1, cursor =>
    match findStringValue left 128 "name" cursor with
    | none => some []
    | some (name, afterName) =>
      match findStringValue left handoffVectorsMaxHexChars "bytes_hex" afterName with
      | none => some []
      | some (hex, cursor) =>
        let vector := decodeHex (untilZero hex) 64
        if positive = true then
          let declared := HandoffDeclared.positive
            (findNumberValue ulongMax cursor.length "operation" afterName)
            (findNumberValue ulongMax cursor.length "migration_ref" afterName)
            (findNumberValue ulongMax cursor.length "session_ref" afterName)
            (findNumberValue ulongMax cursor.length "size" afterName)
          (handoffSection ulongMax left positive fuel cursor).map
            (⟨untilZero name, vector, declared⟩ :: ·)
        else if vector = none then
          (handoffSection ulongMax left positive fuel cursor).map
            (⟨untilZero name, none, .negative none⟩ :: ·)
        else
          match findStringValue left 64 "expect" cursor with
          | none =>
            (handoffSection ulongMax left positive fuel cursor).map
              (⟨untilZero name, vector, .negative none⟩ :: ·)
          | some (expect, cursor) =>
            (handoffSection ulongMax left positive fuel cursor).map
              (⟨untilZero name, vector, .negative (some (untilZero expect))⟩ :: ·)

/-- The positive and the negative section of a file, if it has them in this order. -/
def handoffSections (file : List UInt8) : Option (List UInt8 × List UInt8) :=
  let gFile := file.take (handoffVectorsMaxFileSize - 1)
  if gFile.length = 0 ∨ gFile.length ≥ handoffVectorsMaxFileSize - 1 then none
  else
    match search 0 (handoffKey "positive") gFile, search 0 (handoffKey "negative") gFile with
    | some positiveStart, some negativeStart =>
      if negativeStart.length ≥ positiveStart.length then none
      else some (positiveStart, negativeStart)
    | _, _ => none

/-- All vectors that are checked; `none` when the fuel of a section runs out. -/
def handoffVectors (ulongMax : ℕ) (sections : List UInt8 × List UInt8) :
    Option (List HandoffVector) := do
  let positive ← handoffSection ulongMax sections.2.length true (sections.1.length + 1) sections.1
  let negative ← handoffSection ulongMax 0 false (sections.2.length + 1) sections.2
  some (positive ++ negative)

/-- The failure of a vector under its name, as `fail` prints it. -/
def HandoffVector.fail (v : HandoffVector) : Option (List UInt8 × HandoffVectorFailure) :=
  v.check.map (v.name, ·)

/-- The exit code of `main` and the failures it has printed. -/
def handoffVectorsMain (ulongMax : ℕ) (file : List UInt8) :
    Option (ℕ × List (List UInt8 × HandoffVectorFailure)) :=
  match handoffSections file with
  | none => some (2, [])
  | some sections => (handoffVectors ulongMax sections).map fun vectors =>
    let failures := vectors.filterMap HandoffVector.fail
    if vectors.length = 0 then (2, failures)
    else if failures.length = 0 then (0, failures)
    else (1, failures)

/-- The failures of encoding again what was decoded. -/
def HandoffVectorFailure.reencodes (f : HandoffVectorFailure) : Bool :=
  f.why = HandoffVectorFailure.notEncoded.why ∨
    f.why = (HandoffVectorFailure.encodedLength 0 0).why ∨
      f.why = HandoffVectorFailure.encodedBytes.why

/-- The bytes are the control that is declared beside them, or lead to the status declared. -/
def HandoffVector.Right (v : HandoffVector) : Prop :=
  ∃ vector, v.bytes = some vector ∧
    match v.declared with
    | .positive operation migrationRef sessionRef size =>
      ∃ control, mclHandoffFormat.Legal control ∧ mclHandoffFormat.layout control = vector ∧
        operation = some control.operation.toNat ∧
        migrationRef = some control.migrationRef.toNat ∧
        sessionRef = some control.sessionRef.toNat ∧ size = some vector.length
    | .negative expect => ∃ name, expect = some name ∧
        (mclHandoffControlDecode (some vector) (some mclHandoffControlBlank)).1 =
          statusFromName name

variable {ulongMax left outSize fuel : ℕ} {sign : Bool} {key : String}
  {p q s vector file : List UInt8} {control : MclHandoffControl} {v : HandoffVector}

section Checks

private theorem checkEncoded_of_decode (h : mclHandoffControlDecode (some vector)
    (some mclHandoffControlBlank) = (.ok, some control)) : checkEncoded control vector = none := by
  obtain ⟨hlegal, -, rfl⟩ := mclHandoff_implements.of_decode h
  have hroom : (mclHandoffFormat.layout control).length ≤
      (List.replicate mclHandoffControlMaxSize (0 : UInt8)).length := by
    rw [List.length_replicate, mclHandoffFormat_length hlegal.1,
      mclHandoffControlEncodedSize_eq hlegal.1]
    split_ifs <;> decide
  rw [checkEncoded, mclHandoff_implements.encode_ok 0 hlegal hroom]
  dsimp only
  rw [if_neg (not_not.mpr rfl), List.take_left, if_neg (not_not.mpr rfl)]

private theorem HandoffVector.check_reencodes (f : HandoffVectorFailure) (h : v.check = some f) :
    f.reencodes = false := by
  rw [HandoffVector.check] at h
  split at h
  · cases h
    rfl
  · split at h
    · split at h
      · next hdec =>
        split at h
        · cases h
          rfl
        · rw [checkEncoded_of_decode hdec] at h
          split_ifs at h <;> cases h <;> rfl
      · cases h
        rfl
    · cases h
      rfl
    · dsimp only at h
      split_ifs at h
      cases h
      rfl

private theorem HandoffVector.check_eq_none : v.check = none ↔ v.Right := by
  rw [HandoffVector.check, HandoffVector.Right]
  cases hbytes : v.bytes with
  | none => simp
  | some vector =>
    cases hdeclared : v.declared with
    | positive operation migrationRef sessionRef size =>
      dsimp only
      constructor
      · intro h
        split at h
        · next control hdec =>
          obtain ⟨hlegal, -, hlayout⟩ := mclHandoff_implements.of_decode hdec
          cases operation with
          | none => cases h
          | some operation =>
            dsimp only at h
            split_ifs at h with hoperation hmigration hsession hsize
            exact ⟨vector, rfl, control, hlegal, hlayout,
              congrArg some (not_not.mp hoperation).symm, not_not.mp hmigration,
              not_not.mp hsession, not_not.mp hsize⟩
        · cases h
      · rintro ⟨_, ⟨⟩, control, hlegal, rfl, rfl, rfl, rfl, rfl⟩
        have hdec := mclHandoff_implements.decode_ok mclHandoffControlBlank hlegal
        rw [hdec]
        dsimp only
        rw [checkEncoded_of_decode hdec]
        simp [mclHandoffFormat, MclHandoffControl.received]
    | negative expect =>
      cases expect with
      | none => simp
      | some name =>
        simp

private theorem HandoffVector.fail_eq_none : v.fail = none ↔ v.Right :=
  Option.map_eq_none_iff.trans HandoffVector.check_eq_none

end Checks

section Walks

private theorem skipSeparators_suffix : skipSeparators left p <:+ p := by
  induction p with
  | nil => exact List.suffix_refl _
  | cons b p ih =>
    rw [skipSeparators]
    split_ifs
    · exact ih.trans (List.suffix_cons b p)
    · exact List.suffix_refl _

private theorem readStringValue_shorter {out : List UInt8}
    (h : readStringValue left outSize out p = some (s, q)) : q.length < p.length := by
  induction p generalizing out with
  | nil => cases h
  | cons b p ih =>
    rw [readStringValue] at h
    rw [List.length_cons]
    split_ifs at h with hend hquote hfull
    · cases h
      exact Nat.lt_succ_self _
    · exact Nat.lt_succ_of_lt (ih h)

private theorem search_behind (h : search 0 (handoffKey key) p = some q) :
    (skipSeparators left (q.drop (handoffKey key).length)).length < p.length := by
  obtain ⟨skipped, rfl, -, ⟨more, hmore⟩, -⟩ := (search_eq_some (List.cons_ne_nil _ _)).mp h
  have hq : handoffKey key ++ more = q := hmore
  have hskip := (@skipSeparators_suffix left more).length_le
  have hkey : 0 < (handoffKey key).length := Nat.succ_pos _
  rw [← hq, List.drop_left, List.length_append, List.length_append]
  omega

private theorem findStringLoop_shorter (h : findStringLoop left outSize key fuel p = some (s, q)) :
    q.length < p.length := by
  induction fuel generalizing p with
  | zero => cases h
  | succ fuel ih =>
    rw [findStringLoop] at h
    split at h
    · cases h
    · next r hr =>
      dsimp only at h
      have hbehind := @search_behind left key p r hr
      split_ifs at h with hend hquote
      · have hread := readStringValue_shorter h
        rw [List.length_tail] at hread
        omega
      · exact (ih h).trans hbehind

/-- More rounds than there are characters change nothing. -/
theorem findStringLoop_rounds (hfuel : p.length < fuel) :
    findStringLoop left outSize key fuel p = findStringValue left outSize key p := by
  rw [findStringValue]
  have hgeneral : ∀ {n fuel : ℕ} {p : List UInt8}, p.length < n → p.length < fuel →
      findStringLoop left outSize key fuel p = findStringLoop left outSize key n p := by
    intro n
    induction n with
    | zero => intro fuel p hn; omega
    | succ n ih =>
      intro fuel p hn hfuel
      obtain ⟨fuel, rfl⟩ : ∃ m, fuel = m + 1 := ⟨fuel - 1, by omega⟩
      rw [findStringLoop, findStringLoop]
      cases hr : search 0 (handoffKey key) p with
      | none => rfl
      | some r =>
        have hbehind := @search_behind left key p r hr
        dsimp only
        rw [ih (by omega) (by omega)]
  exact hgeneral (Nat.lt_succ_self _) hfuel

private theorem handoffSection_ends (hfuel : p.length < fuel) :
    ∃ vectors, handoffSection ulongMax left sign fuel p = some vectors := by
  induction fuel generalizing p with
  | zero => omega
  | succ fuel ih =>
    rw [handoffSection]
    split
    · exact ⟨[], rfl⟩
    · next name afterName hname =>
      have hshorter := findStringLoop_shorter hname
      split
      · exact ⟨[], rfl⟩
      · next hex cursor hhex =>
        have hcursor := findStringLoop_shorter hhex
        obtain ⟨rest, hrest⟩ := ih (p := cursor) (by omega)
        dsimp only
        split_ifs
        · exact ⟨_, by rw [hrest]; rfl⟩
        · exact ⟨_, by rw [hrest]; rfl⟩
        · split
          · exact ⟨_, by rw [hrest]; rfl⟩
          · next expect cursor' hexpect =>
            have hlast := findStringLoop_shorter hexpect
            obtain ⟨rest', hrest'⟩ := ih (p := cursor') (by omega)
            exact ⟨_, by rw [hrest']; rfl⟩

private theorem handoffVectors_ends (sections : List UInt8 × List UInt8) :
    ∃ vectors, handoffVectors ulongMax sections = some vectors := by
  obtain ⟨positive, hpositive⟩ := @handoffSection_ends ulongMax sections.2.length
    (sections.1.length + 1) true sections.1 (Nat.lt_succ_self _)
  obtain ⟨negative, hnegative⟩ := @handoffSection_ends ulongMax 0 (sections.2.length + 1) false
    sections.2 (Nat.lt_succ_self _)
  exact ⟨positive ++ negative, by rw [handoffVectors, hpositive, hnegative]; rfl⟩

end Walks

/-- Whatever the file, the tool ends, and it never finds that what it decoded encodes to other
bytes. -/
theorem handoffVectorsMain_round_trips : ∃ code failures,
    handoffVectorsMain ulongMax file = some (code, failures) ∧ code ≤ 2 ∧
      ∀ f ∈ failures, f.2.reencodes = false := by
  rw [handoffVectorsMain]
  cases handoffSections file with
  | none => exact ⟨2, [], rfl, Nat.le_refl 2, by simp⟩
  | some sections =>
    obtain ⟨vectors, hvectors⟩ := @handoffVectors_ends ulongMax sections
    have hfailures : ∀ f ∈ vectors.filterMap HandoffVector.fail, f.2.reencodes = false := by
      intro f hf
      obtain ⟨v, -, hv⟩ := List.mem_filterMap.mp hf
      obtain ⟨failure, hfailure, rfl⟩ := Option.map_eq_some_iff.mp hv
      exact HandoffVector.check_reencodes failure hfailure
    dsimp only
    rw [hvectors, Option.map_some]
    split_ifs
    · exact ⟨2, _, rfl, by omega, hfailures⟩
    · exact ⟨0, _, rfl, by omega, hfailures⟩
    · exact ⟨1, _, rfl, by omega, hfailures⟩

/-- A file passes exactly when it has vectors and all of them are right. -/
theorem handoffVectorsMain_passes :
    (∃ failures, handoffVectorsMain ulongMax file = some (0, failures)) ↔
      ∃ sections vectors, handoffSections file = some sections ∧
        handoffVectors ulongMax sections = some vectors ∧ vectors ≠ [] ∧
          ∀ v ∈ vectors, v.Right := by
  rw [handoffVectorsMain]
  cases handoffSections file with
  | none => simp
  | some sections =>
    obtain ⟨vectors, hvectors⟩ := @handoffVectors_ends ulongMax sections
    have hpass : (vectors.filterMap HandoffVector.fail).length = 0 ↔ ∀ v ∈ vectors, v.Right := by
      rw [List.length_eq_zero_iff, List.filterMap_eq_nil_iff]
      exact forall₂_congr fun v _ => HandoffVector.fail_eq_none
    constructor
    · rintro ⟨failures, h⟩
      dsimp only at h
      rw [hvectors, Option.map_some] at h
      split_ifs at h with hempty hclean
      · cases h
      · exact ⟨sections, vectors, rfl, hvectors, mt List.length_eq_zero_iff.mpr hempty,
          hpass.mp hclean⟩
      · cases h
    · rintro ⟨_, _, ⟨⟩, hvectors', hsome, hright⟩
      obtain rfl := Option.some.inj (hvectors.symm.trans hvectors')
      dsimp only
      rw [hvectors, Option.map_some, if_neg (mt List.length_eq_zero_iff.mp hsome),
        if_pos (hpass.mpr hright)]
      exact ⟨_, rfl⟩

end MclLink
