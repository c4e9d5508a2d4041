import MclLink.Lib.Text

/-!
# The validator of the transport registry

`tools/validate_transport_registry.c`, in the order of the source. A pointer into the file is what
the file still holds from there on, `NULL` is `none`, and every way in which `main` gives up is a
`RegistryFailure` with the values that it prints.
-/

namespace MclLink

open Text

abbrev registryMaxFileSize : ℕ := 16384
abbrev registryMaxAssignments : ℕ := 64
abbrev registryMaxStrLen : ℕ := 64
abbrev registryMaxDescLen : ℕ := 512

/-- The largest `int`. -/
abbrev registryIntMax : ℕ := 2147483647

abbrev registryQuote : UInt8 := 34
abbrev registryComma : UInt8 := 44
abbrev registryColon : UInt8 := 58
abbrev registryOpenBracket : UInt8 := 91
abbrev registryBackslash : UInt8 := 92
abbrev registryCloseBracket : UInt8 := 93
abbrev registryOpenBrace : UInt8 := 123
abbrev registryCloseBrace : UInt8 := 125

/-- `transport_assignment_t`, with each array as the text it holds. -/
structure TransportAssignment where
  id : ℕ
  name : List UInt8
  status : List UInt8
  ownerRepo : List UInt8
  normativeSpecification : List UInt8
  specificationStatus : List UInt8
  deriving DecidableEq, Repr

def transportAssignmentBlank : TransportAssignment := ⟨0, [], [], [], [], []⟩

inductive RegistryFailure where
  /-- Signed overflow: the program has no defined behaviour from here on. -/
  | undefined
  /-- The rounds given to a loop were not enough for it. -/
  | unfinished
  | missingFieldWidthBits
  | fieldWidthBits (bits : ℕ)
  | missingAssignments
  | notAnArray
  | expectedObject
  | malformedKey
  | expectedColon (key : List UInt8)
  | malformedValue
  | malformedDescription (key : List UInt8)
  | unknownKey (key : List UInt8)
  | unterminatedObject
  | tooManyAssignments
  | noAssignments
  | invalidId (id : ℕ)
  | duplicateId (id : ℕ)
  | duplicateName (name : List UInt8)
  | duplicateOwner (ownerRepo : List UInt8)
  | unknownStatus (id : ℕ) (status : List UInt8)
  | citesNothing (id : ℕ)
  | specificationNotStable (id : ℕ) (specificationStatus : List UInt8)
  | assignmentNotStable (id : ℕ) (status : List UInt8)
  | missingBindings
  deriving DecidableEq, Repr

/-- What is printed on the way out. -/
def RegistryFailure.message : RegistryFailure → List UInt8
  | undefined | unfinished | malformedValue => []
  | missingFieldWidthBits => bytes "Missing field_width_bits\n"
  | fieldWidthBits bits =>
    bytes "field_width_bits must be 8, got " ++ bytes (toString bits) ++ bytes "\n"
  | missingAssignments => bytes "Missing assignments array\n"
  | notAnArray => bytes "assignments is not an array\n"
  | expectedObject => bytes "Expected object at start of assignment\n"
  | malformedKey => bytes "Malformed key in assignment object\n"
  | expectedColon key => bytes "Expected ':' after key '" ++ key ++ bytes "'\n"
  | malformedDescription key =>
    bytes "Malformed or oversize value for key '" ++ key ++ bytes "'\n"
  | unknownKey key => bytes "Unknown key '" ++ key ++ bytes "' in assignment object\n"
  | unterminatedObject => bytes "Unterminated assignment object\n"
  | tooManyAssignments => bytes "Too many assignments\n"
  | noAssignments => bytes "No assignments found\n"
  | invalidId id => bytes "Invalid transport ID " ++ bytes (toString id) ++ bytes "\n"
  | duplicateId id => bytes "Duplicate transport ID: " ++ bytes (toString id) ++ bytes "\n"
  | duplicateName name => bytes "Duplicate transport name: " ++ name ++ bytes "\n"
  | duplicateOwner ownerRepo => bytes "Duplicate transport owner: " ++ ownerRepo ++ bytes "\n"
  | unknownStatus id status =>
    bytes "Transport " ++ bytes (toString id) ++ bytes ": unknown status '" ++ status ++
      bytes "' (expected \"stable\" or \"provisional\")\n"
  | citesNothing id =>
    bytes "Transport " ++ bytes (toString id) ++
      bytes " is stable but cites no normative_specification\n"
  | specificationNotStable id specificationStatus =>
    bytes "Transport " ++ bytes (toString id) ++
      bytes " is stable but its specification status is '" ++ specificationStatus ++
      bytes "', not Stable\n"
  | assignmentNotStable id status =>
    bytes "Transport " ++ bytes (toString id) ++
      bytes " claims a Stable specification while the assignment itself is '" ++ status ++
      bytes "'\n"
  | missingBindings =>
    bytes "Missing expected standard transport bindings (AP, IP, BLE, UWB)\n"

def skipWs (p : List UInt8) : List UInt8 := p.dropWhile isSpace

/-- The loop of `parseString`, with what it has stored. -/
def parseStringLoop (outSize : ℕ) (out : List UInt8) :
    List UInt8 → Option (List UInt8 × List UInt8)
  | [] => none
  | b :: p =>
    if b = registryQuote then some (out, p)
    else if b = registryBackslash ∨ out.length + 1 ≥ outSize then none
    else parseStringLoop outSize (out ++ [b]) p

def parseString (p : List UInt8) (outSize : ℕ) : Option (List UInt8 × List UInt8) :=
  match skipWs p with
  | [] => none
  | b :: p => if b ≠ registryQuote then none else parseStringLoop outSize [] p

/-- The loop of `parseInt`. -/
def parseIntLoop (val : ℕ) : List UInt8 → Except RegistryFailure (ℕ × List UInt8)
  | [] => .ok (val, [])
  | b :: p =>
    if isDigit b then
      let val := val * 10 + digitValue b
      if val > registryIntMax then .error .undefined else parseIntLoop val p
    else .ok (val, b :: p)

def parseInt (p : List UInt8) : Except RegistryFailure (Option (ℕ × List UInt8)) :=
  match skipWs p with
  | [] => .ok none
  | b :: p => if isDigit b then (parseIntLoop 0 (b :: p)).map some else .ok none

/-- A text that is kept, or the failure to read one. -/
def assignText (set : List UInt8 → TransportAssignment) (p : List UInt8) :
    Except RegistryFailure (TransportAssignment × List UInt8) :=
  match parseString p registryMaxStrLen with
  | none => .error .malformedValue
  | some (value, p) => .ok (set (untilZero value), p)

/-- The value behind a key. -/
def assignValue (a : TransportAssignment) (key p : List UInt8) :
    Except RegistryFailure (TransportAssignment × List UInt8) :=
  if key = bytes "id" then do
    match ← parseInt p with
    | none => throw .malformedValue
    | some (id, p) => pure ({ a with id := id }, p)
  else if key = bytes "name" then assignText (fun s => { a with name := s }) p
  else if key = bytes "status" then assignText (fun s => { a with status := s }) p
  else if key = bytes "owner_repo" then assignText (fun s => { a with ownerRepo := s }) p
  else if key = bytes "normative_specification" then
    assignText (fun s => { a with normativeSpecification := s }) p
  else if key = bytes "specification_status" then
    assignText (fun s => { a with specificationStatus := s }) p
  else if key = bytes "family" ∨ key = bytes "detail" ∨ key = bytes "specification_note" then
    match parseString p registryMaxDescLen with
    | none => .error (.malformedDescription key)
    | some (_, p) => .ok (a, p)
  else .error (.unknownKey key)

/-- White space, and a comma if there is one. -/
def skipComma (p : List UInt8) : List UInt8 :=
  let p := skipWs p
  if p.head? = some registryComma then p.tail else p

/-- One round of the loop over the keys of an object. -/
def parseField (a : TransportAssignment) (p : List UInt8) :
    Except RegistryFailure (TransportAssignment × List UInt8) :=
  match parseString p registryMaxStrLen with
  | none => .error .malformedKey
  | some (key, p) =>
    let key := untilZero key
    match skipWs p with
    | [] => .error (.expectedColon key)
    | b :: p =>
      if b ≠ registryColon then .error (.expectedColon key)
      else do
        let (a, p) ← assignValue a key p
        pure (a, skipComma p)

/-- The loop over the keys of an object, and the brace behind it. -/
def parseFields : ℕ → TransportAssignment → List UInt8 →
    Except RegistryFailure (TransportAssignment × List UInt8)
  | 0, _, _ => .error .unfinished
  | _ + 1, _, [] => .error .unterminatedObject
  | fuel + 1, a, b :: p =>
    if b = registryCloseBrace then .ok (a, p)
    else do
      let (a, p) ← parseField a (b :: p)
      parseFields fuel a p

/-- The loop over the assignments. -/
def parseAssignments : ℕ → List TransportAssignment → List UInt8 →
    Except RegistryFailure (List TransportAssignment)
  | 0, _, _ => .error .unfinished
  | fuel + 1, assignments, p =>
    match skipWs p with
    | [] => .ok assignments
    | b :: p =>
      if b = registryCloseBracket then .ok assignments
      else if b ≠ registryOpenBrace then .error .expectedObject
      else do
        let (a, p) ← parseFields (p.length + 1) transportAssignmentBlank p
        if assignments.length ≥ registryMaxAssignments then throw .tooManyAssignments
        else parseAssignments fuel (assignments ++ [a]) (skipComma p)

/-- The inner loop of the validations. -/
def checkDuplicates (a : TransportAssignment) :
    List TransportAssignment → Except RegistryFailure Unit
  | [] => .ok ()
  | b :: rest =>
    if a.id = b.id then .error (.duplicateId a.id)
    else if a.name = b.name then .error (.duplicateName a.name)
    else if a.ownerRepo = b.ownerRepo then .error (.duplicateOwner a.ownerRepo)
    else checkDuplicates a rest

def checkStatus (a : TransportAssignment) : Except RegistryFailure Unit :=
  if a.status ≠ bytes "stable" ∧ a.status ≠ bytes "provisional" then
    .error (.unknownStatus a.id a.status)
  else if a.status = bytes "stable" then
    if a.normativeSpecification = [] then .error (.citesNothing a.id)
    else if a.specificationStatus ≠ bytes "Stable" then
      .error (.specificationNotStable a.id a.specificationStatus)
    else .ok ()
  else if a.specificationStatus = bytes "Stable" then .error (.assignmentNotStable a.id a.status)
  else .ok ()

/-- `has_ap`, `has_ip`, `has_ble` and `has_uwb`. -/
structure RegistryBindings where
  hasAp : Bool
  hasIp : Bool
  hasBle : Bool
  hasUwb : Bool
  deriving DecidableEq, Repr

def TransportAssignment.binds (a : TransportAssignment) (id : ℕ) (name ownerRepo : String) : Bool :=
  a.id = id ∧ a.name = bytes name ∧ a.ownerRepo = bytes ownerRepo

def RegistryBindings.note (has : RegistryBindings) (a : TransportAssignment) : RegistryBindings where
  hasAp := if a.binds 1 "MCL_AP" "mcl-ap" then true else has.hasAp
  hasIp := if a.binds 2 "MCL_IP" "mcl-ip" then true else has.hasIp
  hasBle := if a.binds 3 "MCL_BLE" "mcl-ble" then true else has.hasBle
  hasUwb := if a.binds 4 "MCL_UWB" "mcl-uwb" then true else has.hasUwb

/-- The loop of the validations. -/
def checkAssignments (has : RegistryBindings) :
    List TransportAssignment → Except RegistryFailure RegistryBindings
  | [] => .ok has
  | a :: rest =>
    if a.id < 1 ∨ a.id > 0x7F then .error (.invalidId a.id)
    else do
      checkDuplicates a rest
      checkStatus a
      checkAssignments (has.note a) rest

/-- The validations, down to the number that is printed. -/
def checkRegistry (assignments : List TransportAssignment) : Except RegistryFailure ℕ :=
  if assignments.length = 0 then .error .noAssignments
  else do
    let has ← checkAssignments ⟨false, false, false, false⟩ assignments
    if has ≠ ⟨true, true, true, true⟩ then throw .missingBindings
    else pure assignments.length

abbrev registryWidthKey : List UInt8 := bytes "\"field_width_bits\":"
abbrev registryAssignmentsKey : List UInt8 := bytes "\"assignments\":"

def checkFieldWidth (buf : List UInt8) : Except RegistryFailure Unit :=
  match search 0 registryWidthKey buf with
  | none => .error .missingFieldWidthBits
  | some p => do
    match ← parseInt (p.drop registryWidthKey.length) with
    | none => throw (.fieldWidthBits 0)
    | some (bits, _) => if bits ≠ 8 then throw (.fieldWidthBits bits) else pure ()

/-- What stands behind the bracket of the array. -/
def findAssignments (buf : List UInt8) : Except RegistryFailure (List UInt8) :=
  match search 0 registryAssignmentsKey buf with
  | none => .error .missingAssignments
  | some p =>
    match search 0 [registryOpenBracket] p with
    | none => .error .notAnArray
    | some p => .ok (p.drop 1)

/-- `main`, from the contents of the file on. -/
def validateTransportRegistry (file : List UInt8) : Except RegistryFailure ℕ := do
  let buf := file.take (registryMaxFileSize - 1)
  checkFieldWidth buf
  let p ← findAssignments buf
  let assignments ← parseAssignments (p.length + 1) [] p
  checkRegistry assignments

/-- The exit code and what is printed; nothing is known where the behaviour is undefined. -/
def registryMain (file : List UInt8) : Option (ℕ × List UInt8) :=
  match validateTransportRegistry file with
  | .ok count =>
    some (0, bytes "transport assignments: " ++ bytes (toString count) ++ bytes "\nOK\n")
  | .error .undefined | .error .unfinished => none
  | .error failure => some (1, failure.message)

end MclLink
