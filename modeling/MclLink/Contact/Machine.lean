import MclLink.Basic

/-!
# The contact state machine

The data of `include/mcl/contact.h` and the functions of `src/contact.c`, in the order of the
source. A function that changes the contact returns its status and the contact after the call;
one that takes the contact `const` returns its status and its output parameters.
-/

namespace MclLink

abbrev mclContactTransportReserved : UInt8 := 0
abbrev mclContactProfileReserved : UInt8 := 0
abbrev mclContactSessionNone : UInt32 := 0
abbrev mclContactMigrationNone : UInt32 := 0
abbrev mclContactChallengeSize : Nat := 8
abbrev mclContactRoleInitiator : UInt8 := 0
abbrev mclContactRoleResponder : UInt8 := 1

/-- The opaque bytes of a path challenge. -/
abbrev MclContactChallenge := Vector UInt8 mclContactChallengeSize

/-- `mcl_contact_state_t`. -/
inductive MclContactState where
  | none
  | active
  | offered
  | agreed
  | validating
  | validated
  | committing
  | closed
  deriving DecidableEq, Repr

/-- `mcl_contact_collision_t`. -/
inductive MclContactCollision where
  | localWins
  | peerWins
  | tieAbort
  deriving DecidableEq, Repr

/-- `mcl_contact_t`. -/
structure MclContact where
  localRef : UInt32
  peerRef : UInt32
  sessionRef : UInt32
  role : UInt8
  state : MclContactState
  activeTransport : UInt8
  pendingMigrationRef : UInt32
  pendingTransport : UInt8
  pendingProfile : UInt8
  pendingEndpointToken : UInt32
  pendingValidity : UInt8
  challenge : MclContactChallenge
  challengeValid : Bool
  peerRefValid : Bool
  sessionValid : Bool
  migrationCount : UInt16
  completedMigrationRef : UInt32
  deriving DecidableEq, Repr

def mclContactClearChallenge (contact : MclContact) : MclContact :=
  { contact with challenge := Vector.replicate mclContactChallengeSize 0, challengeValid := false }

def mclContactStoreChallenge (contact : MclContact) (challenge : MclContactChallenge) :
    MclContact :=
  { contact with challenge := challenge, challengeValid := true }

/-- Accumulates the differing bits of all eight bytes, without an early exit. -/
def mclContactChallengeEquals (contact : MclContact) (echo : MclContactChallenge) : Bool :=
  (List.finRange mclContactChallengeSize).foldl
    (fun (differing : UInt8) i => differing ||| (contact.challenge[i] ^^^ echo[i])) 0 == 0

def mclContactClearPending (contact : MclContact) : MclContact :=
  mclContactClearChallenge { contact with
    pendingMigrationRef := mclContactMigrationNone
    pendingTransport := mclContactTransportReserved
    pendingProfile := 0
    pendingEndpointToken := 0
    pendingValidity := 0 }

def mclContactClear (contact : MclContact) : MclContact :=
  mclContactClearPending { contact with
    localRef := 0
    peerRef := 0
    sessionRef := mclContactSessionNone
    role := mclContactRoleInitiator
    state := .none
    activeTransport := mclContactTransportReserved
    peerRefValid := false
    sessionValid := false
    migrationCount := 0
    completedMigrationRef := mclContactMigrationNone }

/-- True while a migration transaction is outstanding at any stage. -/
def mclContactMigrationInProgress (contact : MclContact) : Bool :=
  contact.state = .offered ∨ contact.state = .agreed ∨ contact.state = .validating ∨
    contact.state = .validated ∨ contact.state = .committing

/-- The states a migration can still be abandoned from. -/
def mclContactMigrationIsRevocable (contact : MclContact) : Bool :=
  contact.state = .offered ∨ contact.state = .agreed ∨ contact.state = .validating ∨
    contact.state = .validated

/-- Shared tail of both commit completions; the counter saturates. -/
def mclContactSettleCommit (contact : MclContact) (migrationRef : UInt32) : MclContact :=
  let settled := { mclContactClearPending { contact with
    activeTransport := contact.pendingTransport
    completedMigrationRef := migrationRef } with state := .active }
  if settled.migrationCount < 0xFFFF then
    { settled with migrationCount := settled.migrationCount + 1 }
  else settled

/-- The transaction identity carried by every post-acceptance message. -/
def mclContactCheckTransaction (contact : MclContact) (migrationRef sessionRef : UInt32) :
    MclLinkStatus :=
  if contact.sessionValid = false then .errInvalidState
  else if migrationRef ≠ contact.pendingMigrationRef then .errContextMismatch
  else if sessionRef ≠ contact.sessionRef then .errContextMismatch
  else .ok

def mclContactBegin (contact : MclContact) (role : UInt8) (localRef : UInt32)
    (transportId : UInt8) : MclLinkStatus × MclContact :=
  if role ≠ mclContactRoleInitiator ∧ role ≠ mclContactRoleResponder then
    (.errInvalidArgument, contact)
  else if transportId = mclContactTransportReserved then (.errInvalidArgument, contact)
  else (.ok, { mclContactClear contact with
    role := role
    localRef := localRef
    activeTransport := transportId
    state := .active })

def mclContactSetPeerRef (contact : MclContact) (peerRef : UInt32) :
    MclLinkStatus × MclContact :=
  if contact.state = .none ∨ contact.state = .closed then (.errInvalidState, contact)
  else if contact.peerRefValid then
    if peerRef = contact.peerRef then (.ok, contact) else (.errContextMismatch, contact)
  else (.ok, { contact with peerRef := peerRef, peerRefValid := true })

def mclContactRecordOffer (contact : MclContact) (migrationRef : UInt32)
    (transportId profileId : UInt8) (endpointToken : UInt32) (validity : UInt8) :
    MclLinkStatus × MclContact :=
  if migrationRef = mclContactMigrationNone then (.errInvalidArgument, contact)
  else if transportId = mclContactTransportReserved then (.errInvalidArgument, contact)
  else if profileId = mclContactProfileReserved then (.errInvalidArgument, contact)
  else if contact.state = .offered ∧ migrationRef = contact.pendingMigrationRef then
    -- A retransmitted offer: identical in every field, or refused.
    if transportId ≠ contact.pendingTransport ∨ profileId ≠ contact.pendingProfile ∨
        endpointToken ≠ contact.pendingEndpointToken ∨ validity ≠ contact.pendingValidity then
      (.errContextMismatch, contact)
    else (.ok, contact)
  else if contact.state ≠ .active then (.errInvalidState, contact)
  else if transportId = contact.activeTransport then (.errInvalidArgument, contact)
  else (.ok, { mclContactClearChallenge { contact with
    pendingMigrationRef := migrationRef
    pendingTransport := transportId
    pendingProfile := profileId
    pendingEndpointToken := endpointToken
    pendingValidity := validity } with state := .offered })

def mclContactResolveOfferCollision (contact : MclContact)
    (peerSourceRef peerMigrationRef : UInt32) (peerTransportId peerProfileId : UInt8)
    (peerEndpointToken : UInt32) (peerValidity : UInt8) (outcome : Option MclContactCollision) :
    MclLinkStatus × MclContact × Option MclContactCollision :=
  if outcome = none then (.errInvalidArgument, contact, outcome)
  else if peerMigrationRef = mclContactMigrationNone then (.errInvalidArgument, contact, outcome)
  else if peerTransportId = mclContactTransportReserved then
    (.errInvalidArgument, contact, outcome)
  else if peerProfileId = mclContactProfileReserved then (.errInvalidArgument, contact, outcome)
  else if contact.state ≠ .offered then (.errInvalidState, contact, outcome)
  else
    -- (source_ref, migration_ref) is one logical key, most significant component first.
    let (peerWins, tie) :=
      if peerSourceRef ≠ contact.localRef then (decide (peerSourceRef > contact.localRef), false)
      else if peerMigrationRef ≠ contact.pendingMigrationRef then
        (decide (peerMigrationRef > contact.pendingMigrationRef), false)
      else (false, true)
    if tie then
      (.ok, { mclContactClearPending contact with state := .active }, some .tieAbort)
    else if peerWins then
      if peerTransportId = contact.activeTransport then (.errInvalidArgument, contact, outcome)
      else (.ok, { mclContactClearChallenge { contact with
        pendingMigrationRef := peerMigrationRef
        pendingTransport := peerTransportId
        pendingProfile := peerProfileId
        pendingEndpointToken := peerEndpointToken
        pendingValidity := peerValidity } with state := .offered }, some .peerWins)
    else (.ok, contact, some .localWins)

def mclContactAgree (contact : MclContact) (migrationRef : UInt32)
    (transportId profileId : UInt8) (sessionRef : UInt32) : MclLinkStatus × MclContact :=
  if sessionRef = mclContactSessionNone then (.errInvalidArgument, contact)
  else if contact.sessionValid ∧ sessionRef ≠ contact.sessionRef then
    (.errContextMismatch, contact)
  else if contact.state = .agreed ∨ contact.state = .validating ∨ contact.state = .validated ∨
      contact.state = .committing then
    -- A retransmitted acceptance changes nothing, whatever was completed since.
    if migrationRef ≠ contact.pendingMigrationRef ∨ transportId ≠ contact.pendingTransport ∨
        profileId ≠ contact.pendingProfile then (.errContextMismatch, contact)
    else (.ok, contact)
  else if contact.state ≠ .offered then (.errInvalidState, contact)
  else if migrationRef ≠ contact.pendingMigrationRef then (.errContextMismatch, contact)
  else if transportId ≠ contact.pendingTransport then (.errContextMismatch, contact)
  else if profileId ≠ contact.pendingProfile then (.errContextMismatch, contact)
  else (.ok, { contact with sessionRef := sessionRef, sessionValid := true, state := .agreed })

def mclContactValidationBegin (contact : MclContact) (challenge : Option MclContactChallenge) :
    MclLinkStatus × MclContact :=
  match challenge with
  | none => (.errInvalidArgument, contact)
  | some challenge =>
    if contact.state ≠ .agreed then (.errInvalidState, contact)
    else if contact.sessionValid = false then (.errInvalidState, contact)
    else (.ok, { mclContactStoreChallenge contact challenge with state := .validating })

def mclContactValidationResponse (contact : MclContact) (migrationRef sessionRef : UInt32)
    (echo : Option MclContactChallenge) : MclLinkStatus × MclContact :=
  match echo with
  | none => (.errInvalidArgument, contact)
  | some echo =>
    if contact.state = .validated then
      let status := mclContactCheckTransaction contact migrationRef sessionRef
      if status ≠ .ok then (status, contact)
      else if contact.challengeValid = false ∨ mclContactChallengeEquals contact echo = false then
        (.errContextMismatch, contact)
      else (.ok, contact)
    else if contact.state ≠ .validating then (.errInvalidState, contact)
    else if contact.challengeValid = false then (.errInvalidState, contact)
    else
      let status := mclContactCheckTransaction contact migrationRef sessionRef
      if status ≠ .ok then (status, contact)
      else if mclContactChallengeEquals contact echo = false then (.errContextMismatch, contact)
      else (.ok, { contact with state := .validated })

def mclContactChallengeRepeat (contact : MclContact) (migrationRef sessionRef : UInt32)
    (challenge : Option MclContactChallenge) (reecho : Option Bool) :
    MclLinkStatus × Option Bool :=
  match challenge, reecho with
  | some challenge, some _ =>
    if contact.state ≠ .validated then (.ok, some false)
    else if contact.challengeValid = false then (.ok, some false)
    else if mclContactCheckTransaction contact migrationRef sessionRef ≠ .ok then (.ok, some false)
    else if mclContactChallengeEquals contact challenge = false then (.ok, some false)
    else (.ok, some true)
  | _, _ => (.errInvalidArgument, reecho)

def mclContactCommitBegin (contact : MclContact) : MclLinkStatus × MclContact :=
  if contact.state ≠ .validated then (.errInvalidState, contact)
  else (.ok, { contact with state := .committing })

def mclContactCommitConfirm (contact : MclContact) (migrationRef sessionRef : UInt32) :
    MclLinkStatus × MclContact :=
  if contact.state = .active then
    if contact.sessionValid = false ∨ contact.completedMigrationRef = mclContactMigrationNone then
      (.errInvalidState, contact)
    else if migrationRef ≠ contact.completedMigrationRef ∨ sessionRef ≠ contact.sessionRef then
      (.errContextMismatch, contact)
    else (.ok, contact)
  else if contact.state ≠ .committing then (.errInvalidState, contact)
  else
    let status := mclContactCheckTransaction contact migrationRef sessionRef
    if status ≠ .ok then (status, contact)
    else (.ok, mclContactSettleCommit contact migrationRef)

def mclContactCommitAccept (contact : MclContact) (migrationRef sessionRef : UInt32) :
    MclLinkStatus × MclContact :=
  if contact.state ≠ .validated then (.errInvalidState, contact)
  else
    let status := mclContactCheckTransaction contact migrationRef sessionRef
    if status ≠ .ok then (status, contact)
    else (.ok, mclContactSettleCommit contact migrationRef)

def mclContactCommitRepeat (contact : MclContact) (migrationRef sessionRef : UInt32)
    (reconfirm : Option Bool) : MclLinkStatus × Option Bool :=
  match reconfirm with
  | none => (.errInvalidArgument, none)
  | some _ =>
    if contact.state ≠ .active then (.ok, some false)
    else if contact.completedMigrationRef = mclContactMigrationNone then (.ok, some false)
    else if contact.sessionValid = false then (.ok, some false)
    else if migrationRef ≠ contact.completedMigrationRef then (.ok, some false)
    else if sessionRef ≠ contact.sessionRef then (.ok, some false)
    else (.ok, some true)

def mclContactAbandonMigration (contact : MclContact) : MclLinkStatus × MclContact :=
  if mclContactMigrationIsRevocable contact = false then (.errInvalidState, contact)
  else (.ok, { mclContactClearPending contact with state := .active })

def mclContactClose (contact : MclContact) : MclLinkStatus × MclContact :=
  if contact.state = .none then (.errInvalidState, contact)
  else (.ok, { mclContactClearPending contact with
    sessionRef := mclContactSessionNone
    sessionValid := false
    state := .closed })

def mclContactActiveTransport (contact : MclContact) (transportId : Option UInt8) :
    MclLinkStatus × Option UInt8 :=
  if transportId = none then (.errInvalidArgument, transportId)
  else if contact.state = .none ∨ contact.state = .closed then (.errInvalidState, transportId)
  else (.ok, some contact.activeTransport)

def mclContactMigrationActive (contact : MclContact) (active : Option Bool) :
    MclLinkStatus × Option Bool :=
  if active = none then (.errInvalidArgument, active)
  else (.ok, some (mclContactMigrationInProgress contact))

def mclContactControlTransport (contact : MclContact) (transportId : Option UInt8) :
    MclLinkStatus × Option UInt8 :=
  if transportId = none then (.errInvalidArgument, transportId)
  else if contact.state = .none ∨ contact.state = .closed then (.errInvalidState, transportId)
  else if mclContactMigrationInProgress contact then (.ok, some contact.pendingTransport)
  else (.ok, some contact.activeTransport)

def mclContactDataTransport (contact : MclContact) (transportId : Option UInt8)
    (quiesced : Option Bool) : MclLinkStatus × Option UInt8 × Option Bool :=
  if transportId = none ∨ quiesced = none then (.errInvalidArgument, transportId, quiesced)
  else if contact.state = .none ∨ contact.state = .closed then
    (.errInvalidState, transportId, quiesced)
  else (.ok, some contact.activeTransport, some (decide (contact.state = .committing)))

end MclLink
