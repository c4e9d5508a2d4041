import Mathlib.Data.Prod.Lex
import MclLink.Lib.Run
import MclLink.Contact.Machine

/-!
# What one call can do to a contact

An offer is gathered into one value, every entry point of `contact.c` becomes a constructor of
`MclContactCall`, and `MclContactEffect` lists the only ways in which a call changes a contact.
Everything later about runs is derived from `exec_effect`, not from the function bodies.
-/

namespace MclLink

open LabelledRun

/-- The content of a transport offer. -/
structure MclOffer where
  migrationRef : UInt32
  transport : UInt8
  profile : UInt8
  endpointToken : UInt32
  validity : UInt8
  deriving DecidableEq, Repr

/-- No field of the offer holds a reserved value. -/
def MclOffer.WellFormed (o : MclOffer) : Prop :=
  o.migrationRef ≠ mclContactMigrationNone ∧ o.transport ≠ mclContactTransportReserved ∧
    o.profile ≠ mclContactProfileReserved

instance : DecidablePred MclOffer.WellFormed := fun o =>
  inferInstanceAs (Decidable (o.migrationRef ≠ mclContactMigrationNone ∧
    o.transport ≠ mclContactTransportReserved ∧ o.profile ≠ mclContactProfileReserved))

/-- The five pending fields. -/
def MclContact.pendingOffer (c : MclContact) : MclOffer :=
  ⟨c.pendingMigrationRef, c.pendingTransport, c.pendingProfile, c.pendingEndpointToken,
    c.pendingValidity⟩

/-- The offer becomes the pending one. -/
@[simps] def MclContact.withOffer (c : MclContact) (o : MclOffer) : MclContact :=
  { c with
    pendingMigrationRef := o.migrationRef
    pendingTransport := o.transport
    pendingProfile := o.profile
    pendingEndpointToken := o.endpointToken
    pendingValidity := o.validity
    challenge := Vector.replicate mclContactChallengeSize 0
    challengeValid := false
    state := .offered }

/-- Nothing is pending any more. -/
@[simps] def MclContact.retired (c : MclContact) : MclContact :=
  { c with
    pendingMigrationRef := mclContactMigrationNone
    pendingTransport := mclContactTransportReserved
    pendingProfile := 0
    pendingEndpointToken := 0
    pendingValidity := 0
    challenge := Vector.replicate mclContactChallengeSize 0
    challengeValid := false
    state := .active }

/-- The candidate became the active transport under the pending reference. -/
@[simps] def MclContact.settled (c : MclContact) : MclContact :=
  { c with
    pendingMigrationRef := mclContactMigrationNone
    pendingTransport := mclContactTransportReserved
    pendingProfile := 0
    pendingEndpointToken := 0
    pendingValidity := 0
    challenge := Vector.replicate mclContactChallengeSize 0
    challengeValid := false
    state := .active
    activeTransport := c.pendingTransport
    completedMigrationRef := c.pendingMigrationRef
    migrationCount := if c.migrationCount < 0xFFFF then c.migrationCount + 1 else c.migrationCount }

/-- The contact is over. -/
@[simps] def MclContact.shut (c : MclContact) : MclContact :=
  { c with
    pendingMigrationRef := mclContactMigrationNone
    pendingTransport := mclContactTransportReserved
    pendingProfile := 0
    pendingEndpointToken := 0
    pendingValidity := 0
    challenge := Vector.replicate mclContactChallengeSize 0
    challengeValid := false
    sessionRef := mclContactSessionNone
    sessionValid := false
    state := .closed }

/-- The contact a successful begin leaves, whatever was there before. -/
@[simps] def mclContactBegun (role : UInt8) (localRef : UInt32) (transportId : UInt8) : MclContact where
  localRef := localRef
  peerRef := 0
  sessionRef := mclContactSessionNone
  role := role
  state := .active
  activeTransport := transportId
  pendingMigrationRef := mclContactMigrationNone
  pendingTransport := mclContactTransportReserved
  pendingProfile := 0
  pendingEndpointToken := 0
  pendingValidity := 0
  challenge := Vector.replicate mclContactChallengeSize 0
  challengeValid := false
  peerRefValid := false
  sessionValid := false
  migrationCount := 0
  completedMigrationRef := mclContactMigrationNone

/-- The `(source_ref, migration_ref)` key of an offer, most significant component first. -/
def offerKey (sourceRef migrationRef : UInt32) : ℕ ×ₗ ℕ :=
  toLex (sourceRef.toNat, migrationRef.toNat)

theorem offerKey_lt_iff (s m s' m' : UInt32) :
    offerKey s m < offerKey s' m' ↔ s < s' ∨ s = s' ∧ m < m' := by
  simp [offerKey, Prod.Lex.toLex_lt_toLex, UInt32.lt_iff_toNat_lt, UInt32.toNat_inj]

theorem offerKey_inj (s m s' m' : UInt32) :
    offerKey s m = offerKey s' m' ↔ s = s' ∧ m = m' := by
  simp [offerKey, UInt32.toNat_inj]

/-- The entry points of `contact.c` with their arguments. -/
inductive MclContactCall where
  | begin (role : UInt8) (localRef : UInt32) (transportId : UInt8)
  | setPeerRef (peerRef : UInt32)
  | recordOffer (offer : MclOffer)
  | resolveOfferCollision (peerSourceRef : UInt32) (offer : MclOffer)
      (outcome : Option MclContactCollision)
  | agree (migrationRef : UInt32) (transportId profileId : UInt8) (sessionRef : UInt32)
  | validationBegin (challenge : Option MclContactChallenge)
  | validationResponse (migrationRef sessionRef : UInt32) (echo : Option MclContactChallenge)
  | challengeRepeat (migrationRef sessionRef : UInt32) (challenge : Option MclContactChallenge)
      (reecho : Option Bool)
  | commitBegin
  | commitConfirm (migrationRef sessionRef : UInt32)
  | commitAccept (migrationRef sessionRef : UInt32)
  | commitRepeat (migrationRef sessionRef : UInt32) (reconfirm : Option Bool)
  | abandonMigration
  | close
  | activeTransport (transportId : Option UInt8)
  | migrationActive (active : Option Bool)
  | controlTransport (transportId : Option UInt8)
  | dataTransport (transportId : Option UInt8) (quiesced : Option Bool)
  deriving DecidableEq, Repr

def MclContact.recordOffer (c : MclContact) (o : MclOffer) : MclLinkStatus × MclContact :=
  mclContactRecordOffer c o.migrationRef o.transport o.profile o.endpointToken o.validity

def MclContact.resolveOfferCollision (c : MclContact) (peerSourceRef : UInt32) (o : MclOffer)
    (outcome : Option MclContactCollision) :
    MclLinkStatus × MclContact × Option MclContactCollision :=
  mclContactResolveOfferCollision c peerSourceRef o.migrationRef o.transport o.profile
    o.endpointToken o.validity outcome

/-- Status and contact after a call; the functions that take the contact `const` leave it. -/
def MclContactCall.exec (c : MclContact) : MclContactCall → MclLinkStatus × MclContact
  | .begin role localRef transportId => mclContactBegin c role localRef transportId
  | .setPeerRef peerRef => mclContactSetPeerRef c peerRef
  | .recordOffer o => c.recordOffer o
  | .resolveOfferCollision source o outcome =>
      let r := c.resolveOfferCollision source o outcome
      (r.1, r.2.1)
  | .agree m t p s => mclContactAgree c m t p s
  | .validationBegin challenge => mclContactValidationBegin c challenge
  | .validationResponse m s echo => mclContactValidationResponse c m s echo
  | .challengeRepeat m s challenge reecho =>
      ((mclContactChallengeRepeat c m s challenge reecho).1, c)
  | .commitBegin => mclContactCommitBegin c
  | .commitConfirm m s => mclContactCommitConfirm c m s
  | .commitAccept m s => mclContactCommitAccept c m s
  | .commitRepeat m s reconfirm => ((mclContactCommitRepeat c m s reconfirm).1, c)
  | .abandonMigration => mclContactAbandonMigration c
  | .close => mclContactClose c
  | .activeTransport transportId => ((mclContactActiveTransport c transportId).1, c)
  | .migrationActive active => ((mclContactMigrationActive c active).1, c)
  | .controlTransport transportId => ((mclContactControlTransport c transportId).1, c)
  | .dataTransport transportId quiesced => ((mclContactDataTransport c transportId quiesced).1, c)

/-- The changes a call can make, each with everything the code checked before making it. -/
inductive MclContactEffect (c : MclContact) : MclContactCall → MclContact → Prop where
  | begin {role localRef transportId} :
      role = mclContactRoleInitiator ∨ role = mclContactRoleResponder →
      transportId ≠ mclContactTransportReserved →
      MclContactEffect c (.begin role localRef transportId)
        (mclContactBegun role localRef transportId)
  | bindPeer {peerRef} : c.state ≠ .none → c.state ≠ .closed → c.peerRefValid = false →
      MclContactEffect c (.setPeerRef peerRef) { c with peerRef := peerRef, peerRefValid := true }
  | openOffer {o} : c.state = .active → o.WellFormed → o.transport ≠ c.activeTransport →
      MclContactEffect c (.recordOffer o) (c.withOffer o)
  | adoptOffer {source o outcome} : c.state = .offered → o.WellFormed →
      offerKey c.localRef c.pendingMigrationRef < offerKey source o.migrationRef →
      o.transport ≠ c.activeTransport →
      MclContactEffect c (.resolveOfferCollision source o (some outcome)) (c.withOffer o)
  | tieAbort {source o outcome} : c.state = .offered → o.WellFormed →
      offerKey c.localRef c.pendingMigrationRef = offerKey source o.migrationRef →
      MclContactEffect c (.resolveOfferCollision source o (some outcome)) c.retired
  | agree {sessionRef} : c.state = .offered → sessionRef ≠ mclContactSessionNone →
      (c.sessionValid = true → sessionRef = c.sessionRef) →
      MclContactEffect c
        (.agree c.pendingMigrationRef c.pendingTransport c.pendingProfile sessionRef)
        { c with sessionRef := sessionRef, sessionValid := true, state := .agreed }
  | challenge {challenge} : c.state = .agreed → c.sessionValid = true →
      MclContactEffect c (.validationBegin (some challenge))
        { c with challenge := challenge, challengeValid := true, state := .validating }
  | validate : c.state = .validating → c.challengeValid = true → c.sessionValid = true →
      MclContactEffect c
        (.validationResponse c.pendingMigrationRef c.sessionRef (some c.challenge))
        { c with state := .validated }
  | commitBegin : c.state = .validated →
      MclContactEffect c .commitBegin { c with state := .committing }
  | commitConfirm : c.state = .committing → c.sessionValid = true →
      MclContactEffect c (.commitConfirm c.pendingMigrationRef c.sessionRef)
        c.settled
  | commitAccept : c.state = .validated → c.sessionValid = true →
      MclContactEffect c (.commitAccept c.pendingMigrationRef c.sessionRef)
        c.settled
  | abandon : mclContactMigrationIsRevocable c = true →
      MclContactEffect c .abandonMigration c.retired
  | close : c.state ≠ .none →
      MclContactEffect c .close c.shut

end MclLink
