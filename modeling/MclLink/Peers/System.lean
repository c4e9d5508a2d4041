import MclLink.Contact.Runs

/-!
# Two peers and the messages between them

Each peer drives one contact as section 7 of the handoff control specification says. A message
once sent may arrive any number of times, at any later moment and in any order, or never, so the
channel is the set of all that was sent and a retransmission is one more delivery.
-/

namespace MclLink

open LabelledRun

/-- The messages of the migration sequence, with the fields a contact reads. -/
inductive MclMessage where
  | offer (sourceRef : UInt32) (offer : MclOffer)
  | accept (migrationRef : UInt32) (transportId profileId : UInt8) (sessionRef : UInt32)
  | pathChallenge (migrationRef sessionRef : UInt32) (challenge : MclContactChallenge)
  | pathResponse (migrationRef sessionRef : UInt32) (challenge : MclContactChallenge)
  | commit (migrationRef sessionRef : UInt32)
  | confirm (migrationRef sessionRef : UInt32)
  deriving DecidableEq, Repr

/-- A peer: its contact, whether the offer in force is its own, and all it has sent. -/
structure MclPeer where
  contact : MclContact
  offering : Bool
  sent : List MclMessage
  deriving DecidableEq, Repr

/-- What a peer does, on its own or because a message arrived. -/
inductive MclAction where
  | offer (offer : MclOffer)
  | accept (choice : UInt32)
  | challenge (challenge : MclContactChallenge)
  | commit
  | abandon
  | close
  | receive (message : MclMessage)
  deriving DecidableEq, Repr

/-- The reference names no offer or acceptance that the peer has sent. -/
def MclPeer.fresh (p : MclPeer) (m : UInt32) : Bool :=
  p.sent.all fun
    | .offer _ o => o.migrationRef ≠ m
    | .accept m' .. => m' ≠ m
    | _ => true

/-- A call of the contact, followed by a message if it succeeded. -/
def MclPeer.answer (p : MclPeer) (r : MclLinkStatus × MclContact) (message : MclMessage) : MclPeer :=
  if r.1 = .ok then { p with contact := r.2, sent := message :: p.sent } else { p with contact := r.2 }

/-- A message alone, when the call says so. -/
def MclPeer.repeats (p : MclPeer) (again : Bool) (message : MclMessage) : MclPeer :=
  if again then { p with sent := message :: p.sent } else p

/-- The reaction to a message, by its row of the state rules. -/
def MclPeer.receive (p : MclPeer) : MclMessage → MclPeer
  | .offer source o =>
      if p.contact.state = .offered ∧ p.contact.pendingOffer ≠ o then
        let r := p.contact.resolveOfferCollision source o (some .localWins)
        { p with contact := r.2.1, offering := p.offering && decide (r.2.2 ≠ some .peerWins) }
      else
        let r := p.contact.recordOffer o
        { p with
          contact := r.2
          offering := p.offering && decide (¬ (p.contact.state = .active ∧ r.1 = .ok)) }
  | .accept m t pr s => { p with contact := (mclContactAgree p.contact m t pr s).2 }
  | .pathChallenge m s challenge =>
      if p.contact.state = .agreed then
        if m ≠ p.contact.pendingMigrationRef ∨ s ≠ p.contact.sessionRef then p
        else
          let r := mclContactValidationBegin p.contact (some challenge)
          if r.1 ≠ .ok then { p with contact := r.2 }
          else p.answer (mclContactValidationResponse r.2 m s (some challenge))
            (.pathResponse m s challenge)
      else if p.contact.state = .validated then
        let r := mclContactChallengeRepeat p.contact m s (some challenge) (some false)
        p.repeats (r = (.ok, some true)) (.pathResponse m s challenge)
      else p
  | .pathResponse m s challenge =>
      { p with contact := (mclContactValidationResponse p.contact m s (some challenge)).2 }
  | .commit m s =>
      if p.contact.state = .validated then
        p.answer (mclContactCommitAccept p.contact m s) (.confirm m s)
      else if p.contact.state = .active then
        let r := mclContactCommitRepeat p.contact m s (some false)
        p.repeats (r = (.ok, some true)) (.confirm m s)
      else p
  | .confirm m s => { p with contact := (mclContactCommitConfirm p.contact m s).2 }

/-- One action of a peer whose channel holds `inbox`; `none` when it is not its turn. -/
def MclPeer.perform (inbox : List MclMessage) (p : MclPeer) : MclAction → Option MclPeer
  | .offer o =>
      if p.contact.state = .active ∧ p.fresh o.migrationRef then
        let r := p.contact.recordOffer o
        some (MclPeer.answer { p with offering := p.offering || decide (r.1 = .ok) } r
          (.offer p.contact.localRef o))
      else none
  | .accept choice =>
      if p.contact.state = .offered ∧ p.offering = false ∧ choice ≠ mclContactSessionNone then
        let c := p.contact
        let s := if c.sessionValid then c.sessionRef else choice
        let r := mclContactAgree c c.pendingMigrationRef c.pendingTransport c.pendingProfile s
        some (p.answer r (.accept c.pendingMigrationRef c.pendingTransport c.pendingProfile s))
      else none
  | .challenge challenge =>
      if p.contact.state = .agreed ∧ p.offering then
        some (p.answer (mclContactValidationBegin p.contact (some challenge))
          (.pathChallenge p.contact.pendingMigrationRef p.contact.sessionRef challenge))
      else none
  | .commit =>
      if p.contact.state = .validated ∧ p.offering then
        some (p.answer (mclContactCommitBegin p.contact)
          (.commit p.contact.pendingMigrationRef p.contact.sessionRef))
      else none
  | .abandon => some { p with contact := (mclContactAbandonMigration p.contact).2 }
  | .close => some { p with contact := (mclContactClose p.contact).2 }
  | .receive message => if message ∈ inbox then some (p.receive message) else none

/-- Two peers; each one's channel holds what the other one has sent. -/
structure MclPair where
  left : MclPeer
  right : MclPeer
  deriving DecidableEq, Repr

inductive MclSide where
  | left
  | right
  deriving DecidableEq, Repr

def MclPair.perform (s : MclPair) : MclSide × MclAction → Option MclPair
  | (.left, action) =>
      (s.left.perform s.right.sent action).map fun p => { s with left := p }
  | (.right, action) =>
      (s.right.perform s.left.sent action).map fun p => { s with right := p }

abbrev MclPairRun := Run fun (s : MclPair) e s' => s.perform e = some s'

/-- Two contacts begun on one transport, before either peer has sent anything. -/
def MclPair.Starts (s : MclPair) : Prop :=
  ∃ a b, MclContactStarts a ∧ MclContactStarts b ∧ a.activeTransport = b.activeTransport ∧
    s = ⟨⟨a, false, []⟩, ⟨b, false, []⟩⟩

theorem MclPair.starts_begun (a b : UInt32) {t : UInt8} (ht : t ≠ mclContactTransportReserved) :
    MclPair.Starts ⟨⟨mclContactBegun mclContactRoleInitiator a t, false, []⟩,
      ⟨mclContactBegun mclContactRoleResponder b t, false, []⟩⟩ :=
  ⟨_, _, mclContactBegun_starts a (Or.inl rfl) ht, mclContactBegun_starts b (Or.inr rfl) ht, rfl,
    rfl⟩

end MclLink
