import MclLink.Contact.Effect

/-!
# Runs of one contact

A run starts at a contact a successful begin returned and is any sequence of calls with any
arguments, answered as the code answers them.
-/

namespace MclLink

open LabelledRun

/-- One call, answered with a status. -/
def MclContactStep (c : MclContact) (e : MclContactCall × MclLinkStatus) (c' : MclContact) : Prop :=
  e.1.exec c = (e.2, c')

abbrev MclContactEvent := Event MclContact (MclContactCall × MclLinkStatus)

abbrev MclContactRun := Run MclContactStep

/-- A contact that a successful begin returned. -/
def MclContactStarts (c₀ : MclContact) : Prop :=
  ∃ c role localRef transportId, mclContactBegin c role localRef transportId = (.ok, c₀)

def MclContactReachable (c : MclContact) : Prop :=
  ∃ c₀ tr, MclContactStarts c₀ ∧ MclContactRun c₀ tr c

theorem MclContactStarts.eq_begun {c₀ : MclContact} (h : MclContactStarts c₀) :
    ∃ role localRef t, t ≠ mclContactTransportReserved ∧ c₀ = mclContactBegun role localRef t := by
  obtain ⟨c, role, localRef, t, hbegin⟩ := h
  unfold mclContactBegin at hbegin
  split_ifs at hbegin with hrole ht
  all_goals obtain ⟨hst, rfl⟩ := Prod.mk.inj hbegin
  · exact absurd hst (by decide)
  · exact absurd hst (by decide)
  · exact ⟨role, localRef, t, ht, rfl⟩

theorem mclContactBegun_starts {role : UInt8} (localRef : UInt32) {t : UInt8}
    (hrole : role = mclContactRoleInitiator ∨ role = mclContactRoleResponder)
    (ht : t ≠ mclContactTransportReserved) : MclContactStarts (mclContactBegun role localRef t) :=
  ⟨mclContactBegun role localRef t, role, localRef, t, (MclContactEffect.begin hrole ht).exec⟩

theorem MclContactStep.outcome {c c' : MclContact} {e : MclContactCall × MclLinkStatus}
    (h : MclContactStep c e c') : MclContactOutcome c e.1 e.2 c' :=
  exec_effect h

/-- The contact after a sequence of calls. -/
def MclContact.after (c : MclContact) (calls : List MclContactCall) : MclContact :=
  calls.foldl (fun c call => (call.exec c).2) c

/-- What happened during a sequence of calls. -/
def MclContact.history (c : MclContact) (calls : List MclContactCall) : List MclContactEvent :=
  replay MclContactCall.exec c calls

theorem MclContact.history_run (c : MclContact) (calls : List MclContactCall) :
    MclContactRun c (c.history calls) (c.after calls) :=
  Run.of_replay MclContactCall.exec c calls

theorem MclContact.history_snoc (c : MclContact) (calls : List MclContactCall)
    (call : MclContactCall) : c.history (calls ++ [call]) =
      c.history calls ++ [⟨c.after calls, (call, (call.exec (c.after calls)).1),
        c.after (calls ++ [call])⟩] :=
  replay_snoc MclContactCall.exec c calls call

theorem MclContact.history_forall {P : MclContactCall → Prop} (c : MclContact)
    {calls : List MclContactCall} (h : ∀ call ∈ calls, P call) :
    ∀ ev ∈ c.history calls, P ev.label.1 :=
  forall_replay MclContactCall.exec c h

/-- The calls of the peer that receives the commit, over one whole migration. -/
def mclContactMigrationCalls (o : MclOffer) (sessionRef : UInt32)
    (challenge : MclContactChallenge) : List MclContactCall :=
  [.recordOffer o, .agree o.migrationRef o.transport o.profile sessionRef,
    .validationBegin (some challenge),
    .validationResponse o.migrationRef sessionRef (some challenge),
    .commitAccept o.migrationRef sessionRef]

/-- A begin, whether it was accepted or not. -/
def MclContactCall.isBegin : MclContactCall → Bool
  | .begin .. => true
  | _ => false

/-- A close. -/
def MclContactCall.isClose : MclContactCall → Bool
  | .close => true
  | _ => false

end MclLink
