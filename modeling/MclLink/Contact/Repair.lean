import MclLink.Contact.Duplicate

/-!
# Repair of a lost commit or confirmation

The peer that sent a commit waits in `committing`; the other one accepted it or still may. Copies
of the commit and of the confirmation arrive in any number and order, or not at all.
-/

namespace MclLink

open LabelledRun

/-- The sender of a commit, its receiver, and whether a confirmation was ever emitted. -/
structure MclCommitLink where
  sender : MclContact
  receiver : MclContact
  confirmSent : Bool
  deriving DecidableEq, Repr

inductive MclCommitDelivery where
  | commit
  | confirm
  deriving DecidableEq, Repr

/-- A copy arrives. A confirmation arrives only after one was emitted. -/
def MclCommitLink.deliver (m s : UInt32) (l : MclCommitLink) :
    MclCommitDelivery → Option MclCommitLink
  | .commit =>
      if l.receiver.state = .validated then
        let r := mclContactCommitAccept l.receiver m s
        some { l with receiver := r.2, confirmSent := l.confirmSent || decide (r.1 = .ok) }
      else if l.receiver.state = .active then
        let r := mclContactCommitRepeat l.receiver m s (some false)
        some { l with confirmSent := l.confirmSent || decide (r = (.ok, some true)) }
      else some l
  | .confirm =>
      if l.confirmSent then some { l with sender := (mclContactCommitConfirm l.sender m s).2 }
      else none

abbrev MclCommitRun (m s : UInt32) :=
  Run fun (l : MclCommitLink) d l' => l.deliver m s d = some l'

/-- The contact is on `t`, remembers `m`, and has nothing pending. -/
structure MclContactRestsOn (m : UInt32) (t : UInt8) (c : MclContact) : Prop where
  state : c.state = .active
  transport : c.activeTransport = t
  completed : c.completedMigrationRef = m
  pending : c.pendingOffer = ⟨mclContactMigrationNone, mclContactTransportReserved, 0, 0, 0⟩

/-- The two ends of a commit of `m` to `t` under session `s`. -/
structure MclCommitEnds (a b : MclContact) (m s : UInt32) (t : UInt8) : Prop where
  sender : a.state = .committing ∧ a.pendingMigrationRef = m ∧ a.pendingTransport = t
  session : a.sessionRef = s ∧ b.sessionRef = s
  receiver : (b.state = .validated ∧ b.pendingMigrationRef = m ∧ b.pendingTransport = t) ∨
    (b.state = .active ∧ b.activeTransport = t ∧ b.completedMigrationRef = m)

/-- At least one copy has arrived. -/
def MclCommitArrived (d : MclCommitDelivery) (tr : List (Event MclCommitLink MclCommitDelivery)) :
    Bool :=
  tr.any fun ev => ev.label = d

/-- The sender once it heard a confirmation, or before. -/
def MclContact.confirmed (a : MclContact) (heard : Bool) : MclContact :=
  if heard then a.settled else a

/-- The receiver once a commit arrived, or before; it may have completed the migration earlier. -/
def MclContact.accepted (b : MclContact) (arrived : Bool) : MclContact :=
  if arrived ∧ b.state = .validated then b.settled else b

/-- Both contacts are functions of which messages have arrived. -/
structure MclCommitProgress (a b : MclContact)
    (tr : List (Event MclCommitLink MclCommitDelivery)) (l : MclCommitLink) : Prop where
  sent : l.confirmSent = MclCommitArrived .commit tr
  order : MclCommitArrived .confirm tr = true → MclCommitArrived .commit tr = true
  sender : l.sender = a.confirmed (MclCommitArrived .confirm tr)
  receiver : l.receiver = b.accepted (MclCommitArrived .commit tr)

variable {a b : MclContact} {m s : UInt32} {t : UInt8}

section Ends

private theorem MclCommitEnds.sender_settles (h : MclCommitEnds a b m s t)
    (ha : MclContactWellFormed a) : mclContactCommitConfirm a m s = (.ok, a.settled) := by
  obtain ⟨⟨hstate, rfl, -⟩, ⟨rfl, -⟩, -⟩ := h
  exact (MclContactEffect.commitConfirm hstate (ha.session (by tauto))).exec

private theorem MclCommitEnds.sender_completed (h : MclCommitEnds a b m s t)
    (ha : MclContactWellFormed a) : MclContactCompleted m s a.settled := by
  obtain ⟨⟨hstate, rfl, -⟩, ⟨rfl, -⟩, -⟩ := h
  exact settled_completed ha (Or.inr hstate)

private theorem MclCommitEnds.deliver_confirm (h : MclCommitEnds a b m s t)
    (ha : MclContactWellFormed a) (receiver : MclContact) (heard : Bool) :
    MclCommitLink.deliver m s ⟨a.confirmed heard, receiver, true⟩ .confirm =
      some ⟨a.confirmed true, receiver, true⟩ := by
  have hconfirm : mclContactCommitConfirm (a.confirmed heard) m s = (.ok, a.settled) := by
    cases heard with
    | false => exact h.sender_settles ha
    | true => exact (h.sender_completed ha).confirm_repeat
  simp only [MclCommitLink.deliver, if_true, hconfirm]
  rfl

private theorem MclCommitEnds.receiver_completed (h : MclCommitEnds a b m s t)
    (ha : MclContactWellFormed a) (hb : MclContactWellFormed b) :
    MclContactCompleted m s (b.accepted true) := by
  have hm : m ≠ mclContactMigrationNone := (h.sender_completed ha).nonzero
  obtain ⟨-, ⟨-, rfl⟩, ⟨hs, rfl, -⟩ | ⟨hs, -, rfl⟩⟩ := h
  · simpa [MclContact.accepted, hs] using settled_completed hb (Or.inl hs)
  · have hvalid := hb.memory hm (by simp [hs])
    simpa [MclContact.accepted, hs] using
      (⟨hs, hm, rfl, hvalid, rfl⟩ : MclContactCompleted _ _ b)

private theorem MclCommitEnds.sender_rests (h : MclCommitEnds a b m s t) :
    MclContactRestsOn m t (a.confirmed true) := by
  obtain ⟨⟨-, rfl, rfl⟩, -, -⟩ := h
  exact ⟨rfl, rfl, rfl, rfl⟩

private theorem MclCommitEnds.receiver_rests (h : MclCommitEnds a b m s t)
    (hb : MclContactWellFormed b) : MclContactRestsOn m t (b.accepted true) := by
  obtain ⟨-, -, ⟨hs, rfl, rfl⟩ | ⟨hs, rfl, rfl⟩⟩ := h
  · rw [MclContact.accepted, if_pos ⟨rfl, hs⟩]
    exact ⟨rfl, rfl, rfl, rfl⟩
  · rw [MclContact.accepted, if_neg (by simp [hs])]
    exact ⟨hs, rfl, rfl, (hb.idle (Or.inl hs)).1⟩

private theorem MclCommitEnds.deliver_commit (h : MclCommitEnds a b m s t)
    (ha : MclContactWellFormed a)
    (hb : MclContactWellFormed b) (sender : MclContact) (arrived sent : Bool) :
    MclCommitLink.deliver m s ⟨sender, b.accepted arrived, sent⟩ .commit =
      some ⟨sender, b.accepted true, true⟩ := by
  have hdone := h.receiver_completed ha hb
  by_cases hfirst : b.state = .validated ∧ arrived = false
  · obtain ⟨hs, rfl⟩ := hfirst
    obtain ⟨-, ⟨-, rfl⟩, ⟨-, rfl, -⟩ | ⟨hs', -⟩⟩ := h
    · have hexec := (MclContactEffect.commitAccept hs (hb.session (by tauto))).exec
      have haccept : mclContactCommitAccept b b.pendingMigrationRef b.sessionRef =
        (.ok, b.settled) := hexec
      simp [MclCommitLink.deliver, MclContact.accepted, hs, haccept]
    · rw [hs] at hs'
      exact absurd hs' (by decide)
  · have hsame : b.accepted arrived = b.accepted true := by
      unfold MclContact.accepted
      grind
    have hstate : (b.accepted true).state = .active := hdone.state
    rw [hsame]
    simp [MclCommitLink.deliver, hstate, hdone.commit_repeat]

end Ends

private theorem MclCommitArrived.snoc (d : MclCommitDelivery)
    (tr : List (Event MclCommitLink MclCommitDelivery)) (ev : Event MclCommitLink MclCommitDelivery) :
    MclCommitArrived d (tr ++ [ev]) = (MclCommitArrived d tr || decide (ev.label = d)) := by
  simp [MclCommitArrived]

private theorem MclCommitProgress.step {tr : List (Event MclCommitLink MclCommitDelivery)}
    {l l' : MclCommitLink} {d : MclCommitDelivery} (h : MclCommitEnds a b m s t)
    (ha : MclContactWellFormed a) (hb : MclContactWellFormed b)
    (hprogress : MclCommitProgress a b tr l) (hstep : l.deliver m s d = some l') :
    MclCommitProgress a b (tr ++ [⟨l, d, l'⟩]) l' := by
  obtain ⟨sender, receiver, sent⟩ := l
  obtain ⟨hsent, horder, hsender, hreceiver⟩ := hprogress
  cases d with
  | commit =>
    obtain rfl : receiver = _ := hreceiver
    rw [h.deliver_commit ha hb] at hstep
    obtain rfl := Option.some.inj hstep
    have hsame : sender = a.confirmed (MclCommitArrived .confirm tr) := hsender
    constructor <;> simp [MclCommitArrived.snoc, ← hsame]
  | confirm =>
    have harrived : sent = true := by
      by_contra hsent
      simp [MclCommitLink.deliver, hsent] at hstep
    subst harrived
    have hsame : receiver = b.accepted (MclCommitArrived .commit tr) := hreceiver
    obtain rfl : sender = _ := hsender
    rw [h.deliver_confirm ha] at hstep
    obtain rfl := Option.some.inj hstep
    constructor <;> simp [MclCommitArrived.snoc, ← hsent, hsame]

private theorem MclCommitRun.progress {tr : List (Event MclCommitLink MclCommitDelivery)}
    {l : MclCommitLink} (h : MclCommitEnds a b m s t) (ha : MclContactWellFormed a)
    (hb : MclContactWellFormed b) (run : MclCommitRun m s ⟨a, b, false⟩ tr l) :
    MclCommitProgress a b tr l := by
  refine Run.history (H := fun tr l => MclCommitProgress a b tr l) run along_true ?_
    fun hprogress hstep _ => hprogress.step h ha hb hstep
  constructor <;> simp [MclCommitArrived, MclContact.confirmed, MclContact.accepted]

private theorem settled_count_self (c : MclContact) :
    c.settled.migrationCount.toNat = min 65535 (c.migrationCount.toNat + 1) := by
  apply settled_count
  have hlt := c.migrationCount.toNat_lt
  omega

/-- A lost commit or confirmation is repaired by retransmission, and counted once. -/
theorem mclContact_commit_repaired {tr : List (Event MclCommitLink MclCommitDelivery)}
    {l : MclCommitLink} (ha : MclContactReachable a) (hb : MclContactReachable b)
    (h : MclCommitEnds a b m s t) (run : MclCommitRun m s ⟨a, b, false⟩ tr l) :
    (l.sender = a ∨ MclContactRestsOn m t l.sender) ∧
    (MclCommitArrived .confirm tr = true → MclCommitArrived .commit tr = true ∧
      MclContactRestsOn m t l.sender ∧ MclContactRestsOn m t l.receiver) ∧
    l.sender.migrationCount.toNat =
      (if MclCommitArrived .confirm tr then min 65535 (a.migrationCount.toNat + 1)
        else a.migrationCount.toNat) ∧
    l.receiver.migrationCount.toNat =
      (if MclCommitArrived .commit tr ∧ b.state = .validated then
        min 65535 (b.migrationCount.toNat + 1) else b.migrationCount.toNat) ∧
    ∃ l', script (MclCommitLink.deliver m s) l [.commit, .confirm] = some l' ∧
      MclContactRestsOn m t l'.sender ∧ MclContactRestsOn m t l'.receiver := by
  have hwa := ha.wellFormed
  have hwb := hb.wellFormed
  have hprogress := MclCommitRun.progress h hwa hwb run
  refine ⟨?_, ?_, ?_, ?_, ?_⟩
  · rw [hprogress.sender]
    cases MclCommitArrived .confirm tr with
    | false => exact Or.inl rfl
    | true => exact Or.inr h.sender_rests
  · intro hheard
    have harrived := hprogress.order hheard
    refine ⟨harrived, ?_, ?_⟩
    · rw [hprogress.sender, hheard]
      exact h.sender_rests
    · rw [hprogress.receiver, harrived]
      exact h.receiver_rests hwb
  · rw [hprogress.sender, MclContact.confirmed]
    split_ifs
    · exact settled_count_self a
    · rfl
  · rw [hprogress.receiver, MclContact.accepted]
    split_ifs
    · exact settled_count_self b
    · rfl
  · obtain ⟨sender, receiver, sent⟩ := l
    obtain ⟨-, -, hsender, hreceiver⟩ := hprogress
    obtain rfl : sender = _ := hsender
    obtain rfl : receiver = _ := hreceiver
    refine ⟨⟨a.confirmed true, b.accepted true, true⟩, ?_, h.sender_rests, h.receiver_rests hwb⟩
    simp only [script, h.deliver_commit hwa hwb, h.deliver_confirm hwa, Option.bind_some]

/-- The confirmation of the first commit is lost; a second commit is answered and confirmed. -/
theorem mclContact_commit_repaired_second :
    let o : MclOffer := ⟨0x5001, 2, 1, 0xD00D, 30⟩
    let calls := mclContactMigrationCalls o 0x77 (Vector.replicate 8 0xC5)
    let a := (mclContactBegun mclContactRoleInitiator 0xA0 1).after (calls.take 4 ++ [.commitBegin])
    let b := (mclContactBegun mclContactRoleResponder 0xB0 1).after (calls.take 4)
    let l : MclCommitLink := ⟨a.settled, b.settled, true⟩
    script (MclCommitLink.deliver 0x5001 0x77) ⟨a, b, false⟩ [.commit, .commit, .confirm] = some l ∧
      MclContactRestsOn 0x5001 2 l.sender ∧ MclContactRestsOn 0x5001 2 l.receiver := by
  intro o calls a b l
  have hscript : script (MclCommitLink.deliver 0x5001 0x77) ⟨a, b, false⟩
      [.commit, .commit, .confirm] = some l := by decide
  have ha : MclContactReachable a := ⟨mclContactBegun mclContactRoleInitiator 0xA0 1, _,
    mclContactBegun_starts 0xA0 (by decide) (by decide), MclContact.history_run _ _⟩
  have hb : MclContactReachable b := ⟨mclContactBegun mclContactRoleResponder 0xB0 1, _,
    mclContactBegun_starts 0xB0 (by decide) (by decide), MclContact.history_run _ _⟩
  have hends : MclCommitEnds a b 0x5001 0x77 2 :=
    ⟨by decide, by decide, Or.inl (by decide)⟩
  have hheard : MclCommitArrived .confirm (trail (MclCommitLink.deliver 0x5001 0x77) ⟨a, b, false⟩
      [.commit, .commit, .confirm]) = true := by decide
  exact ⟨hscript, ((mclContact_commit_repaired ha hb hends (Run.of_script hscript)).2.1 hheard).2⟩

end MclLink
