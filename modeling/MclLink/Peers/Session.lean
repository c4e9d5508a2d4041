import MclLink.Peers.Effect

/-!
# Session agreement

A peer that accepts binds its session reference before the other one hears of it. The references
of the two peers stay equal exactly as long as no unbound peer accepts, with a reference of its
own choosing, an offer of a peer that is bound already.
-/

namespace MclLink

open LabelledRun

/-- Two contacts that both have a session have the same one. -/
def MclPeer.SharesSession (p q : MclPeer) : Prop :=
  p.contact.sessionValid = true → q.contact.sessionValid = true →
    p.contact.sessionRef = q.contact.sessionRef

def MclPair.SessionsAgree (s : MclPair) : Prop := s.left.SharesSession s.right

/-- The session reference a peer would choose if it accepts unbound. -/
def MclAction.choice : MclAction → Option UInt32
  | .accept choice => some choice
  | _ => none

/-- An unbound peer that accepts finds the other one unbound, or chooses its reference. -/
def MclPair.AcceptsSafely (s : MclPair) (e : MclSide × MclAction) : Prop :=
  ∀ choice ∈ e.2.choice, (s.peer e.1).contact.sessionValid = false →
    (s.peer e.1.other).contact.sessionValid = true →
      choice = (s.peer e.1.other).contact.sessionRef

instance (s : MclPair) (e : MclSide × MclAction) : Decidable (s.AcceptsSafely e) :=
  Option.decidableForallMem e.2.choice

/-- Every acceptance a peer has sent carries the session it is bound to. -/
structure MclPeer.Carries (p : MclPeer) : Prop where
  closed : p.contact.state = .closed → p.contact.sessionValid = false
  sent : ∀ {m t pr s}, .accept m t pr s ∈ p.sent → p.contact.state = .closed ∨
    (p.contact.sessionValid = true ∧ p.contact.sessionRef = s)

variable {inbox : List MclMessage} {p p' q : MclPeer} {action : MclAction}

private theorem MclPeer.Carries.keep (h : p.Carries) (hopen : p.contact.state ≠ .closed)
    (hopen' : p'.contact.state ≠ .closed)
    (hsession : p'.contact.sessionValid = p.contact.sessionValid ∧
      p'.contact.sessionRef = p.contact.sessionRef)
    (hsent : ∀ m t pr s, .accept m t pr s ∈ p'.sent → .accept m t pr s ∈ p.sent) :
    p'.Carries := by
  refine ⟨fun hclosed => absurd hclosed hopen', ?_⟩
  intro m t pr s hm
  rw [hsession.1, hsession.2]
  exact Or.inr ((h.sent (hsent m t pr s hm)).resolve_left hopen)

theorem MclPeerEffect.carries (heff : MclPeerEffect inbox p action p') (h : p.Carries) :
    p'.Carries := by
  cases heff with
  | propose hs | tieAbort hs | challenge hs | probe hs | validate hs | commit hs | settle _ hs
  | conclude _ hs => exact h.keep (by simp [hs]) (by simp) ⟨rfl, rfl⟩ (by simp)
  | join _ hs => exact h.keep (by rcases hs with hs | hs <;> simp [hs]) (by simp) ⟨rfl, rfl⟩ (by simp)
  | abandon hrev =>
    have hopen : p.contact.state ≠ .closed := by
      rcases (mclContactMigrationIsRevocable_iff _).mp hrev with hs | hs | hs | hs <;> simp [hs]
    exact h.keep hopen (by simp) ⟨rfl, rfl⟩ (by simp)
  | reconfirm _ hs => exact h.keep (by simp [hs]) (by simp [hs]) ⟨rfl, rfl⟩ (by simp)
  | echo => exact ⟨h.closed, fun hm => h.sent (by simpa using hm)⟩
  | close => exact ⟨fun _ => rfl, fun _ => Or.inl rfl⟩
  | @accept choice hs =>
    refine ⟨by simp, ?_⟩
    intro m t pr s hm
    rcases List.mem_cons.mp hm with heq | hm
    · obtain ⟨-, -, -, rfl⟩ := MclMessage.accept.inj heq
      exact Or.inr ⟨rfl, rfl⟩
    · obtain ⟨hvalid, rfl⟩ := (h.sent hm).resolve_left (by simp [hs])
      exact Or.inr ⟨rfl, by simp [MclContact.chosen, hvalid]⟩
  | @bind s _ hs _ hbound =>
    refine ⟨by simp, ?_⟩
    intro m t pr s' hm
    obtain ⟨hvalid, rfl⟩ := (h.sent hm).resolve_left (by simp [hs])
    exact Or.inr ⟨rfl, hbound hvalid⟩

private theorem MclPeer.SharesSession.symm (h : p.SharesSession q) : q.SharesSession p :=
  fun hq hp => (h hp hq).symm

private theorem MclPeer.SharesSession.keep (h : p.SharesSession q)
    (hvalid : p'.contact.sessionValid = true → p.contact.sessionValid = true ∧
      p'.contact.sessionRef = p.contact.sessionRef) : p'.SharesSession q := by
  intro hp' hq
  obtain ⟨hp, href⟩ := hvalid hp'
  rw [href]
  exact h hp hq

private theorem MclPeerEffect.sharesSession (heff : MclPeerEffect q.sent p action p')
    (hq : q.Carries) (h : p.SharesSession q)
    (hsafe : ∀ choice ∈ action.choice, p.contact.sessionValid = false →
      q.contact.sessionValid = true → choice = q.contact.sessionRef) : p'.SharesSession q := by
  cases heff with
  | close => exact h.keep (by simp)
  | @accept choice hs =>
    cases hvalid : p.contact.sessionValid with
    | true => exact h.keep fun _ => ⟨hvalid, by simp [MclContact.chosen, hvalid]⟩
    | false =>
      intro _ hq'
      simpa [MclContact.chosen, hvalid] using hsafe choice rfl hvalid hq'
  | @bind s hsent hs _ hbound =>
    intro _ hq'
    rcases hq.sent hsent with hclosed | ⟨-, rfl⟩
    · simp [hq.closed hclosed] at hq'
    · rfl
  | _ => exact h.keep fun hvalid => ⟨hvalid, rfl⟩

/-- What a run whose acceptances are safe keeps, of a peer against the other one. -/
def MclPeer.SessionInvariant (p q : MclPeer) : Prop :=
  p.Carries ∧ p.SharesSession q

theorem MclPair.sessionInvariant_step {s s' : MclPair} {e : MclSide × MclAction}
    (h : ∀ x, (s.peer x).SessionInvariant (s.peer x.other)) (hstep : s.perform e = some s')
    (hsafe : s.AcceptsSafely e) : ∀ x, (s'.peer x).SessionInvariant (s'.peer x.other) := by
  obtain ⟨side, action⟩ := e
  obtain ⟨hp, hshares⟩ := h side
  obtain ⟨hq, -⟩ := h side.other
  refine MclPair.perform_forall hstep h fun p' heff => ?_
  have hshares' := heff.sharesSession hq hshares hsafe
  exact ⟨⟨heff.carries hp, hshares'⟩, ⟨hq, hshares'.symm⟩⟩

theorem MclPair.Starts.sessionInvariant {s : MclPair} (h : s.Starts) :
    ∀ x, (s.peer x).SessionInvariant (s.peer x.other) := by
  obtain ⟨a, b, ha, hb, -, rfl⟩ := h
  obtain ⟨_, _, _, -, rfl⟩ := ha.eq_begun
  obtain ⟨_, _, _, -, rfl⟩ := hb.eq_begun
  intro x
  cases x <;> exact ⟨⟨by simp [MclPair.peer], by simp [MclPair.peer]⟩,
    by simp [MclPeer.SharesSession, MclPair.peer, MclSide.other]⟩

private theorem MclPeer.accept_unbound {choice : UInt32}
    (h : p.perform inbox (.accept choice) = some p') (hunbound : p.contact.sessionValid = false) :
    p'.contact.sessionValid = true ∧ p'.contact.sessionRef = choice := by
  by_cases hready : p.contact.state = .offered ∧ p.offering = false ∧
    choice ≠ mclContactSessionNone
  · have hagree := (@MclContactEffect.agree p.contact choice hready.1 hready.2.2
      (by simp [hunbound])).exec
    have hcall : mclContactAgree p.contact p.contact.pendingMigrationRef
        p.contact.pendingTransport p.contact.pendingProfile choice =
      (.ok, p.contact.bound choice) := hagree
    simp only [MclPeer.perform, if_pos hready, hunbound, Bool.false_eq_true, if_false, hcall] at h
    obtain rfl := Option.some.inj h
    exact ⟨rfl, rfl⟩
  · simp [MclPeer.perform, hready] at h

private theorem MclPair.SessionsAgree.peer {s : MclPair} (h : s.SessionsAgree) (side : MclSide) :
    (s.peer side).SharesSession (s.peer side.other) := by
  cases side with
  | left => exact h
  | right => exact h.symm

/-- In a run of two peers the sessions agree in every state exactly if no unbound peer accepts
with a reference of its own choosing while the other one is bound to a different one. -/
theorem mclPair_sessions_agree_iff {s₀ s : MclPair} {tr : List (Event MclPair (MclSide × MclAction))}
    (hstart : s₀.Starts) (run : MclPairRun s₀ tr s) :
    (∀ ev ∈ tr, ev.after.SessionsAgree) ↔ ∀ ev ∈ tr, ev.before.AcceptsSafely ev.label := by
  constructor
  · intro hagree ev hev choice haccept hunbound hbound
    obtain ⟨past, -, hstep⟩ := run.event hev
    obtain ⟨before, ⟨side, action⟩, after⟩ := ev
    obtain rfl : action = .accept choice := by
      cases action <;> simp_all [MclAction.choice]
    obtain ⟨hperform, hother⟩ := MclPair.perform_peer hstep
    obtain ⟨hvalid, href⟩ := MclPeer.accept_unbound hperform hunbound
    have hshares := (hagree _ hev).peer side
    rw [MclPeer.SharesSession, hother] at hshares
    rw [← href]
    exact hshares hvalid hbound
  · intro hsafe ev hev
    have h := Run.invariant_after
      (I := fun s => ∀ x, (s.peer x).SessionInvariant (s.peer x.other)) run hsafe
      hstart.sessionInvariant (fun hs hstep hok => MclPair.sessionInvariant_step hs hstep hok) ev hev
    exact (h .left).2

/-- The right peer accepts an offer of the left one and both go on to share its reference. -/
theorem mclPair_sessions_agree_accepted :
    let s₀ : MclPair := ⟨⟨mclContactBegun mclContactRoleInitiator 0xA0 1, false, []⟩,
      ⟨mclContactBegun mclContactRoleResponder 0xB0 1, false, []⟩⟩
    let o : MclOffer := ⟨0x5001, 2, 1, 0xD00D, 30⟩
    let actions : List (MclSide × MclAction) := [(.left, .offer o),
      (.right, .receive (.offer 0xA0 o)), (.right, .accept 0x11),
      (.left, .receive (.accept 0x5001 2 1 0x11))]
    (trail MclPair.perform s₀ actions).length = 4 ∧
      ∀ ev ∈ trail MclPair.perform s₀ actions, ev.after.SessionsAgree := by
  intro s₀ o actions
  have hstart : s₀.Starts := MclPair.starts_begun 0xA0 0xB0 (by decide)
  have hdone : (script MclPair.perform s₀ actions).isSome = true := by decide
  obtain ⟨s, hs⟩ := Option.isSome_iff_exists.mp hdone
  exact ⟨by decide, (mclPair_sessions_agree_iff hstart (Run.of_script hs)).mpr (by decide)⟩

/-- The left peer offers and the right one accepts and binds a session. The acceptance is lost,
both give up, the next offer goes the other way, and the left peer binds another session. -/
theorem mclPair_sessions_differ :
    let s₀ : MclPair := ⟨⟨mclContactBegun mclContactRoleInitiator 0xA0 1, false, []⟩,
      ⟨mclContactBegun mclContactRoleResponder 0xB0 1, false, []⟩⟩
    let o₁ : MclOffer := ⟨0x5001, 2, 1, 0xD00D, 30⟩
    let o₂ : MclOffer := ⟨0x5002, 2, 1, 0xBEEF, 30⟩
    let actions : List (MclSide × MclAction) := [(.left, .offer o₁),
      (.right, .receive (.offer 0xA0 o₁)), (.right, .accept 0x11), (.left, .abandon),
      (.right, .abandon), (.right, .offer o₂), (.left, .receive (.offer 0xB0 o₂)),
      (.left, .accept 0x22)]
    s₀.Starts ∧
      ((script MclPair.perform s₀ actions).map fun s =>
        (s.left.contact.sessionValid, s.left.contact.sessionRef, s.right.contact.sessionValid,
          s.right.contact.sessionRef)) = some (true, 0x22, true, 0x11) ∧
      ¬ ∀ tr s, MclPairRun s₀ tr s → s.SessionsAgree := by
  intro s₀ o₁ o₂ actions
  have hlost : ((script MclPair.perform s₀ actions).map fun s =>
      (s.left.contact.sessionValid, s.left.contact.sessionRef, s.right.contact.sessionValid,
        s.right.contact.sessionRef)) = some (true, 0x22, true, 0x11) := by decide
  refine ⟨MclPair.starts_begun 0xA0 0xB0 (by decide), hlost, fun hagree => ?_⟩
  obtain ⟨s, hs, hrefs⟩ := Option.map_eq_some_iff.mp hlost
  have h := hagree _ s (Run.of_script hs)
  simp only [Prod.mk.injEq] at hrefs
  obtain ⟨hleft, hl, hright, hr⟩ := hrefs
  have hsame := h hleft hright
  rw [hl, hr] at hsame
  exact absurd hsame (by decide)

end MclLink
