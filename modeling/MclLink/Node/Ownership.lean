import MclLink.Contact.Handshake
import MclLink.Link.Lifecycle

/-!
# A node owns the place where its two machines cross

A node holds a link and a contact, and neither owns the other. A migration may be driven only while
the link is `established` or in `handoff`, and the link does not leave these states while one is
outstanding. Both halves of the rule are needed for what a migration then means: the peers had
established a session before the transport was offered, and they still hold it when the contact
moves.
-/

namespace MclLink

open LabelledRun

/-- The two machines of a node. -/
structure MclNode where
  link : MclLinkT
  contact : MclContact
  deriving DecidableEq, Repr

inductive MclNodeCall where
  | link (call : MclLinkCall)
  | contact (call : MclContactCall)
  deriving DecidableEq, Repr

/-- The states in which a migration may be driven. -/
def MclLinkState.mayMigrate : MclLinkState → Bool
  | .established | .handoff => true
  | _ => false

/-- The calls that make, or answer, a message of a migration. -/
def MclContactCall.drives : MclContactCall → Bool
  | .recordOffer .. | .resolveOfferCollision .. | .agree .. | .validationBegin ..
  | .validationResponse .. | .challengeRepeat .. | .commitBegin | .commitConfirm ..
  | .commitAccept .. | .commitRepeat .. => true
  | _ => false

def MclNodeCall.isBegin : MclNodeCall → Bool
  | .link _ => false
  | .contact call => call.isBegin

/-- One call, answered with a status; `none` when the rule refuses it. -/
def MclNode.perform (n : MclNode) : MclNodeCall → Option (MclLinkStatus × MclNode)
  | .link call =>
      let r := call.exec n.link
      if mclContactMigrationInProgress n.contact = true ∧ r.2.state.mayMigrate = false then none
      else some (r.1, { n with link := r.2 })
  | .contact call =>
      if call.drives = true ∧ n.link.state.mayMigrate = false then none
      else
        let r := call.exec n.contact
        some (r.1, { n with contact := r.2 })

/-- The node after a call that is answered with the status of the label. -/
def MclNode.step (n : MclNode) (e : MclNodeCall × MclLinkStatus) : Option MclNode :=
  (n.perform e.1).bind fun r => if r.1 = e.2 then some r.2 else none

def MclNodeStep (n : MclNode) (e : MclNodeCall × MclLinkStatus) (n' : MclNode) : Prop :=
  n.step e = some n'

abbrev MclNodeEvent := Event MclNode (MclNodeCall × MclLinkStatus)

abbrev MclNodeRun := Run MclNodeStep

/-- A link that was just initialised and a contact that was just begun. -/
def MclNode.Starts (n : MclNode) : Prop :=
  (∃ l mask, mclLinkInit l mask = (.ok, n.link)) ∧ MclContactStarts n.contact

/-- What the link of the node did. -/
def MclNodeEvent.onLink (ev : MclNodeEvent) : Option MclLinkEvent :=
  match ev.label with
  | (.link call, st) => some ⟨ev.before.link, (call, st), ev.after.link⟩
  | (.contact _, _) => none

/-- The transaction of the offer was opened. -/
def MclNodeOffers (o : MclOffer) (ev : MclNodeEvent) : Prop :=
  ∃ call, ev.label.1 = .contact call ∧
    MclContactInstalls ⟨ev.before.contact, (call, ev.label.2), ev.after.contact⟩ o

/-- The link is where a migration may be driven. -/
def MclNodeAllows (ev : MclNodeEvent) : Prop :=
  ev.after.link.state.mayMigrate = true

variable {n n' n₀ : MclNode} {c c' : MclContact} {l l' : MclLinkT} {e : MclNodeCall × MclLinkStatus}
  {tr : List MclNodeEvent} {st : MclLinkStatus}

private theorem MclNodeStep.perform (h : MclNodeStep n e n') : n.perform e.1 = some (e.2, n') := by
  obtain ⟨⟨st, n''⟩, hperform, hst⟩ := Option.bind_eq_some_iff.mp h
  split_ifs at hst with heq
  obtain rfl : n'' = n' := Option.some.inj hst
  obtain rfl : st = e.2 := heq
  exact hperform

private theorem MclNodeStep.link {call : MclLinkCall} (h : MclNodeStep n (.link call, st) n') :
    MclLinkStep n.link (call, st) n'.link ∧ n'.contact = n.contact ∧
      (mclContactMigrationInProgress n.contact = true → n'.link.state.mayMigrate = true) := by
  have h := h.perform
  simp only [MclNode.perform] at h
  split_ifs at h with hrule
  obtain ⟨rfl, rfl⟩ := Prod.mk.inj (Option.some.inj h)
  exact ⟨rfl, rfl, fun hprogress => by simpa [hprogress] using hrule⟩

private theorem MclNodeStep.contact {call : MclContactCall}
    (h : MclNodeStep n (.contact call, st) n') :
    MclContactStep n.contact (call, st) n'.contact ∧ n'.link = n.link ∧
      (call.drives = true → n.link.state.mayMigrate = true) := by
  have h := h.perform
  simp only [MclNode.perform] at h
  split_ifs at h with hrule
  obtain ⟨rfl, rfl⟩ := Prod.mk.inj (Option.some.inj h)
  exact ⟨rfl, rfl, fun hdrives => by simpa [hdrives] using hrule⟩

private theorem MclNodeRun.onLink (run : MclNodeRun n₀ tr n) :
    MclLinkRun n₀.link (tr.filterMap MclNodeEvent.onLink) n.link := by
  refine run.restrict MclNode.link MclNodeEvent.onLink ?_
  rintro n ⟨call, st⟩ n' hstep
  cases call with
  | link call => exact Or.inr ⟨(call, st), rfl, hstep.link.1⟩
  | contact call => exact Or.inl ⟨rfl, hstep.contact.2.1⟩

private theorem MclContactStep.outstanding {e : MclContactCall × MclLinkStatus}
    (h : MclContactStep c e c')
    (hbegin : ¬ e.1.isBegin) (hprogress : mclContactMigrationInProgress c' = true) :
    (mclContactMigrationInProgress c = true ∧ c'.pendingOffer = c.pendingOffer) ∨
      ∃ o, MclContactInstalls ⟨c, e, c'⟩ o ∧ c'.pendingOffer = o ∧ e.1.drives = true := by
  have hstates := mclContactMigrationInProgress_iff c
  obtain ⟨call, st⟩ := e
  rcases h.outcome with rfl | ⟨hok, heff⟩
  · exact Or.inl ⟨hprogress, rfl⟩
  · obtain rfl : st = .ok := hok
    cases heff with
    | begin => exact absurd rfl hbegin
    | bindPeer => exact Or.inl ⟨hprogress, rfl⟩
    | @openOffer o hactive => exact Or.inr ⟨o, Or.inl ⟨hactive, rfl⟩, rfl, rfl⟩
    | @adoptOffer source o out hoffered ho hlt hcur =>
      have hwin := @adoptOffer_result c source o out hoffered ho hlt hcur
      exact Or.inr ⟨o, Or.inr ⟨source, some out, rfl, hwin⟩, rfl, rfl⟩
    | agree hstate | challenge hstate | validate hstate | commitBegin hstate =>
      exact Or.inl ⟨hstates.mpr (by simp [hstate]), rfl⟩
    | tieAbort | commitConfirm | commitAccept | abandon | close =>
      exact absurd hprogress (by simp [mclContactMigrationInProgress])

/-- An outstanding migration was offered while the link allowed it, and the link has allowed it
ever since. -/
theorem MclNodeRun.offered (hstart : n₀.Starts) (run : MclNodeRun n₀ tr n)
    (hbegin : ∀ ev ∈ tr, ¬ ev.label.1.isBegin)
    (hprogress : mclContactMigrationInProgress n.contact = true) :
    n.link.state.mayMigrate = true ∧
      Then (fun _ => True) (fun ev => MclNodeOffers n.contact.pendingOffer ev ∧ MclNodeAllows ev)
        MclNodeAllows tr := by
  revert hprogress
  apply run.history (H := fun tr n => mclContactMigrationInProgress n.contact = true →
    n.link.state.mayMigrate = true ∧ Then (fun _ => True)
      (fun ev => MclNodeOffers n.contact.pendingOffer ev ∧ MclNodeAllows ev) MclNodeAllows tr)
    (along_of_forall hbegin)
  · obtain ⟨-, hstart⟩ := hstart
    obtain ⟨role, localRef, t, -, hbegun⟩ := hstart.eq_begun
    intro hprogress
    rw [hbegun] at hprogress
    exact absurd hprogress (by simp [mclContactMigrationInProgress])
  · rintro tr n ⟨call, st⟩ n' ih hstep hquiet hprogress
    cases call with
    | link call =>
      obtain ⟨-, hcontact, hallows⟩ := hstep.link
      rw [hcontact] at hprogress ⊢
      exact ⟨hallows hprogress, (ih hprogress).2.wait (hallows hprogress)⟩
    | contact call =>
      obtain ⟨hcall, hlink, hallows⟩ := hstep.contact
      rcases hcall.outstanding hquiet hprogress with ⟨hbefore, hsame⟩ | ⟨o, hinstalls, rfl, hdrives⟩
      · obtain ⟨hmay, hthen⟩ := ih hbefore
        rw [← hlink] at hmay
        rw [hsame]
        exact ⟨hmay, hthen.wait hmay⟩
      · have hmay := hallows hdrives
        rw [← hlink] at hmay
        exact ⟨hmay, Then.now trivial ⟨⟨call, rfl, hinstalls⟩, hmay⟩⟩

private theorem MclLinkStep.context {e : MclLinkCall × MclLinkStatus} (h : MclLinkStep l e l')
    (hinstall : ∀ key, e ≠ (.installContext key, .ok)) (hsession : l'.state.inSession = true) :
    l'.contextValid = l.contextValid ∧ l'.activeContext = l.activeContext := by
  cases h.effect with
  | installs key => exact absurd rfl (hinstall _)
  | ends quiet clear outside => exact absurd (outside.symm.trans hsession) (by decide)
  | stays => exact ⟨rfl, rfl⟩

private theorem MclNode.Starts.idle (h : n.Starts) : n.link.state = .idle := by
  obtain ⟨⟨l, mask, hinit⟩, -⟩ := h
  exact congrArg (fun r => r.2.state) hinit.symm

private theorem MclLinkState.mayMigrate_iff {s : MclLinkState} :
    s.mayMigrate = true ↔ s = .established ∨ s = .handoff := by
  cases s <;> decide

private theorem MclLinkState.mayMigrate_inSession {s : MclLinkState} (h : s.mayMigrate = true) :
    s.inSession = true := by
  rcases mayMigrate_iff.mp h with rfl | rfl <;> rfl

private theorem MclNodeRun.context (run : MclNodeRun n₀ tr n)
    (hallows : ∀ ev ∈ tr, MclNodeAllows ev)
    (hinstall : ∀ ev ∈ tr, ∀ key, ev.label ≠ (.link (.installContext key), .ok)) :
    n.link.contextValid = n₀.link.contextValid ∧ n.link.activeContext = n₀.link.activeContext := by
  apply run.invariant_of (I := fun n => n.link.contextValid = n₀.link.contextValid ∧
    n.link.activeContext = n₀.link.activeContext) fun ev hev => And.intro (hallows ev hev)
      (hinstall ev hev)
  · exact ⟨rfl, rfl⟩
  · rintro n ⟨call, st⟩ n' ⟨hvalid, hactive⟩ hstep ⟨hmay, hquiet⟩
    cases call with
    | link call =>
      have hsame := hstep.link.1.context (fun key hkey => hquiet key (by simpa using hkey))
        (MclLinkState.mayMigrate_inSession hmay)
      exact ⟨hsame.1.trans hvalid, hsame.2.trans hactive⟩
    | contact call =>
      rw [hstep.contact.2.1]
      exact ⟨hvalid, hactive⟩

private theorem mclLinkAuthorizeContext_congr (hvalid : l.contextValid = l'.contextValid)
    (hactive : l.activeContext = l'.activeContext) (k : Option MclLinkContextKey) :
    mclLinkAuthorizeContext l k = mclLinkAuthorizeContext l' k := by
  simp only [mclLinkAuthorizeContext, hvalid, hactive]

/-- A contact that is not begun again changes its transport within one session only: the link had
climbed the whole ladder when the transport was offered, has stayed where migrations are driven from
then on, and authorises what it authorised then unless a context was installed meanwhile. -/
theorem mclNode_moves_in_contact (hstart : n₀.Starts) (run : MclNodeRun n₀ tr n)
    (hbegin : ∀ ev ∈ tr, ¬ ev.label.1.isBegin) :
    Along (fun past ev => ev.after.contact.activeTransport ≠ ev.before.contact.activeTransport →
      ∃ o before offer since, past = before ++ offer :: since ∧ MclNodeOffers o offer ∧
        o.transport = ev.after.contact.activeTransport ∧
        MclLinkClimbed [.established, .negotiating, .capabilities, .discovered]
          (before.filterMap MclNodeEvent.onLink) ∧
        (∀ x ∈ offer :: since,
          x.after.link.state = .established ∨ x.after.link.state = .handoff) ∧
        ((∀ x ∈ since, ∀ key, x.label ≠ (.link (.installContext key), .ok)) →
          ∀ k, mclLinkAuthorizeContext ev.after.link (some k) =
            mclLinkAuthorizeContext offer.before.link (some k))) tr := by
  rintro past ⟨before, ⟨call, st⟩, after⟩ rest rfl hmove
  obtain ⟨mid, hpast, htail⟩ := run.split
  obtain ⟨rfl, hstep, -⟩ := htail.head
  have hstep : MclNodeStep mid (call, st) after := hstep
  cases call with
  | link call => exact absurd (congrArg MclContact.activeTransport hstep.link.2.1) hmove
  | contact call =>
    obtain ⟨hcall, hlink, -⟩ := hstep.contact
    have hquiet : ¬ call.isBegin := hbegin ⟨mid, (.contact call, st), after⟩ (by simp)
    obtain ⟨hsettled, -, -, hstates⟩ := hcall.moves hquiet hmove
    have hprogress := (mclContactMigrationInProgress_iff mid.contact).mpr (by tauto)
    obtain ⟨-, before, offer, since, rfl, -, ⟨hoffers, hmay⟩, hsince⟩ := MclNodeRun.offered hstart
      hpast (fun ev hev => hbegin ev (List.mem_append_left _ hev)) hprogress
    obtain ⟨first, hbefore, hoffer⟩ := hpast.split
    obtain ⟨rfl, hopen, hrest⟩ := hoffer.head
    have hsame : offer.after.link = offer.before.link := by
      obtain ⟨before, ⟨call, st⟩, after⟩ := offer
      obtain ⟨call, rfl, -⟩ := hoffers
      exact hopen.contact.2.1
    refine ⟨mid.contact.pendingOffer, before, offer, since, rfl, hoffers, ?_, ?_, ?_, ?_⟩
    · exact congrArg MclContact.activeTransport hsettled.symm
    · have hladder := mclLinkRun_ladder (MclNodeRun.onLink hbefore) hstart.idle
        fun _ _ => then_nil
      rw [List.nil_append] at hladder
      apply hladder.established.mp
      rw [← hsame]
      rcases MclLinkState.mayMigrate_iff.mp hmay with hstate | hstate <;> rw [hstate] <;> rfl
    · intro x hx
      apply MclLinkState.mayMigrate_iff.mp
      rcases List.mem_cons.mp hx with rfl | hx
      · exact hmay
      · exact hsince x hx
    · intro hinstall k
      obtain ⟨hvalid, hactive⟩ := MclNodeRun.context hrest hsince hinstall
      rw [← hsame, hlink]
      exact mclLinkAuthorizeContext_congr hvalid hactive (some k)

/-- A responder whose link goes to `handoff` while the contact migrates. -/
theorem mclNode_moves_in_contact_handoff :
    let n₀ : MclNode := ⟨⟨.idle, false, mclLinkZeroContext, 2⟩,
      mclContactBegun mclContactRoleResponder 0xB0 1⟩
    let labels : List (MclNodeCall × MclLinkStatus) :=
      [(.link (.transition 1), .ok), (.link (.transition 4), .errInvalidState),
        (.link (.transition 2), .ok), (.link (.transition 3), .ok), (.link (.transition 4), .ok),
        (.contact (.recordOffer ⟨0x5001, 2, 1, 0xD00D, 30⟩), .ok), (.link (.transition 6), .ok),
        (.contact (.agree 0x5001 2 1 0x77), .ok),
        (.contact (.validationBegin (some (Vector.replicate 8 0xC5))), .ok),
        (.contact (.validationResponse 0x5001 0x77 (some (Vector.replicate 8 0xC5))), .ok),
        (.link (.transition 4), .ok), (.contact (.commitAccept 0x5001 0x77), .ok)]
    (trail MclNode.step n₀ labels).length = 12 ∧
      Along (fun past ev => ev.after.contact.activeTransport ≠ ev.before.contact.activeTransport →
        ∃ before offer since, past = before ++ offer :: since ∧
          MclLinkClimbed [.established, .negotiating, .capabilities, .discovered]
            (before.filterMap MclNodeEvent.onLink)) (trail MclNode.step n₀ labels) := by
  intro n₀ labels
  have hstart : n₀.Starts := ⟨⟨⟨.closed, true, mclLinkZeroContext, 0⟩, 2, rfl⟩,
    mclContactBegun_starts 0xB0 (by decide) (by decide)⟩
  obtain ⟨n, hn⟩ := Option.isSome_iff_exists.mp
    (by decide +kernel : (script MclNode.step n₀ labels).isSome = true)
  have hmoves := mclNode_moves_in_contact hstart (Run.of_script hn) (by decide +kernel)
  refine ⟨by decide +kernel, fun past ev rest htr hmove => ?_⟩
  obtain ⟨-, before, offer, since, hpast, -, -, hclimbed, -⟩ := hmoves past ev rest htr hmove
  exact ⟨before, offer, since, hpast, hclimbed⟩

end MclLink
