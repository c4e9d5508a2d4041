import MclLink.Control.Selection
import MclLink.Peers.Effect

/-!
# Two peers and their capabilities

Each peer advertises what it supports, records what the other one advertises, and proposes or checks
a selection, as sections 3 to 5 of the negotiation specification say. The payloads may be lost,
repeated, delayed and reordered, and a peer may advertise anew at any time.
-/

namespace MclLink

open Bytes LabelledRun

/-- The payload of a `CAPABILITY` or of a `NEGOTIATION` frame. -/
inductive MclNegPayload where
  | capability (bytes : List UInt8)
  | negotiation (bytes : List UInt8)
  deriving DecidableEq, Repr

/-- A peer: what it supports, what it has recorded of the other one, the selections it has proposed
or accepted, and all it has sent. -/
structure MclNegotiator where
  own : MclLinkCapability
  known : Option MclLinkCapability
  adopted : List MclLinkNegotiation
  sent : List MclNegPayload
  deriving DecidableEq, Repr

inductive MclNegAction where
  | advertise (wireMajors linkMajors maxFrame features : UInt16)
  | propose
  | receive (payload : MclNegPayload)
  deriving DecidableEq, Repr

def mclLinkCapabilityBlank : MclLinkCapability := ⟨0, 0, 0, 0, 0⟩

def mclLinkNegotiationBlank : MclLinkNegotiation := ⟨0, 0, 0, 0, 0⟩

/-- The verdict on a payload, and what the peer makes of it. -/
def MclNegotiator.receive (p : MclNegotiator) : MclNegPayload → MclLinkStatus × MclNegotiator
  | .capability bytes =>
    match mclLinkCapabilityDecode (some bytes) (some mclLinkCapabilityBlank) with
    | (.ok, some capability) => (.ok, { p with known := some capability })
    | (st, _) => (st, p)
  | .negotiation bytes =>
    match mclLinkNegotiationDecode (some bytes) (some mclLinkNegotiationBlank) with
    | (.ok, some proposal) =>
      match mclLinkNegotiationCheck (some proposal) (some p.own) p.known with
      | .ok => (.ok, { p with adopted := proposal :: p.adopted })
      | st => (st, p)
    | (st, _) => (st, p)

/-- One action of a peer to which `inbox` has been sent; `none` when it is refused. -/
def MclNegotiator.perform (inbox : List MclNegPayload) (p : MclNegotiator) :
    MclNegAction → Option MclNegotiator
  | .advertise wireMajors linkMajors maxFrame features =>
    match mclLinkMakeCapability (some p.own) wireMajors linkMajors maxFrame features with
    | (.ok, some capability) =>
      (pack .ok mclLinkCapabilityEncode mclLinkCapabilitySize capability).map fun bytes =>
        { p with own := capability, sent := .capability bytes :: p.sent }
    | _ => none
  | .propose =>
    match mclLinkNegotiationSelect (some p.own) p.known (some mclLinkNegotiationBlank) with
    | (.ok, some selection) =>
      (pack .ok mclLinkNegotiationEncode mclLinkNegotiationSize selection).map fun bytes =>
        { p with adopted := selection :: p.adopted, sent := .negotiation bytes :: p.sent }
    | _ => none
  | .receive payload => if payload ∈ inbox then some (p.receive payload).2 else none

/-- Two peers, each of which hears what the other one has sent. -/
abbrev MclExchange := MclSide → MclNegotiator

def MclExchange.perform (s : MclExchange) (e : MclSide × MclNegAction) : Option MclExchange :=
  ((s e.1).perform (s e.1.other).sent e.2).map fun p => Function.update s e.1 p

abbrev MclExchangeRun := Run fun (s : MclExchange) e s' => s.perform e = some s'

/-- Two peers that have not said anything yet, each with a capability it may advertise. -/
def MclExchange.Starts (s : MclExchange) : Prop :=
  ∀ x, mclLinkCapabilityFormat.Legal (s x).own ∧ (s x).known = none ∧ (s x).adopted = [] ∧
    (s x).sent = []

/-- The capability an action advertises. -/
def MclNegAction.capability : MclNegAction → Option MclLinkCapability
  | .advertise wireMajors linkMajors maxFrame features =>
    some ⟨mclLinkControlVersion, wireMajors, linkMajors, maxFrame, features⟩
  | _ => none

/-- What is advertised is what the peer supports already. -/
def MclExchange.Steady (s : MclExchange) (e : MclSide × MclNegAction) : Prop :=
  ∀ c ∈ e.2.capability, (s e.1).own = c

instance (s : MclExchange) (e : MclSide × MclNegAction) : Decidable (s.Steady e) :=
  Option.decidableForallMem e.2.capability

/-- The changes an action can make to a peer to which `inbox` has been sent. -/
inductive MclNegEffect (inbox : List MclNegPayload) (p : MclNegotiator) :
    MclNegAction → MclNegotiator → Prop where
  | advertise {c} : mclLinkCapabilityFormat.Legal c →
      MclNegEffect inbox p (.advertise c.wireMajors c.linkMajors c.maxFrame c.features)
        { p with own := c, sent := .capability (mclLinkCapabilityFormat.layout c) :: p.sent }
  | propose {c n} : p.known = some c → n.Selects p.own c →
      mclLinkNegotiatedFrameFloor ≤ n.maxFrame.toNat →
      MclNegEffect inbox p .propose
        { p with
          adopted := n :: p.adopted
          sent := .negotiation (mclLinkNegotiationFormat.layout n) :: p.sent }
  | learn {c} : .capability (mclLinkCapabilityFormat.layout c) ∈ inbox →
      mclLinkCapabilityFormat.Legal c →
      MclNegEffect inbox p (.receive (.capability (mclLinkCapabilityFormat.layout c)))
        { p with known := some c }
  | accept {n} : .negotiation (mclLinkNegotiationFormat.layout n) ∈ inbox →
      mclLinkNegotiationFormat.Legal n →
      mclLinkNegotiationCheck (some n) (some p.own) p.known = .ok →
      MclNegEffect inbox p (.receive (.negotiation (mclLinkNegotiationFormat.layout n)))
        { p with adopted := n :: p.adopted }

variable {p p' q q' : MclNegotiator} {inbox : List MclNegPayload} {action : MclNegAction}
  {c : MclLinkCapability} {n : MclLinkNegotiation} {payload : MclNegPayload}

private theorem mclLinkCapability_pack {bytes : List UInt8} :
    pack .ok mclLinkCapabilityEncode mclLinkCapabilitySize c = some bytes ↔
      mclLinkCapabilityFormat.Legal c ∧ bytes = mclLinkCapabilityFormat.layout c :=
  mclLinkCapability_implements.pack_eq_some fun _ => Nat.le_refl _

private theorem mclLinkNegotiation_pack {bytes : List UInt8} :
    pack .ok mclLinkNegotiationEncode mclLinkNegotiationSize n = some bytes ↔
      mclLinkNegotiationFormat.Legal n ∧ bytes = mclLinkNegotiationFormat.layout n :=
  mclLinkNegotiation_implements.pack_eq_some fun _ => Nat.le_refl _

private theorem MclNegotiator.receive_effect (hinbox : payload ∈ inbox) :
    (p.receive payload).2 = p ∨ MclNegEffect inbox p (.receive payload) (p.receive payload).2 := by
  cases payload with
  | capability bytes =>
    simp only [MclNegotiator.receive]
    split
    · next capability hdec =>
      obtain ⟨hlegal, -, rfl⟩ := mclLinkCapability_implements.of_decode hdec
      exact Or.inr (.learn hinbox hlegal)
    · exact Or.inl rfl
  | negotiation bytes =>
    simp only [MclNegotiator.receive]
    split
    · next proposal hdec =>
      obtain ⟨hlegal, -, rfl⟩ := mclLinkNegotiation_implements.of_decode hdec
      split
      · next hcheck => exact Or.inr (.accept hinbox hlegal hcheck)
      · exact Or.inl rfl
    · exact Or.inl rfl

private theorem MclNegotiator.perform_effect (h : p.perform inbox action = some p') :
    p' = p ∨ MclNegEffect inbox p action p' := by
  cases action with
  | advertise wireMajors linkMajors maxFrame features =>
    simp only [MclNegotiator.perform, mclLinkMakeCapability] at h
    split_ifs at h with hmajors hframe
    obtain ⟨bytes, hbytes, rfl⟩ := Option.map_eq_some_iff.mp h
    obtain ⟨hlegal, rfl⟩ := mclLinkCapability_pack.mp hbytes
    exact Or.inr (.advertise hlegal)
  | propose =>
    simp only [MclNegotiator.perform] at h
    split at h
    · next selection hselect =>
      obtain ⟨bytes, hbytes, rfl⟩ := Option.map_eq_some_iff.mp h
      obtain ⟨-, rfl⟩ := mclLinkNegotiation_pack.mp hbytes
      cases hknown : p.known with
      | none => simp [hknown, mclLinkNegotiationSelect] at hselect
      | some c =>
        rw [hknown] at hselect
        obtain ⟨hsel, hfloor⟩ := (mclLinkNegotiationSelect_ok_iff _).mp hselect
        rw [← hknown]
        exact Or.inr (.propose hknown hsel hfloor)
    · cases h
  | receive payload =>
    by_cases hinbox : payload ∈ inbox
    · simp only [MclNegotiator.perform, if_pos hinbox] at h
      obtain rfl := Option.some.inj h
      exact MclNegotiator.receive_effect hinbox
    · simp [MclNegotiator.perform, hinbox] at h

private theorem MclExchange.perform_forall {R : MclSide → MclNegotiator → MclNegotiator → Prop}
    {s s' : MclExchange} {x : MclSide} (h : s.perform (x, action) = some s')
    (hR : ∀ y, R y (s y) (s y.other))
    (hstep : ∀ p', MclNegEffect (s x.other).sent (s x) action p' →
      R x p' (s x.other) ∧ R x.other (s x.other) p') : ∀ y, R y (s' y) (s' y.other) := by
  obtain ⟨p', hp', rfl⟩ := Option.map_eq_some_iff.mp h
  rcases MclNegotiator.perform_effect hp' with hsame | heff
  · rw [hsame, Function.update_eq_self]
    exact hR
  · exact MclSide.update_forall (hstep p' heff).1 (hstep p' heff).2

section Truthful

variable {c₀ d₀ d : MclLinkCapability}

/-- The peer supports `c`, or did when it began or when it advertised it. -/
def MclNegotiator.Held (c₀ : MclLinkCapability) (p : MclNegotiator) (c : MclLinkCapability) : Prop :=
  mclLinkCapabilityFormat.Legal c ∧
    (c = c₀ ∨ .capability (mclLinkCapabilityFormat.layout c) ∈ p.sent)

/-- `n` is what two capabilities held by the two peers have in common. -/
def MclNegotiator.Common (c₀ d₀ : MclLinkCapability) (p q : MclNegotiator) (n : MclLinkNegotiation) :
    Prop :=
  ∃ c d, p.Held c₀ c ∧ q.Held d₀ d ∧ n.Selects c d ∧ mclLinkNegotiatedFrameFloor ≤ n.maxFrame.toNat

/-- All that a peer has recorded, said and adopted stems from capabilities that were held. -/
structure MclNegotiator.Truthful (c₀ d₀ : MclLinkCapability) (p q : MclNegotiator) : Prop where
  own : p.Held c₀ p.own
  known : ∀ d, p.known = some d → q.Held d₀ d
  said : ∀ bytes, .negotiation bytes ∈ p.sent →
    ∃ n, bytes = mclLinkNegotiationFormat.layout n ∧ MclNegotiator.Common c₀ d₀ p q n
  adopted : ∀ n ∈ p.adopted, MclNegotiator.Common c₀ d₀ p q n

private theorem MclNegotiator.Held.mono (h : p.Held c₀ c) (hsent : p.sent ⊆ p'.sent) :
    p'.Held c₀ c :=
  ⟨h.1, h.2.imp_right fun hm => hsent hm⟩

private theorem MclNegotiator.Common.mono (h : MclNegotiator.Common c₀ d₀ p q n)
    (hp : p.sent ⊆ p'.sent) (hq : q.sent ⊆ q'.sent) : MclNegotiator.Common c₀ d₀ p' q' n := by
  obtain ⟨c, d, hc, hd, hn⟩ := h
  exact ⟨c, d, hc.mono hp, hd.mono hq, hn⟩

private theorem MclNegotiator.Common.symm (h : MclNegotiator.Common c₀ d₀ p q n) :
    MclNegotiator.Common d₀ c₀ q p n := by
  obtain ⟨c, d, hc, hd, hsel, hfloor⟩ := h
  exact ⟨d, c, hd, hc, hsel.symm, hfloor⟩

private theorem MclNegotiator.Common.legal (h : MclNegotiator.Common c₀ d₀ p q n) :
    mclLinkNegotiationFormat.Legal n := by
  obtain ⟨c, d, -, -, hsel, hfloor⟩ := h
  exact hsel.legal hfloor

private theorem mclLinkNegotiation_layout_inj {n' : MclLinkNegotiation}
    (hn : mclLinkNegotiationFormat.Legal n) (hn' : mclLinkNegotiationFormat.Legal n')
    (h : mclLinkNegotiationFormat.layout n = mclLinkNegotiationFormat.layout n') : n = n' := by
  have hdec := mclLinkNegotiation_implements.decode_ok mclLinkNegotiationBlank hn
  rw [h, mclLinkNegotiation_implements.decode_ok mclLinkNegotiationBlank hn'] at hdec
  exact (Option.some.inj (Prod.mk.inj hdec).2).symm

private theorem mclLinkCapability_layout_inj (hc : mclLinkCapabilityFormat.Legal c)
    (hd : mclLinkCapabilityFormat.Legal d)
    (h : mclLinkCapabilityFormat.layout c = mclLinkCapabilityFormat.layout d) : c = d := by
  have hdec := mclLinkCapability_implements.decode_ok mclLinkCapabilityBlank hc
  rw [h, mclLinkCapability_implements.decode_ok mclLinkCapabilityBlank hd] at hdec
  exact (Option.some.inj (Prod.mk.inj hdec).2).symm

private theorem MclNegEffect.sent (heff : MclNegEffect inbox p action p') : p.sent ⊆ p'.sent := by
  cases heff <;> simp

private theorem MclNegEffect.truthful (heff : MclNegEffect q.sent p action p')
    (h : MclNegotiator.Truthful c₀ d₀ p q) (h' : MclNegotiator.Truthful d₀ c₀ q p) :
    MclNegotiator.Truthful c₀ d₀ p' q := by
  have hsent := heff.sent
  have hcommon : ∀ n, MclNegotiator.Common c₀ d₀ p q n → MclNegotiator.Common c₀ d₀ p' q n :=
    fun n hn => hn.mono hsent fun _ hm => hm
  have hsaid : ∀ bytes, .negotiation bytes ∈ p.sent → ∃ n, bytes = mclLinkNegotiationFormat.layout n ∧
      MclNegotiator.Common c₀ d₀ p' q n := by
    intro bytes hm
    obtain ⟨n, hbytes, hn⟩ := h.said bytes hm
    exact ⟨n, hbytes, hcommon n hn⟩
  have hadopted : ∀ n ∈ p.adopted, MclNegotiator.Common c₀ d₀ p' q n := fun n hm =>
    hcommon n (h.adopted n hm)
  cases heff with
  | advertise hlegal =>
    exact ⟨⟨hlegal, Or.inr List.mem_cons_self⟩, h.known, by simpa using hsaid, hadopted⟩
  | @propose c n hknown hsel hfloor =>
    have hnew : MclNegotiator.Common c₀ d₀ p q n := ⟨_, c, h.own, h.known c hknown, hsel, hfloor⟩
    refine ⟨h.own.mono hsent, h.known, fun bytes hm => ?_, ?_⟩
    · rcases List.mem_cons.mp hm with hsame | hm
      · exact ⟨n, MclNegPayload.negotiation.inj hsame, hcommon n hnew⟩
      · exact hsaid bytes hm
    · exact List.forall_mem_cons.mpr ⟨hcommon n hnew, hadopted⟩
  | @learn c hm hlegal =>
    refine ⟨h.own, fun d hd => ?_, hsaid, hadopted⟩
    obtain rfl := Option.some.inj hd
    exact ⟨hlegal, Or.inr hm⟩
  | @accept n hm hlegal hcheck =>
    obtain ⟨n', hbytes, hn'⟩ := h'.said _ hm
    obtain rfl := mclLinkNegotiation_layout_inj hlegal hn'.legal hbytes
    exact ⟨h.own, h.known, hsaid, List.forall_mem_cons.mpr ⟨hn'.symm, hadopted⟩⟩

private theorem MclNegotiator.Truthful.hear (h : MclNegotiator.Truthful c₀ d₀ p q)
    (hsent : q.sent ⊆ q'.sent) : MclNegotiator.Truthful c₀ d₀ p q' where
  own := h.own
  known d hd := (h.known d hd).mono hsent
  said bytes hm := by
    obtain ⟨n, hbytes, hn⟩ := h.said bytes hm
    exact ⟨n, hbytes, hn.mono (fun _ hm => hm) hsent⟩
  adopted n hm := (h.adopted n hm).mono (fun _ hm => hm) hsent

end Truthful

private theorem MclExchange.Starts.truthful {s : MclExchange} (h : s.Starts) (x : MclSide) :
    MclNegotiator.Truthful (s x).own (s x.other).own (s x) (s x.other) := by
  obtain ⟨hlegal, hknown, hadopted, hsent⟩ := h x
  exact ⟨⟨hlegal, Or.inl rfl⟩, by simp [hknown], by simp [hsent], by simp [hadopted]⟩

private theorem MclExchange.Starts.run_truthful {s₀ s : MclExchange}
    {tr : List (Event MclExchange (MclSide × MclNegAction))} (hstart : s₀.Starts)
    (run : MclExchangeRun s₀ tr s) (x : MclSide) :
    MclNegotiator.Truthful (s₀ x).own (s₀ x.other).own (s x) (s x.other) := by
  refine run.invariant
    (I := fun s => ∀ y, MclNegotiator.Truthful (s₀ y).own (s₀ y.other).own (s y) (s y.other))
    hstart.truthful (fun {s e s'} h hstep => ?_) x
  obtain ⟨y, action⟩ := e
  have hback := h y.other
  rw [MclSide.other_other] at hback
  refine MclExchange.perform_forall
    (R := fun y p q => MclNegotiator.Truthful (s₀ y).own (s₀ y.other).own p q) hstep h
    fun p' heff => ⟨heff.truthful (h y) hback, ?_⟩
  rw [MclSide.other_other]
  exact hback.hear heff.sent

/-- Whatever is lost, repeated, delayed or reordered, and however often the peers change what they
support, a selection that a peer has proposed or accepted is the one for a capability that it held
and one that the other peer held. -/
theorem mclExchange_common {s₀ s : MclExchange} {tr : List (Event MclExchange (MclSide × MclNegAction))}
    {x : MclSide} (hstart : s₀.Starts) (run : MclExchangeRun s₀ tr s) (hn : n ∈ (s x).adopted) :
    ∃ c d, (s x).Held (s₀ x).own c ∧ (s x.other).Held (s₀ x.other).own d ∧
      ∀ prior, mclLinkNegotiationSelect (some c) (some d) (some prior) = (.ok, some n) := by
  obtain ⟨c, d, hc, hd, hsel, hfloor⟩ := (hstart.run_truthful run x).adopted n hn
  exact ⟨c, d, hc, hd, fun prior => (mclLinkNegotiationSelect_ok_iff prior).mpr ⟨hsel, hfloor⟩⟩

/-- Two peers with two wire majors and one link major in common. -/
def mclExchangePeers : MclExchange
  | .left => ⟨⟨0, 0b0111, 0b0011, 256, 0x0F⟩, none, [], []⟩
  | .right => ⟨⟨0, 0b1101, 0b0010, 128, 0x35⟩, none, [], []⟩

/-- The right peer hears what the left one supports and proposes; the left one has not heard what
the right one supports, and accepts. -/
def mclExchangeTurns : List (MclSide × MclNegAction) :=
  [(.left, .advertise 0b0111 0b0011 256 0x0F),
    (.right, .receive (.capability [0, 0, 7, 0, 3, 1, 0, 0, 0x0F])), (.right, .propose),
    (.left, .receive (.negotiation [0, 2, 1, 0, 128, 0, 5]))]

private theorem mclExchangePeers_starts : mclExchangePeers.Starts := by
  intro x
  cases x
  · exact ⟨⟨rfl, by decide, by decide⟩, rfl, rfl, rfl⟩
  · exact ⟨⟨rfl, by decide, by decide⟩, rfl, rfl, rfl⟩

/-- The left peer goes on to support less, and has still accepted what it supported. -/
theorem mclExchange_common_changed :
    ∃ s, script MclExchange.perform mclExchangePeers
        (mclExchangeTurns ++ [(.left, .advertise 0b0001 0b0001 64 0)]) = some s ∧
      (s .left).own = ⟨0, 1, 1, 64, 0⟩ ∧ ⟨0, 2, 1, 128, 5⟩ ∈ (s .left).adopted ∧
      ∃ c d, (s .left).Held ⟨0, 0b0111, 0b0011, 256, 0x0F⟩ c ∧
        mclLinkNegotiationSelect (some c) (some d) (some ⟨0, 0, 0, 0, 0⟩) =
          (.ok, some ⟨0, 2, 1, 128, 5⟩) := by
  have hchanged : ((script MclExchange.perform mclExchangePeers
      (mclExchangeTurns ++ [(.left, .advertise 0b0001 0b0001 64 0)])).map fun s =>
        ((s .left).own, (s .left).adopted)) =
      some (⟨0, 1, 1, 64, 0⟩, [⟨0, 2, 1, 128, 5⟩]) := by decide
  obtain ⟨s, hs, hstate⟩ := Option.map_eq_some_iff.mp hchanged
  obtain ⟨hown, hadopted⟩ := Prod.mk.inj hstate
  have hmem : ⟨0, 2, 1, 128, 5⟩ ∈ (s .left).adopted := by rw [hadopted]; exact List.mem_cons_self
  obtain ⟨c, d, hc, -, hselect⟩ :=
    mclExchange_common mclExchangePeers_starts (Run.of_script hs) hmem
  exact ⟨s, hs, hown, hmem, c, d, hc, hselect _⟩

section Steady

variable {c₀ d₀ : MclLinkCapability} {s₀ s : MclExchange}
  {tr : List (Event MclExchange (MclSide × MclNegAction))} {x : MclSide}

/-- The peer supports what it began with, and has advertised nothing else. -/
structure MclNegotiator.Fixed (c₀ : MclLinkCapability) (p : MclNegotiator) : Prop where
  own : p.own = c₀
  said : ∀ bytes, .capability bytes ∈ p.sent → bytes = mclLinkCapabilityFormat.layout c₀

private theorem MclNegotiator.Fixed.held (h : p.Fixed c₀)
    (hlegal : mclLinkCapabilityFormat.Legal c₀) (hc : p.Held c₀ c) : c = c₀ := by
  rcases hc.2 with hsame | hsaid
  · exact hsame
  · exact mclLinkCapability_layout_inj hc.1 hlegal (h.said _ hsaid)

private theorem MclNegEffect.fixed (heff : MclNegEffect inbox p action p') (h : p.Fixed c₀)
    (hsteady : ∀ c ∈ action.capability, p.own = c) : p'.Fixed c₀ := by
  cases heff with
  | @advertise c hlegal =>
    have hsame : p.own = c := (hsteady _ rfl).trans (hlegal.1 ▸ rfl)
    obtain rfl : c = c₀ := hsame.symm.trans h.own
    exact ⟨rfl, by simpa using h.said⟩
  | propose => exact ⟨h.own, by simpa using h.said⟩
  | learn | accept => exact ⟨h.own, h.said⟩

private theorem MclExchange.run_fixed (hstart : s₀.Starts) (run : MclExchangeRun s₀ tr s)
    (hsteady : ∀ ev ∈ tr, ev.before.Steady ev.label) (x : MclSide) : (s x).Fixed (s₀ x).own := by
  refine run.invariant_of (I := fun s => ∀ y, (s y).Fixed (s₀ y).own) hsteady (fun y => ?_)
    (fun {s e s'} h hstep hev => ?_) x
  · obtain ⟨-, -, -, hsent⟩ := hstart y
    exact ⟨rfl, by simp [hsent]⟩
  · obtain ⟨y, action⟩ := e
    exact MclExchange.perform_forall (R := fun y p _ => p.Fixed (s₀ y).own) hstep h
      fun p' heff => ⟨heff.fixed (h y) hev, h y.other⟩

private theorem MclNegotiator.Truthful.accepts (h : MclNegotiator.Truthful c₀ d₀ p q)
    (h' : MclNegotiator.Truthful d₀ c₀ q p) (hp : p.Fixed c₀) (hq : q.Fixed d₀)
    (hsaid : payload ∈ q.sent) : (p.receive payload).1 = .ok := by
  have hc₀ : mclLinkCapabilityFormat.Legal c₀ := hp.own ▸ h.own.1
  have hd₀ : mclLinkCapabilityFormat.Legal d₀ := hq.own ▸ h'.own.1
  cases payload with
  | capability bytes =>
    rw [hq.said bytes hsaid, MclNegotiator.receive,
      mclLinkCapability_implements.decode_ok mclLinkCapabilityBlank hd₀]
  | negotiation bytes =>
    obtain ⟨n, rfl, hn⟩ := h'.said bytes hsaid
    have hlegal := hn.legal
    obtain ⟨d, c, hd, hc, hsel, hfloor⟩ := hn
    obtain rfl := hq.held hd₀ hd
    obtain rfl := hp.held hc₀ hc
    have hstrong := mclLinkNegotiationCheck_strong.mpr ⟨hsel.symm, hfloor⟩
    have hcheck : mclLinkNegotiationCheck (some n) (some p.own) p.known = .ok := by
      rw [hp.own]
      cases hknown : p.known with
      | none => exact mclLinkNegotiationCheck_narrows hstrong
      | some d' =>
        obtain rfl := hq.held hd₀ (h.known d' hknown)
        exact hstrong
    have hdec : mclLinkNegotiationDecode (some (mclLinkNegotiationFormat.layout n))
        (some mclLinkNegotiationBlank) = (.ok, some n) :=
      mclLinkNegotiation_implements.decode_ok mclLinkNegotiationBlank hlegal
    simp only [MclNegotiator.receive, hdec, hcheck]

private theorem MclExchange.accepts (hstart : s₀.Starts) (run : MclExchangeRun s₀ tr s)
    (hsteady : ∀ ev ∈ tr, ev.before.Steady ev.label) (hsaid : payload ∈ (s x.other).sent) :
    ((s x).receive payload).1 = .ok := by
  have hback := hstart.run_truthful run x.other
  rw [MclSide.other_other] at hback
  exact (hstart.run_truthful run x).accepts hback (MclExchange.run_fixed hstart run hsteady x)
    (MclExchange.run_fixed hstart run hsteady x.other) hsaid

/-- As long as neither peer changes what it supports, every payload that was sent is accepted when it
arrives, early or late, and all selections that were proposed or accepted are the one for the two
capabilities. -/
theorem mclExchange_agrees (hstart : s₀.Starts) (run : MclExchangeRun s₀ tr s)
    (hsteady : ∀ ev ∈ tr, ev.before.Steady ev.label) :
    (∀ x, ∀ payload ∈ (s x.other).sent, ((s x).receive payload).1 = .ok) ∧
      ∀ x, ∀ n ∈ (s x).adopted, ∀ prior,
        mclLinkNegotiationSelect (some (s₀ .left).own) (some (s₀ .right).own) (some prior) =
          (.ok, some n) := by
  refine ⟨fun x payload hsaid => MclExchange.accepts hstart run hsteady hsaid, fun x n hn prior => ?_⟩
  have hlegal := fun y => (hstart y).1
  obtain ⟨c, d, hc, hd, hsel, hfloor⟩ := (hstart.run_truthful run x).adopted n hn
  obtain rfl := (MclExchange.run_fixed hstart run hsteady x).held (hlegal _) hc
  obtain rfl := (MclExchange.run_fixed hstart run hsteady x.other).held (hlegal _) hd
  refine (mclLinkNegotiationSelect_ok_iff prior).mpr ⟨?_, hfloor⟩
  cases x with
  | left => exact hsel
  | right => exact hsel.symm

/-- The advertisement of the right peer is lost, and the proposal is accepted without it. -/
theorem mclExchange_agrees_early :
    ∃ s, script MclExchange.perform mclExchangePeers mclExchangeTurns = some s ∧
      (s .left).known = none ∧
      ((s .left).receive (.negotiation [0, 2, 1, 0, 128, 0, 5])).1 = .ok := by
  have hearly : ((script MclExchange.perform mclExchangePeers mclExchangeTurns).map fun s =>
      ((s .left).known, (s .right).sent)) =
      some (none, [.negotiation [0, 2, 1, 0, 128, 0, 5]]) := by decide
  obtain ⟨s, hs, hstate⟩ := Option.map_eq_some_iff.mp hearly
  obtain ⟨hknown, hsent⟩ := Prod.mk.inj hstate
  have hsaid : .negotiation [0, 2, 1, 0, 128, 0, 5] ∈ (s MclSide.left.other).sent := by
    rw [show (s MclSide.left.other).sent = _ from hsent]
    exact List.mem_cons_self
  exact ⟨s, hs, hknown, (mclExchange_agrees mclExchangePeers_starts (Run.of_script hs)
    (by decide)).1 .left _ hsaid⟩

private theorem MclExchange.perform_ok (h : (s x).perform (s x.other).sent action = some p') :
    s.perform (x, action) = some (Function.update s x p') := by
  rw [MclExchange.perform, h]
  rfl

private theorem MclNegotiator.perform_advertise (hlegal : mclLinkCapabilityFormat.Legal p.own) :
    p.perform inbox (.advertise p.own.wireMajors p.own.linkMajors p.own.maxFrame p.own.features) =
      some { p with sent := .capability (mclLinkCapabilityFormat.layout p.own) :: p.sent } := by
  have hmake : mclLinkMakeCapability (some p.own) p.own.wireMajors p.own.linkMajors p.own.maxFrame
      p.own.features = (.ok, some p.own) := by
    rw [mclLinkMakeCapability, if_neg hlegal.2.1, if_neg hlegal.2.2, ← hlegal.1]
  simp only [MclNegotiator.perform, hmake, mclLinkCapability_pack.mpr ⟨hlegal, rfl⟩]
  rfl

private theorem MclNegotiator.perform_learn (hlegal : mclLinkCapabilityFormat.Legal c)
    (hm : .capability (mclLinkCapabilityFormat.layout c) ∈ inbox) :
    p.perform inbox (.receive (.capability (mclLinkCapabilityFormat.layout c))) =
      some { p with known := some c } := by
  have hdec : mclLinkCapabilityDecode (some (mclLinkCapabilityFormat.layout c))
      (some mclLinkCapabilityBlank) = (.ok, some c) :=
    mclLinkCapability_implements.decode_ok mclLinkCapabilityBlank hlegal
  simp only [MclNegotiator.perform, if_pos hm, MclNegotiator.receive, hdec]

private theorem MclNegotiator.perform_propose (hknown : p.known = some c) (hsel : n.Selects p.own c)
    (hfloor : mclLinkNegotiatedFrameFloor ≤ n.maxFrame.toNat) :
    p.perform inbox .propose = some { p with
      adopted := n :: p.adopted
      sent := .negotiation (mclLinkNegotiationFormat.layout n) :: p.sent } := by
  have hselect := (mclLinkNegotiationSelect_ok_iff mclLinkNegotiationBlank).mpr ⟨hsel, hfloor⟩
  rw [← hknown] at hselect
  simp only [MclNegotiator.perform, hselect,
    mclLinkNegotiation_pack.mpr ⟨hsel.legal hfloor, rfl⟩]
  rfl

private theorem MclNegotiator.perform_accept (hlegal : mclLinkNegotiationFormat.Legal n)
    (hm : .negotiation (mclLinkNegotiationFormat.layout n) ∈ inbox)
    (hok : (p.receive (.negotiation (mclLinkNegotiationFormat.layout n))).1 = .ok) :
    p.perform inbox (.receive (.negotiation (mclLinkNegotiationFormat.layout n))) =
      some { p with adopted := n :: p.adopted } := by
  have hdec : mclLinkNegotiationDecode (some (mclLinkNegotiationFormat.layout n))
      (some mclLinkNegotiationBlank) = (.ok, some n) :=
    mclLinkNegotiation_implements.decode_ok mclLinkNegotiationBlank hlegal
  have hcheck : mclLinkNegotiationCheck (some n) (some p.own) p.known = .ok := by
    simp only [MclNegotiator.receive, hdec] at hok
    split at hok
    · assumption
    · exact hok
  simp only [MclNegotiator.perform, if_pos hm, MclNegotiator.receive, hdec, hcheck]

private theorem MclExchange.steady_of_none {e : MclSide × MclNegAction}
    (h : e.2.capability = none) : s.Steady e := by
  simp [MclExchange.Steady, h]

/-- If the two capabilities have a selection, then from every state that is reached while neither
peer changes what it supports, both can still adopt it. -/
theorem mclExchange_completes (hstart : s₀.Starts) (run : MclExchangeRun s₀ tr s)
    (hsteady : ∀ ev ∈ tr, ev.before.Steady ev.label) (prior : MclLinkNegotiation)
    (hselect : mclLinkNegotiationSelect (some (s₀ .left).own) (some (s₀ .right).own) (some prior) =
      (.ok, some n)) :
    ∃ s', Leads (fun (s : MclExchange) e s' => s.perform e = some s') MclExchange.Steady s s' ∧
      ∀ x, n ∈ (s' x).adopted := by
  obtain ⟨hsel, hfloor⟩ := (mclLinkNegotiationSelect_ok_iff prior).mp hselect
  have hlegal := fun y => (hstart y).1
  have hown := fun y => (MclExchange.run_fixed hstart run hsteady y).own
  let c : MclLinkCapability := (s .left).own
  have hc : mclLinkCapabilityFormat.Legal c := by
    rw [show c = (s₀ .left).own from hown .left]
    exact hlegal .left
  have hsel' : n.Selects (s .right).own c := by
    rw [hown, show c = (s₀ .left).own from hown .left]
    exact hsel.symm
  let l₁ : MclNegotiator :=
    { s .left with sent := .capability (mclLinkCapabilityFormat.layout c) :: (s .left).sent }
  let r₁ : MclNegotiator := { s .right with known := some c }
  let r₂ : MclNegotiator := { r₁ with
    adopted := n :: r₁.adopted
    sent := .negotiation (mclLinkNegotiationFormat.layout n) :: r₁.sent }
  let l₂ : MclNegotiator := { l₁ with adopted := n :: l₁.adopted }
  let s₁ : MclExchange := Function.update s .left l₁
  let s₂ : MclExchange := Function.update s₁ .right r₁
  let s₃ : MclExchange := Function.update s₂ .right r₂
  let s₄ : MclExchange := Function.update s₃ .left l₂
  have hadvertise : Leads (fun (s : MclExchange) e s' => s.perform e = some s')
      MclExchange.Steady s s₁ := by
    refine .step (MclExchange.perform_ok (x := .left) (MclNegotiator.perform_advertise hc)) ?_
    rintro _ ⟨⟩
    rw [← hc.1]
  have hlearn : Leads (fun (s : MclExchange) e s' => s.perform e = some s')
      MclExchange.Steady s₁ s₂ :=
    .step (MclExchange.perform_ok (x := .right)
      (MclNegotiator.perform_learn hc List.mem_cons_self)) (MclExchange.steady_of_none rfl)
  have hpropose : Leads (fun (s : MclExchange) e s' => s.perform e = some s')
      MclExchange.Steady s₂ s₃ :=
    .step (MclExchange.perform_ok (x := .right)
      (MclNegotiator.perform_propose rfl hsel' hfloor)) (MclExchange.steady_of_none rfl)
  have hproposed := (hadvertise.trans hlearn).trans hpropose
  obtain ⟨tr₃, run₃, hsteady₃⟩ := hproposed
  have hsaid : .negotiation (mclLinkNegotiationFormat.layout n) ∈ (s₃ .right).sent :=
    List.mem_cons_self
  have hok : ((s₃ .left).receive (.negotiation (mclLinkNegotiationFormat.layout n))).1 = .ok := by
    refine MclExchange.accepts (x := .left) hstart (run.append run₃) (fun ev hev => ?_) hsaid
    rcases List.mem_append.mp hev with hev | hev
    · exact hsteady ev hev
    · exact hsteady₃ ev hev
  have haccept : Leads (fun (s : MclExchange) e s' => s.perform e = some s')
      MclExchange.Steady s₃ s₄ :=
    .step (MclExchange.perform_ok (x := .left)
      (MclNegotiator.perform_accept (hsel.legal hfloor) hsaid hok))
      (MclExchange.steady_of_none rfl)
  refine ⟨s₄, .trans ⟨tr₃, run₃, hsteady₃⟩ haccept, (MclSide.forall_iff .left).mpr ⟨?_, ?_⟩⟩
  · exact List.mem_cons_self
  · exact List.mem_cons_self

/-- Nothing has been said yet. -/
theorem mclExchange_completes_begun :
    ∃ s', Leads (fun (s : MclExchange) e s' => s.perform e = some s') MclExchange.Steady
        mclExchangePeers s' ∧ ∀ x, ⟨0, 2, 1, 128, 5⟩ ∈ (s' x).adopted :=
  mclExchange_completes mclExchangePeers_starts .nil (by simp) ⟨0, 0, 0, 0, 0⟩ (by decide)

end Steady

end MclLink
