import MclLink.Basic
import MclLink.Lib.Bits

/-!
# The Link lifecycle and its context

`mcl_link_t` of `include/mcl/link.h` and the functions of `src/link.c` that act on it, in the order
of the source. A function that changes the link returns its status and the link after the call.
-/

namespace MclLink

abbrev mclLinkRulesetDigestMaxSize : Nat := 32

/-- The mask with the bit of one wire major, or none for a major that does not fit. -/
def mclLinkWireMajorMask (wireMajor : UInt32) : UInt16 :=
  if wireMajor > 15 then 0 else Bits.bit wireMajor

/-- `mcl_link_state_t`. -/
inductive MclLinkState where
  | idle
  | discovered
  | capabilities
  | negotiating
  | established
  | adapting
  | handoff
  | fallback
  | closed
  deriving DecidableEq, Repr

/-- The state a value stands for; a caller may pass any value. -/
def MclLinkState.ofValue : UInt8 → Option MclLinkState
  | 0 => some .idle
  | 1 => some .discovered
  | 2 => some .capabilities
  | 3 => some .negotiating
  | 4 => some .established
  | 5 => some .adapting
  | 6 => some .handoff
  | 7 => some .fallback
  | 8 => some .closed
  | _ => none

/-- `mcl_link_context_key_t`. -/
@[ext] structure MclLinkContextKey where
  wireMajor : UInt8
  contextId : UInt32
  generation : UInt32
  rulesetDigest : Vector UInt8 mclLinkRulesetDigestMaxSize
  rulesetDigestSize : UInt8
  deriving DecidableEq, Repr

/-- `mcl_link_t`. -/
structure MclLinkT where
  state : MclLinkState
  contextValid : Bool
  activeContext : MclLinkContextKey
  supportedWireMajorsMask : UInt16
  deriving DecidableEq, Repr

def mclLinkZeroContext : MclLinkContextKey :=
  ⟨0, 0, 0, Vector.replicate mclLinkRulesetDigestMaxSize 0, 0⟩

def mclLinkClearContext (link : MclLinkT) : MclLinkT :=
  { link with contextValid := false, activeContext := mclLinkZeroContext }

def mclLinkInit (_ : MclLinkT) (supportedWireMajorsMask : UInt16) :
    MclLinkStatus × MclLinkT :=
  (.ok, ⟨.idle, false, mclLinkZeroContext, supportedWireMajorsMask⟩)

def mclLinkReset (link : MclLinkT) : MclLinkStatus × MclLinkT :=
  (.ok, mclLinkClearContext { link with state := .idle })

/-- Compares the digest bytes that the size declares, and no others. -/
def mclLinkContextKeyEquals (a b : Option MclLinkContextKey) : Bool :=
  match a, b with
  | some a, some b =>
    if a.rulesetDigestSize = 0 ∨ a.rulesetDigestSize.toNat > mclLinkRulesetDigestMaxSize ∨
        b.rulesetDigestSize = 0 ∨ b.rulesetDigestSize.toNat > mclLinkRulesetDigestMaxSize then false
    else if a.wireMajor ≠ b.wireMajor ∨ a.contextId ≠ b.contextId ∨ a.generation ≠ b.generation ∨
        a.rulesetDigestSize ≠ b.rulesetDigestSize then false
    else (List.range a.rulesetDigestSize.toNat).all fun i =>
      a.rulesetDigest[i]? == b.rulesetDigest[i]?
  | _, _ => false

/-- The first bytes of a digest, and zeros behind them. -/
def mclLinkCopyDigest (key : MclLinkContextKey) : Vector UInt8 mclLinkRulesetDigestMaxSize :=
  Vector.ofFn fun i => if i.val < key.rulesetDigestSize.toNat then key.rulesetDigest[i] else 0

def mclLinkInstallContext (link : MclLinkT) (key : Option MclLinkContextKey) :
    MclLinkStatus × MclLinkT :=
  match key with
  | none => (.errInvalidArgument, link)
  | some key =>
    if link.state = .idle ∨ link.state = .discovered ∨ link.state = .closed then
      (.errInvalidState, link)
    else if key.wireMajor > 15 then (.errRange, link)
    else if key.rulesetDigestSize = 0 ∨
        key.rulesetDigestSize.toNat > mclLinkRulesetDigestMaxSize then (.errRange, link)
    else if link.supportedWireMajorsMask &&& Bits.bit key.wireMajor.toUInt32 = 0 then
      (.errIncompatibleVersion, link)
    else (.ok, { link with
      activeContext := { key with rulesetDigest := mclLinkCopyDigest key }
      contextValid := true })

def mclLinkAuthorizeContext (link : MclLinkT) (key : Option MclLinkContextKey) :
    MclLinkStatus :=
  match key with
  | none => .errInvalidArgument
  | some key =>
    if link.contextValid = false then .errNoActiveContext
    else if mclLinkContextKeyEquals (some link.activeContext) (some key) = false then
      .errContextMismatch
    else .ok

/-- One case of the switch: the states that may come next, and those that end the context. -/
def mclLinkMove (link : MclLinkT) (nextState : UInt8) (allowed clearing : List MclLinkState) :
    MclLinkStatus × MclLinkT :=
  match MclLinkState.ofValue nextState with
  | none => (.errInvalidState, link)
  | some next =>
    if next ∈ allowed then
      let link := { link with state := next }
      (.ok, if next ∈ clearing then mclLinkClearContext link else link)
    else (.errInvalidState, link)

def mclLinkTransition (link : MclLinkT) (nextState : UInt8) :
    MclLinkStatus × MclLinkT :=
  match link.state with
  | .idle => mclLinkMove link nextState [.discovered, .closed] [.closed]
  | .discovered => mclLinkMove link nextState [.capabilities, .idle, .closed] [.idle, .closed]
  | .capabilities => mclLinkMove link nextState [.negotiating, .idle, .closed] [.idle, .closed]
  | .negotiating => mclLinkMove link nextState [.established, .idle, .closed] [.idle, .closed]
  | .established =>
    mclLinkMove link nextState [.adapting, .handoff, .fallback, .idle, .closed] [.idle, .closed]
  | .adapting =>
    mclLinkMove link nextState [.established, .handoff, .fallback, .idle, .closed] [.idle, .closed]
  | .handoff => mclLinkMove link nextState [.established, .idle, .closed] [.idle, .closed]
  | .fallback =>
    mclLinkMove link nextState [.established, .discovered, .idle, .closed]
      [.discovered, .idle, .closed]
  | .closed => mclLinkMove link nextState [.idle] [.idle]

def mclLinkHasActiveContext (link : MclLinkT) (hasContext : Option Bool) :
    MclLinkStatus × Option Bool :=
  if hasContext = none then (.errInvalidArgument, hasContext)
  else (.ok, some link.contextValid)

end MclLink
