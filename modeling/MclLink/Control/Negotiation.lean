import MclLink.Control.Handoff
import MclLink.Lib.Bits

/-!
# Capability and version negotiation

The data of `include/mcl/negotiation.h` and the functions of `src/negotiation.c`, in the order of
the source.
-/

namespace MclLink

open Bytes

abbrev mclLinkFrameMaxOptional : Nat := 16
abbrev mclLinkCapabilitySize : Nat := 9
abbrev mclLinkNegotiationSize : Nat := 7

/-- `MCL_LINK_NEGOTIATED_FRAME_FLOOR`, derived as in the source. -/
abbrev mclLinkNegotiatedFrameFloor : Nat :=
  mclLinkFrameMinSize + mclLinkFrameMaxOptional + mclHandoffControlMaxSize

/-- `mcl_link_capability_t`: the majors are bit masks. -/
structure MclLinkCapability where
  controlVersion : UInt8
  wireMajors : UInt16
  linkMajors : UInt16
  maxFrame : UInt16
  features : UInt16
  deriving DecidableEq, Repr

/-- `mcl_link_negotiation_t`: the majors are selected values. -/
@[ext] structure MclLinkNegotiation where
  controlVersion : UInt8
  wireMajor : UInt8
  linkMajor : UInt8
  maxFrame : UInt16
  features : UInt16
  deriving DecidableEq, Repr

def mclNegPutU16 (value : UInt16) : List UInt8 := mclControlPutU16 value

def mclNegGetU16 (input : List UInt8) : UInt16 := mclControlGetU16 input

def mclNegExactLength (dataSize expected : Nat) : MclLinkStatus :=
  mclLinkExactLength dataSize expected

/-- Index of the highest set bit, or -1 for zero. -/
def mclNegHighestBit (mask : UInt16) : Int :=
  match Bits.searchDown (fun index => mask &&& Bits.bit (UInt32.ofNat index) ≠ 0) 16 with
  | some index => index
  | none => -1

def mclLinkMakeCapability (capability : Option MclLinkCapability)
    (wireMajors linkMajors maxFrame features : UInt16) :
    MclLinkStatus × Option MclLinkCapability :=
  match capability with
  | none => (.errInvalidArgument, none)
  | some _ =>
    if wireMajors = 0 ∨ linkMajors = 0 then (.errInvalidArgument, capability)
    else if maxFrame.toNat < mclLinkNegotiatedFrameFloor then (.errRange, capability)
    else (.ok, some ⟨mclLinkControlVersion, wireMajors, linkMajors, maxFrame, features⟩)

def mclLinkCapabilityEncode (capability : Option MclLinkCapability) (out : Option (List UInt8))
    (written : Option Nat) : MclLinkStatus × Option (List UInt8) × Option Nat :=
  match capability, out, written with
  | some capability, some out, some _ =>
    if capability.controlVersion ≠ mclLinkControlVersion then
      (.errIncompatibleVersion, some out, written)
    else if capability.wireMajors = 0 ∨ capability.linkMajors = 0 then
      (.errInvalidArgument, some out, written)
    else if capability.maxFrame.toNat < mclLinkNegotiatedFrameFloor then
      (.errRange, some out, written)
    else if out.length < mclLinkCapabilitySize then (.errRange, some out, written)
    else
      let c : Cursor := ⟨out, 0⟩
      let c := c.write [capability.controlVersion]
      let c := c.write (mclNegPutU16 capability.wireMajors)
      let c := c.write (mclNegPutU16 capability.linkMajors)
      let c := c.write (mclNegPutU16 capability.maxFrame)
      let c := c.write (mclNegPutU16 capability.features)
      (.ok, some c.bytes, some mclLinkCapabilitySize)
  | _, _, _ => (.errInvalidArgument, out, written)

def mclLinkCapabilityDecode (input : Option (List UInt8)) (capability : Option MclLinkCapability) :
    MclLinkStatus × Option MclLinkCapability :=
  match input, capability with
  | some input, some _ =>
    let status := mclNegExactLength input.length mclLinkCapabilitySize
    if status ≠ .ok then (status, capability)
    else if input.getD 0 0 ≠ mclLinkControlVersion then (.errIncompatibleVersion, capability)
    else
      let wireMajors := mclNegGetU16 (input.drop 1)
      let linkMajors := mclNegGetU16 (input.drop 3)
      let maxFrame := mclNegGetU16 (input.drop 5)
      if wireMajors = 0 ∨ linkMajors = 0 then (.errRange, capability)
      else if maxFrame.toNat < mclLinkNegotiatedFrameFloor then (.errRange, capability)
      else (.ok, some ⟨input.getD 0 0, wireMajors, linkMajors, maxFrame,
        mclNegGetU16 (input.drop 7)⟩)
  | _, _ => (.errInvalidArgument, capability)

def mclLinkNegotiationEncode (negotiation : Option MclLinkNegotiation)
    (out : Option (List UInt8)) (written : Option Nat) :
    MclLinkStatus × Option (List UInt8) × Option Nat :=
  match negotiation, out, written with
  | some negotiation, some out, some _ =>
    if negotiation.controlVersion ≠ mclLinkControlVersion then
      (.errIncompatibleVersion, some out, written)
    else if negotiation.wireMajor > 15 ∨ negotiation.linkMajor > 15 then
      (.errRange, some out, written)
    else if negotiation.maxFrame.toNat < mclLinkNegotiatedFrameFloor then
      (.errRange, some out, written)
    else if out.length < mclLinkNegotiationSize then (.errRange, some out, written)
    else
      let c : Cursor := ⟨out, 0⟩
      let c := c.write [negotiation.controlVersion]
      let c := c.write [negotiation.wireMajor]
      let c := c.write [negotiation.linkMajor]
      let c := c.write (mclNegPutU16 negotiation.maxFrame)
      let c := c.write (mclNegPutU16 negotiation.features)
      (.ok, some c.bytes, some mclLinkNegotiationSize)
  | _, _, _ => (.errInvalidArgument, out, written)

def mclLinkNegotiationDecode (input : Option (List UInt8))
    (negotiation : Option MclLinkNegotiation) : MclLinkStatus × Option MclLinkNegotiation :=
  match input, negotiation with
  | some input, some _ =>
    let status := mclNegExactLength input.length mclLinkNegotiationSize
    if status ≠ .ok then (status, negotiation)
    else if input.getD 0 0 ≠ mclLinkControlVersion then (.errIncompatibleVersion, negotiation)
    else
      let wireMajor := input.getD 1 0
      let linkMajor := input.getD 2 0
      let maxFrame := mclNegGetU16 (input.drop 3)
      if wireMajor > 15 ∨ linkMajor > 15 then (.errRange, negotiation)
      else if maxFrame.toNat < mclLinkNegotiatedFrameFloor then (.errRange, negotiation)
      else (.ok, some ⟨input.getD 0 0, wireMajor, linkMajor, maxFrame,
        mclNegGetU16 (input.drop 5)⟩)
  | _, _ => (.errInvalidArgument, negotiation)

def mclLinkNegotiationSelect (localCapability peer : Option MclLinkCapability)
    (selection : Option MclLinkNegotiation) : MclLinkStatus × Option MclLinkNegotiation :=
  match localCapability, peer, selection with
  | some localCapability, some peer, some _ =>
    let commonWire := localCapability.wireMajors &&& peer.wireMajors
    let commonLink := localCapability.linkMajors &&& peer.linkMajors
    let wireMajor := mclNegHighestBit commonWire
    let linkMajor := mclNegHighestBit commonLink
    if wireMajor < 0 ∨ linkMajor < 0 then (.errRange, selection)
    else
      let frame := if localCapability.maxFrame < peer.maxFrame then localCapability.maxFrame
        else peer.maxFrame
      if frame.toNat < mclLinkNegotiatedFrameFloor then (.errRange, selection)
      else (.ok, some ⟨mclLinkControlVersion, UInt8.ofInt wireMajor, UInt8.ofInt linkMajor, frame,
        localCapability.features &&& peer.features⟩)
  | _, _, _ => (.errInvalidArgument, selection)

def mclLinkNegotiationCheck (proposal : Option MclLinkNegotiation)
    (localCapability peer : Option MclLinkCapability) : MclLinkStatus :=
  match proposal, localCapability with
  | some proposal, some localCapability =>
    if proposal.controlVersion ≠ mclLinkControlVersion then .errIncompatibleVersion
    else if proposal.wireMajor > 15 ∨ proposal.linkMajor > 15 then .errRange
    else
      match peer with
      | some peer =>
        -- The strong branch. `expected` is written before it is read.
        let expected : MclLinkNegotiation := ⟨0, 0, 0, 0, 0⟩
        let r := mclLinkNegotiationSelect (some localCapability) (some peer) (some expected)
        if r.1 ≠ .ok then r.1
        else
          let expected := r.2.getD expected
          if proposal.wireMajor ≠ expected.wireMajor ∨ proposal.linkMajor ≠ expected.linkMajor ∨
              proposal.maxFrame ≠ expected.maxFrame ∨ proposal.features ≠ expected.features then
            .errRange
          else .ok
      | none =>
        -- The weak branch: the proposal need only be legal here.
        if localCapability.wireMajors &&& Bits.bit proposal.wireMajor.toUInt32 = 0 then .errRange
        else if localCapability.linkMajors &&& Bits.bit proposal.linkMajor.toUInt32 = 0 then
          .errRange
        else if proposal.maxFrame > localCapability.maxFrame ∨
            proposal.maxFrame.toNat < mclLinkNegotiatedFrameFloor then .errRange
        else if proposal.features &&& ~~~localCapability.features ≠ 0 then .errRange
        else .ok
  | _, _ => .errInvalidArgument

end MclLink
