import MclLink.Frame.Codec

/-!
# ACK, NACK and CLOSE controls

The data of `include/mcl/control.h` and the functions of `src/control.c`, in the order of the
source. An encoder returns its status, the output buffer and the count of bytes written; a decoder
its status and the control.
-/

namespace MclLink

open Bytes

abbrev mclLinkControlVersion : UInt8 := 0
abbrev mclLinkAckSize : Nat := 4
abbrev mclLinkCloseSize : Nat := 2
abbrev mclLinkKeepaliveSize : Nat := 0
abbrev mclLinkNackReserved : UInt8 := 0
abbrev mclLinkNackReasonCount : UInt8 := 6
abbrev mclLinkCloseReserved : UInt8 := 0
abbrev mclLinkCloseReasonCount : UInt8 := 5

/-- `mcl_link_ack_t`, for ACK and NACK. -/
structure MclLinkAck where
  controlVersion : UInt8
  reason : UInt8
  ackedSequence : UInt16
  deriving DecidableEq, Repr

/-- `mcl_link_close_t`. -/
structure MclLinkClose where
  controlVersion : UInt8
  reason : UInt8
  deriving DecidableEq, Repr

/-- `mcl_link_put_u16` of `control.c`. -/
def mclControlPutU16 (value : UInt16) : List UInt8 :=
  [((value >>> 8) &&& 0xFF).toUInt8, (value &&& 0xFF).toUInt8]

/-- `mcl_link_get_u16` of `control.c`. -/
def mclControlGetU16 (input : List UInt8) : UInt16 :=
  (input.getD 0 0).toUInt16 <<< 8 ||| (input.getD 1 0).toUInt16

def mclLinkExactLength (dataSize expected : Nat) : MclLinkStatus :=
  if dataSize < expected then .errTruncated
  else if dataSize > expected then .errRange
  else .ok

def mclLinkMakeAck (ack : Option MclLinkAck) (ackedSequence : UInt16) :
    MclLinkStatus × Option MclLinkAck :=
  match ack with
  | none => (.errInvalidArgument, none)
  | some _ => (.ok, some ⟨mclLinkControlVersion, 0, ackedSequence⟩)

def mclLinkMakeNack (nack : Option MclLinkAck) (ackedSequence : UInt16) (reason : UInt8) :
    MclLinkStatus × Option MclLinkAck :=
  match nack with
  | none => (.errInvalidArgument, none)
  | some _ =>
    if reason = mclLinkNackReserved ∨ reason ≥ mclLinkNackReasonCount then
      (.errInvalidArgument, nack)
    else (.ok, some ⟨mclLinkControlVersion, reason, ackedSequence⟩)

def mclLinkMakeClose (closeControl : Option MclLinkClose) (reason : UInt8) :
    MclLinkStatus × Option MclLinkClose :=
  match closeControl with
  | none => (.errInvalidArgument, none)
  | some _ =>
    if reason = mclLinkCloseReserved ∨ reason ≥ mclLinkCloseReasonCount then
      (.errInvalidArgument, closeControl)
    else (.ok, some ⟨mclLinkControlVersion, reason⟩)

/-- An ACK carries no reason, and a NACK an assigned one. -/
def mclLinkAckReasonRefused (isAck reason : UInt8) : Bool :=
  if isAck ≠ 0 then reason ≠ 0
  else reason = mclLinkNackReserved ∨ reason ≥ mclLinkNackReasonCount

def mclLinkAckEncode (ack : Option MclLinkAck) (isAck : UInt8) (out : Option (List UInt8))
    (written : Option Nat) : MclLinkStatus × Option (List UInt8) × Option Nat :=
  match ack, out, written with
  | some ack, some out, some _ =>
    if ack.controlVersion ≠ mclLinkControlVersion then
      (.errIncompatibleVersion, some out, written)
    else if mclLinkAckReasonRefused isAck ack.reason then (.errInvalidArgument, some out, written)
    else if out.length < mclLinkAckSize then (.errRange, some out, written)
    else
      let c : Cursor := ⟨out, 0⟩
      let c := c.write [ack.controlVersion]
      let c := c.write [ack.reason]
      let c := c.write (mclControlPutU16 ack.ackedSequence)
      (.ok, some c.bytes, some mclLinkAckSize)
  | _, _, _ => (.errInvalidArgument, out, written)

def mclLinkAckDecode (data : Option (List UInt8)) (isAck : UInt8) (ack : Option MclLinkAck) :
    MclLinkStatus × Option MclLinkAck :=
  match data, ack with
  | some data, some _ =>
    let status := mclLinkExactLength data.length mclLinkAckSize
    if status ≠ .ok then (status, ack)
    else if data.getD 0 0 ≠ mclLinkControlVersion then (.errIncompatibleVersion, ack)
    else
      let reason := data.getD 1 0
      if mclLinkAckReasonRefused isAck reason then (.errRange, ack)
      else (.ok, some ⟨data.getD 0 0, reason, mclControlGetU16 (data.drop 2)⟩)
  | _, _ => (.errInvalidArgument, ack)

def mclLinkCloseEncode (closeControl : Option MclLinkClose) (out : Option (List UInt8))
    (written : Option Nat) : MclLinkStatus × Option (List UInt8) × Option Nat :=
  match closeControl, out, written with
  | some closeControl, some out, some _ =>
    if closeControl.controlVersion ≠ mclLinkControlVersion then
      (.errIncompatibleVersion, some out, written)
    else if closeControl.reason = mclLinkCloseReserved ∨
        closeControl.reason ≥ mclLinkCloseReasonCount then (.errInvalidArgument, some out, written)
    else if out.length < mclLinkCloseSize then (.errRange, some out, written)
    else
      let c : Cursor := ⟨out, 0⟩
      let c := c.write [closeControl.controlVersion]
      let c := c.write [closeControl.reason]
      (.ok, some c.bytes, some mclLinkCloseSize)
  | _, _, _ => (.errInvalidArgument, out, written)

def mclLinkCloseDecode (data : Option (List UInt8)) (closeControl : Option MclLinkClose) :
    MclLinkStatus × Option MclLinkClose :=
  match data, closeControl with
  | some data, some _ =>
    let status := mclLinkExactLength data.length mclLinkCloseSize
    if status ≠ .ok then (status, closeControl)
    else if data.getD 0 0 ≠ mclLinkControlVersion then (.errIncompatibleVersion, closeControl)
    else if data.getD 1 0 = mclLinkCloseReserved ∨ data.getD 1 0 ≥ mclLinkCloseReasonCount then
      (.errRange, closeControl)
    else (.ok, some ⟨data.getD 0 0, data.getD 1 0⟩)
  | _, _ => (.errInvalidArgument, closeControl)

def mclLinkKeepaliveCheck (payloadLen : Nat) : MclLinkStatus :=
  if payloadLen ≠ mclLinkKeepaliveSize then .errRange else .ok

end MclLink
