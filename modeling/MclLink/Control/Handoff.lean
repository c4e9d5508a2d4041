import MclLink.Contact.Machine
import MclLink.Control.Codec

/-!
# Handoff controls

The data of `include/mcl/handoff.h` and the functions of `src/handoff.c`, in the order of the
source.
-/

namespace MclLink

open Bytes

abbrev mclHandoffControlVersion : UInt8 := 0
abbrev mclHandoffHeaderSize : Nat := 10
abbrev mclHandoffControlMaxSize : Nat := mclHandoffHeaderSize + mclContactChallengeSize
abbrev mclHandoffOpPathChallenge : UInt8 := 1
abbrev mclHandoffOpPathResponse : UInt8 := 2
abbrev mclHandoffOpCommit : UInt8 := 3
abbrev mclHandoffOpConfirm : UInt8 := 4

/-- `mcl_handoff_control_t`. -/
@[ext] structure MclHandoffControl where
  operation : UInt8
  migrationRef : UInt32
  sessionRef : UInt32
  challenge : MclContactChallenge
  challengePresent : UInt8
  deriving DecidableEq, Repr

def mclHandoffPutU32 (value : UInt32) : List UInt8 :=
  [((value >>> 24) &&& 0xFF).toUInt8, ((value >>> 16) &&& 0xFF).toUInt8,
    ((value >>> 8) &&& 0xFF).toUInt8, (value &&& 0xFF).toUInt8]

def mclHandoffGetU32 (src : List UInt8) : UInt32 :=
  (src.getD 0 0).toUInt32 <<< 24 ||| (src.getD 1 0).toUInt32 <<< 16 |||
    (src.getD 2 0).toUInt32 <<< 8 ||| (src.getD 3 0).toUInt32

def mclHandoffCopyChallenge (src : List UInt8) : MclContactChallenge :=
  Vector.ofFn fun i => src.getD i 0

def mclHandoffClearChallenge : MclContactChallenge := Vector.replicate mclContactChallengeSize 0

def mclHandoffOpAssigned (operation : UInt8) : Bool :=
  operation = mclHandoffOpPathChallenge ∨ operation = mclHandoffOpPathResponse ∨
    operation = mclHandoffOpCommit ∨ operation = mclHandoffOpConfirm

def mclHandoffOpCarriesChallenge (operation : UInt8) : UInt8 :=
  if operation = mclHandoffOpPathChallenge ∨ operation = mclHandoffOpPathResponse then 1 else 0

def mclHandoffControlEncodedSize (operation : UInt8) : Nat :=
  if mclHandoffOpAssigned operation = false then 0
  else if mclHandoffOpCarriesChallenge operation ≠ 0 then mclHandoffControlMaxSize
  else mclHandoffHeaderSize

def mclHandoffControlEncode (control : Option MclHandoffControl) (out : Option (List UInt8))
    (written : Option Nat) : MclLinkStatus × Option (List UInt8) × Option Nat :=
  match control, out, written with
  | some control, some out, some _ =>
    let size := mclHandoffControlEncodedSize control.operation
    if size = 0 then (.errRange, some out, written)
    else if control.migrationRef = mclContactMigrationNone then (.errRange, some out, written)
    else if control.sessionRef = mclContactSessionNone then (.errRange, some out, written)
    else
      let carries := mclHandoffOpCarriesChallenge control.operation
      if control.challengePresent ≠ carries then (.errInvalidArgument, some out, written)
      else if out.length < size then (.errRange, some out, written)
      else
        let c : Cursor := ⟨out, 0⟩
        let c := c.write [mclHandoffControlVersion]
        let c := c.write [control.operation]
        let c := c.write (mclHandoffPutU32 control.migrationRef)
        let c := c.write (mclHandoffPutU32 control.sessionRef)
        let c := if carries ≠ 0 then c.write control.challenge.toList else c
        (.ok, some c.bytes, some size)
  | _, _, _ => (.errInvalidArgument, out, written)

def mclHandoffControlDecode (input : Option (List UInt8)) (control : Option MclHandoffControl) :
    MclLinkStatus × Option MclHandoffControl :=
  match input, control with
  | some input, some _ =>
    if input.length < mclHandoffHeaderSize then (.errTruncated, control)
    else if input.getD 0 0 ≠ mclHandoffControlVersion then (.errIncompatibleVersion, control)
    else
      let operation := input.getD 1 0
      if mclHandoffOpAssigned operation = false then (.errRange, control)
      else
        let expected := mclHandoffControlEncodedSize operation
        if input.length < expected then (.errTruncated, control)
        else if input.length > expected then (.errRange, control)
        else
          let migrationRef := mclHandoffGetU32 (input.drop 2)
          let sessionRef := mclHandoffGetU32 (input.drop 6)
          if migrationRef = mclContactMigrationNone then (.errRange, control)
          else if sessionRef = mclContactSessionNone then (.errRange, control)
          else
            let challengePresent := mclHandoffOpCarriesChallenge operation
            let challenge := if challengePresent ≠ 0
              then mclHandoffCopyChallenge (input.drop mclHandoffHeaderSize)
              else mclHandoffClearChallenge
            (.ok, some ⟨operation, migrationRef, sessionRef, challenge, challengePresent⟩)
  | _, _ => (.errInvalidArgument, control)

def mclHandoffMakeCommon (control : Option MclHandoffControl) (operation : UInt8)
    (migrationRef sessionRef : UInt32) : MclLinkStatus × Option MclHandoffControl :=
  match control with
  | none => (.errInvalidArgument, none)
  | some _ =>
    if migrationRef = mclContactMigrationNone then (.errRange, control)
    else if sessionRef = mclContactSessionNone then (.errRange, control)
    else (.ok, some ⟨operation, migrationRef, sessionRef, mclHandoffClearChallenge, 0⟩)

def mclHandoffMakeWithChallenge (control : Option MclHandoffControl) (operation : UInt8)
    (migrationRef sessionRef : UInt32) (challenge : Option MclContactChallenge) :
    MclLinkStatus × Option MclHandoffControl :=
  match challenge with
  | none => (.errInvalidArgument, control)
  | some challenge =>
    let r := mclHandoffMakeCommon control operation migrationRef sessionRef
    if r.1 ≠ .ok then r
    else (.ok, r.2.map fun control =>
      { control with challenge := challenge, challengePresent := 1 })

def mclHandoffMakePathChallenge (control : Option MclHandoffControl)
    (migrationRef sessionRef : UInt32) (challenge : Option MclContactChallenge) :
    MclLinkStatus × Option MclHandoffControl :=
  mclHandoffMakeWithChallenge control mclHandoffOpPathChallenge migrationRef sessionRef challenge

def mclHandoffMakePathResponse (control : Option MclHandoffControl)
    (migrationRef sessionRef : UInt32) (echo : Option MclContactChallenge) :
    MclLinkStatus × Option MclHandoffControl :=
  mclHandoffMakeWithChallenge control mclHandoffOpPathResponse migrationRef sessionRef echo

def mclHandoffMakeCommit (control : Option MclHandoffControl)
    (migrationRef sessionRef : UInt32) : MclLinkStatus × Option MclHandoffControl :=
  mclHandoffMakeCommon control mclHandoffOpCommit migrationRef sessionRef

def mclHandoffMakeConfirm (control : Option MclHandoffControl)
    (migrationRef sessionRef : UInt32) : MclLinkStatus × Option MclHandoffControl :=
  mclHandoffMakeCommon control mclHandoffOpConfirm migrationRef sessionRef

end MclLink
