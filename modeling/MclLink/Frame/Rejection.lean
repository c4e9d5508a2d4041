import MclLink.Frame.Prefix
import MclLink.Refusal

/-!
# What a rejected frame leaves in the object

The frame decoder stores what it reads as it goes, so that the object of the caller holds the
fields up to the test that failed, and the older ones behind it. It is as it was exactly when it
held what the bytes say up to there before the call.
-/

namespace MclLink

open Atomic Bytes

/-- The object of the caller, with the address its payload pointer holds; 0 is `NULL`. -/
@[ext] structure MclLinkFrameObject where
  frame : MclLinkFrame
  payloadPointer : Nat
  deriving DecidableEq, Repr

/-- The decoder from the source reference on; the bytes begin at an address. -/
def MclLinkFrameObject.readBody (address : Nat) (object : MclLinkFrameObject) (c : Cursor)
    (consumed : Nat) : MclLinkStatus × MclLinkFrameObject × Nat :=
  let fields := object.frame.readFields c
  let length := mclLinkU16.read fields.2
  let payloadLen := length.1
  let c := length.2
  if payloadLen > mclLinkFrameMaxPayload then
    (.errRange, { object with frame := fields.1 }, consumed)
  else if h : c.bytes.length - c.pos < payloadLen.toNat then
    (.errTruncated, { object with frame := fields.1 }, consumed)
  else
    let frame := fields.1.borrow payloadLen (c.ahead.take payloadLen.toNat)
      (Cursor.length_take_ahead h)
    let r := frame.checkFrame (c.skip payloadLen.toNat) consumed
    (r.1, ⟨r.2.1, if payloadLen ≠ 0 then address + c.pos else 0⟩, r.2.2)

/-- `mcl_link_frame_decode` on bytes that begin at an address. -/
def mclLinkFrameDecodeAt (address : Nat) (input : Option (List UInt8))
    (object : Option MclLinkFrameObject) (consumed : Option Nat) :
    MclLinkStatus × Option MclLinkFrameObject × Option Nat :=
  match input, object, consumed with
  | some input, some object, some size =>
    if input.length < mclLinkFrameMinSize then (.errTruncated, some object, consumed)
    else
      let major := (input.getD 0 0 >>> 4) &&& 0x0F
      if major ≠ mclLinkFrameMajor ∧ major ≠ mclLinkStableMajor then
        (.errIncompatibleVersion, some object, consumed)
      else
        let frame := { object.frame with
          linkMajor := major
          frameClass := input.getD 0 0 &&& 0x0F }
        if frame.frameClass ≥ mclLinkClassCount then
          (.errRange, some { object with frame := frame }, consumed)
        else if frame.frameClass = mclLinkClassAdapt then
          (.errRange, some { object with frame := frame }, consumed)
        else
          let flags := input.getD 1 0
          if flags &&& mclLinkFlagReserved ≠ 0 then
            (.errRange, some { object with frame := frame }, consumed)
          else
            let frame := { frame with flags := flags }
            if input.length < mclLinkFrameMinSize + mclLinkOptionalSize flags then
              (.errTruncated, some { object with frame := frame }, consumed)
            else
              let object : MclLinkFrameObject := { object with frame := frame }
              let r := object.readBody address ⟨input, 2⟩ size
              (r.1, some r.2.1, some r.2.2)
  | _, _, _ => (.errInvalidArgument, object, consumed)

variable {address n : Nat} {b : List UInt8} {o : MclLinkFrameObject} {f g : MclLinkFrame}

private theorem MclLinkFrameObject.readBody_frame {c : Cursor} (o : MclLinkFrameObject) :
    o.frame.readBody c n = ((o.readBody address c n).1, (o.readBody address c n).2.1.frame,
      (o.readBody address c n).2.2) := by
  simp only [MclLinkFrameObject.readBody, MclLinkFrame.readBody]
  split_ifs <;> rfl

/-- Without the pointer it is the decoder. -/
theorem mclLinkFrameDecodeAt_frame (address : Nat) (input : Option (List UInt8))
    (object : Option MclLinkFrameObject) (consumed : Option Nat) :
    mclLinkFrameDecode input (object.map MclLinkFrameObject.frame) consumed =
      ((mclLinkFrameDecodeAt address input object consumed).1,
        (mclLinkFrameDecodeAt address input object consumed).2.1.map MclLinkFrameObject.frame,
        (mclLinkFrameDecodeAt address input object consumed).2.2) := by
  cases input with
  | none => rfl
  | some input =>
    cases object with
    | none => rfl
    | some object =>
      cases consumed with
      | none => rfl
      | some size =>
        simp only [mclLinkFrameDecodeAt, mclLinkFrameDecode, Option.map_some]
        split_ifs
        · rfl
        · rfl
        · rfl
        · rfl
        · rfl
        · rfl
        · have hbody := @MclLinkFrameObject.readBody_frame address size ⟨input, 2⟩
            { object with frame := { object.frame with
              linkMajor := (input.getD 0 0 >>> 4) &&& 0x0F
              frameClass := input.getD 0 0 &&& 0x0F
              flags := input.getD 1 0 } }
          exact congrArg (fun r => (r.1, some r.2.1, some r.2.2)) hbody

section Holds

/-- Where the session reference stands, behind the destination if there is one. -/
def mclLinkSessionAt (flags : UInt8) : Nat :=
  6 + if flags &&& mclLinkFlagDestination ≠ 0 then 4 else 0

def mclLinkSequenceAt (flags : UInt8) : Nat :=
  mclLinkSessionAt flags + if flags &&& mclLinkFlagSession ≠ 0 then 4 else 0

def mclLinkFreshnessAt (flags : UInt8) : Nat :=
  mclLinkSequenceAt flags + if flags &&& mclLinkFlagSequence ≠ 0 then 2 else 0

/-- The object holds the major and the class of the first byte. -/
def MclLinkFrame.HoldsClass (f : MclLinkFrame) (b : List UInt8) : Prop :=
  f.linkMajor = (b.getD 0 0 >>> 4) &&& 0x0F ∧ f.frameClass = b.getD 0 0 &&& 0x0F

/-- It holds the flags as well. -/
def MclLinkFrame.HoldsFlags (f : MclLinkFrame) (b : List UInt8) : Prop :=
  f.HoldsClass b ∧ f.flags = b.getD 1 0

/-- It holds the references, the sequence and the freshness as well, and 0 where one is absent. -/
structure MclLinkFrame.HoldsFields (f : MclLinkFrame) (b : List UInt8) : Prop where
  flags : f.HoldsFlags b
  sourceRef : f.sourceRef = mclLinkGetU32 (b.drop 2)
  destinationRef : f.destinationRef = if b.getD 1 0 &&& mclLinkFlagDestination ≠ 0 then
    mclLinkGetU32 (b.drop 6) else 0
  sessionRef : f.sessionRef = if b.getD 1 0 &&& mclLinkFlagSession ≠ 0 then
    mclLinkGetU32 (b.drop (mclLinkSessionAt (b.getD 1 0))) else 0
  sequence : f.sequence = if b.getD 1 0 &&& mclLinkFlagSequence ≠ 0 then
    mclLinkGetU16 (b.drop (mclLinkSequenceAt (b.getD 1 0))) else 0
  freshnessMs : f.freshnessMs = if b.getD 1 0 &&& mclLinkFlagFreshness ≠ 0 then
    mclLinkGetU16 (b.drop (mclLinkFreshnessAt (b.getD 1 0))) else 0

/-- Where the payload begins. -/
def mclLinkPayloadAt (b : List UInt8) : Nat := 2 + mclLinkFieldsSize (b.getD 1 0) + 2

/-- It holds the payload as well, by its length and its address. -/
structure MclLinkFrameObject.HoldsPayload (o : MclLinkFrameObject) (address : Nat)
    (b : List UInt8) : Prop where
  fields : o.frame.HoldsFields b
  payloadLen : o.frame.payloadLen = mclLinkAnnounced b
  payload : o.frame.payload = if mclLinkAnnounced b ≠ 0 then
    some ((b.drop (mclLinkPayloadAt b)).take (mclLinkAnnounced b).toNat) else none
  pointer : o.payloadPointer = if mclLinkAnnounced b ≠ 0 then address + mclLinkPayloadAt b else 0

end Holds

/-- The bytes fail at the frame check they announce. -/
def MclLinkCheckFails (b : List UInt8) : Prop :=
  mclLinkChecked b = true ∧ (b.length < mclLinkPayloadEnd b + 4 ∨
    mclLinkGetU32 (b.drop (mclLinkPayloadEnd b)) ≠ mclLinkExpectedCheck b)

/-- A rejected frame leaves the object as it was: the tests of the decoder in their order, each
with what the object must hold of the bytes where that test is the one that fails. -/
def MclLinkFrameObject.Spared (address : Nat) (b : List UInt8) (o : MclLinkFrameObject) : Prop :=
  if b.length < mclLinkFrameMinSize ∨ mclLinkHeadStatus b = .errIncompatibleVersion then True
  else if mclLinkHeadStatus b ≠ .ok then o.frame.HoldsClass b
  else if b.length < mclLinkHeaderSize b then o.frame.HoldsFlags b
  else if mclLinkAnnounced b > mclLinkFrameMaxPayload ∨ b.length < mclLinkPayloadEnd b then
    o.frame.HoldsFields b
  else MclLinkCheckFails b → o.HoldsPayload address b

private theorem MclLinkFrame.readFields_offsets (hflags : g.flags = b.getD 1 0) :
    (g.readFields ⟨b, 2⟩).1 = { g with
      sourceRef := mclLinkGetU32 (b.drop 2)
      destinationRef := if b.getD 1 0 &&& mclLinkFlagDestination ≠ 0 then
        mclLinkGetU32 (b.drop 6) else 0
      sessionRef := if b.getD 1 0 &&& mclLinkFlagSession ≠ 0 then
        mclLinkGetU32 (b.drop (mclLinkSessionAt (b.getD 1 0))) else 0
      sequence := if b.getD 1 0 &&& mclLinkFlagSequence ≠ 0 then
        mclLinkGetU16 (b.drop (mclLinkSequenceAt (b.getD 1 0))) else 0
      freshnessMs := if b.getD 1 0 &&& mclLinkFlagFreshness ≠ 0 then
        mclLinkGetU16 (b.drop (mclLinkFreshnessAt (b.getD 1 0))) else 0 } := by
  have hhas : ∀ flag, g.has flag = decide (b.getD 1 0 &&& flag ≠ 0) := fun flag => by
    rw [MclLinkFrame.has, hflags]
  simp only [MclLinkFrame.readFields, Codec.readIf, hhas, decide_eq_true_eq, mclLinkSessionAt,
    mclLinkSequenceAt, mclLinkFreshnessAt]
  split_ifs <;> rfl

/-- The object once its major, its class and its flags are stored. -/
def MclLinkFrameObject.flagged (o : MclLinkFrameObject) (b : List UInt8) : MclLinkFrameObject :=
  { o with frame := { o.frame with
    linkMajor := (b.getD 0 0 >>> 4) &&& 0x0F
    frameClass := b.getD 0 0 &&& 0x0F
    flags := b.getD 1 0 } }

section Stored

private theorem stored_class_iff : ({ o with frame := { o.frame with
      linkMajor := (b.getD 0 0 >>> 4) &&& 0x0F
      frameClass := b.getD 0 0 &&& 0x0F } } : MclLinkFrameObject) = o ↔ o.frame.HoldsClass b := by
  simp only [MclLinkFrameObject.ext_iff, MclLinkFrame.ext_iff, MclLinkFrame.HoldsClass, and_true]
  rw [eq_comm, @eq_comm _ (b.getD 0 0 &&& 0x0F)]

private theorem stored_flags_iff : o.flagged b = o ↔ o.frame.HoldsFlags b := by
  simp only [MclLinkFrameObject.flagged, MclLinkFrameObject.ext_iff, MclLinkFrame.ext_iff,
    MclLinkFrame.HoldsFlags, MclLinkFrame.HoldsClass, and_true, and_assoc]
  rw [eq_comm, @eq_comm _ (b.getD 0 0 &&& 0x0F), @eq_comm _ (b.getD 1 0)]

private theorem stored_fields_iff :
    ({ o.flagged b with frame := ((o.flagged b).frame.readFields ⟨b, 2⟩).1 } :
      MclLinkFrameObject) = o ↔ o.frame.HoldsFields b := by
  rw [MclLinkFrame.readFields_offsets rfl]
  constructor
  · intro h
    rw [MclLinkFrameObject.ext_iff, MclLinkFrame.ext_iff] at h
    obtain ⟨⟨hmajor, hclass, hflags, hsource, hdestination, hsession, hsequence, hfreshness, -⟩, -⟩ := h
    exact ⟨⟨⟨hmajor.symm, hclass.symm⟩, hflags.symm⟩, hsource.symm, hdestination.symm,
      hsession.symm, hsequence.symm, hfreshness.symm⟩
  · intro h
    obtain ⟨⟨⟨hmajor, hclass⟩, hflags⟩, hsource, hdestination, hsession, hsequence, hfreshness⟩ := h
    rw [MclLinkFrameObject.ext_iff, MclLinkFrame.ext_iff]
    exact ⟨⟨hmajor.symm, hclass.symm, hflags.symm, hsource.symm, hdestination.symm, hsession.symm,
      hsequence.symm, hfreshness.symm, rfl, rfl⟩, rfl⟩

private theorem stored_payload_iff {payload : List UInt8}
    (hpayload : payload = (b.drop (mclLinkPayloadAt b)).take (mclLinkAnnounced b).toNat)
    (hlen : payload.length = (mclLinkAnnounced b).toNat) :
    (⟨((o.flagged b).frame.readFields ⟨b, 2⟩).1.borrow (mclLinkAnnounced b) payload hlen,
      if mclLinkAnnounced b ≠ 0 then address + mclLinkPayloadAt b else 0⟩ :
      MclLinkFrameObject) = o ↔ o.HoldsPayload address b := by
  subst hpayload
  constructor
  · intro h
    have hfields := stored_fields_iff (o := o) (b := b)
    rw [MclLinkFrameObject.ext_iff, MclLinkFrame.ext_iff] at h hfields
    obtain ⟨⟨hmajor, hclass, hflags, hsource, hdestination, hsession, hsequence, hfreshness,
      hbytes, hlength⟩, hpointer⟩ := h
    exact ⟨hfields.mp ⟨⟨hmajor, hclass, hflags, hsource, hdestination, hsession, hsequence,
      hfreshness, rfl, rfl⟩, rfl⟩, hlength.symm, hbytes.symm, hpointer.symm⟩
  · intro h
    have hfields := stored_fields_iff.mpr h.fields
    rw [MclLinkFrameObject.ext_iff, MclLinkFrame.ext_iff] at hfields ⊢
    obtain ⟨⟨hmajor, hclass, hflags, hsource, hdestination, hsession, hsequence, hfreshness,
      -⟩, -⟩ := hfields
    exact ⟨⟨hmajor, hclass, hflags, hsource, hdestination, hsession, hsequence, hfreshness,
      h.payload.symm, h.payloadLen.symm⟩, h.pointer.symm⟩

end Stored

private theorem MclLinkFrame.checkFrame_object {c : Cursor} : (f.checkFrame c n).2.1 = f ∧
    ((f.checkFrame c n).1 ≠ .ok → (f.checkFrame c n).2.2 = n) := by
  simp only [MclLinkFrame.checkFrame]
  split_ifs
  · exact ⟨rfl, fun _ => rfl⟩
  · exact ⟨rfl, fun _ => rfl⟩
  · exact ⟨rfl, fun h => absurd rfl h⟩
  · exact ⟨rfl, fun h => absurd rfl h⟩

private theorem MclLinkFrame.checkFrame_fails (hflags : f.flags = b.getD 1 0) :
    (f.checkFrame ⟨b, mclLinkPayloadEnd b⟩ n).1 ≠ .ok ↔ MclLinkCheckFails b := by
  have hchecked : f.has mclLinkFlagFrameCheck = mclLinkChecked b := by
    rw [MclLinkFrame.has, hflags, mclLinkChecked]
  rw [MclLinkFrame.checkFrame_status, hchecked]
  show _ ↔ mclLinkChecked b = true ∧ (b.length < mclLinkPayloadEnd b + 4 ∨
    mclLinkGetU32 (b.drop (mclLinkPayloadEnd b)) ≠
      mclLinkCrc32 (some b) (mclLinkPayloadEnd b))
  split_ifs <;> simp_all

private theorem MclLinkFrameObject.readBody_keeps_iff (hsize : mclLinkHeaderSize b ≤ b.length) :
    Keeps .ok (o, n) ((o.flagged b).readBody address ⟨b, 2⟩ n) ↔
      if mclLinkAnnounced b > mclLinkFrameMaxPayload ∨ b.length < mclLinkPayloadEnd b then
        o.frame.HoldsFields b
      else MclLinkCheckFails b → o.HoldsPayload address b := by
  have hfields := MclLinkFrame.readFields_skip (g := (o.flagged b).frame) (c := ⟨b, 2⟩)
  have hlength : mclLinkU16.read ((o.flagged b).frame.readFields ⟨b, 2⟩).2 =
      (mclLinkAnnounced b, ⟨b, mclLinkPayloadAt b⟩) := by
    rw [hfields]
    rfl
  have hleft : b.length - mclLinkPayloadAt b < (mclLinkAnnounced b).toNat ↔
      b.length < mclLinkPayloadEnd b := mclLinkPayload_left hsize
  have hrefused : ∀ st, st ≠ MclLinkStatus.ok →
      (Keeps .ok (o, n) (st, ({ o.flagged b with
          frame := ((o.flagged b).frame.readFields ⟨b, 2⟩).1 } : MclLinkFrameObject), n) ↔
        o.frame.HoldsFields b) := by
    intro st hst
    rw [keeps_refused_iff hst, Prod.mk.injEq, stored_fields_iff]
    exact and_iff_left rfl
  simp only [MclLinkFrameObject.readBody, hlength, hleft]
  by_cases hmax : mclLinkAnnounced b > mclLinkFrameMaxPayload
  · rw [if_pos hmax, if_pos (Or.inl hmax)]
    exact hrefused .errRange (by decide)
  by_cases hpayload : b.length < mclLinkPayloadEnd b
  · rw [if_neg hmax, dif_pos hpayload, if_pos (Or.inr hpayload)]
    exact hrefused .errTruncated (by decide)
  rw [if_neg hmax, dif_neg hpayload, if_neg (not_or.mpr ⟨hmax, hpayload⟩)]
  have hlen : ((b.drop (mclLinkPayloadAt b)).take (mclLinkAnnounced b).toNat).length =
      (mclLinkAnnounced b).toNat := by
    have hroom := mt hleft.mp hpayload
    rw [List.length_take, List.length_drop]
    omega
  let frame := ((o.flagged b).frame.readFields ⟨b, 2⟩).1.borrow (mclLinkAnnounced b) _ hlen
  have hframe : frame.flags = b.getD 1 0 := rfl
  obtain ⟨hobject, hconsumed⟩ :=
    MclLinkFrame.checkFrame_object (f := frame) (n := n) (c := ⟨b, mclLinkPayloadEnd b⟩)
  have hfails := MclLinkFrame.checkFrame_fails (n := n) hframe
  have hstored : _ ↔ o.HoldsPayload address b := stored_payload_iff rfl hlen
  constructor
  · intro hkeeps hcheck
    have hsame := hkeeps (hfails.mpr hcheck)
    refine hstored.mp ((congrArg (MclLinkFrameObject.mk · _) hobject).symm.trans ?_)
    exact congrArg Prod.fst hsame
  · intro hholds hcheck
    have hsame := hstored.mpr (hholds (hfails.mp hcheck))
    refine Prod.ext ((congrArg (MclLinkFrameObject.mk · _) hobject).trans hsame) ?_
    exact hconsumed hcheck

section Spared

variable (hmin : ¬ b.length < mclLinkFrameMinSize)

include hmin

private theorem spared_class_iff (h : mclLinkHeadStatus b = .errRange) :
    o.Spared address b ↔ o.frame.HoldsClass b := by
  rw [MclLinkFrameObject.Spared, if_neg (not_or.mpr ⟨hmin, by rw [h]; decide⟩),
    if_pos (by rw [h]; decide)]

private theorem spared_flags_iff (h : mclLinkHeadStatus b = .ok)
    (hshort : b.length < mclLinkHeaderSize b) : o.Spared address b ↔ o.frame.HoldsFlags b := by
  rw [MclLinkFrameObject.Spared, if_neg (not_or.mpr ⟨hmin, by rw [h]; decide⟩),
    if_neg (not_not.mpr h), if_pos hshort]

private theorem spared_body_iff (h : mclLinkHeadStatus b = .ok)
    (hshort : ¬ b.length < mclLinkHeaderSize b) :
    o.Spared address b ↔
      if mclLinkAnnounced b > mclLinkFrameMaxPayload ∨ b.length < mclLinkPayloadEnd b then
        o.frame.HoldsFields b
      else MclLinkCheckFails b → o.HoldsPayload address b := by
  rw [MclLinkFrameObject.Spared, if_neg (not_or.mpr ⟨hmin, by rw [h]; decide⟩),
    if_neg (not_not.mpr h), if_neg hshort]

end Spared

private theorem mclLinkFrameDecodeAt_keeps_iff :
    Keeps .ok (some o, some n) (mclLinkFrameDecodeAt address (some b) (some o) (some n)) ↔
      o.Spared address b := by
  have hclass : Keeps MclLinkStatus.ok (some o, some n) (.errRange,
      some ({ o with frame := { o.frame with
        linkMajor := (b.getD 0 0 >>> 4) &&& 0x0F
        frameClass := b.getD 0 0 &&& 0x0F } } : MclLinkFrameObject), some n) ↔
      o.frame.HoldsClass b := by
    rw [keeps_refused_iff (by decide), Prod.mk.injEq, Option.some.injEq, stored_class_iff]
    exact and_iff_left rfl
  have hflags : Keeps MclLinkStatus.ok (some o, some n) (.errTruncated, some (o.flagged b), some n) ↔
      o.frame.HoldsFlags b := by
    rw [keeps_refused_iff (by decide), Prod.mk.injEq, Option.some.injEq, stored_flags_iff]
    exact and_iff_left rfl
  simp only [mclLinkFrameDecodeAt]
  by_cases hmin : b.length < mclLinkFrameMinSize
  · rw [if_pos hmin, MclLinkFrameObject.Spared, if_pos (Or.inl hmin)]
    exact iff_of_true (.refused _) trivial
  by_cases hmajor : (b.getD 0 0 >>> 4) &&& 0x0F ≠ mclLinkFrameMajor ∧
      (b.getD 0 0 >>> 4) &&& 0x0F ≠ mclLinkStableMajor
  · have hhead : mclLinkHeadStatus b = .errIncompatibleVersion := if_pos hmajor
    rw [if_neg hmin, if_pos hmajor, MclLinkFrameObject.Spared, if_pos (Or.inr hhead)]
    exact iff_of_true (.refused _) trivial
  have hhead : mclLinkHeadStatus b =
      if b.getD 0 0 &&& 0x0F ≥ mclLinkClassCount then .errRange
      else if b.getD 0 0 &&& 0x0F = mclLinkClassAdapt then .errRange
      else if b.getD 1 0 &&& mclLinkFlagReserved ≠ 0 then .errRange else .ok := if_neg hmajor
  rw [if_neg hmin, if_neg hmajor]
  by_cases hcount : b.getD 0 0 &&& 0x0F ≥ mclLinkClassCount
  · rw [if_pos hcount] at hhead ⊢
    exact hclass.trans (spared_class_iff hmin hhead).symm
  by_cases hadapt : b.getD 0 0 &&& 0x0F = mclLinkClassAdapt
  · rw [if_neg hcount, if_pos hadapt] at hhead ⊢
    exact hclass.trans (spared_class_iff hmin hhead).symm
  by_cases hreserved : b.getD 1 0 &&& mclLinkFlagReserved ≠ 0
  · rw [if_neg hcount, if_neg hadapt, if_pos hreserved] at hhead ⊢
    exact hclass.trans (spared_class_iff hmin hhead).symm
  rw [if_neg hcount, if_neg hadapt, if_neg hreserved] at hhead ⊢
  by_cases hshort : b.length < mclLinkFrameMinSize + mclLinkOptionalSize (b.getD 1 0)
  · rw [if_pos hshort]
    exact hflags.trans (spared_flags_iff hmin hhead hshort).symm
  · rw [if_neg hshort, spared_body_iff hmin hhead hshort,
      ← MclLinkFrameObject.readBody_keeps_iff (n := n) (Nat.le_of_not_lt hshort)]
    have hinj : Function.Injective fun v : MclLinkFrameObject × Nat => (some v.1, some v.2) := by
      intro v w h
      obtain ⟨hobject, hsize⟩ := Prod.mk.inj h
      exact Prod.ext (Option.some.inj hobject) (Option.some.inj hsize)
    exact keeps_map_iff (v := (o, n)) hinj

private theorem MclLinkFrameObject.readBody_consumed {c : Cursor}
    (h : (o.readBody address c n).1 ≠ .ok) : (o.readBody address c n).2.2 = n := by
  simp only [MclLinkFrameObject.readBody] at h ⊢
  split_ifs at h ⊢
  · rfl
  · rfl
  · exact MclLinkFrame.checkFrame_object.2 h
  · exact MclLinkFrame.checkFrame_object.2 h

private theorem mclLinkFrameDecodeAt_consumed (address : Nat) (input : Option (List UInt8))
    (object : Option MclLinkFrameObject) (consumed : Option Nat) :
    Keeps .ok consumed ((mclLinkFrameDecodeAt address input object consumed).1,
      (mclLinkFrameDecodeAt address input object consumed).2.2) := by
  intro hst
  cases input with
  | none => rfl
  | some b =>
    cases object with
    | none => rfl
    | some o =>
      cases consumed with
      | none => rfl
      | some size =>
        simp only [mclLinkFrameDecodeAt] at hst ⊢
        split_ifs at hst ⊢
        · rfl
        · rfl
        · rfl
        · rfl
        · rfl
        · rfl
        · exact congrArg some (MclLinkFrameObject.readBody_consumed hst)

/-- The decoders all leave their objects as they were, whenever they reject the bytes, exactly if
the frame decoder spares its object; what was consumed is as it was in any case. -/
theorem mclDecode_keeps_object (address : Nat) (input : Option (List UInt8))
    (object : Option MclLinkFrameObject) (consumed : Option Nat)
    (control : Option MclHandoffControl) (isAck : UInt8) (ack : Option MclLinkAck)
    (closeControl : Option MclLinkClose) (capability : Option MclLinkCapability)
    (negotiation : Option MclLinkNegotiation) (transportId : Option UInt8)
    (endpointToken : Option UInt32) :
    ((Keeps .ok (object, consumed) (mclLinkFrameDecodeAt address input object consumed) ∧
        Keeps .ok control (mclHandoffControlDecode input control) ∧
        Keeps .ok ack (mclLinkAckDecode input isAck ack) ∧
        Keeps .ok closeControl (mclLinkCloseDecode input closeControl) ∧
        Keeps .ok capability (mclLinkCapabilityDecode input capability) ∧
        Keeps .ok negotiation (mclLinkNegotiationDecode input negotiation) ∧
        Keeps .ok (transportId, endpointToken)
          (mclRendezvousBeaconDecode input transportId endpointToken)) ↔
      ∀ b o, input = some b → object = some o → consumed ≠ none → o.Spared address b) ∧
    Keeps .ok consumed ((mclLinkFrameDecodeAt address input object consumed).1,
      (mclLinkFrameDecodeAt address input object consumed).2.2) := by
  refine ⟨⟨?_, ?_⟩, mclLinkFrameDecodeAt_consumed address input object consumed⟩
  · rintro ⟨hframe, -⟩ b o rfl rfl hconsumed
    obtain ⟨n, rfl⟩ := Option.ne_none_iff_exists'.mp hconsumed
    exact mclLinkFrameDecodeAt_keeps_iff.mp hframe
  · intro h
    refine ⟨?_, mclHandoffControlDecode_keeps input control,
      mclLinkAckDecode_keeps input isAck ack, mclLinkCloseDecode_keeps input closeControl,
      mclLinkCapabilityDecode_keeps input capability,
      mclLinkNegotiationDecode_keeps input negotiation,
      mclRendezvousBeaconDecode_keeps input transportId endpointToken⟩
    cases input with
    | none => exact .refused _
    | some b =>
      cases object with
      | none => exact .refused _
      | some o =>
        cases consumed with
        | none => exact .refused _
        | some n => exact mclLinkFrameDecodeAt_keeps_iff.mpr (h b o rfl rfl (by simp))

/-- A header that is cut off behind its flags: the object shows its class and its flags with the
payload of the frame before. -/
theorem mclLinkFrameDecode_mixes :
    let payload : List UInt8 := [1, 2, 3]
    let o : MclLinkFrameObject := ⟨⟨1, 3, 0, 0xA0, 0, 0, 0, 0, some payload, 3, by decide⟩, 0x1000⟩
    let b : List UInt8 := [0x14, 0x01, 0, 0, 0, 0xA0, 0, 0]
    mclLinkFrameDecodeAt 0x2000 (some b) (some o) (some 11) = (.errTruncated,
        some ⟨⟨1, 4, 1, 0xA0, 0, 0, 0, 0, some payload, 3, by decide⟩, 0x1000⟩, some 11) ∧
      ¬ Keeps .ok (some o, some 11) (mclLinkFrameDecodeAt 0x2000 (some b) (some o) (some 11)) := by
  intro payload o b
  have hdecode : mclLinkFrameDecodeAt 0x2000 (some b) (some o) (some 11) = (.errTruncated,
      some ⟨⟨1, 4, 1, 0xA0, 0, 0, 0, 0, some payload, 3, by decide⟩, 0x1000⟩, some 11) := by
    decide
  refine ⟨hdecode, fun hkeeps => ?_⟩
  rw [hdecode, keeps_refused_iff (by decide)] at hkeeps
  exact absurd hkeeps (by decide)

end MclLink
