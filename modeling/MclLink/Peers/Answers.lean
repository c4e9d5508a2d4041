import MclLink.Control.Framing
import MclLink.Control.Sequence
import MclLink.Frame.Memory
import MclLink.Peers.Effect

/-!
# Frames and their acknowledgements

Section 3.3 of the frame class specification. The frames of a peer are numbered from 0 on, and an
ACK or NACK names the frame it answers by the sequence of that frame, beside a sequence of its own.
Frames may be lost, repeated, delayed and reordered; the peer that is answered looks back from the
last frame it has sent.
-/

namespace MclLink

open Bytes LabelledRun

abbrev mclLinkClassAck : UInt8 := 4
abbrev mclLinkClassNack : UInt8 := 5

/-- A frame that was sent. The note names the frame it answers, and the reason; no peer reads it. -/
structure MclSentFrame where
  bytes : List UInt8
  answers : Option (ℕ × UInt8)
  deriving DecidableEq, Repr

/-- A peer: all it has sent, the oldest first, the numbers of the frames it has received, and its
own frames that it takes to be answered, each with the reason. -/
structure MclAnswerer where
  sent : List MclSentFrame
  heard : List ℕ
  settled : List (ℕ × UInt8)
  deriving DecidableEq, Repr

inductive MclAnswerAction where
  | send (major : UInt8) (frame : MclLinkFrame)
  | answer (number : ℕ) (reason : UInt8) (major : UInt8) (header : MclLinkFrame)
  | receive (number : ℕ)
  deriving DecidableEq, Repr

def mclLinkAckBlank : MclLinkAck := ⟨0, 0, 0⟩

/-- An answer without a reason is an ACK. -/
def mclLinkAnswerIsAck (reason : UInt8) : UInt8 := if reason = 0 then 1 else 0

def mclLinkAnswerClass (reason : UInt8) : UInt8 :=
  if reason = 0 then mclLinkClassAck else mclLinkClassNack

/-- The payload of an answer. -/
def mclLinkAnswerPack (reason : UInt8) (ackedSequence : UInt16) : Option (List UInt8) :=
  match if reason = 0 then mclLinkMakeAck (some mclLinkAckBlank) ackedSequence
    else mclLinkMakeNack (some mclLinkAckBlank) ackedSequence reason with
  | (.ok, some ack) =>
    pack .ok (fun ack => mclLinkAckEncode ack (mclLinkAnswerIsAck reason)) mclLinkAckSize ack
  | _ => none

/-- The sequence of a frame is its number modulo 65536. -/
def MclLinkFrame.numbered (frame : MclLinkFrame) (number : ℕ) : MclLinkFrame :=
  { frame with sequence := UInt16.ofNat number }

def MclLinkFrame.carrying (header : MclLinkFrame) (frameClass : UInt8) (payload : List UInt8) :
    MclLinkFrame :=
  { header with
    frameClass := frameClass
    payload := some (payload.take (UInt16.ofNat payload.length).toNat)
    payloadLen := UInt16.ofNat payload.length
    readable := length_take_cast payload }

def mclLinkFramePack (major : UInt8) (frame : MclLinkFrame) : Option (List UInt8) :=
  pack .ok (mclLinkFrameEncodeAtMajor major) mclLinkFrameMaxSize frame

/-- The frame that an acknowledged sequence names among the frames sent so far. -/
def mclLinkAcknowledged (count : ℕ) (ackedSequence : UInt16) : Option ℕ :=
  let highestSent := UInt16.ofNat (count - 1)
  if mclLinkSequenceIsLive highestSent ackedSequence (some 0) = (.ok, some 1) ∧
      (highestSent - ackedSequence).toNat < count then
    some (count - 1 - (highestSent - ackedSequence).toNat)
  else none

/-- What a peer makes of a decoded answer. -/
def MclAnswerer.settle (p : MclAnswerer) : MclLinkStatus × Option MclLinkAck → MclAnswerer
  | (.ok, some ack) =>
    match mclLinkAcknowledged p.sent.length ack.ackedSequence with
    | some number => { p with settled := (number, ack.reason) :: p.settled }
    | none => p
  | _ => p

def MclAnswerer.receive (p : MclAnswerer) (number : ℕ) (bytes : List UInt8) : MclAnswerer :=
  match mclLinkFrameDecode (some bytes) (some mclLinkFrameBlank) (some 0) with
  | (.ok, some frame, some _) =>
    let p := { p with heard := number :: p.heard }
    if frame.frameClass = mclLinkClassAck then
      p.settle (mclLinkAckDecode frame.payload 1 (some mclLinkAckBlank))
    else if frame.frameClass = mclLinkClassNack then
      p.settle (mclLinkAckDecode frame.payload 0 (some mclLinkAckBlank))
    else p
  | _ => p

/-- One action of a peer to which `inbox` has been sent; `none` when it is refused. -/
def MclAnswerer.perform (inbox : List MclSentFrame) (p : MclAnswerer) :
    MclAnswerAction → Option MclAnswerer
  | .send major frame =>
    if frame.frameClass = mclLinkClassAck ∨ frame.frameClass = mclLinkClassNack ∨
        frame.has mclLinkFlagSequence = false then none
    else
      (mclLinkFramePack major (frame.numbered p.sent.length)).map fun bytes =>
        { p with sent := p.sent ++ [⟨bytes, none⟩] }
  | .answer number reason major header =>
    inbox[number]?.bind fun message =>
      match mclLinkFrameDecode (some message.bytes) (some mclLinkFrameBlank) (some 0) with
      | (.ok, some frame, some _) =>
        if frame.has mclLinkFlagSequence = false ∨ header.has mclLinkFlagSequence = false then none
        else
          (mclLinkAnswerPack reason frame.sequence).bind fun payload =>
            (mclLinkFramePack major ((header.carrying (mclLinkAnswerClass reason) payload).numbered
              p.sent.length)).map fun bytes =>
                { p with
                  sent := p.sent ++ [⟨bytes, some (number, reason)⟩]
                  heard := number :: p.heard }
      | _ => none
  | .receive number => inbox[number]?.map fun message => p.receive number message.bytes

/-- Two peers, each of which hears what the other one has sent. -/
abbrev MclAnswerPair := MclSide → MclAnswerer

def MclAnswerPair.perform (s : MclAnswerPair) (e : MclSide × MclAnswerAction) :
    Option MclAnswerPair :=
  ((s e.1).perform (s e.1.other).sent e.2).map fun p => Function.update s e.1 p

abbrev MclAnswerRun := Run fun (s : MclAnswerPair) e s' => s.perform e = some s'

def MclAnswerPair.Starts (s : MclAnswerPair) : Prop := ∀ x, s x = ⟨[], [], []⟩

/-- The answer that arrives, if one does. -/
def MclAnswerPair.arriving (s : MclAnswerPair) : MclSide × MclAnswerAction → Option (ℕ × UInt8)
  | (x, .receive number) => (s x.other).sent[number]?.bind MclSentFrame.answers
  | _ => none

/-- No answer arrives after 65536 further frames. -/
def MclAnswerPair.Timely (s : MclAnswerPair) (e : MclSide × MclAnswerAction) : Prop :=
  ∀ a ∈ s.arriving e, (s e.1).sent.length ≤ a.1 + 65536

instance (s : MclAnswerPair) (e : MclSide × MclAnswerAction) : Decidable (s.Timely e) :=
  Option.decidableForallMem (s.arriving e)

/-- The message is `f` with the sequence of its number. Its note is what `f` says if it is an answer,
and there is none on any other frame. -/
structure MclSentFrame.Carries (m : MclSentFrame) (number : ℕ) (f : MclLinkFrame) (major : UInt8) :
    Prop where
  known : major = mclLinkFrameMajor ∨ major = mclLinkStableMajor
  encodable : mclLinkFrameEncodable (some f) = true
  bytes : m.bytes = f.layout major
  sequenced : f.has mclLinkFlagSequence = true
  sequence : f.sequence = UInt16.ofNat number
  plain : m.answers = none → f.frameClass ≠ mclLinkClassAck ∧ f.frameClass ≠ mclLinkClassNack
  answer : ∀ a ∈ m.answers, f.frameClass = mclLinkAnswerClass a.2 ∧
    (mclLinkAckFormat (mclLinkAnswerIsAck a.2)).Legal ⟨0, a.2, UInt16.ofNat a.1⟩ ∧
      f.payloadLen ≠ 0 ∧ f.payload =
        some ((mclLinkAckFormat (mclLinkAnswerIsAck a.2)).layout ⟨0, a.2, UInt16.ofNat a.1⟩)

/-- Every message is what its place and its note say. -/
def MclSentFrames (messages : List MclSentFrame) : Prop :=
  ∀ number m, messages[number]? = some m → ∃ f major, MclSentFrame.Carries m number f major

/-- The changes an action can make to a peer to which `inbox` has been sent. -/
inductive MclAnswerEffect (inbox : List MclSentFrame) (p : MclAnswerer) :
    MclAnswerAction → MclAnswerer → Prop where
  | send {major frame m f} : MclSentFrame.Carries m p.sent.length f major → m.answers = none →
      MclAnswerEffect inbox p (.send major frame) { p with sent := p.sent ++ [m] }
  | answer {number reason major header m f} : number < inbox.length →
      MclSentFrame.Carries m p.sent.length f major → m.answers = some (number, reason) →
      MclAnswerEffect inbox p (.answer number reason major header)
        { p with sent := p.sent ++ [m], heard := number :: p.heard }
  | hear {number} : number < inbox.length →
      MclAnswerEffect inbox p (.receive number) { p with heard := number :: p.heard }
  | settle {number m a k} : inbox[number]? = some m → m.answers = some a →
      MclLinkSentLately p.sent.length (UInt16.ofNat a.1) k →
      MclAnswerEffect inbox p (.receive number)
        { p with heard := number :: p.heard, settled := (k, a.2) :: p.settled }

variable {n k number : ℕ} {a : UInt16} {reason major : UInt8} {f : MclLinkFrame}
  {bytes payload : List UInt8} {p p' q : MclAnswerer} {m : MclSentFrame}
  {inbox : List MclSentFrame} {action : MclAnswerAction}

private theorem mclLinkAcknowledged_eq_some :
    mclLinkAcknowledged n a = some k ↔ MclLinkSentLately n a k := by
  have hback : (UInt16.ofNat (n - 1) - a).toNat = Serial.distance (2 ^ 16) (n - 1) a.toNat := by
    rw [UInt16.toNat_sub, UInt16.toNat_ofNat', Serial.distance, Nat.add_comm, Nat.mod_add_mod]
  have hlive : mclLinkSequenceIsLive (UInt16.ofNat (n - 1)) a (some 0) = (.ok, some 1) ↔
      Serial.distance (2 ^ 16) (n - 1) a.toNat < 16384 := by
    have hdistance : Serial.distance (2 ^ 16) (UInt16.ofNat (n - 1)).toNat a.toNat =
        Serial.distance (2 ^ 16) (n - 1) a.toNat := by
      rw [UInt16.toNat_ofNat', Serial.distance, Serial.distance, Nat.mod_add_mod]
    have hanswer := @mclLinkSequenceIsLive_iff a (UInt16.ofNat (n - 1)) 0
    rw [← hdistance, ← hanswer]
    exact ⟨congrArg Prod.snd, fun h => Prod.ext rfl h⟩
  rw [MclLinkSentLately.iff_recent, Serial.recent_iff (by decide) a.toNat_lt]
  simp only [mclLinkAcknowledged, hlive, hback]
  split_ifs with hrule
  · rw [Option.some.injEq, and_iff_right hrule]
  · exact iff_of_false (by simp) fun h => hrule h.1

section Packing

private theorem mclLinkFramePack_eq_some : mclLinkFramePack major f = some bytes ↔
    (major = mclLinkFrameMajor ∨ major = mclLinkStableMajor) ∧
      mclLinkFrameEncodable (some f) = true ∧ bytes = f.layout major := by
  constructor
  · intro h
    unfold mclLinkFramePack pack at h
    split at h
    · next st out written henc =>
      split_ifs at h with hst
      obtain ⟨hknown, hf, hroom⟩ :=
        mclLinkFrameEncodeAtMajor_ok_iff.mp ((congrArg Prod.fst henc).trans hst)
      have hsame := (mclLinkFrameEncodeAtMajor_ok 0 hknown hf hroom).symm.trans henc
      simp only [Prod.mk.injEq, Option.some.injEq] at hsame
      obtain ⟨-, rfl, rfl⟩ := hsame
      rw [List.take_left] at h
      exact ⟨hknown, hf, (Option.some.inj h).symm⟩
    · cases h
  · rintro ⟨hknown, hf, rfl⟩
    have hlen : (f.layout major).length = mclLinkFrameEncodedSize (some f) :=
      MclLinkFrame.length_layout hf
    have hroom : mclLinkFrameEncodedSize (some f) ≤
        (List.replicate mclLinkFrameMaxSize (0 : UInt8)).length := by
      rw [List.length_replicate, ← hlen]
      exact MclLinkFrame.length_layout_le hf
    rw [mclLinkFramePack, pack, mclLinkFrameEncodeAtMajor_ok 0 hknown hf hroom]
    simp only [if_true, List.take_left]

private theorem mclLinkAnswerPack_eq_some : mclLinkAnswerPack reason a = some payload ↔
    (mclLinkAckFormat (mclLinkAnswerIsAck reason)).Legal ⟨0, reason, a⟩ ∧
      payload = (mclLinkAckFormat (mclLinkAnswerIsAck reason)).layout ⟨0, reason, a⟩ := by
  have hpack : pack .ok (fun ack => mclLinkAckEncode ack (mclLinkAnswerIsAck reason))
      mclLinkAckSize ⟨0, reason, a⟩ = some payload ↔ _ :=
    (mclLinkAck_implements (mclLinkAnswerIsAck reason)).pack_eq_some fun _ => Nat.le_refl _
  by_cases hack : reason = 0
  · subst hack
    exact hpack
  · rw [← hpack]
    simp only [mclLinkAnswerPack, if_neg hack, mclLinkMakeNack]
    split_ifs with hreason
    · refine iff_of_false (by simp) fun h => ?_
      have hlegal := (hpack.mp h).1.2
      simp [mclLinkAckReasonRefused, mclLinkAnswerIsAck, hack] at hlegal
      exact UInt8.not_lt.mpr (hreason.resolve_left hack) hlegal
    · rfl

private theorem MclSentFrame.Carries.decode (h : m.Carries number f major) :
    mclLinkFrameDecode (some m.bytes) (some mclLinkFrameBlank) (some 0) =
      (.ok, some (f.received major), some m.bytes.length) := by
  have hdecode := @mclLinkFrameDecode_layout f mclLinkFrameBlank major [] 0 h.known h.encodable
  rwa [List.append_nil, ← h.bytes] at hdecode

private theorem MclSentFrame.carries_plain (hplain : f.frameClass ≠ mclLinkClassAck ∧
      f.frameClass ≠ mclLinkClassNack) (hsequenced : f.has mclLinkFlagSequence = true)
    (hbytes : mclLinkFramePack major (f.numbered n) = some bytes) :
    MclSentFrame.Carries ⟨bytes, none⟩ n (f.numbered n) major := by
  obtain ⟨hknown, hf, hlayout⟩ := mclLinkFramePack_eq_some.mp hbytes
  exact ⟨hknown, hf, hlayout, hsequenced, rfl, fun _ => hplain, by simp⟩

private theorem MclSentFrame.carries_answer (hsequenced : f.has mclLinkFlagSequence = true)
    (hpayload : mclLinkAnswerPack reason (UInt16.ofNat number) = some payload)
    (hbytes : mclLinkFramePack major
      ((f.carrying (mclLinkAnswerClass reason) payload).numbered n) = some bytes) :
    MclSentFrame.Carries ⟨bytes, some (number, reason)⟩ n
      ((f.carrying (mclLinkAnswerClass reason) payload).numbered n) major := by
  obtain ⟨hknown, hf, hlayout⟩ := mclLinkFramePack_eq_some.mp hbytes
  obtain ⟨hlegal, rfl⟩ := mclLinkAnswerPack_eq_some.mp hpayload
  refine ⟨hknown, hf, hlayout, hsequenced, rfl, by simp, ?_⟩
  rintro _ ⟨⟩
  have hlen : UInt16.ofNat 4 ≠ 0 := by decide
  exact ⟨rfl, hlegal, hlen, rfl⟩

end Packing

private theorem MclAnswerer.receive_eq (p : MclAnswerer) (h : m.Carries number f major) :
    p.receive number m.bytes = match m.answers with
      | none => { p with heard := number :: p.heard }
      | some a => MclAnswerer.settle { p with heard := number :: p.heard }
          (.ok, some ⟨0, a.2, UInt16.ofNat a.1⟩) := by
  have hreceived : (f.received major).frameClass = f.frameClass := rfl
  simp only [MclAnswerer.receive, h.decode, hreceived]
  cases hanswers : m.answers with
  | none =>
    obtain ⟨hack, hnack⟩ := h.plain hanswers
    rw [if_neg hack, if_neg hnack]
  | some a =>
    obtain ⟨hclass, hlegal, hlen, hpayload⟩ := h.answer a hanswers
    have hpayload : (f.received major).payload = _ := (if_pos hlen).trans hpayload
    have hdecode :=
      (mclLinkAck_implements (mclLinkAnswerIsAck a.2)).decode_ok mclLinkAckBlank hlegal
    by_cases hack : a.2 = 0
    · rw [mclLinkAnswerIsAck, if_pos hack] at hdecode hpayload
      rw [mclLinkAnswerClass, if_pos hack] at hclass
      rw [if_pos hclass, hpayload, hdecode]
      rfl
    · rw [mclLinkAnswerIsAck, if_neg hack] at hdecode hpayload
      rw [mclLinkAnswerClass, if_neg hack] at hclass
      rw [hclass, if_neg (by decide), if_pos rfl, hpayload, hdecode]
      rfl

private theorem MclAnswerer.receive_effect (hm : inbox[number]? = some m)
    (hcarries : m.Carries number f major) :
    MclAnswerEffect inbox p (.receive number) (p.receive number m.bytes) := by
  have hnumber := (List.getElem?_eq_some_iff.mp hm).1
  rw [p.receive_eq hcarries]
  cases hanswers : m.answers with
  | none => exact .hear hnumber
  | some a =>
    simp only [MclAnswerer.settle]
    cases hk : mclLinkAcknowledged p.sent.length (UInt16.ofNat a.1) with
    | none => exact .hear hnumber
    | some k => exact .settle hm hanswers (mclLinkAcknowledged_eq_some.mp hk)

private theorem MclAnswerer.perform_effect (h : p.perform inbox action = some p')
    (hinbox : MclSentFrames inbox) :
    MclAnswerEffect inbox p action p' := by
  cases action with
  | send major frame =>
    simp only [MclAnswerer.perform] at h
    split_ifs at h with hrule
    obtain ⟨bytes, hbytes, rfl⟩ := Option.map_eq_some_iff.mp h
    simp only [not_or, Bool.not_eq_false] at hrule
    exact .send (MclSentFrame.carries_plain ⟨hrule.1, hrule.2.1⟩ hrule.2.2 hbytes) rfl
  | answer number reason major header =>
    obtain ⟨m, hm, h⟩ := Option.bind_eq_some_iff.mp h
    obtain ⟨f, major', hcarries⟩ := hinbox number m hm
    have hsequence : (f.received major').sequence = UInt16.ofNat number :=
      (if_pos hcarries.sequenced).trans hcarries.sequence
    simp only [hcarries.decode, hsequence] at h
    split_ifs at h with hrule
    obtain ⟨payload, hpayload, h⟩ := Option.bind_eq_some_iff.mp h
    obtain ⟨bytes, hbytes, rfl⟩ := Option.map_eq_some_iff.mp h
    simp only [not_or, Bool.not_eq_false] at hrule
    exact .answer (List.getElem?_eq_some_iff.mp hm).1
      (MclSentFrame.carries_answer hrule.2 hpayload hbytes) rfl
  | receive number =>
    obtain ⟨m, hm, rfl⟩ := Option.map_eq_some_iff.mp h
    obtain ⟨f, major, hcarries⟩ := hinbox number m hm
    exact MclAnswerer.receive_effect hm hcarries

/-- A peer's frames are in order, it has heard what was sent and answered what it heard, and what it
takes to be answered was answered. -/
structure MclAnswerer.Sound (p q : MclAnswerer) : Prop where
  sent : MclSentFrames p.sent
  answers : ∀ m ∈ p.sent, ∀ a ∈ m.answers, a.1 ∈ p.heard
  heard : ∀ k ∈ p.heard, k < q.sent.length
  settled : ∀ a ∈ p.settled, ∃ m ∈ q.sent, m.answers = some a

private theorem MclSentFrames.concat (h : MclSentFrames inbox)
    (hm : m.Carries inbox.length f major) : MclSentFrames (inbox ++ [m]) := by
  intro number m' hm'
  rcases Nat.lt_trichotomy number inbox.length with hlt | rfl | hgt
  · rw [List.getElem?_append_left hlt] at hm'
    exact h number m' hm'
  · rw [List.getElem?_concat_length] at hm'
    obtain rfl := Option.some.inj hm'
    exact ⟨f, major, hm⟩
  · rw [List.getElem?_eq_none (by simp; omega)] at hm'
    cases hm'

private theorem MclAnswerer.Sound.more (h : p.Sound q) (hmore : ∃ rest, p'.sent = q.sent ++ rest) :
    p.Sound p' where
  sent := h.sent
  answers := h.answers
  heard k hk := by
    obtain ⟨rest, hrest⟩ := hmore
    rw [hrest, List.length_append]
    exact Nat.lt_add_right _ (h.heard k hk)
  settled a ha := by
    obtain ⟨rest, hrest⟩ := hmore
    obtain ⟨m, hm, hanswers⟩ := h.settled a ha
    rw [hrest]
    exact ⟨m, List.mem_append_left _ hm, hanswers⟩

private theorem MclAnswerEffect.more (heff : MclAnswerEffect inbox p action p') :
    ∃ rest, p'.sent = p.sent ++ rest := by
  cases heff with
  | send | answer => exact ⟨_, rfl⟩
  | hear | settle => exact ⟨[], (List.append_nil _).symm⟩

private theorem MclLinkSentLately.timely (h : MclLinkSentLately n (UInt16.ofNat number) k)
    (hnumber : number < n) (htimely : n ≤ number + 65536) : k = number := by
  obtain ⟨hk, hrecent, hname⟩ := h
  rw [← UInt16.toNat_inj, UInt16.toNat_ofNat', UInt16.toNat_ofNat'] at hname
  omega

private theorem MclAnswerEffect.sound (heff : MclAnswerEffect q.sent p action p') (h : p.Sound q)
    (hback : q.Sound p)
    (htimely : ∀ number, action = .receive number → ∀ m ∈ q.sent[number]?, ∀ a ∈ m.answers,
      p.sent.length ≤ a.1 + 65536) : p'.Sound q := by
  cases heff with
  | @send _ _ m f hm hplain =>
    refine ⟨h.sent.concat hm, fun m' hm' a ha => ?_, h.heard, h.settled⟩
    rcases List.mem_append.mp hm' with hm' | hm'
    · exact h.answers m' hm' a ha
    · obtain rfl := List.mem_singleton.mp hm'
      simp [hplain] at ha
  | @answer number reason _ _ m f hnumber hm hanswers =>
    refine ⟨h.sent.concat hm, fun m' hm' a ha => ?_, ?_, h.settled⟩
    · rcases List.mem_append.mp hm' with hm' | hm'
      · exact List.mem_cons_of_mem _ (h.answers m' hm' a ha)
      · obtain rfl := List.mem_singleton.mp hm'
        obtain rfl := Option.some.inj (hanswers.symm.trans ha)
        exact List.mem_cons_self
    · exact List.forall_mem_cons.mpr ⟨hnumber, h.heard⟩
  | hear hnumber =>
    refine ⟨h.sent, fun m hm a ha => ?_, List.forall_mem_cons.mpr ⟨hnumber, h.heard⟩, h.settled⟩
    exact List.mem_cons_of_mem _ (h.answers m hm a ha)
  | @settle number m a k hm hanswers hlately =>
    have hmem := List.mem_of_getElem? hm
    have hnumber := (List.getElem?_eq_some_iff.mp hm).1
    obtain rfl := hlately.timely (hback.heard _ (hback.answers m hmem a hanswers))
      (htimely number rfl m hm a hanswers)
    refine ⟨h.sent, fun m hm a ha => ?_, List.forall_mem_cons.mpr ⟨hnumber, h.heard⟩,
      List.forall_mem_cons.mpr ⟨⟨m, hmem, hanswers⟩, h.settled⟩⟩
    exact List.mem_cons_of_mem _ (h.answers m hm a ha)

section Runs

variable {s₀ s s' : MclAnswerPair} {e : MclSide × MclAnswerAction} {x : MclSide}
  {tr : List (Event MclAnswerPair (MclSide × MclAnswerAction))}

/-- Both peers are sound against each other. -/
def MclAnswerPair.Sound (s : MclAnswerPair) : Prop := ∀ y, (s y).Sound (s y.other)

private theorem MclAnswerPair.Sound.back (h : s.Sound) (x : MclSide) : (s x.other).Sound (s x) := by
  have hback := h x.other
  rwa [MclSide.other_other] at hback

private theorem MclAnswerPair.perform_effect (h : s.Sound) (hstep : s.perform e = some s') :
    ∃ p', MclAnswerEffect (s e.1.other).sent (s e.1) e.2 p' ∧ s' = Function.update s e.1 p' := by
  obtain ⟨p', hp', rfl⟩ := Option.map_eq_some_iff.mp hstep
  exact ⟨p', MclAnswerer.perform_effect hp' (h e.1.other).sent, rfl⟩

private theorem MclAnswerPair.Sound.step (h : s.Sound) (hstep : s.perform e = some s')
    (htimely : s.Timely e) : s'.Sound := by
  obtain ⟨p', heff, rfl⟩ := MclAnswerPair.perform_effect h hstep
  obtain ⟨x, action⟩ := e
  refine MclSide.update_forall (R := fun _ => MclAnswerer.Sound) (heff.sound (h x) (h.back x) ?_)
    ((h.back x).more heff.more)
  rintro number rfl m hm a ha
  exact htimely a (Option.bind_eq_some_iff.mpr ⟨m, hm, ha⟩)

private theorem MclAnswerPair.Starts.sound (h : s.Starts) : s.Sound := by
  intro x
  rw [h x, h x.other]
  constructor <;> simp [MclSentFrames]

private theorem MclAnswerRun.sound (hstart : s₀.Starts) (run : MclAnswerRun s₀ tr s)
    (htimely : ∀ ev ∈ tr, ev.before.Timely ev.label) : s.Sound :=
  run.invariant_of (I := MclAnswerPair.Sound) htimely hstart.sound
    fun h hstep hev => h.step hstep hev

/-- As long as no answer arrives after 65536 further frames, a frame that is taken to be answered was
received, and the answer with this reason is about this very frame. -/
theorem mclAnswers_heard (hstart : s₀.Starts) (run : MclAnswerRun s₀ tr s)
    (htimely : ∀ ev ∈ tr, ev.before.Timely ev.label) (x : MclSide)
    (hsettled : (k, reason) ∈ (s x).settled) :
    k ∈ (s x.other).heard ∧ ∃ m ∈ (s x.other).sent, m.answers = some (k, reason) := by
  have hsound := MclAnswerRun.sound hstart run htimely
  obtain ⟨m, hm, hanswers⟩ := (hsound x).settled _ hsettled
  exact ⟨(hsound.back x).answers m hm _ hanswers, m, hm, hanswers⟩

/-- The left peer sends twice; the right one refuses the second frame, for want of room. -/
theorem mclAnswers_heard_second :
    let f : MclLinkFrame := ⟨0, 3, 0x04, 0xA0, 0, 0, 0, 0, some [1, 2], 2, by simp⟩
    let g : MclLinkFrame := ⟨0, 0, 0x04, 0xB0, 0, 0, 0, 0, none, 0, by simp⟩
    let actions : List (MclSide × MclAnswerAction) := [(.left, .send 1 f), (.left, .send 0 f),
      (.right, .answer 1 3 1 g), (.left, .receive 0)]
    ∃ s, script MclAnswerPair.perform (fun _ => ⟨[], [], []⟩) actions = some s ∧
      (s .left).settled = [(1, 3)] ∧ 1 ∈ (s .right).heard := by
  intro f g actions
  have hsettled : ((script MclAnswerPair.perform (fun _ => ⟨[], [], []⟩) actions).map
      fun s => (s .left).settled) = some [(1, 3)] := by
    decide +kernel
  obtain ⟨s, hs, hstate⟩ := Option.map_eq_some_iff.mp hsettled
  have hmem : (1, 3) ∈ (s .left).settled := by rw [hstate]; exact List.mem_cons_self
  exact ⟨s, hs, hstate, (mclAnswers_heard (fun _ => rfl) (Run.of_script hs) (by decide +kernel)
    .left hmem).1⟩

private theorem MclAnswerPair.perform_ok {action : MclAnswerAction} {p' : MclAnswerer}
    (h : (s x).perform (s x.other).sent action = some p') :
    s.perform (x, action) = some (Function.update s x p') := by
  rw [MclAnswerPair.perform, h]
  rfl

/-- The blank frame, with the sequence that every frame carries here. -/
def mclLinkAnswerHeader : MclLinkFrame := { mclLinkFrameBlank with flags := mclLinkFlagSequence }

private theorem MclAnswerer.perform_answer (p : MclAnswerer) (hm : inbox[number]? = some m)
    (hcarries : m.Carries number f major) : ∃ m' f', m'.answers = some (number, 0) ∧
      m'.Carries p.sent.length f' mclLinkFrameMajor ∧
      p.perform inbox (.answer number 0 mclLinkFrameMajor mclLinkAnswerHeader) =
        some { p with sent := p.sent ++ [m'], heard := number :: p.heard } := by
  have hpayload := mclLinkAnswerPack_eq_some.mpr
    (⟨⟨rfl, rfl⟩, rfl⟩ : (mclLinkAckFormat (mclLinkAnswerIsAck 0)).Legal
      ⟨0, 0, UInt16.ofNat number⟩ ∧ _ = _)
  generalize hbytes : (mclLinkAckFormat (mclLinkAnswerIsAck 0)).layout
    ⟨0, 0, UInt16.ofNat number⟩ = payload at hpayload
  have hlen : payload.length = 4 := hbytes ▸ rfl
  let answer : MclLinkFrame :=
    (mclLinkAnswerHeader.carrying (mclLinkAnswerClass 0) payload).numbered p.sent.length
  have hencodable : mclLinkFrameEncodable (some answer) = true := by
    have hsize : answer.payloadLen = 4 := congrArg UInt16.ofNat hlen
    refine mclLinkFrameEncodable_iff.mpr ⟨?_, ?_, ?_, ?_, fun _ => Option.some_ne_none _⟩
    · show mclLinkClassAck < mclLinkClassCount
      decide
    · show mclLinkClassAck ≠ mclLinkClassAdapt
      decide
    · show mclLinkFlagSequence &&& mclLinkFlagReserved = 0
      decide
    · rw [hsize]
      decide
  have hpack := mclLinkFramePack_eq_some.mpr ⟨Or.inl rfl, hencodable, rfl⟩
  have hsequence : (f.received major).sequence = UInt16.ofNat number :=
    (if_pos hcarries.sequenced).trans hcarries.sequence
  have hrule : ¬ ((f.received major).has mclLinkFlagSequence = false ∨
      mclLinkAnswerHeader.has mclLinkFlagSequence = false) := by
    have hsequenced : (f.received major).has mclLinkFlagSequence = true := hcarries.sequenced
    rw [hsequenced]
    decide
  refine ⟨_, answer, rfl, MclSentFrame.carries_answer (by decide) hpayload hpack, ?_⟩
  simp only [MclAnswerer.perform, hm, Option.bind_some, hcarries.decode, hsequence, if_neg hrule,
    hpayload]
  rw [hpack]
  rfl

private theorem MclAnswerer.receive_answer (p : MclAnswerer) (hcarries : m.Carries number f major)
    (hanswers : m.answers = some (k, reason)) (hk : k < p.sent.length)
    (hrecent : p.sent.length ≤ k + 16384) :
    (k, reason) ∈ (p.receive number m.bytes).settled := by
  have hlately : MclLinkSentLately p.sent.length (UInt16.ofNat k) k := ⟨hk, hrecent, rfl⟩
  rw [p.receive_eq hcarries, hanswers]
  simp only [MclAnswerer.settle, mclLinkAcknowledged_eq_some.mpr hlately]
  exact List.mem_cons_self

private theorem MclAnswerEffect.settled_late (heff : MclAnswerEffect inbox p action p')
    (hlate : k + 16384 < p.sent.length) (hsettled : (k, reason) ∈ p'.settled) :
    (k, reason) ∈ p.settled := by
  cases heff with
  | send | answer | hear => exact hsettled
  | @settle number m a k' hm hanswers hlately =>
    rcases List.mem_cons.mp hsettled with heq | hsettled
    · obtain rfl : k = k' := congrArg Prod.fst heq
      exact absurd hlately.2.1 (by omega)
    · exact hsettled

private theorem MclAnswerPair.stays_open (hsound : s.Sound) (hlate : k + 16384 < (s x).sent.length)
    (hopen : ∀ reason, (k, reason) ∉ (s x).settled)
    (hleads : Leads (fun (s : MclAnswerPair) e s' => s.perform e = some s')
      MclAnswerPair.Timely s s') : ∀ reason, (k, reason) ∉ (s' x).settled := by
  have hinv := hleads.invariant (I := fun t => t.Sound ∧ k + 16384 < (t x).sent.length ∧
    ∀ reason, (k, reason) ∉ (t x).settled) ⟨hsound, hlate, hopen⟩ ?_
  · exact hinv.2.2
  · rintro t ⟨y, action⟩ t' ⟨ht, hlength, hnone⟩ hstep hev
    refine ⟨ht.step hstep hev, ?_⟩
    obtain ⟨p', heff, rfl⟩ := MclAnswerPair.perform_effect ht hstep
    by_cases hyx : y = x
    · subst hyx
      rw [Function.update_self]
      obtain ⟨rest, hrest⟩ := heff.more
      refine ⟨?_, fun reason hreason => hnone reason (heff.settled_late hlength hreason)⟩
      rw [hrest, List.length_append]
      exact Nat.lt_add_right _ hlength
    · rw [Function.update_of_ne (Ne.symm hyx)]
      exact ⟨hlength, hnone⟩

private theorem MclAnswerPair.leads_to_settled (hsound : s.Sound) (hk : k < (s x).sent.length)
    (hrecent : (s x).sent.length ≤ k + 16384) :
    ∃ s', Leads (fun (s : MclAnswerPair) e s' => s.perform e = some s') MclAnswerPair.Timely s s' ∧
      (k, 0) ∈ (s' x).settled := by
  have hm := List.getElem?_eq_getElem hk
  obtain ⟨f, major, hcarries⟩ := (hsound x).sent k _ hm
  obtain ⟨m', f', hanswers, hcarries', hanswer⟩ :=
    MclAnswerer.perform_answer (s x.other) hm hcarries
  let q : MclAnswerer := { s x.other with
    sent := (s x.other).sent ++ [m']
    heard := k :: (s x.other).heard }
  let s₁ : MclAnswerPair := Function.update s x.other q
  have hself : s₁ x = s x := Function.update_of_ne (by cases x <;> decide) q s
  have hother : s₁ x.other = q := Function.update_self x.other q s
  have harrives : (s₁ x.other).sent[(s x.other).sent.length]? = some m' := by
    rw [hother]
    exact List.getElem?_concat_length
  have hsend : Leads (fun (s : MclAnswerPair) e s' => s.perform e = some s')
      MclAnswerPair.Timely s s₁ := by
    have hquiet : s.Timely (x.other, .answer k 0 mclLinkFrameMajor mclLinkAnswerHeader) := by
      simp [MclAnswerPair.Timely, MclAnswerPair.arriving]
    refine .step (MclAnswerPair.perform_ok ?_) hquiet
    rw [MclSide.other_other]
    exact hanswer
  have hreceive : (s₁ x).perform (s₁ x.other).sent (.receive (s x.other).sent.length) =
      some ((s₁ x).receive (s x.other).sent.length m'.bytes) := by
    simp only [MclAnswerer.perform, harrives, Option.map_some]
  refine ⟨_, hsend.trans (.step (MclAnswerPair.perform_ok hreceive) ?_), ?_⟩
  · intro a ha
    simp only [MclAnswerPair.arriving, harrives, Option.bind_some, hanswers] at ha
    obtain rfl := Option.some.inj ha
    rw [hself]
    omega
  · rw [Function.update_self, hself]
    exact MclAnswerer.receive_answer (s x) hcarries' hanswers hk hrecent

/-- A frame can still come to be settled exactly while it is among the last 16384, whatever the
peers do, as long as no answer arrives after 65536 further frames. -/
theorem mclAnswers_settle_iff (hstart : s₀.Starts) (run : MclAnswerRun s₀ tr s)
    (htimely : ∀ ev ∈ tr, ev.before.Timely ev.label) (x : MclSide) (hk : k < (s x).sent.length)
    (hopen : ∀ reason, (k, reason) ∉ (s x).settled) :
    (∃ s' reason, Leads (fun (s : MclAnswerPair) e s' => s.perform e = some s')
        MclAnswerPair.Timely s s' ∧ (k, reason) ∈ (s' x).settled) ↔
      (s x).sent.length ≤ k + 16384 := by
  have hsound := MclAnswerRun.sound hstart run htimely
  constructor
  · rintro ⟨s', reason, hleads, hsettled⟩
    by_contra hlate
    exact MclAnswerPair.stays_open hsound (Nat.lt_of_not_le hlate) hopen hleads reason hsettled
  · intro hrecent
    obtain ⟨s', hleads, hsettled⟩ := MclAnswerPair.leads_to_settled hsound hk hrecent
    exact ⟨s', 0, hleads, hsettled⟩

/-- One frame was sent, and nothing has been answered. -/
theorem mclAnswers_settle_iff_first :
    let f : MclLinkFrame := ⟨0, 3, 0x04, 0xA0, 0, 0, 0, 0, some [1, 2], 2, by simp⟩
    let s₀ : MclAnswerPair := fun _ => ⟨[], [], []⟩
    ∃ s, s₀.perform (.left, .send 1 f) = some s ∧
      ∃ s' reason, Leads (fun (s : MclAnswerPair) e s' => s.perform e = some s')
        MclAnswerPair.Timely s s' ∧ (0, reason) ∈ (s' .left).settled := by
  intro f s₀
  have hstate : ((s₀.perform (.left, .send 1 f)).map fun s =>
      ((s .left).sent.length, (s .left).settled)) = some (1, []) := by
    decide +kernel
  obtain ⟨s, hs, hsent⟩ := Option.map_eq_some_iff.mp hstate
  obtain ⟨hlength, hsettled⟩ := Prod.mk.inj hsent
  refine ⟨s, hs, (mclAnswers_settle_iff (fun _ => rfl) (Run.nil.snoc hs)
    (by simp [MclAnswerPair.Timely, MclAnswerPair.arriving]) .left (by rw [hlength]; decide)
    (by simp [hsettled])).mpr ?_⟩
  rw [hlength]
  decide

end Runs

end MclLink
