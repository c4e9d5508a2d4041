import MclLink.Contact.Invariant
import MclLink.Control.Selection
import MclLink.Frame.RoundTrip

/-!
# Handoff controls on a negotiated link

What the state machine has to say can be built, encoded, framed within any negotiated frame size,
and read again on the other side.
-/

namespace MclLink

open Bytes

/-- The control is encoded; as the payload of a HANDOFF frame with any other fields and any legal
flags it fits in a buffer of any negotiated frame size, and what arrives is that control. -/
def MclHandoffControl.Deliverable (k : MclHandoffControl) : Prop :=
  ∀ (buffer : List UInt8) (size : Nat),
    mclHandoffControlEncodedSize k.operation ≤ buffer.length →
  ∃ buffer' n, mclHandoffControlEncode (some k) (some buffer) (some size) =
      (.ok, some buffer', some n) ∧
    ∀ a b prior s, mclLinkNegotiationSelect (some a) (some b) (some prior) = (.ok, some s) →
    ∀ (major : UInt8) (f : MclLinkFrame), major = mclLinkFrameMajor ∨ major = mclLinkStableMajor →
      f.frameClass = mclLinkClassHandoff → f.flags &&& mclLinkFlagReserved = 0 →
      f.payload = some (buffer'.take n) →
    ∀ (out : List UInt8) (written : Nat), out.length = s.maxFrame.toNat →
    ∃ out' m, mclLinkFrameEncodeAtMajor major (some f) (some out) (some written) =
        (.ok, some out', some m) ∧ m ≤ out.length ∧
      ∀ (rest : List UInt8) (g : MclLinkFrame) (consumed : Nat) (q : MclHandoffControl),
      ∃ f', mclLinkFrameDecode (some (out'.take m ++ rest)) (some g) (some consumed) =
          (.ok, some f', some m) ∧ f'.frameClass = mclLinkClassHandoff ∧
        mclHandoffControlDecode f'.payload (some q) = (.ok, some k)

theorem mclHandoffControlEncodedSize_bounds {operation : UInt8}
    (h : mclHandoffOpAssigned operation = true) :
    0 < mclHandoffControlEncodedSize operation ∧
      mclHandoffControlEncodedSize operation ≤ mclHandoffControlMaxSize := by
  rw [mclHandoffControlEncodedSize_eq h]
  split_ifs <;> decide

private theorem MclHandoffControl.deliverable {k : MclHandoffControl}
    (hlegal : mclHandoffFormat.Legal k) (hk : k.received = k) : k.Deliverable := by
  intro buffer size hbuffer
  have hlength := mclHandoffFormat_length hlegal.1
  obtain ⟨hpos, hmax⟩ := mclHandoffControlEncodedSize_bounds hlegal.1
  refine ⟨_, _, mclHandoff_implements.encode_ok size hlegal (hlength ▸ hbuffer), ?_⟩
  intro a b prior s hselect major f hmajor hclass hflags hpayload out written hout
  rw [List.take_left] at hpayload
  obtain ⟨-, hfloor⟩ := (mclLinkNegotiationSelect_ok_iff prior).mp hselect
  have hlen : f.payloadLen.toNat = mclHandoffControlEncodedSize k.operation := by
    rw [← hlength, f.readable _ hpayload]
  have hoptional : mclLinkOptionalSize f.flags ≤ mclLinkFrameMaxOptional :=
    mclLinkOptionalSize_le f.flags
  have hencodable : mclLinkFrameEncodable (some f) = true := by
    refine mclLinkFrameEncodable_iff.mpr ⟨?_, ?_, hflags, ?_, ?_⟩
    · rw [hclass]
      decide
    · rw [hclass]
      decide
    · have hthousand : mclLinkFrameMaxPayload.toNat = 1024 := rfl
      rw [UInt16.le_iff_toNat_le, hlen, hthousand]
      exact hmax.trans (by decide)
    · rw [hpayload]
      simp
  have hsize := mclLinkFrameEncodedSize_eq hencodable
  have hlayout : (f.layout major).length = mclLinkFrameEncodedSize (some f) :=
    MclLinkFrame.length_layout hencodable
  have hroom : mclLinkFrameEncodedSize (some f) ≤ out.length := by
    rw [hsize, hout, hlen]
    simp only [mclLinkNegotiatedFrameFloor] at hfloor
    omega
  refine ⟨_, _, mclLinkFrameEncodeAtMajor_ok written hmajor hencodable hroom, hlayout ▸ hroom, ?_⟩
  intro rest g consumed q
  rw [List.take_left]
  refine ⟨_, mclLinkFrameDecode_layout rest consumed hmajor hencodable, hclass, ?_⟩
  have hnonempty : f.payloadLen ≠ 0 := by
    intro hzero
    rw [hzero] at hlen
    exact hpos.ne' hlen.symm
  have hreceived : (f.received major).payload = some (mclHandoffFormat.layout k) :=
    (if_pos hnonempty).trans hpayload
  rw [hreceived, mclHandoff_implements.decode_ok q hlegal]
  exact congrArg (fun control => (MclLinkStatus.ok, some control)) hk

theorem mclHandoffMakeCommon_ok (prior : MclHandoffControl) (operation : UInt8) {m s : UInt32}
    (hm : m ≠ mclContactMigrationNone) (hs : s ≠ mclContactSessionNone) :
    mclHandoffMakeCommon (some prior) operation m s =
      (.ok, some ⟨operation, m, s, mclHandoffClearChallenge, 0⟩) := by
  simp only [mclHandoffMakeCommon]
  rw [if_neg hm, if_neg hs]

theorem mclHandoffMakeWithChallenge_ok (prior : MclHandoffControl) (operation : UInt8) {m s : UInt32}
    (hm : m ≠ mclContactMigrationNone) (hs : s ≠ mclContactSessionNone)
    (challenge : MclContactChallenge) :
    mclHandoffMakeWithChallenge (some prior) operation m s (some challenge) =
      (.ok, some ⟨operation, m, s, challenge, 1⟩) := by
  simp only [mclHandoffMakeWithChallenge, mclHandoffMakeCommon_ok prior operation hm hs]
  rfl

/-- Everything a reachable contact has to say can be said on any negotiated link. -/
theorem mclHandoff_always_deliverable {c : MclContact} (hreach : MclContactReachable c) :
    (c.state = .agreed ∨ c.state = .validating ∨ c.state = .validated ∨ c.state = .committing →
      ∀ (prior : MclHandoffControl) (challenge : MclContactChallenge),
        (∃ k, mclHandoffMakePathChallenge (some prior) c.pendingMigrationRef c.sessionRef
            (some challenge) = (.ok, some k) ∧
          k = ⟨mclHandoffOpPathChallenge, c.pendingMigrationRef, c.sessionRef, challenge, 1⟩ ∧
          k.Deliverable) ∧
        (∃ k, mclHandoffMakePathResponse (some prior) c.pendingMigrationRef c.sessionRef
            (some challenge) = (.ok, some k) ∧
          k = ⟨mclHandoffOpPathResponse, c.pendingMigrationRef, c.sessionRef, challenge, 1⟩ ∧
          k.Deliverable) ∧
        (∃ k, mclHandoffMakeCommit (some prior) c.pendingMigrationRef c.sessionRef =
            (.ok, some k) ∧
          k = ⟨mclHandoffOpCommit, c.pendingMigrationRef, c.sessionRef,
            mclHandoffClearChallenge, 0⟩ ∧ k.Deliverable) ∧
        ∃ k, mclHandoffMakeConfirm (some prior) c.pendingMigrationRef c.sessionRef =
            (.ok, some k) ∧
          k = ⟨mclHandoffOpConfirm, c.pendingMigrationRef, c.sessionRef,
            mclHandoffClearChallenge, 0⟩ ∧ k.Deliverable) ∧
    (c.state = .active → c.completedMigrationRef ≠ mclContactMigrationNone →
      ∀ prior : MclHandoffControl,
        ∃ k, mclHandoffMakeConfirm (some prior) c.completedMigrationRef c.sessionRef =
            (.ok, some k) ∧
          k = ⟨mclHandoffOpConfirm, c.completedMigrationRef, c.sessionRef,
            mclHandoffClearChallenge, 0⟩ ∧ k.Deliverable) := by
  have hwf := hreach.wellFormed
  constructor
  · intro hstate prior challenge
    have hprogress : mclContactMigrationInProgress c = true :=
      (mclContactMigrationInProgress_iff c).mpr (Or.inr hstate)
    obtain ⟨⟨hm, -, -⟩, -⟩ := hwf.pending hprogress
    have hs := hwf.sessionRef.mp (hwf.session hstate)
    refine ⟨⟨_, mclHandoffMakeWithChallenge_ok prior _ hm hs challenge, rfl, ?_⟩,
      ⟨_, mclHandoffMakeWithChallenge_ok prior _ hm hs challenge, rfl, ?_⟩,
      ⟨_, mclHandoffMakeCommon_ok prior _ hm hs, rfl, ?_⟩,
      ⟨_, mclHandoffMakeCommon_ok prior _ hm hs, rfl, ?_⟩⟩
    · exact MclHandoffControl.deliverable ⟨rfl, hm, hs, rfl⟩ rfl
    · exact MclHandoffControl.deliverable ⟨rfl, hm, hs, rfl⟩ rfl
    · exact MclHandoffControl.deliverable ⟨rfl, hm, hs, rfl⟩ rfl
    · exact MclHandoffControl.deliverable ⟨rfl, hm, hs, rfl⟩ rfl
  · intro hactive hm prior
    have hopen : c.state ≠ .closed := by rw [hactive]; decide
    have hs := hwf.sessionRef.mp (hwf.memory hm hopen)
    refine ⟨_, mclHandoffMakeCommon_ok prior _ hm hs, rfl, ?_⟩
    exact MclHandoffControl.deliverable ⟨rfl, hm, hs, rfl⟩ rfl

/-- A challenge sent in the middle of validation, and the confirmation of the completed migration. -/
theorem mclHandoff_always_deliverable_migration :
    let c₀ := mclContactBegun mclContactRoleResponder 0xB0 1
    let challenge : MclContactChallenge := Vector.replicate 8 0xC5
    let calls := mclContactMigrationCalls ⟨0x5001, 2, 1, 0xD00D, 30⟩ 0x77 challenge
    let prior : MclHandoffControl := ⟨0, 0, 0, Vector.replicate 8 0xFF, 9⟩
    (∃ k, mclHandoffMakePathChallenge (some prior) 0x5001 0x77 (some challenge) = (.ok, some k) ∧
      k = ⟨1, 0x5001, 0x77, challenge, 1⟩ ∧ k.Deliverable) ∧
    ∃ k, mclHandoffMakeConfirm (some prior) (c₀.after calls).completedMigrationRef 0x77 =
        (.ok, some k) ∧ k = ⟨4, 0x5001, 0x77, Vector.replicate 8 0, 0⟩ ∧ k.Deliverable := by
  intro c₀ challenge calls prior
  have hstart : MclContactStarts c₀ := mclContactBegun_starts 0xB0 (by decide) (by decide)
  have hvalidating : MclContactReachable (c₀.after (calls.take 3)) :=
    ⟨c₀, _, hstart, c₀.history_run (calls.take 3)⟩
  have hcompleted : MclContactReachable (c₀.after calls) := ⟨c₀, _, hstart, c₀.history_run calls⟩
  have hpending : (c₀.after (calls.take 3)).pendingMigrationRef = 0x5001 ∧
      (c₀.after (calls.take 3)).sessionRef = 0x77 := by decide
  have hdone : (c₀.after calls).completedMigrationRef = 0x5001 ∧
      (c₀.after calls).sessionRef = 0x77 := by decide
  have hfirst := (mclHandoff_always_deliverable hvalidating).1 (by decide) prior challenge
  have hlast := (mclHandoff_always_deliverable hcompleted).2 (by decide) (by decide) prior
  rw [hpending.1, hpending.2] at hfirst
  rw [hdone.1, hdone.2] at hlast
  rw [hdone.1]
  exact ⟨hfirst.1, hlast⟩

end MclLink
