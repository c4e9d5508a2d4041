import MclLink.Frame.Check
import MclLink.Frame.Stream

/-!
# A frame at the two majors

Only the high nibble of the first byte depends on the major. The frame check covers that byte, so
that it is never the same at both majors.
-/

namespace MclLink

open Bytes

variable {f : MclLinkFrame} {major : UInt8} {k : Nat}

private theorem MclLinkFrame.getElem?_layout (hk : k ≠ 0)
    (hfront : k < (f.unchecked major).length) :
    (f.layout major)[k]? = (f.flags :: f.bodyBytes)[k - 1]? := by
  obtain ⟨k, rfl⟩ := Nat.exists_eq_succ_of_ne_zero hk
  rw [MclLinkFrame.layout, List.getElem?_append_left hfront]
  rfl

private theorem MclLinkFrame.length_unchecked :
    (f.unchecked major).length = 2 + f.bodyBytes.length := by
  rw [MclLinkFrame.unchecked, List.length_append]
  rfl

private theorem MclLinkFrame.length_checkBytes (done : List UInt8) : (f.checkBytes done).length =
    if f.has mclLinkFlagFrameCheck then 4 else 0 := by
  rw [MclLinkFrame.checkBytes, length_only]
  rfl

private theorem MclLinkFrame.check_majors (hclass : f.frameClass < mclLinkClassCount) :
    mclLinkCrc32 (some (f.unchecked mclLinkFrameMajor)) (f.unchecked mclLinkFrameMajor).length ≠
      mclLinkCrc32 (some (f.unchecked mclLinkStableMajor))
        (f.unchecked mclLinkStableMajor).length := by
  have hlength : (f.unchecked mclLinkFrameMajor).length =
      (f.unchecked mclLinkStableMajor).length := by
    rw [MclLinkFrame.length_unchecked, MclLinkFrame.length_unchecked]
  have hfirst : MclLinkDiffersOnly (fun p => 0 ≤ p ∧ p < 0 + 32) (f.unchecked mclLinkFrameMajor)
      (f.unchecked mclLinkStableMajor) := by
    intro p hp
    refine ⟨Nat.zero_le p, ?_⟩
    by_contra hpast
    apply hp
    obtain ⟨k, hk⟩ : ∃ k, p / 8 = k + 1 := Nat.exists_eq_succ_of_ne_zero (by omega)
    rw [Crc.getElem?_bits, Crc.getElem?_bits, hk]
    rfl
  intro hcrc
  have hsame := List.head_eq_of_cons_eq (mclLinkCrc32_window hlength hfirst hcrc)
  have hzero := (MclLinkFrame.versionByte_nibbles (Or.inl rfl) hclass).1
  have hone := (MclLinkFrame.versionByte_nibbles (Or.inr rfl) hclass).1
  rw [hsame, hone] at hzero
  exact absurd hzero (by decide)

/-- At the two majors a frame has the same length and the same bytes but for the high nibble of the
first one and for the check, which is never the same; and it is decoded as the same frame apart
from the major. -/
theorem mclLinkFrame_majors (f : MclLinkFrame) (hf : mclLinkFrameEncodable (some f) = true) :
    ∃ b b', f.EncodesTo mclLinkFrameMajor b ∧ f.EncodesTo mclLinkStableMajor b' ∧
      b.length = b'.length ∧
      (b.getD 0 0 &&& 0x0F = b'.getD 0 0 &&& 0x0F ∧
        (b.getD 0 0 >>> 4) &&& 0x0F = mclLinkFrameMajor ∧
        (b'.getD 0 0 >>> 4) &&& 0x0F = mclLinkStableMajor) ∧
      (∀ k, k ≠ 0 → (f.has mclLinkFlagFrameCheck = true → k + 4 < b.length) → b[k]? = b'[k]?) ∧
      (f.has mclLinkFlagFrameCheck = true → b.drop (b.length - 4) ≠ b'.drop (b'.length - 4)) ∧
      ∃ received : MclLinkFrame, ∀ g consumed,
        mclLinkFrameDecode (some b) (some g) (some consumed) =
            (.ok, some { received with linkMajor := mclLinkFrameMajor }, some b.length) ∧
          mclLinkFrameDecode (some b') (some g) (some consumed) =
            (.ok, some { received with linkMajor := mclLinkStableMajor }, some b.length) := by
  have hclass := (mclLinkFrameEncodable_iff.mp hf).1
  have hzero := MclLinkFrame.versionByte_nibbles (f := f) (Or.inl rfl) hclass
  have hone := MclLinkFrame.versionByte_nibbles (f := f) (Or.inr rfl) hclass
  have hlength : (f.layout mclLinkFrameMajor).length = (f.layout mclLinkStableMajor).length := by
    rw [MclLinkFrame.length_layout hf, MclLinkFrame.length_layout hf]
  refine ⟨f.layout mclLinkFrameMajor, f.layout mclLinkStableMajor,
    fun out written hout => mclLinkFrameEncodeAtMajor_ok written (Or.inl rfl) hf hout,
    fun out written hout => mclLinkFrameEncodeAtMajor_ok written (Or.inr rfl) hf hout,
    hlength, ⟨hzero.2.trans hone.2.symm, hzero.1, hone.1⟩, ?_, ?_, f.received 0, ?_⟩
  · intro k hk hcheck
    by_cases hpast : (f.layout mclLinkFrameMajor).length ≤ k
    · rw [List.getElem?_eq_none hpast, List.getElem?_eq_none (hlength ▸ hpast)]
    · have hfront : k < 2 + f.bodyBytes.length := by
        rw [MclLinkFrame.layout, List.length_append, MclLinkFrame.length_unchecked,
          MclLinkFrame.length_checkBytes] at hpast hcheck
        split_ifs at hpast hcheck with hflag
        · have hshort := hcheck hflag
          omega
        · omega
      rw [MclLinkFrame.getElem?_layout hk (MclLinkFrame.length_unchecked ▸ hfront),
        MclLinkFrame.getElem?_layout hk (MclLinkFrame.length_unchecked ▸ hfront)]
  · intro hcheck hsame
    have hdrop : ∀ major, (f.layout major).drop ((f.layout major).length - 4) =
        mclLinkPutU32 (mclLinkCrc32 (some (f.unchecked major)) (f.unchecked major).length) := by
      intro major
      have hbytes : f.checkBytes (f.unchecked major) =
          mclLinkPutU32 (mclLinkCrc32 (some (f.unchecked major)) (f.unchecked major).length) := by
        rw [MclLinkFrame.checkBytes, hcheck]
        rfl
      rw [MclLinkFrame.layout, List.length_append, hbytes, length_mclLinkPutU32,
        Nat.add_sub_cancel, List.drop_left]
    rw [hdrop, hdrop] at hsame
    exact MclLinkFrame.check_majors hclass (mclLinkPutU32_inj hsame)
  · intro g consumed
    have hdecode := @mclLinkFrameDecode_layout f g mclLinkFrameMajor [] consumed (Or.inl rfl) hf
    have hdecode' := @mclLinkFrameDecode_layout f g mclLinkStableMajor [] consumed (Or.inr rfl) hf
    rw [List.append_nil] at hdecode hdecode'
    rw [hlength] at hdecode ⊢
    exact ⟨hdecode, hdecode'⟩

/-- A bare frame with a check: the last byte is another one at the other major. -/
theorem mclLinkFrame_majors_differ :
    let f : MclLinkFrame := ⟨1, 0, 0x10, 7, 0, 0, 0, 0, none, 0, by simp⟩
    mclLinkFrameEncodable (some f) = true ∧
      (mclLinkFrameBytes mclLinkFrameMajor f)[11]? ≠ (mclLinkFrameBytes mclLinkStableMajor f)[11]? := by
  decide +kernel

/-- The same frame with a payload. -/
theorem mclLinkFrame_majors_checked :
    let f : MclLinkFrame := ⟨1, 0, 0x10, 7, 0, 0, 0, 0, some [5], 1, by simp⟩
    ∃ b b', f.EncodesTo mclLinkFrameMajor b ∧ f.EncodesTo mclLinkStableMajor b' ∧ b[8]? = b'[8]? := by
  intro f
  obtain ⟨b, b', henc, henc', -, -, hsame, -⟩ := mclLinkFrame_majors f (by decide)
  have hlayout := henc.eq_layout (Or.inl rfl) (by decide)
  refine ⟨b, b', henc, henc', hsame 8 (by decide) fun _ => ?_⟩
  rw [hlayout]
  decide +kernel

end MclLink
