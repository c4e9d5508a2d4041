import MclLink.Control.Payloads

/-!
# Selection

Two capability advertisements determine one selection, described without regard to their order:
the greatest majors both have, the smaller frame and the shared features. The function that
computes it and both branches of the check are characterised by that description.
-/

namespace MclLink

open Bytes

/-- What two advertisements have in common. -/
structure MclLinkNegotiation.Selects (s : MclLinkNegotiation) (a b : MclLinkCapability) : Prop where
  version : s.controlVersion = mclLinkControlVersion
  wire : IsGreatest {i | Bits.Has a.wireMajors i ∧ Bits.Has b.wireMajors i} s.wireMajor.toNat
  link : IsGreatest {i | Bits.Has a.linkMajors i ∧ Bits.Has b.linkMajors i} s.linkMajor.toNat
  frame : s.maxFrame.toNat = min a.maxFrame.toNat b.maxFrame.toNat
  features : s.features = a.features &&& b.features

variable {a b : MclLinkCapability} {s p : MclLinkNegotiation} {mask : UInt16} {st : MclLinkStatus}

theorem MclLinkNegotiation.Selects.symm (h : s.Selects a b) : s.Selects b a where
  version := h.version
  wire := by simpa only [and_comm] using h.wire
  link := by simpa only [and_comm] using h.link
  frame := by rw [h.frame, min_comm]
  features := by rw [h.features, UInt16.and_comm]

private theorem MclLinkNegotiation.Selects.unique (h : s.Selects a b) (h' : p.Selects a b) :
    p = s := by
  apply MclLinkNegotiation.ext
  · exact h'.version.trans h.version.symm
  · exact UInt8.toNat_inj.mp (h'.wire.unique h.wire)
  · exact UInt8.toNat_inj.mp (h'.link.unique h.link)
  · exact UInt16.toNat_inj.mp (h'.frame.trans h.frame.symm)
  · exact h'.features.trans h.features.symm

private theorem searched_iff {i : ℕ} (hi : i < 16) :
    decide (mask &&& Bits.bit (UInt32.ofNat i) ≠ 0) = true ↔ Bits.Has mask i := by
  have hnat : (UInt32.ofNat i).toNat = i := UInt32.toNat_ofNat_of_lt' (hi.trans (by decide))
  rw [decide_eq_true_iff, Bits.and_bit_ne_zero (by rw [hnat]; exact hi), hnat]

private theorem mclNegHighestBit_cases (mask : UInt16) :
    (mclNegHighestBit mask = -1 ∧ ∀ i, ¬ Bits.Has mask i) ∨
      ∃ k, k < 16 ∧ mclNegHighestBit mask = (k : ℕ) ∧ IsGreatest {i | Bits.Has mask i} k := by
  unfold mclNegHighestBit
  split
  · next k hk =>
    obtain ⟨⟨hlt, hbit⟩, hgreatest⟩ := Bits.searchDown_eq_some hk
    refine Or.inr ⟨k, hlt, rfl, (searched_iff hlt).mp hbit, ?_⟩
    intro i hi
    exact hgreatest ⟨hi.lt, (searched_iff hi.lt).mpr hi⟩
  · next hnone =>
    refine Or.inl ⟨rfl, fun i hi => ?_⟩
    have hfalse := Bits.searchDown_eq_none hnone i hi.lt
    rw [(searched_iff hi.lt).mpr hi] at hfalse
    exact absurd hfalse (by decide)

private theorem toNat_ofInt {k : ℕ} (hk : k < 16) : (UInt8.ofInt (k : ℤ)).toNat = k := by
  have hmod : (k : ℤ) % 2 ^ 8 = k := by omega
  rw [UInt8.ofInt, hmod, Int.toNat_natCast, UInt8.toNat_ofNat_of_lt' (hk.trans (by decide))]

private theorem toNat_smaller (m n : UInt16) :
    (if m < n then m else n).toNat = min m.toNat n.toNat := by
  split_ifs with h
  · have hlt := UInt16.lt_iff_toNat_lt.mp h
    omega
  · have hge := UInt16.lt_iff_toNat_lt.not.mp h
    omega

private theorem mclLinkNegotiationSelect_cases (a b : MclLinkCapability)
    (prior : MclLinkNegotiation) :
    (mclLinkNegotiationSelect (some a) (some b) (some prior) = (.errRange, some prior) ∧
      ((∀ i, ¬ (Bits.Has a.wireMajors i ∧ Bits.Has b.wireMajors i)) ∨
        (∀ i, ¬ (Bits.Has a.linkMajors i ∧ Bits.Has b.linkMajors i)) ∨
        min a.maxFrame.toNat b.maxFrame.toNat < mclLinkNegotiatedFrameFloor)) ∨
    ∃ s : MclLinkNegotiation, mclLinkNegotiationSelect (some a) (some b) (some prior) = (.ok, some s) ∧
      s.Selects a b ∧ mclLinkNegotiatedFrameFloor ≤ s.maxFrame.toNat := by
  have hframe := toNat_smaller a.maxFrame b.maxFrame
  simp only [mclLinkNegotiationSelect]
  rcases mclNegHighestBit_cases (a.wireMajors &&& b.wireMajors) with ⟨hw, hnone⟩ | ⟨w, hw16, hw, hwire⟩
  · left
    rw [hw, if_pos (Or.inl (by decide))]
    exact ⟨rfl, Or.inl fun i hi => hnone i (Bits.has_and.mpr hi)⟩
  rcases mclNegHighestBit_cases (a.linkMajors &&& b.linkMajors) with ⟨hl, hnone⟩ | ⟨l, hl16, hl, hlink⟩
  · left
    rw [hl, if_pos (Or.inr (by decide))]
    exact ⟨rfl, Or.inr (Or.inl fun i hi => hnone i (Bits.has_and.mpr hi))⟩
  simp only [Bits.has_and] at hwire hlink
  rw [hw, hl, if_neg (by omega)]
  by_cases hfloor : (if a.maxFrame < b.maxFrame then a.maxFrame else b.maxFrame).toNat <
      mclLinkNegotiatedFrameFloor
  · left
    rw [if_pos hfloor]
    exact ⟨rfl, Or.inr (Or.inr (hframe ▸ hfloor))⟩
  · right
    rw [if_neg hfloor]
    refine ⟨_, rfl, ⟨rfl, ?_, ?_, hframe, rfl⟩, Nat.not_lt.mp hfloor⟩
    · rw [toNat_ofInt hw16]
      exact hwire
    · rw [toNat_ofInt hl16]
      exact hlink

/-- A selection is what both sides have in common, above the floor. -/
theorem mclLinkNegotiationSelect_ok_iff (prior : MclLinkNegotiation) :
    mclLinkNegotiationSelect (some a) (some b) (some prior) = (.ok, some s) ↔
      s.Selects a b ∧ mclLinkNegotiatedFrameFloor ≤ s.maxFrame.toNat := by
  rcases mclLinkNegotiationSelect_cases a b prior with ⟨heq, hnone⟩ | ⟨found, heq, hsel, hfloor⟩
  · rw [heq]
    refine iff_of_false (by simp) ?_
    rintro ⟨hsel, hfloor⟩
    rcases hnone with hnone | hnone | hlow
    · exact hnone _ hsel.wire.1
    · exact hnone _ hsel.link.1
    · rw [hsel.frame] at hfloor
      omega
  · rw [heq]
    constructor
    · intro h
      obtain rfl := Option.some.inj (Prod.mk.inj h).2
      exact ⟨hsel, hfloor⟩
    · rintro ⟨hs, -⟩
      rw [hsel.unique hs]

private theorem major_le {m : UInt8} (h : m.toNat < 16) : ¬ m > 15 := by
  rw [gt_iff_lt, UInt8.lt_iff_toNat_lt]
  have hnibble : (15 : UInt8).toNat = 15 := rfl
  omega

theorem mclLinkNegotiationCheck_strong :
    mclLinkNegotiationCheck (some p) (some a) (some b) = .ok ↔
      p.Selects a b ∧ mclLinkNegotiatedFrameFloor ≤ p.maxFrame.toNat := by
  simp only [mclLinkNegotiationCheck]
  rcases mclLinkNegotiationSelect_cases a b ⟨0, 0, 0, 0, 0⟩ with ⟨heq, hnone⟩ | ⟨s, heq, hsel, hfloor⟩
  · have hrefused : ¬ (p.Selects a b ∧ mclLinkNegotiatedFrameFloor ≤ p.maxFrame.toNat) := by
      intro h
      have hok := (mclLinkNegotiationSelect_ok_iff ⟨0, 0, 0, 0, 0⟩).mpr h
      rw [heq] at hok
      simp at hok
    refine iff_of_false ?_ hrefused
    rw [heq]
    split_ifs <;> simp_all
  · constructor
    · intro h
      rw [heq] at h
      split_ifs at h with hversion hmajors hstatus hdiff
      · exact absurd rfl hstatus
      · obtain ⟨hwire, hlink, hframe, hfeatures⟩ : p.wireMajor = s.wireMajor ∧
            p.linkMajor = s.linkMajor ∧ p.maxFrame = s.maxFrame ∧ p.features = s.features := by
          simpa only [Option.getD_some, not_or, not_not] using hdiff
        have hp : p = s := MclLinkNegotiation.ext ((not_not.mp hversion).trans hsel.version.symm)
          hwire hlink hframe hfeatures
        rw [hp]
        exact ⟨hsel, hfloor⟩
    · rintro ⟨hp, -⟩
      obtain rfl := hsel.unique hp
      have hwire := hp.wire.1.1.lt
      have hlink := hp.link.1.1.lt
      rw [if_neg (not_not.mpr hp.version), if_neg (not_or.mpr ⟨major_le hwire, major_le hlink⟩), heq]
      simp

private theorem mclLinkNegotiationCheck_weak :
    mclLinkNegotiationCheck (some p) (some a) none = .ok ↔
      p.controlVersion = mclLinkControlVersion ∧ Bits.Has a.wireMajors p.wireMajor.toNat ∧
        Bits.Has a.linkMajors p.linkMajor.toNat ∧ p.maxFrame.toNat ≤ a.maxFrame.toNat ∧
        mclLinkNegotiatedFrameFloor ≤ p.maxFrame.toNat ∧ a.features &&& p.features = p.features := by
  have hbit : ∀ (mask : UInt16) (m : UInt8), ¬ m > 15 →
      (mask &&& Bits.bit m.toUInt32 = 0 ↔ ¬ Bits.Has mask m.toNat) := by
    intro mask m hm
    have hnibble : m.toUInt32.toNat < 16 := by
      have hle := UInt8.lt_iff_toNat_lt.not.mp hm
      have hfifteen : (15 : UInt8).toNat = 15 := rfl
      rw [UInt8.toNat_toUInt32]
      omega
    rw [← not_iff_not, not_not, ← UInt8.toNat_toUInt32]
    exact Bits.and_bit_ne_zero hnibble
  simp only [mclLinkNegotiationCheck]
  constructor
  · intro h
    split_ifs at h with hversion hmajors hwire hlink hframe hfeatures
    obtain ⟨hw, hl⟩ := not_or.mp hmajors
    obtain ⟨hmax, hfloor⟩ := not_or.mp hframe
    rw [hbit _ _ hw, not_not] at hwire
    rw [hbit _ _ hl, not_not] at hlink
    rw [gt_iff_lt, UInt16.lt_iff_toNat_lt] at hmax
    exact ⟨not_not.mp hversion, hwire, hlink, Nat.not_lt.mp hmax, Nat.not_lt.mp hfloor,
      Bits.and_not_eq_zero.mp (not_not.mp hfeatures)⟩
  · rintro ⟨hversion, hwire, hlink, hmax, hfloor, hfeatures⟩
    have hw := major_le hwire.lt
    have hl := major_le hlink.lt
    have hframe : ¬ (p.maxFrame > a.maxFrame ∨ p.maxFrame.toNat < mclLinkNegotiatedFrameFloor) := by
      rw [gt_iff_lt, UInt16.lt_iff_toNat_lt]
      omega
    rw [if_neg (not_not.mpr hversion), if_neg (not_or.mpr ⟨hw, hl⟩),
      if_neg (mt (hbit _ _ hw).mp (not_not.mpr hwire)),
      if_neg (mt (hbit _ _ hl).mp (not_not.mpr hlink)), if_neg hframe,
      if_neg (not_not.mpr (Bits.and_not_eq_zero.mpr hfeatures))]

theorem MclLinkNegotiation.Selects.legal (h : s.Selects a b)
    (hfloor : mclLinkNegotiatedFrameFloor ≤ s.maxFrame.toNat) : mclLinkNegotiationFormat.Legal s :=
  ⟨h.version, not_or.mpr ⟨major_le h.wire.1.1.lt, major_le h.link.1.1.lt⟩, Nat.not_lt.mpr hfloor⟩

/-- Negotiation resolves itself: both sides compute the same selection, the best one there is,
send the same bytes for it, and accept no other one. -/
theorem mclLinkNegotiation_resolves (a b : MclLinkCapability) :
    (∀ prior prior',
      let r := mclLinkNegotiationSelect (some a) (some b) (some prior)
      let r' := mclLinkNegotiationSelect (some b) (some a) (some prior')
      r.1 = r'.1 ∧ (r.1 = .ok → r.2 = r'.2)) ∧
    (∀ prior, (mclLinkNegotiationSelect (some a) (some b) (some prior)).1 = .ok ↔
      (∃ i, Bits.Has a.wireMajors i ∧ Bits.Has b.wireMajors i) ∧
        (∃ i, Bits.Has a.linkMajors i ∧ Bits.Has b.linkMajors i) ∧
        mclLinkNegotiatedFrameFloor ≤ min a.maxFrame.toNat b.maxFrame.toNat) ∧
    ∀ prior prior' s,
      mclLinkNegotiationSelect (some a) (some b) (some prior) = (.ok, some s) →
        mclLinkNegotiationSelect (some b) (some a) (some prior') = (.ok, some s) ∧
        s.Selects a b ∧
        (∃ bytes : List UInt8, (∀ out written, bytes.length ≤ out.length →
            mclLinkNegotiationEncode (some s) (some out) (some written) =
              (.ok, some (bytes ++ out.drop bytes.length), some bytes.length)) ∧
          ∀ q, mclLinkNegotiationDecode (some bytes) (some q) = (.ok, some s)) ∧
        ∀ p, mclLinkNegotiationCheck (some p) (some a) (some b) = .ok ↔ p = s := by
  refine ⟨?_, ?_, ?_⟩
  · intro prior prior' r r'
    rcases mclLinkNegotiationSelect_cases b a prior' with ⟨heq', -⟩ | ⟨s, heq', hsel, hfloor⟩
    · rcases mclLinkNegotiationSelect_cases a b prior with ⟨heq, -⟩ | ⟨s, -, hsel, hfloor⟩
      · simp [r, r', heq, heq']
      · have hok := (mclLinkNegotiationSelect_ok_iff prior').mpr ⟨hsel.symm, hfloor⟩
        rw [heq'] at hok
        simp at hok
    · have heq : r = (.ok, some s) := (mclLinkNegotiationSelect_ok_iff prior).mpr ⟨hsel.symm, hfloor⟩
      simp [r', heq, heq']
  · intro prior
    rcases mclLinkNegotiationSelect_cases a b prior with ⟨heq, hnone⟩ | ⟨s, heq, hsel, hfloor⟩
    · rw [heq]
      refine iff_of_false (by simp) ?_
      rintro ⟨⟨w, hw⟩, ⟨l, hl⟩, hfloor⟩
      rcases hnone with hnone | hnone | hlow
      · exact hnone w hw
      · exact hnone l hl
      · omega
    · rw [heq]
      exact iff_of_true rfl ⟨⟨_, hsel.wire.1⟩, ⟨_, hsel.link.1⟩, hsel.frame ▸ hfloor⟩
  · intro prior prior' s hok
    obtain ⟨hsel, hfloor⟩ := (mclLinkNegotiationSelect_ok_iff prior).mp hok
    have hlegal := hsel.legal hfloor
    refine ⟨(mclLinkNegotiationSelect_ok_iff prior').mpr ⟨hsel.symm, hfloor⟩, hsel,
      ⟨mclLinkNegotiationFormat.layout s, ?_, ?_⟩, ?_⟩
    · intro out written hout
      exact mclLinkNegotiation_implements.encode_ok written hlegal hout
    · intro q
      exact mclLinkNegotiation_implements.decode_ok q hlegal
    · intro p
      rw [mclLinkNegotiationCheck_strong]
      constructor
      · exact fun hp => hsel.unique hp.1
      · rintro rfl
        exact ⟨hsel, hfloor⟩

/-- Two advertisements with two majors in common: the lower one is not accepted. -/
theorem mclLinkNegotiation_resolves_two_majors :
    let a : MclLinkCapability := ⟨0, 0b0111, 0b0011, 256, 0x0F⟩
    let b : MclLinkCapability := ⟨0, 0b1101, 0b0010, 128, 0x35⟩
    mclLinkNegotiationSelect (some b) (some a) (some ⟨9, 9, 9, 9, 9⟩) =
        (.ok, some ⟨0, 2, 1, 128, 0x05⟩) ∧
      mclLinkNegotiationCheck (some ⟨0, 0, 1, 128, 0x05⟩) (some a) (some b) ≠ .ok := by
  intro a b
  have hselect : mclLinkNegotiationSelect (some a) (some b) (some ⟨0, 0, 0, 0, 0⟩) =
      (.ok, some ⟨0, 2, 1, 128, 0x05⟩) := by decide
  obtain ⟨hsym, -, -, hcheck⟩ :=
    (mclLinkNegotiation_resolves a b).2.2 ⟨0, 0, 0, 0, 0⟩ ⟨9, 9, 9, 9, 9⟩ _ hselect
  exact ⟨hsym, fun h => absurd ((hcheck _).mp h) (by decide)⟩

theorem mclLinkNegotiationCheck_narrows {L P : MclLinkCapability}
    (h : mclLinkNegotiationCheck (some p) (some L) (some P) = .ok) :
    mclLinkNegotiationCheck (some p) (some L) none = .ok := by
  obtain ⟨hsel, hfloor⟩ := mclLinkNegotiationCheck_strong.mp h
  refine mclLinkNegotiationCheck_weak.mpr
    ⟨hsel.version, hsel.wire.1.1, hsel.link.1.1, ?_, hfloor, ?_⟩
  · rw [hsel.frame]
    exact min_le_left _ _
  · rw [hsel.features, ← UInt16.and_assoc, UInt16.and_self]

private theorem MclLinkNegotiation.selects_of_weak {L : MclLinkCapability}
    (h : mclLinkNegotiationCheck (some p) (some L) none = .ok) :
    p.Selects L ⟨mclLinkControlVersion, Bits.bit p.wireMajor.toUInt32,
      Bits.bit p.linkMajor.toUInt32, p.maxFrame, p.features⟩ := by
  obtain ⟨hversion, hwire, hlink, hmax, -, hfeatures⟩ := mclLinkNegotiationCheck_weak.mp h
  have hone : ∀ (mask : UInt16) (m : UInt8), Bits.Has mask m.toNat →
      IsGreatest {i | Bits.Has mask i ∧ Bits.Has (Bits.bit m.toUInt32) i} m.toNat := by
    intro mask m hm
    have hset : ∀ i, Bits.Has (Bits.bit m.toUInt32) i ↔ i = m.toNat := by
      intro i
      rw [Bits.has_bit (by rw [UInt8.toNat_toUInt32]; exact hm.lt), UInt8.toNat_toUInt32]
    exact ⟨⟨hm, (hset _).mpr rfl⟩, fun i hi => ((hset i).mp hi.2).le⟩
  exact ⟨hversion, hone _ _ hwire, hone _ _ hlink, (min_eq_right hmax).symm, hfeatures.symm⟩

/-- The weak check accepts exactly what the strong check would accept for some peer that can be
advertised; knowing the peer can only narrow the verdict. -/
theorem mclLinkNegotiationCheck_weak_iff (p : MclLinkNegotiation) (L : MclLinkCapability) :
    (mclLinkNegotiationCheck (some p) (some L) none = .ok ↔
      ∃ P w l m f prior, mclLinkMakeCapability (some prior) w l m f = (.ok, some P) ∧
        mclLinkNegotiationCheck (some p) (some L) (some P) = .ok) ∧
    ∀ P, mclLinkNegotiationCheck (some p) (some L) (some P) = .ok →
      mclLinkNegotiationCheck (some p) (some L) none = .ok := by
  refine ⟨⟨fun h => ?_, ?_⟩, fun P => mclLinkNegotiationCheck_narrows⟩
  · have hsel := MclLinkNegotiation.selects_of_weak h
    obtain ⟨-, -, -, -, hfloor, -⟩ := mclLinkNegotiationCheck_weak.mp h
    have hwire : Bits.bit p.wireMajor.toUInt32 ≠ 0 := Bits.ne_zero_iff.mpr ⟨_, hsel.wire.1.2⟩
    have hlink : Bits.bit p.linkMajor.toUInt32 ≠ 0 := Bits.ne_zero_iff.mpr ⟨_, hsel.link.1.2⟩
    refine ⟨_, Bits.bit p.wireMajor.toUInt32, Bits.bit p.linkMajor.toUInt32, p.maxFrame, p.features,
      L, ?_, mclLinkNegotiationCheck_strong.mpr ⟨hsel, hfloor⟩⟩
    simp only [mclLinkMakeCapability]
    rw [if_neg (not_or.mpr ⟨hwire, hlink⟩), if_neg (Nat.not_lt.mpr hfloor)]
  · rintro ⟨P, w, l, m, f, prior, -, h⟩
    exact mclLinkNegotiationCheck_narrows h

end MclLink
