import MclLink.Frame.Prefix

/-!
# A stream of frames

The loop of a receiver decodes at its position and moves past what was consumed, until the buffer
ends or the decoder refuses. On frames that were written one after the other it gives them back.
-/

namespace MclLink

open Bytes

/-- The variables of the loop, and the frames it has yielded. -/
structure MclLinkStream where
  pos : Nat
  frame : MclLinkFrame
  consumed : Nat
  yielded : List MclLinkFrame
  deriving DecidableEq, Repr

/-- One call of the decoder; the position moves if it succeeds. -/
def MclLinkStream.step (input : List UInt8) (s : MclLinkStream) : MclLinkStatus × MclLinkStream :=
  match mclLinkFrameDecode (some (input.drop s.pos)) (some s.frame) (some s.consumed) with
  | (.ok, some frame, some consumed) =>
    (.ok, ⟨s.pos + consumed, frame, consumed, s.yielded ++ [frame]⟩)
  | (st, frame, consumed) =>
    (st, { s with frame := frame.getD s.frame, consumed := consumed.getD s.consumed })

/-- The loop; `none` when the fuel runs out before it stops. -/
def MclLinkStream.loop (input : List UInt8) : Nat → MclLinkStream →
    Option (MclLinkStatus × MclLinkStream)
  | 0, _ => none
  | fuel + 1, s =>
    if s.pos < input.length then
      match s.step input with
      | (.ok, s') => loop input fuel s'
      | (st, s') => some (st, s')
    else some (.ok, s)

/-- What the encoder writes into a buffer of the size it asks for. -/
def mclLinkFrameBytes (major : UInt8) (f : MclLinkFrame) : List UInt8 :=
  (mclLinkFrameEncodeAtMajor major (some f)
    (some (List.replicate (mclLinkFrameEncodedSize (some f)) 0)) (some 0)).2.1.getD []

/-- Frames with their majors, written one after the other. -/
def mclLinkStreamBytes (sent : List (UInt8 × MclLinkFrame)) : List UInt8 :=
  sent.flatMap fun p => mclLinkFrameBytes p.1 p.2

/-- The frames as they arrive. -/
def mclLinkStreamFrames (sent : List (UInt8 × MclLinkFrame)) : List MclLinkFrame :=
  sent.map fun p => p.2.received p.1

/-- A frame that can be encoded, and a major to encode it at. -/
def MclLinkSendable (p : UInt8 × MclLinkFrame) : Prop :=
  (p.1 = mclLinkFrameMajor ∨ p.1 = mclLinkStableMajor) ∧ mclLinkFrameEncodable (some p.2) = true

variable {input done : List UInt8} {s s' : MclLinkStream} {f : MclLinkFrame} {major : UInt8}
  {st : MclLinkStatus} {p : UInt8 × MclLinkFrame} {sent : List (UInt8 × MclLinkFrame)}
  {n k fuel : Nat}

private theorem mclLinkFrameBytes_eq (h : MclLinkSendable (major, f)) :
    mclLinkFrameBytes major f = f.layout major := by
  have hsize : (f.layout major).length = _ := MclLinkFrame.length_layout h.2
  rw [mclLinkFrameBytes, mclLinkFrameEncodeAtMajor_ok 0 h.1 h.2 List.length_replicate.ge, hsize]
  simp

theorem MclLinkStream.step_ok
    (h : mclLinkFrameDecode (some (input.drop s.pos)) (some s.frame) (some s.consumed) =
      (.ok, some f, some n)) :
    s.step input = (.ok, ⟨s.pos + n, f, n, s.yielded ++ [f]⟩) := by
  simp only [MclLinkStream.step, h]

theorem MclLinkStream.step_refused (hst : st ≠ .ok)
    (h : (mclLinkFrameDecode (some (input.drop s.pos)) (some s.frame) (some s.consumed)).1 = st) :
    ∃ s', s.step input = (st, s') ∧ s'.pos = s.pos ∧ s'.yielded = s.yielded := by
  obtain ⟨f, m, hresult⟩ := @mclLinkFrameDecode_result (input.drop s.pos) s.consumed s.frame
  rw [h] at hresult
  simp only [MclLinkStream.step, hresult]
  split
  · simp_all
  · rename_i heq
    obtain ⟨rfl, rfl, rfl⟩ := by simpa only [Prod.mk.injEq] using heq
    exact ⟨_, rfl, rfl, rfl⟩

theorem mclLinkFrameDecode_bounds {b : List UInt8} {g : MclLinkFrame} {consumed : Nat}
    (h : mclLinkFrameDecode (some b) (some g) (some consumed) = (.ok, some f, some n)) :
    8 ≤ n ∧ n ≤ min 1048 b.length := by
  obtain ⟨hf, -, -, -, hn⟩ := mclLinkFrameDecode_ok h
  have hsize := mclLinkFrameDecode_size h
  obtain ⟨-, -, -, hmax, -⟩ := mclLinkFrameEncodable_iff.mp hf
  have hpayload : f.payloadLen.toNat ≤ 1024 := UInt16.le_iff_toNat_le.mp hmax
  have hoptional := mclLinkOptionalSize_le f.flags
  rw [MclLinkFrame.length_layout hf, mclLinkFrameEncodedSize_eq hf, mclLinkFrameMinSize] at hn
  omega

theorem MclLinkStream.step_advances (h : s.step input = (.ok, s')) :
    s'.pos = s.pos + s'.consumed ∧ 8 ≤ s'.consumed ∧
      s'.consumed ≤ min 1048 (input.length - s.pos) := by
  obtain ⟨f, m, hresult⟩ := @mclLinkFrameDecode_result (input.drop s.pos) s.consumed s.frame
  by_cases hok : (mclLinkFrameDecode (some (input.drop s.pos)) (some s.frame)
      (some s.consumed)).1 = .ok
  · rw [hok] at hresult
    obtain ⟨-, rfl⟩ := Prod.mk.inj ((MclLinkStream.step_ok hresult).symm.trans h)
    have hbounds := mclLinkFrameDecode_bounds hresult
    rw [List.length_drop] at hbounds
    exact ⟨rfl, hbounds⟩
  · obtain ⟨s'', hstep, -⟩ := MclLinkStream.step_refused hok rfl
    exact absurd (Prod.mk.inj (hstep.symm.trans h)).1 hok

theorem MclLinkStream.loop_stops (h : input.length - s.pos < fuel) :
    ∃ result, MclLinkStream.loop input fuel s = some result := by
  induction fuel generalizing s with
  | zero => exact absurd h (Nat.not_lt_zero _)
  | succ fuel ih =>
    simp only [MclLinkStream.loop]
    by_cases hleft : s.pos < input.length
    · rw [if_pos hleft]
      cases hstep : s.step input with
      | mk st s' =>
        cases st with
        | ok =>
          obtain ⟨hpos, hmin, -⟩ := MclLinkStream.step_advances hstep
          apply ih
          omega
        | _ => exact ⟨_, rfl⟩
    · rw [if_neg hleft]
      exact ⟨_, rfl⟩

theorem MclLinkStream.loop_end (h : input.length ≤ s.pos) :
    MclLinkStream.loop input (fuel + 1) s = some (.ok, s) :=
  if_neg (Nat.not_lt.mpr h)

theorem MclLinkStream.loop_ok (h : s.pos < input.length) (hstep : s.step input = (.ok, s')) :
    MclLinkStream.loop input (fuel + 1) s = MclLinkStream.loop input fuel s' := by
  rw [MclLinkStream.loop, if_pos h, hstep]

theorem MclLinkStream.loop_refused (h : s.pos < input.length) (hst : st ≠ .ok)
    (hstep : s.step input = (st, s')) :
    MclLinkStream.loop input (fuel + 1) s = some (st, s') := by
  rw [MclLinkStream.loop, if_pos h, hstep]
  cases st <;> first | rfl | exact absurd rfl hst

/-- What the loop has done when it stops in a stream that was cut after `k` bytes: it has yielded
`count` frames, which are those that fit, and stands behind them. -/
structure MclLinkStream.Cut (sent : List (UInt8 × MclLinkFrame)) (k count : Nat)
    (start : MclLinkStream) (st : MclLinkStatus) (stop : MclLinkStream) : Prop where
  count_le : count ≤ sent.length
  fits : (mclLinkStreamBytes (sent.take count)).length ≤ k
  most : count < sent.length → k < (mclLinkStreamBytes (sent.take (count + 1))).length
  yielded : stop.yielded = start.yielded ++ mclLinkStreamFrames (sent.take count)
  pos : stop.pos = start.pos + (mclLinkStreamBytes (sent.take count)).length
  status : st =
    if (mclLinkStreamBytes (sent.take count)).length = k then .ok else .errTruncated

private theorem mclLinkStreamBytes_cons (h : MclLinkSendable (major, f)) :
    mclLinkStreamBytes ((major, f) :: sent) = f.layout major ++ mclLinkStreamBytes sent := by
  rw [mclLinkStreamBytes, List.flatMap_cons, mclLinkFrameBytes_eq h]
  rfl

private theorem MclLinkStream.Cut.cons {count : Nat} {next : MclLinkStream}
    (hp : MclLinkSendable (major, f)) (hpos : next.pos = s.pos + (f.layout major).length)
    (hyielded : next.yielded = s.yielded ++ [f.received major])
    (h : MclLinkStream.Cut sent k count next st s') :
    MclLinkStream.Cut ((major, f) :: sent) ((f.layout major).length + k) (count + 1) s st s' := by
  have hsize : ∀ sent : List (UInt8 × MclLinkFrame),
      (mclLinkStreamBytes ((major, f) :: sent)).length =
        (f.layout major).length + (mclLinkStreamBytes sent).length := by
    intro sent
    rw [mclLinkStreamBytes_cons hp, List.length_append]
  refine ⟨Nat.succ_le_succ h.count_le, ?_, fun hcount => ?_, ?_, ?_, ?_⟩
  · rw [List.take_succ_cons, hsize]
    exact Nat.add_le_add_left h.fits _
  · rw [List.take_succ_cons, hsize]
    exact Nat.add_lt_add_left (h.most (Nat.lt_of_succ_lt_succ hcount)) _
  · rw [h.yielded, hyielded, List.append_assoc]
    rfl
  · rw [h.pos, hpos, List.take_succ_cons, hsize, Nat.add_assoc]
  · rw [h.status, List.take_succ_cons, hsize]
    simp only [Nat.add_left_cancel_iff]

private theorem MclLinkStream.loop_cut_first (hp : MclLinkSendable (major, f))
    (hk : k < (f.layout major).length) (hpos : s.pos = done.length) :
    ∃ st stop,
      MclLinkStream.loop (done ++ (f.layout major).take k) (fuel + 1) s = some (st, stop) ∧
        MclLinkStream.Cut ((major, f) :: sent) k 0 s st stop := by
  have hmost : k < (mclLinkStreamBytes (((major, f) :: sent).take 1)).length := by
    rw [List.take_succ_cons, mclLinkStreamBytes_cons hp, List.length_append]
    exact Nat.lt_add_right _ hk
  have htake : ((f.layout major).take k).length = k := List.length_take_of_le hk.le
  rcases Nat.eq_zero_or_pos k with rfl | hsome
  · refine ⟨.ok, s, MclLinkStream.loop_end ?_, Nat.zero_le _, Nat.le_refl _, fun _ => hmost,
      (List.append_nil _).symm, rfl, rfl⟩
    rw [List.take_zero, List.append_nil, hpos]
  · have hframe :
        mclLinkFrameDecode (some (f.layout major ++ [])) (some s.frame) (some s.consumed) =
          (.ok, some (f.received major), some (f.layout major).length) :=
      mclLinkFrameDecode_layout [] s.consumed hp.1 hp.2
    have hwait : (mclLinkFrameDecode (some ((done ++ (f.layout major).take k).drop s.pos))
        (some s.frame) (some s.consumed)).1 = .errTruncated := by
      rw [hpos, List.drop_left]
      apply mclLinkFrameDecode_front hframe
      · exact (List.take_prefix _ _).trans (List.prefix_append _ _)
      · rw [htake]
        exact hk
    obtain ⟨stop, hstep, hstop, hyielded⟩ := MclLinkStream.step_refused (by decide) hwait
    have hleft : s.pos < (done ++ (f.layout major).take k).length := by
      rw [List.length_append, htake]
      omega
    refine ⟨.errTruncated, stop, MclLinkStream.loop_refused hleft (by decide) hstep,
      Nat.zero_le _, Nat.zero_le _, fun _ => hmost, ?_, hstop, ?_⟩
    · rw [hyielded]
      exact (List.append_nil _).symm
    · exact (if_neg hsome.ne).symm

theorem mclLinkStreamBytes_take (sent : List (UInt8 × MclLinkFrame)) (n : Nat) :
    (mclLinkStreamBytes (sent.take n)).length ≤ (mclLinkStreamBytes sent).length := by
  nth_rewrite 2 [← List.take_append_drop n sent]
  rw [mclLinkStreamBytes, mclLinkStreamBytes, List.flatMap_append, List.length_append]
  exact Nat.le_add_right _ _

theorem MclLinkStream.loop_cut (done : List UInt8) (fuel : Nat)
    (hsent : ∀ p ∈ sent, MclLinkSendable p)
    (hk : k ≤ (mclLinkStreamBytes sent).length) (hpos : s.pos = done.length)
    (hfuel : k < fuel) :
    ∃ count st stop,
      MclLinkStream.loop (done ++ (mclLinkStreamBytes sent).take k) fuel s = some (st, stop) ∧
        MclLinkStream.Cut sent k count s st stop := by
  induction sent generalizing done s k fuel with
  | nil =>
    obtain ⟨fuel, rfl⟩ := Nat.exists_eq_succ_of_ne_zero (Nat.ne_zero_of_lt hfuel)
    obtain rfl : k = 0 := Nat.le_zero.mp hk
    refine ⟨0, .ok, s, MclLinkStream.loop_end ?_, Nat.le_refl _, Nat.le_refl _,
      fun h => absurd h (Nat.lt_irrefl _), (List.append_nil _).symm, rfl, rfl⟩
    rw [List.take_zero, List.append_nil, hpos]
  | cons p sent ih =>
    obtain ⟨major, f⟩ := p
    obtain ⟨hp, hsent⟩ := List.forall_mem_cons.mp hsent
    obtain ⟨fuel, rfl⟩ := Nat.exists_eq_succ_of_ne_zero (Nat.ne_zero_of_lt hfuel)
    rw [mclLinkStreamBytes_cons hp] at hk ⊢
    by_cases hcut : k < (f.layout major).length
    · rw [List.take_append_of_le_length hcut.le]
      exact ⟨0, MclLinkStream.loop_cut_first hp hcut hpos⟩
    · obtain ⟨rest, rfl⟩ := Nat.exists_eq_add_of_le (Nat.le_of_not_lt hcut)
      rw [List.length_append] at hk
      rw [List.take_length_add_append, ← List.append_assoc]
      have hframe : mclLinkFrameDecode
          (some ((done ++ f.layout major ++ (mclLinkStreamBytes sent).take rest).drop s.pos))
          (some s.frame) (some s.consumed) =
            (.ok, some (f.received major), some (f.layout major).length) := by
        rw [List.append_assoc, hpos, List.drop_left]
        exact mclLinkFrameDecode_layout _ s.consumed hp.1 hp.2
      have hmin := (mclLinkFrameDecode_bounds hframe).1
      have hleft : s.pos <
          (done ++ f.layout major ++ (mclLinkStreamBytes sent).take rest).length := by
        rw [List.length_append, List.length_append]
        omega
      rw [MclLinkStream.loop_ok hleft (MclLinkStream.step_ok hframe)]
      obtain ⟨count, st, stop, hloop, hstop⟩ := ih (k := rest)
        (s := ⟨s.pos + (f.layout major).length, f.received major, (f.layout major).length,
          s.yielded ++ [f.received major]⟩) (done ++ f.layout major) fuel hsent (by omega)
        (by rw [List.length_append, hpos]) (by omega)
      exact ⟨count + 1, st, stop, hloop, hstop.cons hp rfl rfl⟩

/-- A stream of frames is decoded frame by frame. On a whole stream the loop yields every frame and
stops at the end; on a stream that is cut it yields the frames that fit and calls the rest, if there
is one, truncated. On every byte string it stops, and each round takes at least a bare header and
at most the longest frame. -/
theorem mclLinkStream_decodes :
    (∀ sent frame consumed fuel, (∀ p ∈ sent, MclLinkSendable p) →
      (mclLinkStreamBytes sent).length < fuel →
        ∃ stop, MclLinkStream.loop (mclLinkStreamBytes sent) fuel ⟨0, frame, consumed, []⟩ =
            some (.ok, stop) ∧
          stop.yielded = mclLinkStreamFrames sent ∧
          stop.pos = (mclLinkStreamBytes sent).length) ∧
    (∀ sent frame consumed fuel k, (∀ p ∈ sent, MclLinkSendable p) →
      k ≤ (mclLinkStreamBytes sent).length → k < fuel →
        ∃ count st stop, MclLinkStream.loop ((mclLinkStreamBytes sent).take k) fuel
            ⟨0, frame, consumed, []⟩ = some (st, stop) ∧
          count ≤ sent.length ∧ (mclLinkStreamBytes (sent.take count)).length ≤ k ∧
          (count < sent.length → k < (mclLinkStreamBytes (sent.take (count + 1))).length) ∧
          stop.yielded = mclLinkStreamFrames (sent.take count) ∧
          stop.pos = (mclLinkStreamBytes (sent.take count)).length ∧
          st = if stop.pos = k then .ok else .errTruncated) ∧
    (∀ input s fuel, input.length < fuel →
      ∃ result, MclLinkStream.loop input fuel s = some result) ∧
    ∀ input s s', MclLinkStream.step input s = (.ok, s') →
      s'.pos = s.pos + s'.consumed ∧ 8 ≤ s'.consumed ∧
        s'.consumed ≤ min 1048 (input.length - s.pos) := by
  refine ⟨?_, ?_, ?_, ?_⟩
  · intro sent frame consumed fuel hsent hfuel
    obtain ⟨count, st, stop, hloop, hstop⟩ := MclLinkStream.loop_cut
      (s := ⟨0, frame, consumed, []⟩) [] fuel hsent (Nat.le_refl _) rfl hfuel
    have hcount : count = sent.length := by
      by_contra hne
      have hmost := hstop.most (Nat.lt_of_le_of_ne hstop.count_le hne)
      exact absurd (mclLinkStreamBytes_take sent (count + 1)) (Nat.not_le_of_lt hmost)
    have hwhole : sent.take count = sent := List.take_of_length_le hcount.ge
    rw [List.take_length, List.nil_append] at hloop
    obtain ⟨-, -, -, hyielded, hpos, hstatus⟩ := hstop
    rw [hwhole] at hyielded hpos hstatus
    rw [if_pos rfl] at hstatus
    subst hstatus
    exact ⟨stop, hloop, hyielded, hpos.trans (Nat.zero_add _)⟩
  · intro sent frame consumed fuel k hsent hk hfuel
    obtain ⟨count, st, stop, hloop, hstop⟩ := MclLinkStream.loop_cut
      (s := ⟨0, frame, consumed, []⟩) [] fuel hsent hk rfl hfuel
    have hpos : stop.pos = (mclLinkStreamBytes (sent.take count)).length :=
      hstop.pos.trans (Nat.zero_add _)
    refine ⟨count, st, stop, hloop, hstop.count_le, hstop.fits, hstop.most, hstop.yielded, hpos, ?_⟩
    rw [hpos]
    exact hstop.status
  · intro input s fuel hfuel
    apply MclLinkStream.loop_stops
    omega
  · intro input s s' hstep
    exact MclLinkStream.step_advances hstep

/-- Two frames at different majors; the cut falls into the second. -/
theorem mclLinkStream_decodes_two :
    let f : MclLinkFrame := ⟨0, 3, 0x04, 0xA0, 0, 0, 9, 0, some [1, 2, 3], 3, by simp⟩
    let g : MclLinkFrame := ⟨1, 0, 0, 7, 0, 0, 0, 0, none, 0, by simp⟩
    (∃ stop, MclLinkStream.loop (mclLinkStreamBytes [(0, f), (1, g)]) 40 ⟨0, g, 0, []⟩ =
        some (.ok, stop) ∧ stop.yielded = [f, g]) ∧
      ∃ stop, MclLinkStream.loop ((mclLinkStreamBytes [(0, f), (1, g)]).take 15) 40
        ⟨0, g, 0, []⟩ = some (.errTruncated, stop) ∧ stop.yielded = [f] := by
  intro f g
  have hsent : ∀ p ∈ [((0 : UInt8), f), (1, g)], MclLinkSendable p := by
    intro p hp
    rcases List.mem_pair.mp hp with rfl | rfl
    · exact ⟨Or.inl rfl, by decide⟩
    · exact ⟨Or.inr rfl, by decide⟩
  have hsize : (mclLinkStreamBytes [(0, f), (1, g)]).length = 21 := by decide +kernel
  have hframes : mclLinkStreamFrames [(0, f), (1, g)] = [f, g] := by decide
  constructor
  · obtain ⟨stop, hloop, hyielded, -⟩ :=
      mclLinkStream_decodes.1 [(0, f), (1, g)] g 0 40 hsent (by omega)
    exact ⟨stop, hloop, hyielded.trans hframes⟩
  · obtain ⟨count, st, stop, hloop, hcount, hfits, hmost, hyielded, hpos, hst⟩ :=
      mclLinkStream_decodes.2.1 [(0, f), (1, g)] g 0 40 15 hsent (by omega) (by decide)
    have hone : (mclLinkStreamBytes (List.take 1 [(0, f), (1, g)])).length = 13 := by
      decide +kernel
    obtain rfl : count = 1 := by
      match count, hcount with
      | 0, _ => exact absurd (hmost (by decide)) (by rw [Nat.zero_add, hone]; decide)
      | 1, _ => rfl
      | 2, _ => exact absurd hfits (by rw [List.take_of_length_le (by decide), hsize]; decide)
    rw [hpos, hone] at hst
    subst hst
    exact ⟨stop, hloop, hyielded.trans (by decide)⟩

end MclLink
