import MclLink.Frame.Stream
import MclLink.Frame.Truncation

/-!
# A stream that arrives in chunks

Truncated tells a receiver to wait for more bytes rather than to give up. One that takes the loop up
again where it stood, whenever more bytes have arrived, ends as one that had them all at once.
-/

namespace MclLink

/-- The loop with enough rounds for any buffer. -/
def MclLinkStream.drain (input : List UInt8) (s : MclLinkStream) :
    Option (MclLinkStatus × MclLinkStream) :=
  MclLinkStream.loop input (input.length + 1) s

/-- Chunk after chunk is appended to the buffer, and the loop is taken up again where it stood, as
long as the decoder refuses nothing. -/
def MclLinkStream.receive (buffer : List UInt8) :
    List (List UInt8) → MclLinkStatus × MclLinkStream → Option (MclLinkStatus × MclLinkStream)
  | [], r => some r
  | chunk :: chunks, (st, s) =>
    if st = .ok ∨ st = .errTruncated then
      (MclLinkStream.drain (buffer ++ chunk) s).bind (receive (buffer ++ chunk) chunks)
    else some (st, s)

/-- How the loop ended, where, and with which frames: all but the object and the size that the last
call of the decoder was given. -/
def mclLinkStreamSummary (r : MclLinkStatus × MclLinkStream) :
    MclLinkStatus × Nat × List MclLinkFrame :=
  (r.1, r.2.pos, r.2.yielded)

/-- Both stand at the same place and have yielded the same frames. -/
def MclLinkStream.Alike (s t : MclLinkStream) : Prop := s.pos = t.pos ∧ s.yielded = t.yielded

variable {input rest : List UInt8} {s s' t : MclLinkStream} {st : MclLinkStatus}
  {fuel fuel' : ℕ}

private theorem MclLinkStream.step_status : (s.step input).1 =
    (mclLinkFrameDecode (some (input.drop s.pos)) (some s.frame) (some s.consumed)).1 := by
  by_cases hok : (mclLinkFrameDecode (some (input.drop s.pos)) (some s.frame)
      (some s.consumed)).1 = .ok
  · obtain ⟨f, n, hresult⟩ := @mclLinkFrameDecode_result (input.drop s.pos) s.consumed s.frame
    rw [hok] at hresult ⊢
    rw [MclLinkStream.step_ok hresult]
  · obtain ⟨s', hstep, -⟩ := MclLinkStream.step_refused hok rfl
    rw [hstep]

private theorem MclLinkStream.step_stays (hst : st ≠ .ok) (hstep : s.step input = (st, s')) :
    s'.Alike s := by
  have hstatus := @MclLinkStream.step_status input s
  rw [hstep] at hstatus
  obtain ⟨s'', hrefused, hpos, hyielded⟩ := MclLinkStream.step_refused hst hstatus.symm
  obtain rfl := (Prod.mk.inj (hrefused.symm.trans hstep)).2
  exact ⟨hpos, hyielded⟩

private theorem MclLinkStream.Alike.drop (h : s.Alike t) (hpos : s.pos < input.length) :
    (input ++ rest).drop t.pos = input.drop s.pos ++ rest := by
  rw [← h.1]
  exact List.drop_append_of_le_length hpos.le

private theorem MclLinkStream.Alike.step_ok (h : s.Alike t) (hpos : s.pos < input.length)
    (hstep : s.step input = (.ok, s')) :
    ∃ t', t.step (input ++ rest) = (.ok, t') ∧ s'.Alike t' := by
  have hok := @MclLinkStream.step_status input s
  rw [hstep] at hok
  obtain ⟨f, n, hresult⟩ := @mclLinkFrameDecode_result (input.drop s.pos) s.consumed s.frame
  rw [← hok] at hresult
  obtain rfl := (Prod.mk.inj ((MclLinkStream.step_ok hresult).symm.trans hstep)).2
  have hmore : mclLinkFrameDecode (some ((input ++ rest).drop t.pos)) (some t.frame)
      (some t.consumed) = (.ok, some f, some n) := by
    rw [h.drop hpos]
    exact mclLinkFrameDecode_append hresult
  exact ⟨_, MclLinkStream.step_ok hmore, congrArg (· + n) h.1, congrArg (· ++ [f]) h.2⟩

private theorem MclLinkStream.Alike.step_refused (h : s.Alike t) (hpos : s.pos < input.length)
    (hok : st ≠ .ok) (hwait : st ≠ .errTruncated ∨ rest = []) (hstep : s.step input = (st, s')) :
    ∃ t', t.step (input ++ rest) = (st, t') ∧ s'.Alike t' := by
  have hstatus := @MclLinkStream.step_status input s
  rw [hstep] at hstatus
  have hmore : (t.step (input ++ rest)).1 = st := by
    rw [MclLinkStream.step_status, h.drop hpos]
    rcases hwait with hwait | rfl
    · exact mclLinkFrameDecode_status_append hwait hstatus.symm
    · rw [List.append_nil, mclLinkFrameDecode_scan]
      exact (hstatus.trans mclLinkFrameDecode_scan).symm
  have hstep' : t.step (input ++ rest) = (st, (t.step (input ++ rest)).2) := Prod.ext hmore rfl
  have hsame := MclLinkStream.step_stays hok hstep
  have hsame' := MclLinkStream.step_stays hok hstep'
  exact ⟨_, hstep', hsame.1.trans (h.1.trans hsame'.1.symm), hsame.2.trans (h.2.trans hsame'.2.symm)⟩

private theorem MclLinkStream.Alike.summary (h : s.Alike t) :
    mclLinkStreamSummary (st, s) = mclLinkStreamSummary (st, t) :=
  congrArg₂ (fun pos frames => (st, pos, frames)) h.1 h.2

private theorem MclLinkStream.Alike.loop (h : s.Alike t) (hfuel : input.length - s.pos < fuel)
    (hfuel' : input.length - t.pos < fuel') :
    (MclLinkStream.loop input fuel s).map mclLinkStreamSummary =
      (MclLinkStream.loop input fuel' t).map mclLinkStreamSummary := by
  induction fuel generalizing s t fuel' with
  | zero => exact absurd hfuel (Nat.not_lt_zero _)
  | succ fuel ih =>
    obtain ⟨fuel', rfl⟩ := Nat.exists_eq_succ_of_ne_zero (Nat.ne_zero_of_lt hfuel')
    by_cases hpos : s.pos < input.length
    · have hpos' : t.pos < input.length := h.1 ▸ hpos
      cases hstep : s.step input with
      | mk st s' =>
        by_cases hst : st = .ok
        · subst hst
          obtain ⟨t', hstep', hnext⟩ := @MclLinkStream.Alike.step_ok input [] s s' t h hpos hstep
          rw [List.append_nil] at hstep'
          rw [MclLinkStream.loop_ok hpos hstep, MclLinkStream.loop_ok hpos' hstep']
          have hmoved := MclLinkStream.step_advances hstep
          have hmoved' := MclLinkStream.step_advances hstep'
          exact ih hnext (by omega) (by omega)
        · obtain ⟨t', hstep', hstop⟩ :=
            @MclLinkStream.Alike.step_refused input [] s s' t st h hpos hst (Or.inr rfl) hstep
          rw [List.append_nil] at hstep'
          rw [MclLinkStream.loop_refused hpos hst hstep, MclLinkStream.loop_refused hpos' hst hstep']
          exact congrArg some hstop.summary
    · have hpos' : ¬ t.pos < input.length := h.1 ▸ hpos
      rw [MclLinkStream.loop_end (Nat.not_lt.mp hpos), MclLinkStream.loop_end (Nat.not_lt.mp hpos')]
      exact congrArg some h.summary

private theorem MclLinkStream.loop_within (hpos : s.pos ≤ input.length)
    (h : MclLinkStream.loop input fuel s = some (st, s')) : s'.pos ≤ input.length := by
  induction fuel generalizing s with
  | zero => cases h
  | succ fuel ih =>
    by_cases hleft : s.pos < input.length
    · cases hstep : s.step input with
      | mk st₁ s₁ =>
        by_cases hst : st₁ = .ok
        · subst hst
          rw [MclLinkStream.loop_ok hleft hstep] at h
          have hmoved := MclLinkStream.step_advances hstep
          exact ih (by omega) h
        · rw [MclLinkStream.loop_refused hleft hst hstep] at h
          obtain ⟨rfl, rfl⟩ := Prod.mk.inj (Option.some.inj h)
          exact (MclLinkStream.step_stays hst hstep).1 ▸ hpos
    · rw [MclLinkStream.loop_end (Nat.not_lt.mp hleft)] at h
      obtain ⟨-, rfl⟩ := Prod.mk.inj (Option.some.inj h)
      exact hpos

private theorem MclLinkStream.loop_resume (hpos : s.pos ≤ input.length)
    (h : MclLinkStream.loop input fuel s = some (st, s')) :
    (MclLinkStream.drain (input ++ rest) s).map mclLinkStreamSummary =
      if st = .ok ∨ st = .errTruncated then
        (MclLinkStream.drain (input ++ rest) s').map mclLinkStreamSummary
      else some (mclLinkStreamSummary (st, s')) := by
  induction fuel generalizing s with
  | zero => cases h
  | succ fuel ih =>
    by_cases hleft : s.pos < input.length
    · have hmore : s.pos < (input ++ rest).length := by
        rw [List.length_append]
        omega
      cases hstep : s.step input with
      | mk st₁ s₁ =>
        by_cases hst : st₁ = .ok
        · subst hst
          rw [MclLinkStream.loop_ok hleft hstep] at h
          have hmoved := MclLinkStream.step_advances hstep
          obtain ⟨t₁, hstep', hnext⟩ :=
            @MclLinkStream.Alike.step_ok input rest s s₁ s ⟨rfl, rfl⟩ hleft hstep
          rw [← ih (by omega) h, MclLinkStream.drain, MclLinkStream.loop_ok hmore hstep']
          have hmoved' := MclLinkStream.step_advances hstep'
          exact (hnext.loop (by omega) (by omega)).symm
        · rw [MclLinkStream.loop_refused hleft hst hstep] at h
          obtain ⟨rfl, rfl⟩ := Prod.mk.inj (Option.some.inj h)
          have hsame := MclLinkStream.step_stays hst hstep
          split_ifs with hwait
          · exact (hsame.loop (by omega) (by omega)).symm
          · obtain ⟨t₁, hstep', hstop⟩ := @MclLinkStream.Alike.step_refused input rest s s₁ s st₁
              ⟨rfl, rfl⟩ hleft hst (Or.inl (not_or.mp hwait).2) hstep
            rw [MclLinkStream.drain, MclLinkStream.loop_refused hmore hst hstep']
            exact congrArg some hstop.summary.symm
    · rw [MclLinkStream.loop_end (Nat.not_lt.mp hleft)] at h
      obtain ⟨rfl, rfl⟩ := Prod.mk.inj (Option.some.inj h)
      rw [if_pos (Or.inl rfl)]

private theorem mclLinkFrameDecode_waits_short {g : MclLinkFrame} {consumed : ℕ}
    (h : (mclLinkFrameDecode (some input) (some g) (some consumed)).1 = .errTruncated) :
    input.length < mclLinkFrameMaxSize := by
  have hoptional := mclLinkOptionalSize_le (input.getD 1 0)
  have hfields : mclLinkFieldsSize (input.getD 1 0) ≤ 16 := by
    simp only [mclLinkFieldsSize]
    split_ifs <;> decide
  have hsizes : mclLinkFrameMinSize = 8 ∧ mclLinkFrameMaxPayload.toNat = 1024 := ⟨rfl, rfl⟩
  have hrun := mclLinkFrameDecode_waits.mp h
  rw [mclLinkFrameScan_run, mclLinkHeaderSize] at hrun
  simp only [mclLinkFrameMaxSize]
  split_ifs at hrun with hmin hhead hheader hmax hend hchecked hcheck
  · omega
  · omega
  -- from here on the payload length has been seen
  all_goals
    have hannounced := UInt16.le_iff_toNat_le.mp (UInt16.not_lt.mp hmax)
    rw [mclLinkPayloadEnd] at *
    omega

private theorem MclLinkStream.loop_leaves
    (h : MclLinkStream.loop input fuel s = some (.errTruncated, s')) :
    input.length - s'.pos < mclLinkFrameMaxSize := by
  induction fuel generalizing s with
  | zero => cases h
  | succ fuel ih =>
    by_cases hleft : s.pos < input.length
    · cases hstep : s.step input with
      | mk st₁ s₁ =>
        by_cases hst : st₁ = .ok
        · subst hst
          rw [MclLinkStream.loop_ok hleft hstep] at h
          exact ih h
        · rw [MclLinkStream.loop_refused hleft hst hstep] at h
          obtain ⟨rfl, rfl⟩ := Prod.mk.inj (Option.some.inj h)
          have hstatus := @MclLinkStream.step_status input s
          rw [hstep] at hstatus
          have hshort := mclLinkFrameDecode_waits_short hstatus.symm
          rw [List.length_drop] at hshort
          rw [(MclLinkStream.step_stays hst hstep).1]
          exact hshort
    · rw [MclLinkStream.loop_end (Nat.not_lt.mp hleft)] at h
      cases h

/-- What the receiver has after some chunks is what it would have with the buffer as it is by then,
and that carries over to all chunks that follow. -/
theorem MclLinkStream.receive_drain {start : MclLinkStream} (chunks : List (List UInt8))
    (hstart : start.pos = 0) (hpos : s.pos ≤ input.length)
    (h : (MclLinkStream.drain input start).map mclLinkStreamSummary =
      some (mclLinkStreamSummary (st, s))) :
    ∃ r, MclLinkStream.receive input chunks (st, s) = some r ∧
      (MclLinkStream.drain (input ++ chunks.flatten) start).map mclLinkStreamSummary =
        some (mclLinkStreamSummary r) := by
  induction chunks generalizing input st s with
  | nil =>
    rw [List.flatten_nil, List.append_nil]
    exact ⟨_, rfl, h⟩
  | cons chunk chunks ih =>
    obtain ⟨⟨st', s'⟩, hdrain, hsummary⟩ := Option.map_eq_some_iff.mp h
    simp only [mclLinkStreamSummary, Prod.mk.injEq] at hsummary
    obtain ⟨rfl, hsame⟩ := hsummary
    have hresume := fun rest => @MclLinkStream.loop_resume input rest start s' st'
      (input.length + 1) (by omega) hdrain
    by_cases hwait : st' = .ok ∨ st' = .errTruncated
    · have hlength : (input ++ chunk).length = input.length + chunk.length := List.length_append
      obtain ⟨⟨st₁, s₁⟩, hnext⟩ :=
        @MclLinkStream.loop_stops (input ++ chunk) s ((input ++ chunk).length + 1) (by omega)
      have hagain := hresume chunk
      rw [if_pos hwait] at hagain
      have hgrown : (MclLinkStream.drain (input ++ chunk) start).map mclLinkStreamSummary =
          some (mclLinkStreamSummary (st₁, s₁)) := by
        rw [hagain, MclLinkStream.drain,
          MclLinkStream.Alike.loop hsame (Nat.lt_succ_of_le (Nat.sub_le _ _))
            (Nat.lt_succ_of_le (Nat.sub_le _ _)), hnext]
        rfl
      obtain ⟨r, hreceive, hall⟩ := ih (MclLinkStream.loop_within (by omega) hnext) hgrown
      refine ⟨r, ?_, ?_⟩
      · rw [MclLinkStream.receive, if_pos hwait, MclLinkStream.drain, hnext]
        exact hreceive
      · rw [List.flatten_cons, ← List.append_assoc]
        exact hall
    · refine ⟨(st', s), by rw [MclLinkStream.receive, if_neg hwait], ?_⟩
      rw [hresume, if_neg hwait]
      exact congrArg some (MclLinkStream.Alike.summary hsame)

/-- However a stream is cut into chunks, the receiver that takes the loop up again ends with the
same status at the same place and with the same frames as one that has the whole stream at once, and
while it waits it has less than the longest frame to keep. As long as what arrives is the beginning
of frames that were written one after the other, it has the frames that have arrived completely. -/
theorem mclLinkStream_chunks (chunks : List (List UInt8)) (frame : MclLinkFrame) (consumed : ℕ) :
    let start : MclLinkStream := ⟨0, frame, consumed, []⟩
    ∃ st s s', MclLinkStream.receive [] chunks (.ok, start) = some (st, s) ∧
      MclLinkStream.drain chunks.flatten start = some (st, s') ∧
      s.pos = s'.pos ∧ s.yielded = s'.yielded ∧
      (st = .errTruncated → chunks.flatten.length - s.pos < mclLinkFrameMaxSize) ∧
      ∀ sent, (∀ p ∈ sent, MclLinkSendable p) → chunks.flatten <+: mclLinkStreamBytes sent →
        ∃ count, MclLinkStream.Cut sent chunks.flatten.length count start st s := by
  intro start
  have hempty : (MclLinkStream.drain [] start).map mclLinkStreamSummary =
      some (mclLinkStreamSummary (.ok, start)) := rfl
  obtain ⟨⟨st, s⟩, hreceive, hall⟩ :=
    MclLinkStream.receive_drain chunks rfl (Nat.le_refl _) hempty
  rw [List.nil_append] at hall
  obtain ⟨⟨st', s'⟩, hdrain, hsummary⟩ := Option.map_eq_some_iff.mp hall
  simp only [mclLinkStreamSummary, Prod.mk.injEq] at hsummary
  obtain ⟨rfl, hpos, hyielded⟩ := hsummary
  refine ⟨st', s, s', hreceive, hdrain, hpos.symm, hyielded.symm, ?_, fun sent hsent hfront => ?_⟩
  · rintro rfl
    rw [← hpos]
    exact MclLinkStream.loop_leaves hdrain
  obtain ⟨count, st₁, stop, hloop, hcut⟩ := MclLinkStream.loop_cut (s := start) []
    (chunks.flatten.length + 1) hsent hfront.length_le rfl (Nat.lt_succ_self _)
  rw [List.nil_append, ← List.prefix_iff_eq_take.mp hfront] at hloop
  obtain ⟨rfl, rfl⟩ := Prod.mk.inj (Option.some.inj (hloop.symm.trans hdrain))
  exact ⟨count, hcut.count_le, hcut.fits, hcut.most, hyielded.symm.trans hcut.yielded,
    hpos.symm.trans hcut.pos, hcut.status⟩

/-- Two frames in three chunks, cut within the header of the first frame and within the second. -/
theorem mclLinkStream_chunks_three :
    let f : MclLinkFrame := ⟨0, 3, 0x04, 0xA0, 0, 0, 9, 0, some [1, 2, 3], 3, by simp⟩
    let g : MclLinkFrame := ⟨1, 0, 0, 7, 0, 0, 0, 0, none, 0, by simp⟩
    let bytes := mclLinkStreamBytes [(0, f), (1, g)]
    ∃ s, MclLinkStream.receive [] [bytes.take 5, (bytes.drop 5).take 10, bytes.drop 15]
      (.ok, ⟨0, g, 0, []⟩) = some (.ok, s) ∧ s.yielded = [f, g] := by
  intro f g bytes
  have hsent : ∀ p ∈ [((0 : UInt8), f), (1, g)], MclLinkSendable p := by
    intro p hp
    rcases List.mem_pair.mp hp with rfl | rfl
    · exact ⟨Or.inl rfl, by decide⟩
    · exact ⟨Or.inr rfl, by decide⟩
  have hwhole : [bytes.take 5, (bytes.drop 5).take 10, bytes.drop 15].flatten = bytes := by
    decide +kernel
  obtain ⟨st, s, s', hreceive, -, -, -, -, hcuts⟩ :=
    mclLinkStream_chunks [bytes.take 5, (bytes.drop 5).take 10, bytes.drop 15] g 0
  obtain ⟨count, hcut⟩ := hcuts [(0, f), (1, g)] hsent (by rw [hwhole])
  rw [hwhole] at hcut
  have hcount : count = 2 := by
    by_contra hne
    have hmost := hcut.most (Nat.lt_of_le_of_ne hcut.count_le hne)
    exact absurd (mclLinkStreamBytes_take [(0, f), (1, g)] (count + 1)) (Nat.not_le_of_lt hmost)
  subst hcount
  obtain rfl : st = .ok := hcut.status.trans (if_pos rfl)
  exact ⟨s, hreceive, hcut.yielded.trans (by decide)⟩

end MclLink
