import MclLink.Control.Payloads

/-!
# Rendezvous beacons

The data of `include/mcl/endpoint_rendezvous.h` and the functions of `src/endpoint_rendezvous.c`,
in the order of the source, and that the beacons a scanner recognises are the ones encoded.
-/

namespace MclLink

open Bytes

abbrev mclRendezvousBeaconSize : Nat := 8
abbrev mclRendezvousMagic0 : UInt8 := 0x4D
abbrev mclRendezvousMagic1 : UInt8 := 0x43
abbrev mclRendezvousBeaconVersion : UInt8 := 0

def mclRendezvousPutU32 (value : UInt32) : List UInt8 :=
  [((value >>> 24) &&& 0xFF).toUInt8, ((value >>> 16) &&& 0xFF).toUInt8,
    ((value >>> 8) &&& 0xFF).toUInt8, (value &&& 0xFF).toUInt8]

def mclRendezvousGetU32 (src : List UInt8) : UInt32 :=
  (src.getD 0 0).toUInt32 <<< 24 ||| (src.getD 1 0).toUInt32 <<< 16 |||
    (src.getD 2 0).toUInt32 <<< 8 ||| (src.getD 3 0).toUInt32

def mclRendezvousBeaconEncode (transportId : UInt8) (endpointToken : UInt32)
    (out : Option (List UInt8)) (written : Option Nat) :
    MclLinkStatus × Option (List UInt8) × Option Nat :=
  match out, written with
  | some out, some _ =>
    if transportId = mclContactTransportReserved then (.errInvalidArgument, some out, written)
    -- Reserved, so that a zeroed buffer is no beacon.
    else if endpointToken = 0 then (.errInvalidArgument, some out, written)
    else if out.length < mclRendezvousBeaconSize then (.errRange, some out, written)
    else
      let c : Cursor := ⟨out, 0⟩
      let c := c.write [mclRendezvousMagic0]
      let c := c.write [mclRendezvousMagic1]
      let c := c.write [mclRendezvousBeaconVersion]
      let c := c.write [transportId]
      let c := c.write (mclRendezvousPutU32 endpointToken)
      (.ok, some c.bytes, some mclRendezvousBeaconSize)
  | _, _ => (.errInvalidArgument, out, written)

def mclRendezvousBeaconDecode (input : Option (List UInt8)) (transportId : Option UInt8)
    (endpointToken : Option UInt32) : MclLinkStatus × Option UInt8 × Option UInt32 :=
  match input, transportId, endpointToken with
  | some input, some _, some _ =>
    if input.length < mclRendezvousBeaconSize then (.errTruncated, transportId, endpointToken)
    else if input.getD 0 0 ≠ mclRendezvousMagic0 ∨ input.getD 1 0 ≠ mclRendezvousMagic1 then
      (.errContextMismatch, transportId, endpointToken)
    else if input.getD 2 0 ≠ mclRendezvousBeaconVersion then
      (.errIncompatibleVersion, transportId, endpointToken)
    else if input.getD 3 0 = mclContactTransportReserved then
      (.errRange, transportId, endpointToken)
    else
      let token := mclRendezvousGetU32 (input.drop 4)
      if token = 0 then (.errRange, transportId, endpointToken)
      else (.ok, some (input.getD 3 0), some token)
  | _, _, _ => (.errInvalidArgument, transportId, endpointToken)

/-- Malformed data is no match rather than an error. -/
def mclRendezvousBeaconMatches (data : Option (List UInt8)) (expectedTransportId : UInt8)
    (expectedToken : UInt32) : UInt8 :=
  let r := mclRendezvousBeaconDecode data (some 0) (some 0)
  if r.1 ≠ .ok then 0
  else if r.2.1 ≠ some expectedTransportId then 0
  else if r.2.2 ≠ some expectedToken then 0
  else 1

/-- The four-byte word of a beacon. -/
def mclRendezvousU32 : Codec UInt32 where
  size := 4
  put := mclRendezvousPutU32
  get := mclRendezvousGetU32
  length_put := mclHandoffU32.length_put
  get_put := mclHandoffU32.get_put
  put_get := mclHandoffU32.put_get

/-- The bytes of a beacon. -/
def mclRendezvousBeaconLayout (transportId : UInt8) (endpointToken : UInt32) : List UInt8 :=
  [mclRendezvousMagic0] ++ [mclRendezvousMagic1] ++ [mclRendezvousBeaconVersion] ++
    [transportId] ++ mclRendezvousPutU32 endpointToken

variable {transportId : UInt8} {endpointToken : UInt32}

theorem length_mclRendezvousBeaconLayout :
    (mclRendezvousBeaconLayout transportId endpointToken).length = mclRendezvousBeaconSize := rfl

theorem mclRendezvousBeaconEncode_ok_iff {out out' : List UInt8} {written n : ℕ} :
    mclRendezvousBeaconEncode transportId endpointToken (some out) (some written) =
        (.ok, some out', some n) ↔
      (transportId ≠ mclContactTransportReserved ∧ endpointToken ≠ 0) ∧
        mclRendezvousBeaconSize ≤ out.length ∧ n = mclRendezvousBeaconSize ∧
        out' = mclRendezvousBeaconLayout transportId endpointToken ++
          out.drop mclRendezvousBeaconSize := by
  have hwritten := (((((start_at out).write [mclRendezvousMagic0]).write
    [mclRendezvousMagic1]).write [mclRendezvousBeaconVersion]).write [transportId]).write
    (mclRendezvousPutU32 endpointToken)
  simp only [mclRendezvousBeaconEncode]
  split_ifs with htransport htoken hroom
  · simp [htransport]
  · simp [htoken]
  · simp [hroom]
  · rw [hwritten.bytes]
    simp only [Prod.mk.injEq, Option.some.injEq, true_and]
    constructor
    · rintro ⟨hout, hn⟩
      exact ⟨⟨htransport, htoken⟩, Nat.not_lt.mp hroom, hn.symm, hout.symm⟩
    · rintro ⟨-, -, hn, hout⟩
      exact ⟨hout.symm, hn.symm⟩

theorem take_eq_beacon_iff {data : List UInt8} (hsize : mclRendezvousBeaconSize ≤ data.length) :
    data.take mclRendezvousBeaconSize = mclRendezvousBeaconLayout transportId endpointToken ↔
      (data.getD 0 0 = mclRendezvousMagic0 ∧ data.getD 1 0 = mclRendezvousMagic1) ∧
        data.getD 2 0 = mclRendezvousBeaconVersion ∧ data.getD 3 0 = transportId ∧
        mclRendezvousGetU32 (data.drop 4) = endpointToken := by
  have hsize : 8 ≤ data.length := hsize
  have hbytes : data.take mclRendezvousBeaconSize =
      [data.getD 0 0] ++ [data.getD 1 0] ++ [data.getD 2 0] ++ [data.getD 3 0] ++
        mclRendezvousPutU32 (mclRendezvousGetU32 (data.drop 4)) := by
    symm
    calc [data.getD 0 0] ++ [data.getD 1 0] ++ [data.getD 2 0] ++ [data.getD 3 0] ++ _
      _ = data.take 0 ++ [data.getD 0 0] ++ [data.getD 1 0] ++ [data.getD 2 0] ++
          [data.getD 3 0] ++ mclRendezvousPutU32 (mclRendezvousGetU32 (data.drop 4)) := rfl
      _ = data.take 8 := by
        rw [take_getD rfl (by omega), take_getD rfl (by omega), take_getD rfl (by omega),
          take_getD rfl (by omega)]
        exact mclRendezvousU32.take_put rfl hsize
  rw [hbytes]
  constructor
  · intro h
    have htoken := congrArg (fun bytes => mclRendezvousGetU32 (bytes.drop 4)) h
    have hget : ∀ value, mclRendezvousGetU32 (mclRendezvousPutU32 value) = value :=
      fun value => mclRendezvousU32.get_put value []
    simp only [mclRendezvousBeaconLayout, List.cons_append, List.nil_append, List.drop_succ_cons,
      List.drop_zero, hget] at htoken
    simp only [mclRendezvousBeaconLayout, List.cons_append, List.nil_append, List.cons.injEq] at h
    obtain ⟨hfirst, hsecond, hversion, htransport, -⟩ := h
    exact ⟨⟨hfirst, hsecond⟩, hversion, htransport, htoken⟩
  · rintro ⟨⟨hfirst, hsecond⟩, hversion, htransport, htoken⟩
    rw [hfirst, hsecond, hversion, htransport, htoken]
    rfl

private theorem mclRendezvousBeaconDecode_ok_iff {data : List UInt8} {prior : UInt8}
    {priorToken : UInt32} : mclRendezvousBeaconDecode (some data) (some prior) (some priorToken) =
        (.ok, some transportId, some endpointToken) ↔
      (transportId ≠ mclContactTransportReserved ∧ endpointToken ≠ 0) ∧
        mclRendezvousBeaconSize ≤ data.length ∧
        data.take mclRendezvousBeaconSize =
          mclRendezvousBeaconLayout transportId endpointToken := by
  by_cases hsize : mclRendezvousBeaconSize ≤ data.length
  · rw [take_eq_beacon_iff hsize]
    simp only [mclRendezvousBeaconDecode]
    rw [if_neg (Nat.not_lt.mpr hsize)]
    split_ifs with hmagic hversion htransport htoken
    · refine iff_of_false (by simp) ?_
      rintro ⟨-, -, ⟨hfirst, hsecond⟩, -⟩
      exact hmagic.elim (absurd hfirst) (absurd hsecond)
    · refine iff_of_false (by simp) ?_
      rintro ⟨-, -, -, hversion', -⟩
      exact hversion hversion'
    · refine iff_of_false (by simp) ?_
      rintro ⟨⟨hne, -⟩, -, -, -, rfl, -⟩
      exact hne htransport
    · refine iff_of_false (by simp) ?_
      rintro ⟨⟨-, hne⟩, -, -, -, -, rfl⟩
      exact hne htoken
    · obtain ⟨hfirst, hsecond⟩ := not_or.mp hmagic
      simp only [Prod.mk.injEq, Option.some.injEq, true_and]
      constructor
      · rintro ⟨rfl, rfl⟩
        exact ⟨⟨htransport, htoken⟩, hsize, ⟨not_not.mp hfirst, not_not.mp hsecond⟩,
          not_not.mp hversion, rfl, rfl⟩
      · rintro ⟨-, -, -, -, htransport', htoken'⟩
        exact ⟨htransport', htoken'⟩
  · have hshort : data.length < mclRendezvousBeaconSize := Nat.lt_of_not_le hsize
    simp only [mclRendezvousBeaconDecode]
    rw [if_pos hshort]
    refine iff_of_false (by simp) fun h => ?_
    exact hsize h.2.1

/-- A scanner recognises exactly the beacons of a transport and a token that are not reserved. -/
theorem mclRendezvousBeaconMatches_iff {data : List UInt8} :
    mclRendezvousBeaconMatches (some data) transportId endpointToken = 1 ↔
      (transportId ≠ mclContactTransportReserved ∧ endpointToken ≠ 0) ∧
        mclRendezvousBeaconSize ≤ data.length ∧
        data.take mclRendezvousBeaconSize =
          mclRendezvousBeaconLayout transportId endpointToken := by
  rw [← @mclRendezvousBeaconDecode_ok_iff _ _ data 0 0]
  simp only [mclRendezvousBeaconMatches]
  obtain ⟨st, transport, token⟩ := mclRendezvousBeaconDecode (some data) (some 0) (some 0)
  simp only [Prod.mk.injEq]
  split_ifs with hst htransport htoken
  · exact iff_of_false (by decide) fun h => hst h.1
  · exact iff_of_false (by decide) fun h => htransport h.2.1
  · exact iff_of_false (by decide) fun h => htoken h.2.2
  · exact iff_of_true rfl ⟨not_not.mp hst, not_not.mp htransport, not_not.mp htoken⟩

end MclLink
