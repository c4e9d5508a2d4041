import MclLink.Lib.Bytes

/-!
# Canonical formats

A format says which values are carried, as which bytes, and what a receiver reads of them. An
encoder writes into a buffer the caller owns and a decoder takes a whole byte string; a pair of
them that implements a format is canonical in both directions.
-/

namespace Bytes

/-- The values that are carried, their bytes, and what is read of them. -/
structure Format (α : Type*) where
  Legal : α → Prop
  layout : α → List UInt8
  reads : α → α

section Implements

variable {α σ : Type*}

/-- `encode` and `decode` report `ok` exactly for the legal values and their bytes. -/
structure Format.Implements (F : Format α) (ok : σ)
    (encode : Option α → Option (List UInt8) → Option ℕ → σ × Option (List UInt8) × Option ℕ)
    (decode : Option (List UInt8) → Option α → σ × Option α) : Prop where
  encode_ok : ∀ {a} {out : List UInt8} (written : ℕ), F.Legal a →
    (F.layout a).length ≤ out.length → encode (some a) (some out) (some written) =
      (ok, some (F.layout a ++ out.drop (F.layout a).length), some (F.layout a).length)
  of_encode : ∀ {a out written r}, encode (some a) (some out) (some written) = (ok, r) →
    F.Legal a ∧ (F.layout a).length ≤ out.length
  decode_ok : ∀ {a} (prior : α), F.Legal a →
    decode (some (F.layout a)) (some prior) = (ok, some (F.reads a))
  of_decode : ∀ {bytes prior a}, decode (some bytes) (some prior) = (ok, some a) →
    F.Legal a ∧ F.reads a = a ∧ F.layout a = bytes

variable {F : Format α} {ok : σ} {a : α}
  {encode : Option α → Option (List UInt8) → Option ℕ → σ × Option (List UInt8) × Option ℕ}
  {decode : Option (List UInt8) → Option α → σ × Option α}

private theorem Format.Implements.produced (h : F.Implements ok encode decode)
    {out out' : List UInt8}
    {written n : ℕ} (henc : encode (some a) (some out) (some written) = (ok, some out', some n)) :
    F.Legal a ∧ out' = F.layout a ++ out.drop n ∧ n = (F.layout a).length := by
  obtain ⟨hlegal, hsize⟩ := h.of_encode henc
  have hsame := (h.encode_ok written hlegal hsize).symm.trans henc
  simp only [Prod.mk.injEq, Option.some.injEq, true_and] at hsame
  obtain ⟨rfl, rfl⟩ := hsame
  exact ⟨hlegal, rfl, rfl⟩

/-- What an encoder puts at the front of a blank buffer. -/
def pack [DecidableEq σ] (ok : σ)
    (encode : Option α → Option (List UInt8) → Option ℕ → σ × Option (List UInt8) × Option ℕ)
    (room : ℕ) (a : α) : Option (List UInt8) :=
  match encode (some a) (some (List.replicate room 0)) (some 0) with
  | (st, some out, some n) => if st = ok then some (out.take n) else none
  | _ => none

theorem Format.Implements.pack_eq_some [DecidableEq σ] (h : F.Implements ok encode decode)
    {room : ℕ} {bytes : List UInt8} (hroom : F.Legal a → (F.layout a).length ≤ room) :
    pack ok encode room a = some bytes ↔ F.Legal a ∧ bytes = F.layout a := by
  have hblank : (List.replicate room (0 : UInt8)).length = room := List.length_replicate
  constructor
  · intro hpack
    unfold pack at hpack
    split at hpack
    · next st out n henc =>
      split_ifs at hpack with hst
      subst hst
      obtain ⟨hlegal, rfl, rfl⟩ := h.produced henc
      rw [List.take_left] at hpack
      exact ⟨hlegal, (Option.some.inj hpack).symm⟩
    · cases hpack
  · rintro ⟨hlegal, rfl⟩
    have henc := h.encode_ok 0 hlegal (by rw [hblank]; exact hroom hlegal)
    rw [pack, henc]
    simp only [if_true, List.take_left]

/-- What is encoded is decoded again, and what is decoded is encoded as the same bytes. -/
structure Canonical (ok : σ)
    (encode : Option α → Option (List UInt8) → Option ℕ → σ × Option (List UInt8) × Option ℕ)
    (decode : Option (List UInt8) → Option α → σ × Option α) (reads : α → α) : Prop where
  decode_encode : ∀ {a} {out out' : List UInt8} {written n} (prior : α),
    encode (some a) (some out) (some written) = (ok, some out', some n) →
      decode (some (out'.take n)) (some prior) = (ok, some (reads a))
  encode_decode : ∀ {bytes prior a} {out : List UInt8} (written : ℕ),
    decode (some bytes) (some prior) = (ok, some a) → bytes.length ≤ out.length →
      encode (some a) (some out) (some written) =
        (ok, some (bytes ++ out.drop bytes.length), some bytes.length)

theorem Format.Implements.canonical (h : F.Implements ok encode decode) :
    Canonical ok encode decode F.reads where
  decode_encode := by
    intro a out out' written n prior henc
    obtain ⟨hlegal, rfl, rfl⟩ := h.produced henc
    rw [List.take_left]
    exact h.decode_ok prior hlegal
  encode_decode := by
    intro bytes prior a out written hdec hout
    obtain ⟨hlegal, -, rfl⟩ := h.of_decode hdec
    exact h.encode_ok written hlegal hout

end Implements

end Bytes
