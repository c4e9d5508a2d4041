import Mathlib.Tactic

/-!
# Strings that say where they end

The first entries of a string announce how long it has to be, and a verdict compares before it
looks at anything else. Then a string that is accepted is told apart from what was cut off it and
from what goes on behind it.
-/

namespace Bytes

variable {β σ : Type*} {ok short long : σ} {header n : ℕ} {announced : List β → Option ℕ}
  {verdict : List β → σ} {bytes front suffix : List β}

/-- The verdict waits for the header, and goes by the length that the header announces. -/
structure Delimited (ok short long : σ) (header : ℕ) (announced : List β → Option ℕ)
    (verdict : List β → σ) : Prop where
  waits : ∀ {bytes}, bytes.length < header → verdict bytes = short
  misses : ∀ {bytes n}, header ≤ bytes.length → announced (bytes.take header) = some n →
    bytes.length < n → verdict bytes = short
  exceeds : ∀ {bytes n}, header ≤ bytes.length → announced (bytes.take header) = some n →
    n < bytes.length → verdict bytes = long
  accepted : ∀ {bytes}, verdict bytes = ok →
    header ≤ bytes.length ∧ announced (bytes.take header) = some bytes.length

theorem Delimited.of_cut (h : Delimited ok short long header announced verdict)
    (hok : verdict bytes = ok) (hfront : front <+: bytes) (hne : front ≠ bytes) :
    verdict front = short := by
  obtain ⟨rest, rfl⟩ := hfront
  obtain ⟨-, hannounced⟩ := h.accepted hok
  have hrest : 0 < rest.length := List.length_pos_iff.mpr fun hnil => hne (by simp [hnil])
  rcases Nat.lt_or_ge front.length header with hshort | hheader
  · exact h.waits hshort
  · rw [List.take_append_of_le_length hheader] at hannounced
    apply h.misses hheader hannounced
    rw [List.length_append]
    omega

theorem Delimited.of_extended (h : Delimited ok short long header announced verdict)
    (hok : verdict bytes = ok) (hsuffix : suffix ≠ []) : verdict (bytes ++ suffix) = long := by
  obtain ⟨hheader, hannounced⟩ := h.accepted hok
  have hrest : 0 < suffix.length := List.length_pos_iff.mpr hsuffix
  have hlength : (bytes ++ suffix).length = bytes.length + suffix.length := List.length_append
  have htake : (bytes ++ suffix).take header = bytes.take header :=
    List.take_append_of_le_length hheader
  rw [← htake] at hannounced
  exact h.exceeds (by omega) hannounced (by omega)

theorem Delimited.of_long (h : Delimited ok short long header announced verdict)
    (hok : long ≠ ok) (hshort : long ≠ short) (hlong : verdict bytes = long) :
    verdict (bytes ++ suffix) ≠ ok := by
  intro haccepted
  by_cases hnil : suffix = []
  · subst hnil
    rw [List.append_nil, hlong] at haccepted
    exact hok haccepted
  · have hfront := h.of_cut haccepted (List.prefix_append bytes suffix) (by simpa using hnil)
    exact hshort (hlong.symm.trans hfront)

end Bytes
