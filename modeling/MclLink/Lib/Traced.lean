import Mathlib.Control.Monad.Writer
import MclLink.Lib.Bytes

/-!
# Programs on a buffer with their accesses

A program on a byte buffer records every byte it reads or writes, every size it subtracts a position
from, and every part of the buffer that it lends out. Values and records are reasoned about
together: a record inside the bounds is shown where the value is computed.
-/

namespace Bytes

/-- One access to a buffer. -/
inductive Access where
  | read (pos : Nat)
  | write (pos : Nat)
  | left (size pos : Nat)
  | lend (pos n : Nat)
  deriving DecidableEq, Repr

/-- The access stays inside a buffer of this size, and the subtraction does not wrap. -/
def Access.Within (size : Nat) : Access → Prop
  | .read pos => pos < size
  | .write pos => pos < size
  | .left size pos => pos ≤ size
  | .lend pos n => pos + n ≤ size

abbrev Traced (α : Type) := Writer (List Access) α

section Rules

variable {α β : Type} {x y : Traced α} {f : α → Traced β}

def Traced.value (x : Traced α) : α := (WriterT.run x).1

def Traced.log (x : Traced α) : List Access := (WriterT.run x).2

@[simp] theorem Traced.value_pure (a : α) : (pure a : Traced α).value = a := rfl

@[simp] theorem Traced.log_pure (a : α) : (pure a : Traced α).log = [] := rfl

@[simp] theorem Traced.value_bind : (x >>= f).value = (f x.value).value := rfl

@[simp] theorem Traced.log_bind : (x >>= f).log = x.log ++ (f x.value).log := rfl

theorem Traced.mem_first {e : Access} (h : e ∈ x.log) : e ∈ (x >>= f).log :=
  List.mem_append_left _ h

theorem Traced.mem_then {e : Access} (h : e ∈ (f x.value).log) : e ∈ (x >>= f).log :=
  List.mem_append_right _ h

theorem Traced.mem_else {e : Access} {p : Prop} [Decidable p] (hp : ¬ p) (h : e ∈ y.log) :
    e ∈ (if p then x else y).log := by
  rw [if_neg hp]
  exact h

/-- The program computes `a` and stays inside a buffer of this size. -/
structure Traced.Computes (x : Traced α) (size : Nat) (a : α) : Prop where
  value : x.value = a
  within : ∀ e ∈ x.log, e.Within size

variable {size : Nat} {a a' : α} {b : β}

theorem Traced.Computes.pure (size : Nat) (a : α) : (Pure.pure a : Traced α).Computes size a :=
  ⟨rfl, by simp⟩

theorem Traced.Computes.bind (h : x.Computes size a) (hf : (f a).Computes size b) :
    (x >>= f).Computes size b := by
  obtain ⟨rfl, hx⟩ := h
  refine ⟨hf.value, fun e he => ?_⟩
  rw [Traced.log_bind] at he
  rcases List.mem_append.mp he with he | he
  · exact hx e he
  · exact hf.within e he

theorem Traced.Computes.ite {p : Prop} [Decidable p] (hx : p → x.Computes size a)
    (hy : ¬ p → y.Computes size a') :
    (if p then x else y).Computes size (if p then a else a') := by
  split_ifs with hp
  · exact hx hp
  · exact hy hp

theorem Traced.Computes.dite {p : Prop} [Decidable p] {x : p → Traced α} {y : ¬ p → Traced α}
    {a : p → α} {a' : ¬ p → α} (hx : ∀ hp, (x hp).Computes size (a hp))
    (hy : ∀ hp, (y hp).Computes size (a' hp)) :
    (if hp : p then x hp else y hp).Computes size (if hp : p then a hp else a' hp) := by
  split_ifs with hp
  · exact hx hp
  · exact hy hp

end Rules

section Programs

/-- `bytes[pos]`. -/
def load (bytes : List UInt8) (pos : Nat) : Traced UInt8 := do
  tell [.read pos]
  return bytes.getD pos 0

def loadAll (bytes : List UInt8) (pos : Nat) : Nat → Traced (List UInt8)
  | 0 => return []
  | n + 1 => do
    let first ← load bytes pos
    let rest ← loadAll bytes (pos + 1) n
    return first :: rest

/-- Writes byte by byte at the position and moves past. -/
def Cursor.store (c : Cursor) : List UInt8 → Traced Cursor
  | [] => return c
  | byte :: new => do
    tell [.write c.pos]
    Cursor.store ⟨c.bytes.set c.pos byte, c.pos + 1⟩ new

def Cursor.storeIf (c : Cursor) (present : Bool) (new : List UInt8) : Traced Cursor :=
  if present then c.store new else return c

/-- How many bytes lie ahead. -/
def Cursor.countLeft (c : Cursor) : Traced {n : Nat // n = c.bytes.length - c.pos} := do
  tell [.left c.bytes.length c.pos]
  return ⟨_, rfl⟩

/-- A pointer to the next bytes. -/
def Cursor.lend (c : Cursor) (n : Nat) : Traced Unit := tell [.lend c.pos n]

def Codec.load {α : Type} (codec : Codec α) (c : Cursor) : Traced (α × Cursor) := do
  let bytes ← loadAll c.bytes c.pos codec.size
  return (codec.get bytes, c.skip codec.size)

def Codec.loadIf {α : Type} (codec : Codec α) (present : Bool) (absent : α) (c : Cursor) :
    Traced (α × Cursor) :=
  if present then codec.load c else return (absent, c)

end Programs

/-- `n` positions from `pos` on are read, in order. -/
def reads (pos n : Nat) : List Access := (List.range' pos n).map .read

def writes (pos n : Nat) : List Access := (List.range' pos n).map .write

section Positions

variable {pos m n k : Nat} {a : Access}

theorem reads_append : reads pos m ++ reads (pos + m) n = reads pos (m + n) := by
  rw [reads, reads, ← List.map_append, List.range'_append_1]
  rfl

private theorem writes_append : writes pos m ++ writes (pos + m) n = writes pos (m + n) := by
  rw [writes, writes, ← List.map_append, List.range'_append_1]
  rfl

theorem mem_reads : a ∈ reads pos n ↔ ∃ k, (pos ≤ k ∧ k < pos + n) ∧ .read k = a := by
  simp [reads, List.mem_range'_1]

theorem mem_writes : a ∈ writes pos n ↔ ∃ k, (pos ≤ k ∧ k < pos + n) ∧ .write k = a := by
  simp [writes, List.mem_range'_1]

theorem within_reads {size : Nat} (h : pos + n ≤ size) : ∀ a ∈ reads pos n, a.Within size := by
  intro a ha
  obtain ⟨k, ⟨-, hk⟩, rfl⟩ := mem_reads.mp ha
  exact Nat.lt_of_lt_of_le hk h

theorem read_behind_writes {past rest tail : List Access}
    (htail : ∀ p, .read p ∈ tail → p < n)
    (h : writes 0 n ++ tail = past ++ .read k :: rest) : .write k ∈ past := by
  have hwritten : k < n → .write k ∈ writes 0 n := fun hk =>
    mem_writes.mpr ⟨k, ⟨Nat.zero_le k, by omega⟩, rfl⟩
  rcases List.append_eq_append_iff.mp h with ⟨back, rfl, hback⟩ | ⟨back, hfront, hback⟩
  · have hk : k < n := htail k (by rw [hback]; simp)
    exact List.mem_append_left _ (hwritten hk)
  · cases back with
    | nil =>
      have hk : k < n := htail k (by rw [← List.nil_append tail, ← hback]; simp)
      rw [List.append_nil] at hfront
      exact hfront ▸ hwritten hk
    | cons a back =>
      obtain ⟨rfl, -⟩ := List.cons.inj hback
      have hread : Access.read k ∈ writes 0 n := by rw [hfront]; simp
      obtain ⟨p, -, hp⟩ := mem_writes.mp hread
      exact absurd hp (by simp)

end Positions

section Loads

variable {α : Type} {bytes : List UInt8} {pos n : Nat} {c : Cursor}

theorem load_computes (h : pos < bytes.length) :
    (load bytes pos).Computes bytes.length (bytes.getD pos 0) :=
  ⟨rfl, List.forall_mem_singleton.mpr h⟩

@[simp] theorem log_loadAll : (loadAll bytes pos n).log = reads pos n := by
  induction n generalizing pos with
  | zero => rfl
  | succ n ih =>
    rw [loadAll, Traced.log_bind, Traced.log_bind, ih, Traced.log_pure, List.append_nil]
    rfl

/-- Inside the buffer the bytes are those that lie at the position. -/
theorem value_loadAll (h : pos + n ≤ bytes.length) :
    (loadAll bytes pos n).value = (bytes.drop pos).take n := by
  induction n generalizing pos with
  | zero => rfl
  | succ n ih =>
    have hpos : pos < bytes.length := by omega
    rw [loadAll, Traced.value_bind, Traced.value_bind, ih (by omega), Traced.value_pure,
      List.drop_eq_getElem_cons hpos, List.take_succ_cons]
    congr 1
    show bytes.getD pos 0 = bytes[pos]
    rw [List.getD_eq_getElem?_getD, List.getElem?_eq_getElem hpos, Option.getD_some]

private theorem Codec.get_take (codec : Codec α) (h : codec.size ≤ bytes.length) :
    codec.get (bytes.take codec.size) = codec.get bytes := by
  have hfield := codec.put_get bytes h
  have hprefix : codec.put (codec.get bytes) <+: bytes := ⟨_, hfield⟩
  have htake := List.prefix_iff_eq_take.mp hprefix
  rw [codec.length_put] at htake
  rw [← htake, ← List.append_nil (codec.put _), codec.get_put]

variable (codec : Codec α)

@[simp] theorem Codec.log_load : (codec.load c).log = reads c.pos codec.size := by
  rw [Codec.load, Traced.log_bind, log_loadAll, Traced.log_pure, List.append_nil]

theorem Codec.value_load (h : c.pos + codec.size ≤ c.bytes.length) :
    (codec.load c).value = codec.read c := by
  rw [Codec.load, Traced.value_bind, Traced.value_pure, value_loadAll h, codec.get_take]
  · rfl
  · rw [List.length_drop]
    omega

theorem Codec.load_computes (h : c.pos + codec.size ≤ c.bytes.length) :
    (codec.load c).Computes c.bytes.length (codec.read c) :=
  ⟨codec.value_load h, codec.log_load ▸ within_reads h⟩

theorem Cursor.countLeft_computes (h : c.pos ≤ c.bytes.length) :
    c.countLeft.Computes c.bytes.length ⟨c.bytes.length - c.pos, rfl⟩ :=
  ⟨rfl, List.forall_mem_singleton.mpr h⟩

theorem Cursor.lend_computes (h : c.pos + n ≤ c.bytes.length) :
    (c.lend n).Computes c.bytes.length () :=
  ⟨rfl, List.forall_mem_singleton.mpr h⟩

variable (present : Bool) (absent : α)

theorem Codec.log_loadIf : (codec.loadIf present absent c).log =
    reads c.pos (if present then codec.size else 0) := by
  cases present with
  | true => exact codec.log_load
  | false => rfl

theorem Codec.value_loadIf
    (h : c.pos + (if present then codec.size else 0) ≤ c.bytes.length) :
    (codec.loadIf present absent c).value = codec.readIf present absent c := by
  cases present with
  | true => exact codec.value_load h
  | false => rfl

end Loads

section Stores

variable {out done new new' : List UInt8} {c : Cursor} {x : Traced Cursor}
  {f : Cursor → Traced Cursor}

/-- Behind `done` the bytes `new` are written into the buffer `out`, each once and in order. -/
structure Traced.Stores (x : Traced Cursor) (out done new : List UInt8) : Prop where
  value : x.value.At (done ++ new) (out.drop (done ++ new).length)
  log : x.log = writes done.length new.length

theorem Traced.Stores.bind (h : x.Stores out done new)
    (hf : (f x.value).Stores out (done ++ new) new') :
    (x >>= f).Stores out done (new ++ new') where
  value := by
    rw [Traced.value_bind, ← List.append_assoc]
    exact hf.value
  log := by
    rw [Traced.log_bind, h.log, hf.log, List.length_append, writes_append, List.length_append]

theorem Cursor.At.store (h : c.At done (out.drop done.length)) (new : List UInt8)
    (hfit : (done ++ new).length ≤ out.length) : (c.store new).Stores out done new := by
  induction new generalizing c done with
  | nil => exact ⟨by simpa [Cursor.store] using h, rfl⟩
  | cons byte new ih =>
    rw [List.length_append, List.length_cons] at hfit
    have hlt : done.length < out.length := by omega
    have hset : Cursor.At ⟨c.bytes.set c.pos byte, c.pos + 1⟩ (done ++ [byte])
        (out.drop (done ++ [byte]).length) := by
      constructor
      · show c.bytes.set c.pos byte = _
        rw [h.bytes, h.pos, List.set_append_right _ _ (Nat.le_refl _), Nat.sub_self,
          List.drop_eq_getElem_cons hlt, List.set_cons_zero, List.append_assoc, List.length_append]
        rfl
      · show c.pos + 1 = _
        rw [h.pos, List.length_append]
        rfl
    have hrest := ih hset (by rw [List.length_append, List.length_append]; simp; omega)
    have hone : (tell [.write c.pos] : Traced Unit).log = writes done.length 1 := by
      rw [h.pos]
      rfl
    constructor
    · rw [Cursor.store, Traced.value_bind]
      simpa using hrest.value
    · have hcount : (byte :: new).length = 1 + new.length := Nat.add_comm _ _
      rw [Cursor.store, Traced.log_bind, hone, hrest.log, List.length_append, hcount]
      exact writes_append

theorem Cursor.At.storeIf (h : c.At done (out.drop done.length)) (present : Bool)
    (new : List UInt8) (hfit : (done ++ only present new).length ≤ out.length) :
    (c.storeIf present new).Stores out done (only present new) := by
  cases present with
  | true => exact h.store new hfit
  | false =>
    refine ⟨?_, rfl⟩
    show c.At (done ++ []) (out.drop (done ++ []).length)
    rw [List.append_nil]
    exact h

end Stores

end Bytes
