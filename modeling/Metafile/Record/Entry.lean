import Metafile.Record.Fields

/-!
# `Metafile.Record.Entry`: the records of a stream

A record begins with the number of its kind and its size in bytes, four bytes each. The size
counts the whole record. `Entry.next` takes one record off the front of a stream, and `Entry.cut`
takes all of them up to the end record. What follows the end record is not looked at.

`Entry.next_eq_ok` states what a record that was taken off looks like.
-/

set_option autoImplicit false

namespace Metafile.Record

/-- The number of bytes of the kind and the size of a record. -/
def headerBytes : Nat := 8

/-- A record in its place. -/
structure Entry where
  /-- The number of bytes before the record. -/
  offset : Nat
  /-- The number of its kind. -/
  code : Nat
  /-- All bytes of the record, its header included. -/
  body : Bytes
deriving DecidableEq, Repr, Inhabited

namespace Entry

/-- The size of a record. -/
def size (e : Entry) : Nat := e.body.length

/-- The kind of a record, if the format defines it. -/
def kind? (e : Entry) : Option Kind := Kind.ofCode? e.code

/-- The name of the kind of a record. -/
def name (e : Entry) : String := nameOfCode e.code

/-- The number of the kind and the size that a stream begins with. -/
def header : Decode (Nat × Nat) := do
  let code ← Cursor.u32
  let size ← Cursor.u32
  return (code, size)

/-- Takes the first record off a stream. The offset counts the bytes before the stream. -/
def next (offset : Nat) (stream : Bytes) : Except Fault (Entry × Bytes) :=
  match header.first stream with
  | .error fault => .error fault.framing
  | .ok (code, size) =>
    if size < headerBytes then .error (.structural (.undersized code offset size))
    -- only the bytes of the record are counted, not all bytes that are left
    else if (stream.take size).length < size then
      .error (.structural (.oversized code offset size))
    else .ok (⟨offset, code, stream.take size⟩, stream.drop size)

/-- A record that was taken off has at least its header, and the stream is the record followed by
what is left. -/
theorem next_eq_ok {offset : Nat} {stream rest : Bytes} {e : Entry}
    (h : next offset stream = .ok (e, rest)) :
    e.offset = offset ∧ headerBytes ≤ e.size ∧ stream = e.body ++ rest := by
  unfold next at h
  split at h
  · cases h
  · split at h
    · cases h
    · split at h
      · cases h
      · obtain ⟨rfl, rfl⟩ := Prod.mk.inj (Except.ok.inj h)
        refine ⟨rfl, ?_, (List.take_append_drop _ _).symm⟩
        show headerBytes ≤ (stream.take _).length
        omega

/-- Taking a record off makes a stream shorter. -/
theorem next_shorter {offset : Nat} {stream rest : Bytes} {e : Entry}
    (h : next offset stream = .ok (e, rest)) : rest.length < stream.length := by
  obtain ⟨_, hsize, happend⟩ := next_eq_ok h
  rw [happend, List.length_append]
  unfold size headerBytes at hsize
  omega

/-- Cuts a stream into records up to the end record. The offset counts the bytes before the
stream. A fault says why no end record was reached; the records before the broken place are given
too. -/
def cut (offset : Nat) (stream : Bytes) : List Entry × Option Fault :=
  if stream.isEmpty then ([], some (.structural .noEnd))
  else
    match _h : next offset stream with
    | .error fault => ([], some fault)
    | .ok (e, rest) =>
      if e.kind? = some .endOfFile then ([e], none)
      else
        let (entries, fault) := cut (offset + e.size) rest
        (e :: entries, fault)
termination_by stream.length
decreasing_by exact next_shorter _h

end Entry

end Metafile.Record
