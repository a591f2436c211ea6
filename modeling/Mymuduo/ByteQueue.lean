/-
Mymuduo/ByteQueue.lean

What a `Buffer` is for: a first-in first-out queue of bytes.

`queueMachine` is the purpose, stated over a bare list; `bufferMachine` runs the
operations of `Buffer`.  The two take the same labels, and both keep a list of
what left them: the strings returned by the `retrieve…AsString` calls and the
bytes offered to `::write`.  The refinement (`buffer_refines_queue`) covers
histories of any length, both branches of `makeSpace`, the index resets and the
reads that spill into `extrabuf`.

The one operation that a caller can misuse is `retrieveAsString`: it copies `len`
bytes, readable or not (`retrieveAsString_onlyReadable_iff`).
-/
import Mymuduo.Transition
import Mymuduo.Buffer

namespace Mymuduo

open Transition

/-- The public operations of a `Buffer`. -/
inductive BufferOp
  | append (data : List Byte)
  | ensureWriteableBytes (len : Nat)
  | retrieve (len : Nat)
  | retrieveAll
  | retrieveAsString (len : Nat)
  | retrieveAllAsString
  | readFd (k : ReadvResult)
  | writeFd (k : WriteResult)
  deriving DecidableEq, Repr

/-- What an operation hands out. -/
inductive Output
  | returned (s : List Byte)
  | offered (bs : List Byte)
  deriving DecidableEq, Repr

/-! ### The purpose -/

/-- One operation on the abstract queue. -/
def queueStep (q : List Byte) (out : List Output) : BufferOp → List Byte × List Output
  | .append data => (q ++ data, out)
  | .ensureWriteableBytes _ => (q, out)
  | .retrieve len => (q.drop (min len q.length), out)
  | .retrieveAll => ([], out)
  | .retrieveAsString len => (q.drop len, out ++ [.returned (q.take len)])
  | .retrieveAllAsString => ([], out ++ [.returned q])
  | .readFd (.deliver bs) => (q ++ bs, out)
  | .readFd (.fail _) => (q, out)
  | .writeFd _ => (q, out ++ [.offered q])

def queueMachine : Machine (List Byte × List Output) BufferOp where
  init s := s = ([], [])
  next s op := some (queueStep s.1 s.2 op)

/-! ### The buffer -/

/-- One operation on the buffer, `none` where it is undefined. -/
def bufferStep (b : Buffer) (out : List Output) : BufferOp → Option (Buffer × List Output)
  | .append data => do return (← b.append data, out)
  | .ensureWriteableBytes len => do return (← b.ensureWriteableBytes len, out)
  | .retrieve len => some (b.retrieve len, out)
  | .retrieveAll => some (b.retrieveAll, out)
  | .retrieveAsString len => do
      let (s, b) ← b.retrieveAsString len
      return (b, out ++ [.returned s])
  | .retrieveAllAsString => do
      let (s, b) ← b.retrieveAllAsString
      return (b, out ++ [.returned s])
  | .readFd k => do return ((← b.readFd k 0).buffer, out)
  | .writeFd k => some (b, out ++ [.offered (b.writeFd k 0).1.offered])

def bufferMachine : Machine (Buffer × List Output) BufferOp where
  init s := ∃ n, s = (Buffer.new n, [])
  next s op := bufferStep s.1 s.2 op

/-- What the caller and the kernel promise: a `retrieveAsString` asks for no more
than is readable, and `::readv` delivers no more than the iovecs hold. -/
def Admissible (s : Buffer × List Output) : BufferOp → Prop
  | .retrieveAsString len => len ≤ s.1.readableBytes
  | .readFd (.deliver bs) => bs.length ≤ s.1.iovRoom
  | _ => True

instance (s : Buffer × List Output) (op : BufferOp) : Decidable (Admissible s op) := by
  unfold Admissible
  split <;> infer_instance

/-! ### Refinement -/

/-- The buffer stands for the queue: same content, same outputs. -/
structure Represents (s : Buffer × List Output) (q : List Byte × List Output) : Prop where
  wf : s.1.WellFormed
  content : q.1 = s.1.readable
  output : q.2 = s.2

theorem represents_new (n : Nat) : Represents (Buffer.new n, []) ([], []) :=
  ⟨Buffer.wellFormed_new n, (Buffer.readable_new n).symm, rfl⟩

/-- The operation with the bytes that `::readv` delivers: no more than the iovecs
hold. -/
def BufferOp.received (b : Buffer) : BufferOp → BufferOp
  | .readFd (.deliver bs) => .readFd (.deliver (bs.take b.iovRoom))
  | op => op

/-- On a well-formed buffer, every operation but a `retrieveAsString` of more than is
readable is defined, leaves a well-formed buffer, and does what the queue does. -/
theorem next_eq_queueStep {s : Buffer × List Output} {op : BufferOp} (hb : s.1.WellFormed)
    (hop : ∀ len, op = .retrieveAsString len → len ≤ s.1.readableBytes) :
    ∃ t, bufferMachine.next s op = some t ∧ t.1.WellFormed ∧
      queueStep s.1.readable s.2 (op.received s.1) = (t.1.readable, t.2) := by
  obtain ⟨b, out⟩ := s
  cases op with
  | append data =>
      obtain ⟨b', h, hb', hread⟩ := hb.append data
      refine ⟨(b', out), by simp [bufferMachine, bufferStep, h], hb', ?_⟩
      exact Prod.ext hread.symm rfl
  | ensureWriteableBytes len =>
      obtain ⟨b', h, hb', hread, -⟩ := hb.ensureWriteableBytes len
      refine ⟨(b', out), by simp [bufferMachine, bufferStep, h], hb', ?_⟩
      exact Prod.ext hread.symm rfl
  | retrieve len =>
      refine ⟨(b.retrieve len, out), rfl, hb.retrieve len, Prod.ext ?_ rfl⟩
      show b.readable.drop (min len b.readable.length) = (b.retrieve len).readable
      rw [hb.readable_retrieve len]
      rcases Nat.le_total len b.readable.length with h | h
      · rw [Nat.min_eq_left h]
      · rw [Nat.min_eq_right h, List.drop_length, List.drop_of_length_le h]
  | retrieveAll =>
      exact ⟨(b.retrieveAll, out), rfl, hb.retrieveAll,
        Prod.ext Buffer.readable_retrieveAll.symm rfl⟩
  | retrieveAsString len =>
      have h := hb.retrieveAsString (hop len rfl)
      refine ⟨(b.retrieve len, out ++ [.returned (b.readable.take len)]), ?_, hb.retrieve len, ?_⟩
      · simp [bufferMachine, bufferStep, h]
      · exact Prod.ext (hb.readable_retrieve len).symm rfl
  | retrieveAllAsString =>
      have h := hb.retrieveAsString (Nat.le_refl b.readableBytes)
      rw [← hb.length_readable, List.take_length] at h
      refine ⟨(b.retrieve b.readable.length, out ++ [.returned b.readable]), ?_, hb.retrieve _, ?_⟩
      · simp [bufferMachine, bufferStep, Buffer.retrieveAllAsString, ← hb.length_readable, h]
      · refine Prod.ext ?_ rfl
        show [] = (b.retrieve b.readable.length).readable
        rw [hb.readable_retrieve, List.drop_length]
  | readFd k =>
      obtain ⟨r, h, hb', hread, -⟩ := hb.readFd k 0
      refine ⟨(r.buffer, out), by simp [bufferMachine, bufferStep, h], hb', ?_⟩
      cases k with
      | deliver bs => exact Prod.ext hread.symm rfl
      | fail e => exact Prod.ext (by simp [queueStep, BufferOp.received, hread, readv]) rfl
  | writeFd k =>
      refine ⟨(b, _), rfl, hb, Prod.ext rfl ?_⟩
      simp [queueStep, BufferOp.received, Buffer.writeFd]

/-- What an admissible read delivers, it receives. -/
theorem Admissible.received {s : Buffer × List Output} {op : BufferOp} (h : Admissible s op) :
    op.received s.1 = op := by
  cases op with
  | readFd k =>
      cases k with
      | deliver bs => rw [BufferOp.received, List.take_of_length_le h]
      | fail e => rfl
  | _ => rfl

/-- One admissible operation is defined, and the buffer keeps standing for the
queue. -/
theorem represents_step {s : Buffer × List Output} {q : List Byte × List Output}
    {op : BufferOp} (hR : Represents s q) (hop : Admissible s op) :
    ∃ s' q', bufferMachine.next s op = some s' ∧ queueMachine.next q op = some q' ∧
      Represents s' q' := by
  obtain ⟨hb, hcontent, hout⟩ := hR
  have hlen : ∀ len, op = .retrieveAsString len → len ≤ s.1.readableBytes := by
    rintro len rfl
    exact hop
  obtain ⟨t, ht, hwf, hqueue⟩ := next_eq_queueStep hb hlen
  rw [hop.received, ← hcontent, ← hout] at hqueue
  exact ⟨t, _, ht, congrArg some hqueue, hwf, rfl, rfl⟩

/-- Every operation but `retrieveAsString` is defined on a well-formed buffer. -/
theorem next_defined {s : Buffer × List Output} {op : BufferOp} (hb : s.1.WellFormed)
    (hop : ∀ len, op ≠ .retrieveAsString len) :
    ∃ t, bufferMachine.next s op = some t ∧ t.1.WellFormed := by
  obtain ⟨t, ht, hwf, -⟩ := next_eq_queueStep hb fun len h => absurd h (hop len)
  exact ⟨t, ht, hwf⟩

/-- An operation that is defined leaves a well-formed buffer, whatever its
argument. -/
theorem wellFormed_next {s t : Buffer × List Output} {op : BufferOp} (hb : s.1.WellFormed)
    (h : bufferMachine.next s op = some t) : t.1.WellFormed := by
  by_cases hop : ∃ len, op = .retrieveAsString len
  · obtain ⟨len, rfl⟩ := hop
    obtain ⟨⟨str, b⟩, hstr, ht⟩ := Option.bind_eq_some_iff.mp h
    obtain ⟨result, -, hb'⟩ := Option.bind_eq_some_iff.mp hstr
    obtain ⟨rfl, rfl⟩ := Prod.mk.inj (Option.some.inj hb')
    obtain rfl := Option.some.inj ht
    exact hb.retrieve len
  · obtain ⟨t', ht', hwf⟩ := next_defined hb (not_exists.mp hop)
    obtain rfl := Option.some.inj (h.symm.trans ht')
    exact hwf

/-! ### Histories -/

/-- **A `Buffer` is a byte queue.**  From a fresh buffer of any initial size,
every admissible history of operations is defined, leaves the readable bytes
that the queue holds after the same history, and hands out the same strings and
the same offers to `::write`. -/
theorem buffer_refines_queue (initialSize : Nat) (ops : List BufferOp)
    (h : bufferMachine.Along Admissible (Buffer.new initialSize, []) ops) :
    ∃ b out, bufferMachine.run (Buffer.new initialSize, []) ops = some (b, out) ∧
      queueMachine.run ([], []) ops = some (b.readable, out) := by
  obtain ⟨⟨b, out⟩, ⟨q, qout⟩, hb, hq, hR⟩ :=
    Machine.run_lockstep (N := queueMachine) (R := Represents)
      (fun s q op hR hop => represents_step hR hop) h (represents_new initialSize)
  obtain ⟨-, hread, hout⟩ := hR
  simp only at hread hout
  subst hread hout
  exact ⟨b, qout, hb, hq⟩

/-- A history through both branches of `makeSpace` and a short read. -/
theorem buffer_refines_queue_growth :
    ∃ b out, bufferMachine.run (Buffer.new 4, [])
        [.append [1, 2, 3, 4], .retrieve 2, .append [5, 6], .append [7],
          .retrieveAsString 3, .writeFd (.accept 1), .readFd (.deliver [8])]
        = some (b, out) ∧
      queueMachine.run ([], [])
        [.append [1, 2, 3, 4], .retrieve 2, .append [5, 6], .append [7],
          .retrieveAsString 3, .writeFd (.accept 1), .readFd (.deliver [8])]
        = some (b.readable, out) := by
  have hfit : bufferMachine.Along Admissible (Buffer.new 4, [])
      [.append [1, 2, 3, 4], .retrieve 2, .append [5, 6], .append [7],
        .retrieveAsString 3, .writeFd (.accept 1)] := by decide +kernel
  -- the read is not evaluated: a byte always fits
  have hread : ∀ s, bufferMachine.Along Admissible s [.readFd (.deliver [8])] :=
    fun s => ⟨le_trans (by decide) s.1.extrabufSize_le_iovRoom, fun _ _ => Machine.along_nil⟩
  exact buffer_refines_queue 4 _ (Machine.along_append.mpr ⟨hfit, fun s _ => hread s⟩)

/-! ### Asking for more than there is -/

/-- What `retrieveAsString(len)` should do: return the first readable bytes, as many
as there are and at most `len`, consume those, and return the same string for every
buffer with this content. -/
structure OnlyReadable (b : Buffer) (len : Nat) : Prop where
  returned : ∃ b', b.retrieveAsString len = some (b.readable.take (min len b.readableBytes), b')
  consumed : ∀ s b', b.retrieveAsString len = some (s, b') →
    b'.readable = b.readable.drop s.length
  same : ∀ b₂ out₂, bufferMachine.Reachable (b₂, out₂) → b₂.readable = b.readable →
    (b₂.retrieveAsString len).map Prod.fst = (b.retrieveAsString len).map Prod.fst

theorem wellFormed_of_reachable {b : Buffer} {out : List Output}
    (h : bufferMachine.Reachable (b, out)) : b.WellFormed := by
  refine h.invariant (I := fun s => s.1.WellFormed) ?_ fun s op t hb ht => wellFormed_next hb ht
  rintro s ⟨n, rfl⟩
  exact Buffer.wellFormed_new n

/-- A string of `len` bytes comes back, whatever is readable. -/
theorem length_retrieveAsString {b b' : Buffer} {len : Nat} {s : List Byte}
    (h : b.retrieveAsString len = some (s, b')) : s.length = len := by
  obtain ⟨result, hpeek, h⟩ := Option.bind_eq_some_iff.mp h
  obtain ⟨rfl, -⟩ := Prod.mk.inj (Option.some.inj h)
  obtain ⟨hfit, hslice⟩ := Option.ite_none_right_eq_some.mp hpeek
  obtain rfl := Option.some.inj hslice
  rw [Segment.length_slice hfit]
  omega

/-- **`retrieveAsString` hands out readable bytes only if that many are readable.**  On
every buffer that some history leaves, it does what it should for exactly the lengths
up to `readableBytes()`; for a larger one the string runs on into bytes that were
consumed before, or past the vector. -/
theorem retrieveAsString_onlyReadable_iff {b : Buffer} {out : List Output}
    (h : bufferMachine.Reachable (b, out)) (len : Nat) :
    OnlyReadable b len ↔ len ≤ b.readableBytes := by
  have hb := wellFormed_of_reachable h
  have hlength := hb.length_readable
  constructor
  · intro hgood
    obtain ⟨b', hb'⟩ := hgood.returned
    have hlen := length_retrieveAsString hb'
    rw [List.length_take] at hlen
    omega
  · intro hle
    have hstr := hb.retrieveAsString hle
    refine ⟨⟨b.retrieve len, by rw [hstr, Nat.min_eq_left hle]⟩, ?_, ?_⟩
    · intro s b' h'
      obtain ⟨rfl, rfl⟩ := Prod.mk.inj (Option.some.inj (hstr.symm.trans h'))
      rw [hb.readable_retrieve, List.length_take, Nat.min_eq_left (by omega)]
    · intro b₂ out₂ h₂ hread
      have hb₂ := wellFormed_of_reachable h₂
      have hle₂ : len ≤ b₂.readableBytes := by
        rwa [← hb₂.length_readable, hread, hlength]
      rw [hb₂.retrieveAsString hle₂, hstr, hread]
      rfl

/-- `append("secret")`, `retrieveAll()`, `append("hi")`. -/
def hiAfterSecret : List BufferOp :=
  [.append [115, 101, 99, 114, 101, 116], .retrieveAll, .append [104, 105]]

theorem hiAfterSecret_run :
    ∃ b, bufferMachine.run (Buffer.new 16, []) hiAfterSecret = some (b, []) ∧
      b.readable = [104, 105] ∧
      b.retrieveAsString 6 = some ([104, 105, 99, 114, 101, 116], b.retrieveAll) :=
  ⟨_, rfl, rfl, rfl⟩

theorem retrieveAsString_two :
    ∃ b, bufferMachine.Reachable (b, []) ∧ OnlyReadable b 2 := by
  obtain ⟨b, hrun, hread, -⟩ := hiAfterSecret_run
  have hreach : bufferMachine.Reachable (b, []) := ⟨_, _, ⟨16, rfl⟩, hrun⟩
  have hle : 2 ≤ b.readableBytes := by
    rw [← (wellFormed_of_reachable hreach).length_readable, hread]
    rfl
  exact ⟨b, hreach, (retrieveAsString_onlyReadable_iff hreach 2).mpr hle⟩

/-- With "hi" readable, `retrieveAsString(6)` returns "hicret". -/
theorem retrieveAsString_six :
    ∃ b, bufferMachine.Reachable (b, []) ∧
      b.retrieveAsString 6 = some ([104, 105, 99, 114, 101, 116], b.retrieveAll) ∧
      ¬ OnlyReadable b 6 := by
  obtain ⟨b, hrun, hread, hstr⟩ := hiAfterSecret_run
  refine ⟨b, ⟨_, _, ⟨16, rfl⟩, hrun⟩, hstr, ?_⟩
  intro hgood
  obtain ⟨b', hb'⟩ := hgood.returned
  rw [hread, hstr] at hb'
  obtain ⟨hleak, -⟩ := Prod.mk.inj (Option.some.inj hb')
  have hshort : 6 ≤ 2 := by
    calc 6 = (List.take (min 6 b.readableBytes) [(104 : Byte), 105]).length :=
          congrArg List.length hleak
      _ ≤ 2 := List.length_take_le' _ _
  omega

end Mymuduo
