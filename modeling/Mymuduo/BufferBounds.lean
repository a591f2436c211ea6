/-
Mymuduo/BufferBounds.lean

Where the operations of a `Buffer` touch `buffer_`.

`BufferOp.accesses` lists, for one operation, the index ranges that the source
reads or writes, each with the buffer as it is at that moment;
`BufferOp.makeSpaceCalls` lists the calls of `makeSpace` with their arguments.
`readFd` first moves the writer index to the end of the vector and then calls
`append`, so both lists go through that intermediate buffer (`Buffer.spill`).
-/
import Mymuduo.ByteQueue

namespace Mymuduo

open Transition Segment

/-- The indices from `lo` on and below `hi` are read or written while the
buffer is `buffer`. -/
structure Access where
  buffer : Buffer
  lo : Nat
  hi : Nat
  deriving DecidableEq, Repr

/-- The range lies inside `buffer_`. -/
structure Access.Inside (a : Access) : Prop where
  ordered : a.lo ≤ a.hi
  bounded : a.hi ≤ a.buffer.buffer_.length

namespace Buffer

/-! ### The ranges -/

/-- `makeSpace` moves the readable bytes to the front instead of growing the
vector. -/
def compacts (b : Buffer) (len : Nat) : Bool :=
  decide (len + kCheapPrepend ≤ b.writableBytes + b.prependableBytes)

def makeSpaceAccesses (b : Buffer) (len : Nat) : List Access :=
  if b.compacts len then
    -- the source and the destination of `std::copy`
    [⟨b, b.readerIndex_, b.writerIndex_⟩, ⟨b, kCheapPrepend, kCheapPrepend + b.readableBytes⟩]
  else []

def ensureCalls (b : Buffer) (len : Nat) : List (Buffer × Nat) :=
  if b.writableBytes < len then [(b, len)] else []

def ensureAccesses (b : Buffer) (len : Nat) : List Access :=
  (b.ensureCalls len).flatMap fun call => call.1.makeSpaceAccesses call.2

/-- The store of `append` goes to the buffer that `ensureWriteableBytes`
leaves. -/
def appendAccesses (b : Buffer) (data : List Byte) : List Access :=
  b.ensureAccesses data.length ++
    (b.ensureWriteableBytes data.length).elim [] fun b =>
      [⟨b, b.writerIndex_, b.writerIndex_ + data.length⟩]

/-- The call of `append` in `readFd`, if the read spilled into `extrabuf`: the
buffer it is made on and the bytes. -/
def spill (b : Buffer) (k : ReadvResult) : Option (Buffer × List Byte) := do
  let call := readv k b.iovRoom
  let buf ← blit b.buffer_ b.writerIndex_ (call.bytes.take b.writableBytes)
  let extrabuf ← blit (List.replicate extrabufSize 0) 0 (call.bytes.drop b.writableBytes)
  if call.ret ≤ b.writableBytes then none
  else
    return ({ b with buffer_ := buf, writerIndex_ := buf.length },
      extrabuf.take (call.ret.toNat - b.writableBytes))

def readFdAccesses (b : Buffer) (k : ReadvResult) : List Access :=
  -- the first iovec, all of which the kernel may fill
  ⟨b, b.writerIndex_, b.writerIndex_ + b.writableBytes⟩ ::
    (b.spill k).elim [] fun call => call.1.appendAccesses call.2

end Buffer

namespace BufferOp

/-- The ranges of `buffer_` that an operation touches. -/
def accesses (b : Buffer) : BufferOp → List Access
  | .append data => b.appendAccesses data
  | .ensureWriteableBytes len => b.ensureAccesses len
  -- only the indices move
  | .retrieve _ => []
  | .retrieveAll => []
  | .retrieveAsString len => [⟨b, b.readerIndex_, b.readerIndex_ + len⟩]
  | .retrieveAllAsString => [⟨b, b.readerIndex_, b.readerIndex_ + b.readableBytes⟩]
  | .readFd k => b.readFdAccesses k
  | .writeFd _ => [⟨b, b.readerIndex_, b.readerIndex_ + b.readableBytes⟩]

/-- The calls of `makeSpace` during an operation. -/
def makeSpaceCalls (b : Buffer) : BufferOp → List (Buffer × Nat)
  | .append data => b.ensureCalls data.length
  | .ensureWriteableBytes len => b.ensureCalls len
  | .readFd k => (b.spill k).elim [] fun call => call.1.ensureCalls call.2.length
  | .retrieve _ | .retrieveAll | .retrieveAsString _ | .retrieveAllAsString | .writeFd _ => []

end BufferOp

namespace Buffer.WellFormed

variable {b b' : Buffer} {len : Nat} {data : List Byte} {k : ReadvResult}

/-! ### Making room -/

/-- `makeSpace` is called only when the writable part is too small; the free
bytes in front then exceed the prepend area if they suffice. -/
theorem reader_of_compacts (hlt : b.writableBytes < len) (h : b.compacts len = true) :
    kCheapPrepend < b.readerIndex_ := by
  have hroom : len + kCheapPrepend ≤ b.writableBytes + b.readerIndex_ := of_decide_eq_true h
  omega

theorem ensureCalls_reader :
    ∀ call ∈ b.ensureCalls len, call.1.compacts call.2 = true →
      kCheapPrepend < call.1.readerIndex_ := by
  intro call hcall hc
  simp only [ensureCalls] at hcall
  split at hcall
  · obtain rfl := List.mem_singleton.mp hcall
    exact reader_of_compacts ‹_› hc
  · cases hcall

theorem makeSpace_inside (hb : b.WellFormed) : ∀ a ∈ b.makeSpaceAccesses len, a.Inside := by
  obtain ⟨hp, hr, hw, -⟩ := hb
  intro a ha
  simp only [makeSpaceAccesses] at ha
  split at ha
  · simp only [List.mem_cons, List.not_mem_nil, or_false] at ha
    rcases ha with rfl | rfl
    · exact ⟨hr, hw⟩
    · exact ⟨Nat.le_add_right _ _, by simp only [readableBytes]; omega⟩
  · cases ha

theorem ensure_inside (hb : b.WellFormed) : ∀ a ∈ b.ensureAccesses len, a.Inside := by
  intro a ha
  simp only [ensureAccesses, ensureCalls] at ha
  split at ha
  · exact hb.makeSpace_inside a (by simpa using ha)
  · simp at ha

/-! ### Putting bytes in -/

theorem append_inside (hb : b.WellFormed) : ∀ a ∈ b.appendAccesses data, a.Inside := by
  obtain ⟨b', h, hb', -, hroom⟩ := hb.ensureWriteableBytes data.length
  intro a ha
  simp only [appendAccesses, h, Option.elim_some, List.mem_append, List.mem_singleton] at ha
  rcases ha with ha | rfl
  · exact hb.ensure_inside a ha
  · have hw := hb'.writer_le
    exact ⟨Nat.le_add_right _ _, by simp only [writableBytes] at hroom ⊢; omega⟩

/-- The intermediate buffer of `readFd` is well formed, and the rest of the
call is an `append` to it. -/
theorem spill (hb : b.WellFormed) (saveErrno : Errno) (h : b.spill k = some (b', data)) :
    b'.WellFormed ∧ (b.readFd k saveErrno).map (·.buffer) = b'.append data := by
  have hcases := readv_cases k b.iovRoom
  unfold Buffer.readFd
  unfold Buffer.spill at h
  generalize readv k b.iovRoom = call at hcases h ⊢
  have hfit : (call.bytes.take b.writableBytes).length ≤ b.writableBytes := by simp
  obtain ⟨buf, hbuf, hlen, hstore⟩ := hb.store hfit
  simp only [hbuf, Option.bind_eq_bind, Option.bind_some] at h ⊢
  obtain ⟨extrabuf, hextra, h⟩ := Option.bind_eq_some_iff.mp h
  simp only [hextra, Option.bind_some]
  split at h
  · cases h
  · -- more was delivered than the writable part holds, so it is full
    rename_i hgt
    obtain ⟨rfl, rfl⟩ := Prod.mk.inj (Option.some.inj h)
    have hw := hb.writer_le
    have hret : call.ret = call.bytes.length := by
      rcases hcases with ⟨hneg, -⟩ | hret
      · omega
      · exact hret
    refine ⟨(hstore buf.length ?_).1, ?_⟩
    · simp only [List.length_take, writableBytes] at hgt ⊢
      omega
    · rw [if_neg (by omega), if_neg hgt]
      generalize Buffer.append _ _ = o
      cases o <;> rfl

theorem readFd_inside (hb : b.WellFormed) : ∀ a ∈ b.readFdAccesses k, a.Inside := by
  intro a ha
  rcases List.mem_cons.mp ha with rfl | ha
  · have hw := hb.writer_le
    exact ⟨Nat.le_add_right _ _, by simp only [writableBytes]; omega⟩
  · cases hs : b.spill k with
    | none => simp [hs] at ha
    | some call =>
        rw [hs, Option.elim_some] at ha
        exact (hb.spill 0 hs).1.append_inside a ha

theorem peek_inside (hb : b.WellFormed) (h : len ≤ b.readableBytes) :
    Access.Inside ⟨b, b.readerIndex_, b.readerIndex_ + len⟩ := by
  have hw := hb.writer_le
  have hr := hb.reader_le
  exact ⟨Nat.le_add_right _ _, by simp only [readableBytes] at h ⊢; omega⟩

end Buffer.WellFormed

/-! ### One operation -/

/-- What an operation should do: leave a well-formed buffer with the room asked
for, stay inside `buffer_`, and compact only past the prepend area. -/
structure Bounded (s : Buffer × List Output) (op : BufferOp) (t : Buffer × List Output) :
    Prop where
  wf : t.1.WellFormed
  room : ∀ len, op = .ensureWriteableBytes len → len ≤ t.1.writableBytes
  inside : ∀ a ∈ op.accesses s.1, a.Inside
  compacts : ∀ call ∈ op.makeSpaceCalls s.1, call.1.compacts call.2 = true →
    kCheapPrepend < call.1.readerIndex_

variable {s t : Buffer × List Output} {op : BufferOp}

theorem BufferOp.accesses_inside (hb : s.1.WellFormed) (hop : Admissible s op) :
    ∀ a ∈ op.accesses s.1, a.Inside := by
  cases op with
  | append data => exact hb.append_inside
  | ensureWriteableBytes len => exact hb.ensure_inside
  | retrieve len => exact nofun
  | retrieveAll => exact nofun
  | retrieveAsString len => simpa [accesses] using hb.peek_inside hop
  | retrieveAllAsString => simpa [accesses] using hb.peek_inside (Nat.le_refl _)
  | readFd k => exact hb.readFd_inside
  | writeFd k => simpa [accesses] using hb.peek_inside (Nat.le_refl _)

theorem BufferOp.makeSpaceCalls_reader :
    ∀ call ∈ op.makeSpaceCalls s.1, call.1.compacts call.2 = true →
      kCheapPrepend < call.1.readerIndex_ := by
  cases op with
  | append data => exact Buffer.WellFormed.ensureCalls_reader
  | ensureWriteableBytes len => exact Buffer.WellFormed.ensureCalls_reader
  | readFd k =>
      simp only [makeSpaceCalls]
      cases s.1.spill k with
      | none => exact nofun
      | some call => exact Buffer.WellFormed.ensureCalls_reader
  | _ => exact nofun

theorem ensureWriteableBytes_room {len : Nat} (hb : s.1.WellFormed)
    (h : bufferMachine.next s (.ensureWriteableBytes len) = some t) :
    len ≤ t.1.writableBytes := by
  obtain ⟨b', hb', -, -, hroom⟩ := hb.ensureWriteableBytes len
  simp only [bufferMachine, bufferStep, hb', Option.bind_eq_bind, Option.bind_some] at h
  obtain rfl := Option.some.inj h
  exact hroom

/-- An admissible operation on a well-formed buffer is bounded. -/
theorem bounded_step (hb : s.1.WellFormed) (hop : Admissible s op)
    (h : bufferMachine.next s op = some t) : Bounded s op t where
  wf := by
    have hR : Represents s (s.1.readable, s.2) := ⟨hb, rfl, rfl⟩
    obtain ⟨s', _, hs', -, hR'⟩ := represents_step hR hop
    obtain rfl := Option.some.inj (hs'.symm.trans h)
    exact hR'.wf
  room := by
    rintro len rfl
    exact ensureWriteableBytes_room hb h
  inside := BufferOp.accesses_inside hb hop
  compacts := BufferOp.makeSpaceCalls_reader

/-! ### Histories -/

/-- **Every operation of a `Buffer` stays inside its vector.**  From a fresh
buffer of any size, every admissible history is defined; each of its operations
leaves a well-formed buffer, and the room it was asked for, touches only indices
of `buffer_`, and compacts only when the reader index is past the prepend
area. -/
theorem buffer_bounded (initialSize : Nat) (ops : List BufferOp)
    (h : bufferMachine.Along Admissible (Buffer.new initialSize, []) ops) :
    (∃ t, bufferMachine.run (Buffer.new initialSize, []) ops = some t) ∧
      bufferMachine.Every Bounded (Buffer.new initialSize, []) ops := by
  constructor
  · obtain ⟨t, -, ht, -⟩ :=
      Machine.run_lockstep (N := queueMachine) (R := Represents)
        (fun s q op hR hop => represents_step hR hop) h (represents_new initialSize)
    exact ⟨t, ht⟩
  · refine Machine.every_of_along (I := fun s => s.1.WellFormed) ?_ ?_ h
      (Buffer.wellFormed_new initialSize)
    · exact fun s op t hb hop ht => bounded_step hb hop ht
    · exact fun s op t hb hop ht => (bounded_step hb hop ht).wf

/-- A read that spills into `extrabuf` and grows the vector, between a
compaction and a full retrieval. -/
theorem buffer_bounded_spill :
    bufferMachine.Every Bounded (Buffer.new 4, [])
      [.append [1, 2, 3, 4], .retrieve 3, .append [5, 6], .readFd (.deliver [7, 8, 9]),
        .retrieve 9] := by
  refine (buffer_bounded 4 _ (Machine.along_of_forall fun s op hop => ?_)).2
  -- three bytes fit whatever the state, so nothing is evaluated
  have hread : Admissible s (.readFd (.deliver [7, 8, 9])) :=
    le_trans (by decide) s.1.extrabufSize_le_iovRoom
  fin_cases hop <;> first | exact hread | trivial

end Mymuduo
