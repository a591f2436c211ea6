/-
Mymuduo/BufferGrowth.lean

How long the vector of a `Buffer` gets.

`makeSpace` grows the vector behind the writer index and does not reclaim the bytes in
front of the readable ones.  It grows only when the free bytes are too few, and then
the bytes in front are too few as well: the new vector is at most twice as long as the
readable bytes and the bytes asked for (`WellFormed.length_ensure`).  A history of
any length is then bounded by its largest such sum (`buffer_growth_bounded`), however
many bytes have gone through.
-/
import Mymuduo.BufferBounds

namespace Mymuduo

open Transition

/-- The backlog of an operation: the readable bytes and those requested or
received. -/
def BufferOp.load (b : Buffer) : BufferOp → Nat
  | .append data => b.readableBytes + data.length
  | .ensureWriteableBytes len => b.readableBytes + len
  | .readFd k => b.readableBytes + (readv k b.iovRoom).bytes.length
  | .retrieve _ | .retrieveAll | .retrieveAsString _ | .retrieveAllAsString | .writeFd _ => 0

/-- The largest backlog of a history. -/
def peakBacklog (s : Buffer × List Output) (ops : List BufferOp) : Nat :=
  bufferMachine.peak (fun s op => op.load s.1) s ops

/-- The length that a backlog accounts for. -/
def grown (backlog : Nat) : Nat := 2 * backlog + kCheapPrepend - 1

theorem grown_monotone : Monotone grown := by
  intro m n h
  simp only [grown]
  omega

theorem le_grown (readable n : Nat) :
    readable + 2 * n + kCheapPrepend - 1 ≤ grown (readable + n) := by
  simp only [grown]
  omega

namespace Buffer

variable {b b' : Buffer} {len : Nat} {data : List Byte} {k : ReadvResult}

/-! ### One operation -/

/-- The vector grows only if the bytes in front of the readable ones are fewer than
those asked for and the prepend area. -/
theorem WellFormed.length_ensure (hb : b.WellFormed)
    (h : b.ensureWriteableBytes len = some b') :
    b'.buffer_.length ≤ max b.buffer_.length (b.readableBytes + 2 * len + kCheapPrepend - 1) := by
  have hr := hb.reader_le
  unfold Buffer.ensureWriteableBytes at h
  split at h
  · unfold Buffer.makeSpace at h
    split at h
    · rename_i hgrow
      obtain rfl := Option.some.inj h
      apply le_max_of_le_right
      rw [length_resize]
      simp only [prependableBytes, readableBytes] at hgrow ⊢
      omega
    · obtain ⟨buf, hbuf, hb'⟩ := Option.bind_eq_some_iff.mp h
      obtain rfl := Option.some.inj hb'
      exact le_max_of_le_left (length_stdCopy hbuf).le
  · obtain rfl := Option.some.inj h
    exact le_max_left _ _

theorem WellFormed.length_append (hb : b.WellFormed) (h : b.append data = some b') :
    b'.buffer_.length ≤
      max b.buffer_.length (b.readableBytes + 2 * data.length + kCheapPrepend - 1) := by
  obtain ⟨b₁, hensure, h⟩ := Option.bind_eq_some_iff.mp h
  obtain ⟨buf, hbuf, h⟩ := Option.bind_eq_some_iff.mp h
  obtain rfl := Option.some.inj h
  show buf.length ≤ _
  rw [Segment.length_blit hbuf]
  exact hb.length_ensure hensure

/-- A read that spills grows the vector by the spilled bytes only, with the others
readable by then. -/
theorem WellFormed.length_readFd (hb : b.WellFormed) {saveErrno : Errno} {r : ReadFd}
    (h : b.readFd k saveErrno = some r) :
    r.buffer.buffer_.length ≤ max b.buffer_.length
      (b.readableBytes + 2 * (readv k b.iovRoom).bytes.length + kCheapPrepend - 1) := by
  have hcases := readv_cases k b.iovRoom
  unfold Buffer.readFd at h
  generalize readv k b.iovRoom = call at h hcases ⊢
  obtain ⟨buf, hbuf, h⟩ := Option.bind_eq_some_iff.mp h
  obtain ⟨extrabuf, -, h⟩ := Option.bind_eq_some_iff.mp h
  have hlength : buf.length = b.buffer_.length := Segment.length_blit hbuf
  split at h
  · obtain rfl := Option.some.inj h
    exact le_max_of_le_left hlength.le
  · split at h
    · obtain rfl := Option.some.inj h
      exact le_max_of_le_left hlength.le
    · rename_i hnonneg hspill
      have hret : call.ret = call.bytes.length := by
        rcases hcases with ⟨hneg, -⟩ | hret
        · omega
        · exact hret
      have hfit : (call.bytes.take b.writableBytes).length ≤ b.writableBytes := by simp
      obtain ⟨buf', hbuf', -, hstore⟩ := hb.store hfit
      obtain rfl : buf = buf' := Option.some.inj (hbuf.symm.trans hbuf')
      have hw := hb.writer_le
      have hr := hb.reader_le
      obtain ⟨hfull, -⟩ := hstore buf.length (by
        simp only [List.length_take, writableBytes] at hspill ⊢
        omega)
      obtain ⟨b', happend, h⟩ := Option.bind_eq_some_iff.mp h
      obtain rfl := Option.some.inj h
      -- the vector is full when the rest is appended
      have hrest := hfull.length_append happend
      have hlast := List.length_take_le (call.ret.toNat - b.writableBytes) extrabuf
      simp only [readableBytes, writableBytes] at hrest hlast hspill ⊢
      omega

@[simp] theorem buffer_retrieve (len : Nat) : (b.retrieve len).buffer_ = b.buffer_ := by
  unfold retrieve
  split <;> rfl

theorem buffer_retrieveAsString {s : List Byte} (h : b.retrieveAsString len = some (s, b')) :
    b'.buffer_ = b.buffer_ := by
  obtain ⟨result, -, h⟩ := Option.bind_eq_some_iff.mp h
  obtain ⟨-, rfl⟩ := Prod.mk.inj (Option.some.inj h)
  exact buffer_retrieve len

end Buffer

variable {s t : Buffer × List Output} {op : BufferOp}

/-- An operation leaves a vector that is no longer than it was or than its backlog
accounts for. -/
theorem length_next (hb : s.1.WellFormed) (h : bufferMachine.next s op = some t) :
    t.1.buffer_.length ≤ max s.1.buffer_.length (grown (op.load s.1)) := by
  cases op with
  | append data =>
      obtain ⟨b', hb', ht⟩ := Option.bind_eq_some_iff.mp h
      obtain rfl := Option.some.inj ht
      exact (hb.length_append hb').trans (max_le_max_left _ (le_grown _ _))
  | ensureWriteableBytes len =>
      obtain ⟨b', hb', ht⟩ := Option.bind_eq_some_iff.mp h
      obtain rfl := Option.some.inj ht
      exact (hb.length_ensure hb').trans (max_le_max_left _ (le_grown _ _))
  | readFd k =>
      obtain ⟨r, hr, ht⟩ := Option.bind_eq_some_iff.mp h
      obtain rfl := Option.some.inj ht
      exact (hb.length_readFd hr).trans (max_le_max_left _ (le_grown _ _))
  | retrieve len =>
      obtain rfl := Option.some.inj h
      apply le_max_of_le_left
      rw [Buffer.buffer_retrieve]
  | retrieveAll =>
      obtain rfl := Option.some.inj h
      exact le_max_left _ _
  | retrieveAsString len =>
      obtain ⟨⟨str, b'⟩, hstr, ht⟩ := Option.bind_eq_some_iff.mp h
      obtain rfl := Option.some.inj ht
      apply le_max_of_le_left
      rw [Buffer.buffer_retrieveAsString hstr]
  | retrieveAllAsString =>
      obtain ⟨⟨str, b'⟩, hstr, ht⟩ := Option.bind_eq_some_iff.mp h
      obtain rfl := Option.some.inj ht
      apply le_max_of_le_left
      rw [Buffer.buffer_retrieveAsString hstr]
  | writeFd k =>
      obtain rfl := Option.some.inj h
      exact le_max_left _ _

/-! ### Histories -/

/-- **The vector of a `Buffer` stays within twice the peak backlog.**  A history
without `retrieveAsString` is defined.  In every history, defined or not, no operation
leaves a vector that is longer than the first one and than twice the largest backlog of
an operation, and the prepend area. -/
theorem buffer_growth_bounded (initialSize : Nat) (ops : List BufferOp) :
    ((∀ op ∈ ops, ∀ len, op ≠ .retrieveAsString len) →
      ∃ t, bufferMachine.run (Buffer.new initialSize, []) ops = some t) ∧
    bufferMachine.Every (fun _ _ t => t.1.buffer_.length ≤ max (kCheapPrepend + initialSize)
        (2 * peakBacklog (Buffer.new initialSize, []) ops + kCheapPrepend - 1))
      (Buffer.new initialSize, []) ops := by
  have hnew : (Buffer.new initialSize).WellFormed := Buffer.wellFormed_new initialSize
  constructor
  · intro hops
    have hdefined : bufferMachine.Along (fun _ op => ∀ len, op ≠ .retrieveAsString len)
        (Buffer.new initialSize, []) ops := Machine.along_of_forall fun _ => hops
    obtain ⟨t, ht, -⟩ := Machine.run_progress (I := fun s => s.1.WellFormed)
      (fun s op hb hop => next_defined hb hop) hdefined hnew
    exact ⟨t, ht⟩
  · refine Machine.every_le_of_peak (I := fun s => s.1.WellFormed) grown_monotone
      (fun s op t hb h => wellFormed_next hb h) (fun s op t hb h => length_next hb h) hnew ?_ ?_
    · apply le_max_of_le_left
      simp [Buffer.new]
    · exact le_max_right _ _

/-- Seven bytes go through a buffer of four: the vector grows to 13, below the bound. -/
theorem buffer_growth_bounded_flow :
    (∃ t, bufferMachine.run (Buffer.new 4, [])
      [.append [1, 2, 3], .retrieve 1, .append [4, 5], .append [6], .retrieveAllAsString,
        .readFd (.deliver [7])] = some t) ∧
    bufferMachine.Every (fun _ _ t => t.1.buffer_.length ≤ max 12 17) (Buffer.new 4, [])
      [.append [1, 2, 3], .retrieve 1, .append [4, 5], .append [6], .retrieveAllAsString,
        .readFd (.deliver [7])] := by
  have hpeak : peakBacklog (Buffer.new 4, [])
      [.append [1, 2, 3], .retrieve 1, .append [4, 5], .append [6], .retrieveAllAsString,
        .readFd (.deliver [7])] = 5 := by decide +kernel
  obtain ⟨hdefined, hbounded⟩ := buffer_growth_bounded 4
    [.append [1, 2, 3], .retrieve 1, .append [4, 5], .append [6], .retrieveAllAsString,
      .readFd (.deliver [7])]
  rw [hpeak] at hbounded
  exact ⟨hdefined (by simp), hbounded⟩

end Mymuduo
