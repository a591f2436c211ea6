/-
Mymuduo/Buffer.lean

`Buffer` (Buffer.h, Buffer.cc): one vector, a reader index and a writer index.

Sizes are exact here.  An operation returns `none` where the source would have
undefined behaviour: an element access outside `buffer_`, or a `std::copy` whose
destination lies inside its source range.  `Buffer.WellFormed` is what the class
keeps between calls; each operation has one lemma saying that on a well-formed
buffer it is defined, what it leaves, and that the result is well formed again.
`ValidBuffer` bundles the two, and its operations are total.

`Buffer::readFd` is declared to return `ssize_t` but has no `return` statement;
the field `ret` of its result is therefore `none` on every path.
-/
import Mymuduo.Segment
import Mymuduo.Syscall

namespace Mymuduo

open Segment

def kCheapPrepend : Nat := 8
def kInitialSize : Nat := 1024

/-- `sizeof extrabuf` in `Buffer::readFd`. -/
def extrabufSize : Nat := 65536

structure Buffer where
  buffer_ : List Byte
  readerIndex_ : Nat
  writerIndex_ : Nat
  deriving DecidableEq, Repr

/-- What a call of `readFd` leaves behind: the buffer, `*saveErrno` and the
returned value (`none`: control flows off the end of the function). -/
structure ReadFd where
  buffer : Buffer
  saveErrno : Errno
  ret : Option Int
  deriving DecidableEq, Repr

namespace Buffer

/-! ### The class -/

/-- `explicit Buffer(size_t initialSize)`. -/
def new (initialSize : Nat) : Buffer where
  buffer_ := List.replicate (kCheapPrepend + initialSize) 0
  readerIndex_ := kCheapPrepend
  writerIndex_ := kCheapPrepend

def readableBytes (b : Buffer) : Nat := b.writerIndex_ - b.readerIndex_

def writableBytes (b : Buffer) : Nat := b.buffer_.length - b.writerIndex_

def prependableBytes (b : Buffer) : Nat := b.readerIndex_

/-- The bytes between the two indices. -/
def readable (b : Buffer) : List Byte := slice b.buffer_ b.readerIndex_ b.writerIndex_

/-- `std::string(peek(), len)`. -/
def peek (b : Buffer) (len : Nat) : Option (List Byte) :=
  if b.readerIndex_ + len ≤ b.buffer_.length then
    some (slice b.buffer_ b.readerIndex_ (b.readerIndex_ + len))
  else none

def retrieveAll (b : Buffer) : Buffer :=
  { b with readerIndex_ := kCheapPrepend, writerIndex_ := kCheapPrepend }

def retrieve (b : Buffer) (len : Nat) : Buffer :=
  if len < b.readableBytes then { b with readerIndex_ := b.readerIndex_ + len }
  else b.retrieveAll

def retrieveAsString (b : Buffer) (len : Nat) : Option (List Byte × Buffer) := do
  let result ← b.peek len
  return (result, b.retrieve len)

def retrieveAllAsString (b : Buffer) : Option (List Byte × Buffer) :=
  b.retrieveAsString b.readableBytes

/-- `std::copy(begin() + first, begin() + last, begin() + dst)`. -/
def stdCopy (xs : List Byte) (first last dst : Nat) : Option (List Byte) :=
  if first ≤ dst ∧ dst < last then none else copyWithin xs first dst (last - first)

/-- `buffer_.resize(n)`. -/
def resize (xs : List Byte) (n : Nat) : List Byte :=
  xs.take n ++ List.replicate (n - xs.length) 0

def makeSpace (b : Buffer) (len : Nat) : Option Buffer :=
  if b.writableBytes + b.prependableBytes < len + kCheapPrepend then
    -- grow behind the writer index; the bytes in front stay where they are
    some { b with buffer_ := resize b.buffer_ (b.writerIndex_ + len) }
  else do
    let readable := b.readableBytes
    let buf ← stdCopy b.buffer_ b.readerIndex_ b.writerIndex_ kCheapPrepend
    return { buffer_ := buf, readerIndex_ := kCheapPrepend,
             writerIndex_ := kCheapPrepend + readable }

def ensureWriteableBytes (b : Buffer) (len : Nat) : Option Buffer :=
  if b.writableBytes < len then b.makeSpace len else some b

def append (b : Buffer) (data : List Byte) : Option Buffer := do
  let b ← b.ensureWriteableBytes data.length
  let buf ← blit b.buffer_ b.writerIndex_ data
  return { b with buffer_ := buf, writerIndex_ := b.writerIndex_ + data.length }

/-- `iovcnt` in `readFd`. -/
def iovcnt (b : Buffer) : Nat := if b.writableBytes < extrabufSize then 2 else 1

/-- The bytes the offered iovecs have room for. -/
def iovRoom (b : Buffer) : Nat :=
  b.writableBytes + if b.iovcnt = 2 then extrabufSize else 0

/-- `ssize_t Buffer::readFd(int fd, int *saveErrno)`.  `::readv` fills the
writable part of the vector first and `extrabuf` after it. -/
def readFd (b : Buffer) (k : ReadvResult) (saveErrno : Errno) : Option ReadFd := do
  let writable := b.writableBytes
  let call := readv k b.iovRoom
  let buf ← blit b.buffer_ b.writerIndex_ (call.bytes.take writable)
  let extrabuf ← blit (List.replicate extrabufSize 0) 0 (call.bytes.drop writable)
  let b := { b with buffer_ := buf }
  if call.ret < 0 then
    return { buffer := b, saveErrno := call.errno, ret := none }
  else if call.ret ≤ writable then
    return { buffer := { b with writerIndex_ := b.writerIndex_ + call.ret.toNat },
             saveErrno := saveErrno, ret := none }
  else
    -- the writable part is full, the rest came through `extrabuf`
    let b ← append { b with writerIndex_ := b.buffer_.length }
      (extrabuf.take (call.ret.toNat - writable))
    return { buffer := b, saveErrno := saveErrno, ret := none }

/-- `ssize_t Buffer::writeFd(int fd, int *saveErrno)`: the call made and what
`*saveErrno` holds after it. -/
def writeFd (b : Buffer) (k : WriteResult) (saveErrno : Errno) : WriteCall × Errno :=
  let call := write k b.readable
  (call, if call.ret < 0 then call.errno else saveErrno)

/-! ### Well-formed buffers -/

/-- What the class keeps between calls. -/
structure WellFormed (b : Buffer) : Prop where
  prepend_le : kCheapPrepend ≤ b.readerIndex_
  reader_le : b.readerIndex_ ≤ b.writerIndex_
  writer_le : b.writerIndex_ ≤ b.buffer_.length
  reset : b.readableBytes = 0 → b.readerIndex_ = kCheapPrepend

variable {b : Buffer}

theorem wellFormed_new (n : Nat) : (new n).WellFormed where
  prepend_le := Nat.le_refl _
  reader_le := Nat.le_refl _
  writer_le := by simp [new]
  reset := fun _ => rfl

@[simp] theorem readable_new (n : Nat) : (new n).readable = [] := slice_self _ _

theorem WellFormed.length_readable (hb : b.WellFormed) :
    b.readable.length = b.readableBytes :=
  length_slice hb.writer_le

theorem WellFormed.readableBytes_eq_zero (hb : b.WellFormed) :
    b.readableBytes = 0 ↔ b.readable = [] := by
  rw [← hb.length_readable, List.length_eq_zero_iff]

theorem WellFormed.peek_eq (hb : b.WellFormed) {len : Nat} (h : len ≤ b.readableBytes) :
    b.peek len = some (b.readable.take len) := by
  obtain ⟨_, hr, hw, _⟩ := hb
  have hfit : b.readerIndex_ + len ≤ b.buffer_.length := by
    simp only [readableBytes] at h; omega
  have hlen : b.readerIndex_ + len ≤ b.writerIndex_ := by
    simp only [readableBytes] at h; omega
  rw [peek, if_pos hfit, readable, slice_eq_take_drop, slice_eq_take_drop, List.take_take]
  congr 2
  omega

/-! ### Taking bytes out -/

theorem WellFormed.retrieveAll (hb : b.WellFormed) : b.retrieveAll.WellFormed where
  prepend_le := Nat.le_refl _
  reader_le := Nat.le_refl _
  writer_le := hb.prepend_le.trans (hb.reader_le.trans hb.writer_le)
  reset := fun _ => rfl

@[simp] theorem readable_retrieveAll : b.retrieveAll.readable = [] := slice_self _ _

theorem WellFormed.retrieve (hb : b.WellFormed) (len : Nat) :
    (b.retrieve len).WellFormed := by
  unfold Buffer.retrieve
  split
  · rename_i hlt
    obtain ⟨hp, hr, hw, _⟩ := hb
    simp only [readableBytes] at hlt
    exact ⟨by simp only; omega, by simp only; omega, hw,
      fun h => by simp only [readableBytes] at h; omega⟩
  · exact hb.retrieveAll

/-- `retrieve` drops from the front; asking for more than there is drops it
all. -/
theorem WellFormed.readable_retrieve (hb : b.WellFormed) (len : Nat) :
    (b.retrieve len).readable = b.readable.drop len := by
  unfold Buffer.retrieve
  split
  · exact (drop_slice _ _ _ _).symm
  · rename_i hge
    rw [readable_retrieveAll, List.drop_of_length_le]
    rw [hb.length_readable]
    omega

theorem WellFormed.retrieveAsString (hb : b.WellFormed) {len : Nat}
    (h : len ≤ b.readableBytes) :
    b.retrieveAsString len = some (b.readable.take len, b.retrieve len) := by
  simp [Buffer.retrieveAsString, hb.peek_eq h]

/-! ### Making room -/

theorem length_resize {xs : List Byte} {n : Nat} : (resize xs n).length = n := by
  simp [resize]; omega

theorem length_stdCopy {xs ys : List Byte} {first last dst : Nat}
    (h : stdCopy xs first last dst = some ys) : ys.length = xs.length :=
  length_copyWithin (Option.ite_none_left_eq_some.mp h).2

/-- The compaction branch moves the readable bytes to the front.  The reader
index is past the prepend area there, so the copy goes towards the front. -/
theorem WellFormed.stdCopy_eq (hb : b.WellFormed) (h : kCheapPrepend < b.readerIndex_) :
    stdCopy b.buffer_ b.readerIndex_ b.writerIndex_ kCheapPrepend
      = some (b.buffer_.take kCheapPrepend ++ b.readable ++
          b.buffer_.drop (kCheapPrepend + b.readableBytes)) := by
  obtain ⟨_, hr, hw, _⟩ := hb
  rw [stdCopy, if_neg (by omega), copyWithin_eq (Nat.le_of_lt h) (by omega), readable,
    slice_eq_take_drop]
  rfl

/-- `makeSpace`, called when the writable part is too small, keeps the content
and makes room. -/
theorem WellFormed.makeSpace (hb : b.WellFormed) {len : Nat} (hlt : b.writableBytes < len) :
    ∃ b', b.makeSpace len = some b' ∧ b'.WellFormed ∧ b'.readable = b.readable ∧
      len ≤ b'.writableBytes := by
  have hlen := hb.length_readable
  have ⟨hp, hr, hw, hz⟩ := hb
  unfold Buffer.makeSpace
  split
  · -- all the free bytes together are too few: the vector grows
    have hwlen : b.writerIndex_ ≤ (resize b.buffer_ (b.writerIndex_ + len)).length := by
      rw [length_resize]; omega
    refine ⟨_, rfl, ⟨hp, hr, hwlen, hz⟩, ?_, ?_⟩
    · have hle : b.writerIndex_ ≤ (b.buffer_.take (b.writerIndex_ + len)).length := by
        simp; omega
      simp only [readable, resize]
      rw [slice_append_left hle, slice, slice, List.take_take, Nat.min_eq_left (by omega)]
    · simp only [writableBytes, length_resize]; omega
  · -- the front is wide enough, which needs a reader index past the prepend area
    rename_i hge
    have hfront : kCheapPrepend < b.readerIndex_ := by
      simp only [writableBytes, prependableBytes] at hlt hge; omega
    rw [hb.stdCopy_eq hfront]
    simp only [writableBytes, prependableBytes, readableBytes] at hlt hge hlen ⊢
    refine ⟨_, rfl, ⟨Nat.le_refl _, Nat.le_add_right _ _, ?_, fun _ => rfl⟩, ?_, ?_⟩
    · simp [hlen]; omega
    · have h8 : kCheapPrepend ≤ b.buffer_.length := by omega
      have h : slice (b.buffer_.take kCheapPrepend ++ b.readable ++
            b.buffer_.drop (kCheapPrepend + b.readableBytes)) kCheapPrepend
            (kCheapPrepend + b.readable.length)
          = slice b.buffer_ kCheapPrepend kCheapPrepend ++ b.readable :=
        slice_take_append (Nat.le_refl kCheapPrepend) h8
      rw [slice_self, List.nil_append, hlen] at h
      exact h
    · simp [hlen]; omega

theorem WellFormed.ensureWriteableBytes (hb : b.WellFormed) (len : Nat) :
    ∃ b', b.ensureWriteableBytes len = some b' ∧ b'.WellFormed ∧
      b'.readable = b.readable ∧ len ≤ b'.writableBytes := by
  unfold Buffer.ensureWriteableBytes
  split
  · exact hb.makeSpace ‹_›
  · exact ⟨b, rfl, hb, rfl, by omega⟩

/-! ### Putting bytes in -/

/-- A block that fits the writable part, stored there and then counted as
readable. -/
theorem WellFormed.store (hb : b.WellFormed) {data : List Byte}
    (h : data.length ≤ b.writableBytes) :
    ∃ buf, blit b.buffer_ b.writerIndex_ data = some buf ∧
      buf.length = b.buffer_.length ∧
      ∀ w, w = b.writerIndex_ + data.length →
        WellFormed { b with buffer_ := buf, writerIndex_ := w } ∧
        readable { b with buffer_ := buf, writerIndex_ := w } = b.readable ++ data := by
  obtain ⟨hp, hr, hw, hz⟩ := hb
  have hfit : b.writerIndex_ + data.length ≤ b.buffer_.length := by
    simp only [writableBytes] at h; omega
  have hlen : (b.buffer_.take b.writerIndex_ ++ data ++
      b.buffer_.drop (b.writerIndex_ + data.length)).length = b.buffer_.length := by
    simp; omega
  refine ⟨_, blit_eq hfit, hlen, ?_⟩
  rintro w rfl
  refine ⟨⟨hp, by simp only; omega, by simp only [hlen]; omega, ?_⟩, slice_take_append hr hw⟩
  intro h0
  exact hz (by simp only [readableBytes] at h0 ⊢; omega)

/-- `append` adds the block behind the readable bytes. -/
theorem WellFormed.append (hb : b.WellFormed) (data : List Byte) :
    ∃ b', b.append data = some b' ∧ b'.WellFormed ∧ b'.readable = b.readable ++ data := by
  obtain ⟨b₁, h₁, hb₁, hread, hroom⟩ := hb.ensureWriteableBytes data.length
  obtain ⟨buf, hbuf, -, hstore⟩ := hb₁.store hroom
  obtain ⟨hwf, hnew⟩ := hstore _ rfl
  refine ⟨{ b₁ with buffer_ := buf, writerIndex_ := b₁.writerIndex_ + data.length }, ?_, hwf, ?_⟩
  · simp [Buffer.append, h₁, hbuf]
  · rw [hnew, hread]

/-! ### The socket -/

theorem iovRoom_le (b : Buffer) : b.iovRoom ≤ b.writableBytes + extrabufSize := by
  unfold iovRoom
  split <;> omega

/-- A full writable part leaves all of `extrabuf`. -/
theorem extrabufSize_le_iovRoom (b : Buffer) : extrabufSize ≤ b.iovRoom := by
  unfold iovRoom iovcnt
  split <;> simp_all

/-- `readFd` appends what `::readv` delivered, whether or not it spilled into
`extrabuf`, and records `errno` when `::readv` failed. -/
theorem WellFormed.readFd (hb : b.WellFormed) (k : ReadvResult) (saveErrno : Errno) :
    ∃ r, b.readFd k saveErrno = some r ∧ r.buffer.WellFormed ∧
      r.buffer.readable = b.readable ++ (readv k b.iovRoom).bytes ∧
      r.saveErrno = (if (readv k b.iovRoom).ret < 0 then (readv k b.iovRoom).errno
        else saveErrno) ∧
      r.ret = none := by
  have hroom := (length_readv_le k b.iovRoom).trans b.iovRoom_le
  have hcases := readv_cases k b.iovRoom
  unfold Buffer.readFd
  generalize readv k b.iovRoom = call at hroom hcases ⊢
  have hfit : (call.bytes.take b.writableBytes).length ≤ b.writableBytes := by simp
  obtain ⟨buf, hbuf, hlen, hstore⟩ := hb.store hfit
  have hspill : 0 + (call.bytes.drop b.writableBytes).length
      ≤ (List.replicate extrabufSize (0 : Byte)).length := by
    simp; omega
  simp only [hbuf, blit_eq hspill, Option.bind_eq_bind, Option.bind_some, List.take_zero,
    List.nil_append]
  rcases hcases with ⟨hneg, hnil⟩ | hret
  · -- `::readv` failed: nothing was stored
    obtain ⟨hwf, hread⟩ := hstore b.writerIndex_ (by simp [hnil])
    rw [if_pos hneg, if_pos hneg]
    exact ⟨_, rfl, hwf, by simpa [hnil] using hread, rfl, rfl⟩
  · have hnonneg : ¬ call.ret < 0 := by omega
    rw [if_neg hnonneg, if_neg hnonneg]
    by_cases hfit : call.bytes.length ≤ b.writableBytes
    · -- everything went into the vector
      obtain ⟨hwf, hread⟩ := hstore (b.writerIndex_ + call.ret.toNat)
        (by rw [List.take_of_length_le hfit]; omega)
      rw [if_pos (by omega)]
      exact ⟨_, rfl, hwf, by rw [hread, List.take_of_length_le hfit], rfl, rfl⟩
    · -- the vector is full and the rest of the bytes is in `extrabuf`
      have hwlen := hb.writer_le
      have hfull : b.writableBytes = b.buffer_.length - b.writerIndex_ := rfl
      obtain ⟨hwf, hread⟩ := hstore buf.length (by simp; omega)
      have hextra : (call.bytes.drop b.writableBytes ++
          (List.replicate extrabufSize (0 : Byte)).drop
            (0 + (call.bytes.drop b.writableBytes).length)).take
            (call.ret.toNat - b.writableBytes) = call.bytes.drop b.writableBytes := by
        rw [List.take_append_of_le_length (by simp; omega)]
        exact List.take_of_length_le (by simp; omega)
      obtain ⟨b', hb', hwf', hread'⟩ := hwf.append (call.bytes.drop b.writableBytes)
      rw [if_neg (by omega), hextra]
      refine ⟨⟨b', saveErrno, none⟩, by simp [hb'], hwf', ?_, rfl, rfl⟩
      rw [hread', hread, List.append_assoc, List.take_append_drop]

end Buffer

/-! ### Valid buffers -/

/-- A buffer that is well formed.  Its operations are those of `Buffer`, which
are defined on it. -/
structure ValidBuffer extends Buffer where
  wf : toBuffer.WellFormed

namespace ValidBuffer

/-- The result of an operation that is defined and leaves a well-formed
buffer. -/
def ofSome (o : Option Buffer) (h : ∃ b, o = some b ∧ b.WellFormed) : ValidBuffer where
  toBuffer := o.get (by obtain ⟨b, rfl, -⟩ := h; rfl)
  wf := by obtain ⟨b, rfl, hb⟩ := h; exact hb

theorem ofSome_toBuffer {o : Option Buffer} (h : ∃ b, o = some b ∧ b.WellFormed) :
    o = some (ofSome o h).toBuffer :=
  (Option.some_get _).symm

def new (initialSize : Nat) : ValidBuffer := ⟨Buffer.new initialSize, Buffer.wellFormed_new _⟩

def retrieve (b : ValidBuffer) (len : Nat) : ValidBuffer :=
  ⟨b.toBuffer.retrieve len, b.wf.retrieve len⟩

def append (b : ValidBuffer) (data : List Byte) : ValidBuffer :=
  ofSome (b.toBuffer.append data) <| by
    obtain ⟨b', h, hb', -⟩ := b.wf.append data
    exact ⟨b', h, hb'⟩

/-- `readFd` on a valid buffer. -/
def readFd (b : ValidBuffer) (k : ReadvResult) (saveErrno : Errno) :
    ValidBuffer × Errno × Option Int :=
  let r := (b.toBuffer.readFd k saveErrno).get <| by
    obtain ⟨r, h, -⟩ := b.wf.readFd k saveErrno
    rw [h]; rfl
  (⟨r.buffer, by
    obtain ⟨r', h, hb', -⟩ := b.wf.readFd k saveErrno
    simp only [r, h]; exact hb'⟩, r.saveErrno, r.ret)

variable (b : ValidBuffer)

theorem append_toBuffer (data : List Byte) :
    b.toBuffer.append data = some (b.append data).toBuffer :=
  ofSome_toBuffer _

@[simp] theorem readable_new (n : Nat) : (new n).readable = [] := Buffer.readable_new n

@[simp] theorem readable_retrieve (len : Nat) :
    (b.retrieve len).readable = b.readable.drop len :=
  b.wf.readable_retrieve len

@[simp] theorem readable_append (data : List Byte) :
    (b.append data).readable = b.readable ++ data := by
  obtain ⟨b', h, -, hread⟩ := b.wf.append data
  have heq : b' = (b.append data).toBuffer :=
    Option.some.inj (h.symm.trans (b.append_toBuffer data))
  rw [← heq, hread]

theorem readableBytes_eq : b.readableBytes = b.readable.length := b.wf.length_readable.symm

theorem readableBytes_eq_zero : b.readableBytes = 0 ↔ b.readable = [] :=
  b.wf.readableBytes_eq_zero

@[simp] theorem readFd_readable (k : ReadvResult) (saveErrno : Errno) :
    (b.readFd k saveErrno).1.readable = b.readable ++ (readv k b.iovRoom).bytes := by
  obtain ⟨r, h, -, hread, -⟩ := b.wf.readFd k saveErrno
  simp only [readFd, h]
  exact hread

@[simp] theorem readFd_saveErrno (k : ReadvResult) (saveErrno : Errno) :
    (b.readFd k saveErrno).2.1 = if (readv k b.iovRoom).ret < 0
      then (readv k b.iovRoom).errno else saveErrno := by
  obtain ⟨r, h, -, -, herr, -⟩ := b.wf.readFd k saveErrno
  simp only [readFd, h]
  exact herr

/-- The call yields no value: there is no `return` on any path. -/
@[simp] theorem readFd_ret (k : ReadvResult) (saveErrno : Errno) :
    (b.readFd k saveErrno).2.2 = none := by
  obtain ⟨r, h, -, -, -, hret⟩ := b.wf.readFd k saveErrno
  simp only [readFd, h]
  exact hret

end ValidBuffer

end Mymuduo
