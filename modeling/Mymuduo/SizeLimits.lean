/-
Mymuduo/SizeLimits.lean

`Buffer` with the sizes of the machine: `size_t` has 64 bits and wraps.

The operations are those of Buffer.lean with every sum and difference taken modulo
2^64.  The vector has a largest size, a parameter (`maxSize`); for a larger one it
throws and stays as it is.  `Buffer64.toBuffer` forgets the word size; while no sum
wraps, `makeSpace` is that of exact arithmetic (`Valid.makeSpace`), and the buffer stays
well formed.

Two sums can wrap.  `kCheapPrepend + initialSize` leaves a vector shorter than the
prepend area.  In `makeSpace` it is `len + kCheapPrepend`, and then no room is made,
or `writerIndex_ + len`, and then the vector shrinks below the writer index; both
need a `len` that is near 2^64, and the calls with such a `len` are exactly the ones
that fail (`size_limits_iff`).
-/
import Mymuduo.ByteQueue

namespace Mymuduo

open Transition Segment

/-- `size_t`. -/
abbrev SizeT := BitVec 64

structure Buffer64 where
  buffer_ : List Byte
  readerIndex_ : SizeT
  writerIndex_ : SizeT
  deriving DecidableEq, Repr

inductive Exit
  | returned
  | threw
  deriving DecidableEq, Repr

/-- How a call ended, and the buffer it leaves. -/
structure Called where
  exit : Exit
  buffer : Buffer64
  deriving DecidableEq, Repr

namespace Buffer64

/-! ### The class -/

/-- `buffer_.size()`. -/
def size (b : Buffer64) : SizeT := BitVec.ofNat 64 b.buffer_.length

/-- `buffer_.resize(n)`, `none` when it throws. -/
def resize (maxSize : SizeT) (xs : List Byte) (n : SizeT) : Option (List Byte) :=
  if maxSize < n then none else some (Buffer.resize xs n.toNat)

/-- `kCheapPrepend` as a `size_t`. -/
def kCheapPrepend : SizeT := BitVec.ofNat 64 Mymuduo.kCheapPrepend

/-- `explicit Buffer(size_t initialSize)`, `none` when the vector throws. -/
def new (maxSize initialSize : SizeT) : Option Buffer64 := do
  let buf ← resize maxSize [] (kCheapPrepend + initialSize)
  return { buffer_ := buf, readerIndex_ := kCheapPrepend, writerIndex_ := kCheapPrepend }

def readableBytes (b : Buffer64) : SizeT := b.writerIndex_ - b.readerIndex_

def writableBytes (b : Buffer64) : SizeT := b.size - b.writerIndex_

def prependableBytes (b : Buffer64) : SizeT := b.readerIndex_

/-- The bytes between the two indices. -/
def readable (b : Buffer64) : List Byte :=
  slice b.buffer_ b.readerIndex_.toNat b.writerIndex_.toNat

def retrieveAll (b : Buffer64) : Buffer64 :=
  { b with readerIndex_ := kCheapPrepend, writerIndex_ := kCheapPrepend }

def retrieve (b : Buffer64) (len : SizeT) : Buffer64 :=
  if len < b.readableBytes then { b with readerIndex_ := b.readerIndex_ + len }
  else b.retrieveAll

/-- The string is `begin() + readerIndex_` and `len` bytes from there. -/
def retrieveAsString (b : Buffer64) (len : SizeT) : Option (List Byte × Buffer64) :=
  if b.readerIndex_.toNat + len.toNat ≤ b.buffer_.length then
    some (slice b.buffer_ b.readerIndex_.toNat (b.readerIndex_.toNat + len.toNat), b.retrieve len)
  else none

def makeSpace (maxSize : SizeT) (b : Buffer64) (len : SizeT) : Option Called :=
  if b.writableBytes + b.prependableBytes < len + kCheapPrepend then
    match resize maxSize b.buffer_ (b.writerIndex_ + len) with
    | some buf => some ⟨.returned, { b with buffer_ := buf }⟩
    | none => some ⟨.threw, b⟩
  else do
    let readable := b.readableBytes
    let buf ← Buffer.stdCopy b.buffer_ b.readerIndex_.toNat b.writerIndex_.toNat
      kCheapPrepend.toNat
    return ⟨.returned, { buffer_ := buf, readerIndex_ := kCheapPrepend,
                         writerIndex_ := kCheapPrepend + readable }⟩

def ensureWriteableBytes (maxSize : SizeT) (b : Buffer64) (len : SizeT) : Option Called :=
  if b.writableBytes < len then b.makeSpace maxSize len else some ⟨.returned, b⟩

def append (maxSize : SizeT) (b : Buffer64) (data : List Byte) : Option Called := do
  let len : SizeT := BitVec.ofNat 64 data.length
  let called ← b.ensureWriteableBytes maxSize len
  let b := called.buffer
  match called.exit with
  | .threw => return ⟨.threw, b⟩
  | .returned =>
      let buf ← blit b.buffer_ b.writerIndex_.toNat data
      return ⟨.returned, { b with buffer_ := buf, writerIndex_ := b.writerIndex_ + len }⟩

/-- The bytes the offered iovecs have room for. -/
def iovRoom (b : Buffer64) : Nat :=
  b.writableBytes.toNat + if b.writableBytes.toNat < extrabufSize then extrabufSize else 0

/-- `readFd` when the first iovec is full. -/
def full (b : Buffer64) (buf : List Byte) : Buffer64 :=
  { b with buffer_ := buf, writerIndex_ := b.size }

def readFd (maxSize : SizeT) (b : Buffer64) (k : ReadvResult) : Option Called := do
  let writable := b.writableBytes
  let call := readv k b.iovRoom
  let buf ← blit b.buffer_ b.writerIndex_.toNat (call.bytes.take writable.toNat)
  let extrabuf ← blit (List.replicate extrabufSize 0) 0 (call.bytes.drop writable.toNat)
  if call.ret < 0 then return ⟨.returned, { b with buffer_ := buf }⟩
  else if call.ret ≤ writable.toNat then
    return ⟨.returned, { b with buffer_ := buf,
                                writerIndex_ := b.writerIndex_ + BitVec.ofInt 64 call.ret }⟩
  else (b.full buf).append maxSize (extrabuf.take (call.ret.toNat - writable.toNat))

end Buffer64

/-! ### Histories -/

/-- The public operations. -/
inductive SizeOp
  | append (data : List Byte)
  | ensureWriteableBytes (len : SizeT)
  | retrieve (len : SizeT)
  | retrieveAll
  | retrieveAsString (len : SizeT)
  | retrieveAllAsString
  | readFd (k : ReadvResult)
  | writeFd (k : WriteResult)
  deriving DecidableEq, Repr

/-- The buffer after an operation, whether it returned or threw. -/
def sizeStep (maxSize : SizeT) (b : Buffer64) : SizeOp → Option Buffer64
  | .append data => (b.append maxSize data).map (·.buffer)
  | .ensureWriteableBytes len => (b.ensureWriteableBytes maxSize len).map (·.buffer)
  | .retrieve len => some (b.retrieve len)
  | .retrieveAll => some b.retrieveAll
  | .retrieveAsString len => (b.retrieveAsString len).map (·.2)
  | .retrieveAllAsString => (b.retrieveAsString b.readableBytes).map (·.2)
  | .readFd k => (b.readFd maxSize k).map (·.buffer)
  | .writeFd _ => some b

def sizeMachine (maxSize : SizeT) : Machine Buffer64 SizeOp where
  init b := ∃ initialSize, Buffer64.new maxSize initialSize = some b
  next := sizeStep maxSize

namespace Buffer64

/-- `kCheapPrepend <= readerIndex_ <= writerIndex_ <= buffer_.size()`. -/
structure Ordered (b : Buffer64) : Prop where
  prepend_le : Mymuduo.kCheapPrepend ≤ b.readerIndex_.toNat
  reader_le : b.readerIndex_.toNat ≤ b.writerIndex_.toNat
  writer_le : b.writerIndex_.toNat ≤ b.buffer_.length

instance (b : Buffer64) : Decidable b.Ordered :=
  decidable_of_iff (Mymuduo.kCheapPrepend ≤ b.readerIndex_.toNat ∧
    b.readerIndex_.toNat ≤ b.writerIndex_.toNat ∧ b.writerIndex_.toNat ≤ b.buffer_.length)
    ⟨fun h => ⟨h.1, h.2.1, h.2.2⟩, fun h => ⟨h.1, h.2, h.3⟩⟩

/-- What the constructor should do: throw, or make an ordered empty buffer with the
room asked for. -/
def Constructs (maxSize initialSize : SizeT) : Prop :=
  ∀ b, new maxSize initialSize = some b →
    b.Ordered ∧ b.readable = [] ∧ initialSize ≤ b.writableBytes

/-- What `ensureWriteableBytes` should do: throw and change nothing, or leave an
ordered buffer with the same content and the room asked for. -/
def Ensures (maxSize : SizeT) (b : Buffer64) (len : SizeT) : Prop :=
  ∃ called, b.ensureWriteableBytes maxSize len = some called ∧
    (called.exit = .threw → called.buffer = b) ∧
    (called.exit = .returned → called.buffer.Ordered ∧ called.buffer.readable = b.readable ∧
      len ≤ called.buffer.writableBytes)

instance (maxSize initialSize : SizeT) : Decidable (Constructs maxSize initialSize) :=
  match h : new maxSize initialSize with
  | none => isTrue (by simp [Constructs, h])
  | some b => decidable_of_iff (b.Ordered ∧ b.readable = [] ∧ initialSize ≤ b.writableBytes)
      (by simp [Constructs, h])

instance (maxSize : SizeT) (b : Buffer64) (len : SizeT) : Decidable (Ensures maxSize b len) :=
  match h : b.ensureWriteableBytes maxSize len with
  | none => isFalse (by simp [Ensures, h])
  | some called => decidable_of_iff
      ((called.exit = .threw → called.buffer = b) ∧
        (called.exit = .returned → called.buffer.Ordered ∧ called.buffer.readable = b.readable ∧
          len ≤ called.buffer.writableBytes))
      (by simp [Ensures, h])

/-- The free bytes suffice, or the size to grow to is below 2^64. -/
def Fits (b : Buffer64) (len : Nat) : Prop :=
  b.writerIndex_.toNat + len + Mymuduo.kCheapPrepend ≤ b.buffer_.length + b.readerIndex_.toNat ∨
    b.writerIndex_.toNat + len < 2 ^ 64

instance (b : Buffer64) (len : Nat) : Decidable (b.Fits len) :=
  inferInstanceAs (Decidable (_ ∨ _))

/-- The calls of `ensureWriteableBytes` during the operation ask for sizes that
fit. -/
def Within (b : Buffer64) : SizeOp → Prop
  | .append data => b.Fits data.length
  | .ensureWriteableBytes len => b.Fits len.toNat
  | .readFd k =>
      (b.full b.buffer_).Fits ((readv k b.iovRoom).bytes.length - b.writableBytes.toNat)
  | _ => True

instance (b : Buffer64) : (op : SizeOp) → Decidable (b.Within op)
  | .append data => inferInstanceAs (Decidable (b.Fits data.length))
  | .ensureWriteableBytes len => inferInstanceAs (Decidable (b.Fits len.toNat))
  | .readFd k => inferInstanceAs (Decidable ((b.full b.buffer_).Fits
      ((readv k b.iovRoom).bytes.length - b.writableBytes.toNat)))
  | .retrieve _ | .retrieveAll | .retrieveAsString _ | .retrieveAllAsString | .writeFd _ =>
      instDecidableTrue

/-- The buffer without the word size. -/
def toBuffer (b : Buffer64) : Buffer :=
  ⟨b.buffer_, b.readerIndex_.toNat, b.writerIndex_.toNat⟩

/-- The buffer is well formed, and its vector not too long. -/
structure Valid (maxSize : SizeT) (b : Buffer64) : Prop where
  wf : b.toBuffer.WellFormed
  bound : b.buffer_.length ≤ maxSize.toNat

variable {maxSize initialSize len : SizeT} {b b' : Buffer64}

/-! ### The sums that do not wrap -/

theorem Valid.length_lt (hb : b.Valid maxSize) : b.buffer_.length < 2 ^ 64 :=
  hb.bound.trans_lt maxSize.isLt

theorem Valid.ordered (hb : b.Valid maxSize) : b.Ordered :=
  ⟨hb.wf.prepend_le, hb.wf.reader_le, hb.wf.writer_le⟩

theorem Ordered.toNat_writableBytes (h : b.Ordered) (hlt : b.buffer_.length < 2 ^ 64) :
    b.writableBytes.toNat = b.buffer_.length - b.writerIndex_.toNat := by
  have hw := h.writer_le
  rw [writableBytes, size, BitVec.toNat_sub, BitVec.toNat_ofNat]
  omega

theorem Ordered.toNat_readableBytes (h : b.Ordered) :
    b.readableBytes.toNat = b.writerIndex_.toNat - b.readerIndex_.toNat := by
  have hr := h.reader_le
  rw [readableBytes, BitVec.toNat_sub]
  omega

theorem Valid.toNat_writableBytes (hb : b.Valid maxSize) :
    b.writableBytes.toNat = b.toBuffer.writableBytes :=
  hb.ordered.toNat_writableBytes hb.length_lt

theorem Valid.toNat_readableBytes (hb : b.Valid maxSize) :
    b.readableBytes.toNat = b.toBuffer.readableBytes :=
  hb.ordered.toNat_readableBytes

theorem resize_eq_some {xs buf : List Byte} {n : SizeT} (h : resize maxSize xs n = some buf) :
    buf = Buffer.resize xs n.toNat ∧ n.toNat ≤ maxSize.toNat := by
  unfold resize at h
  split at h
  · cases h
  · rename_i hle
    exact ⟨(Option.some.inj h).symm, by simpa [BitVec.lt_def] using hle⟩

/-! ### The constructor -/

theorem new_eq_some (h : new maxSize initialSize = some b) :
    b = ⟨List.replicate (kCheapPrepend + initialSize).toNat 0, kCheapPrepend, kCheapPrepend⟩ ∧
      (kCheapPrepend + initialSize).toNat ≤ maxSize.toNat := by
  obtain ⟨buf, hbuf, rfl⟩ := Option.bind_eq_some_iff.mp h |>.imp fun _ h => h.imp id Option.some.inj
  obtain ⟨rfl, hle⟩ := resize_eq_some hbuf
  exact ⟨by simp [Buffer.resize], hle⟩

theorem valid_new (hsize : Mymuduo.kCheapPrepend + initialSize.toNat < 2 ^ 64)
    (h : new maxSize initialSize = some b) : b.Valid maxSize := by
  obtain ⟨rfl, hle⟩ := new_eq_some h
  have hsum : (kCheapPrepend + initialSize).toNat = Mymuduo.kCheapPrepend + initialSize.toNat := by
    rw [BitVec.toNat_add]
    exact Nat.mod_eq_of_lt hsize
  refine ⟨?_, by simpa using hle⟩
  rw [hsum]
  exact Buffer.wellFormed_new initialSize.toNat

/-- The constructor does what it should exactly when its sum does not wrap. -/
theorem constructs_iff (hmax : Mymuduo.kCheapPrepend ≤ maxSize.toNat) :
    Constructs maxSize initialSize ↔ Mymuduo.kCheapPrepend + initialSize.toNat < 2 ^ 64 := by
  have hsum : (kCheapPrepend + initialSize).toNat
      = (Mymuduo.kCheapPrepend + initialSize.toNat) % 2 ^ 64 := BitVec.toNat_add ..
  have hsize := initialSize.isLt
  have hprepend : Mymuduo.kCheapPrepend = 8 := rfl
  constructor
  · intro h
    by_contra hwrap
    -- the vector is shorter than the prepend area
    have hshort : (kCheapPrepend + initialSize).toNat < Mymuduo.kCheapPrepend := by omega
    have hle : ¬ maxSize < kCheapPrepend + initialSize := by
      rw [BitVec.lt_def]
      omega
    obtain ⟨hordered, -, -⟩ := h _ (by rw [new, resize, if_neg hle]; rfl)
    have hwriter : Mymuduo.kCheapPrepend ≤ _ := hordered.writer_le
    rw [Buffer.length_resize] at hwriter
    omega
  · intro hfit b hnew
    have hb := valid_new hfit hnew
    obtain ⟨rfl, -⟩ := new_eq_some hnew
    refine ⟨hb.ordered, slice_self _ _, ?_⟩
    rw [BitVec.le_def, hb.ordered.toNat_writableBytes hb.length_lt, List.length_replicate, hsum]
    show initialSize.toNat ≤ (Mymuduo.kCheapPrepend + initialSize.toNat) % 2 ^ 64
      - Mymuduo.kCheapPrepend
    omega

/-! ### Making room -/

/-- What a call of `ensureWriteableBytes` leaves that does what it should: it threw,
or made room. -/
inductive Ensured (maxSize : SizeT) (b : Buffer64) (len : Nat) : Option Called → Prop
  | threw : Ensured maxSize b len (some ⟨.threw, b⟩)
  | returned (b' : Buffer64) (hb' : b'.Valid maxSize)
      (hread : b'.toBuffer.readable = b.toBuffer.readable)
      (hroom : len ≤ b'.toBuffer.writableBytes) : Ensured maxSize b len (some ⟨.returned, b'⟩)

theorem Ensured.ensures (h : Ensured maxSize b len.toNat (b.ensureWriteableBytes maxSize len)) :
    Ensures maxSize b len := by
  generalize hcalled : b.ensureWriteableBytes maxSize len = o at h
  cases h with
  | threw => exact ⟨_, hcalled, fun _ => rfl, nofun⟩
  | returned b' hb' hread hroom =>
      refine ⟨_, hcalled, nofun, fun _ => ⟨hb'.ordered, hread, ?_⟩⟩
      rw [BitVec.le_def, hb'.toNat_writableBytes]
      exact hroom

/-- The two free parts together do not wrap. -/
theorem Valid.toNat_free (hb : b.Valid maxSize) :
    (b.writableBytes + b.prependableBytes).toNat
      = b.toBuffer.writableBytes + b.toBuffer.prependableBytes := by
  have hlt := hb.length_lt
  have hw := hb.toNat_writableBytes
  obtain ⟨-, hr, hwlen⟩ := hb.ordered
  rw [BitVec.toNat_add, hw]
  show (b.buffer_.length - b.writerIndex_.toNat + b.readerIndex_.toNat) % 2 ^ 64
    = b.buffer_.length - b.writerIndex_.toNat + b.readerIndex_.toNat
  omega

/-- While the sums do not wrap, `makeSpace` is that of exact arithmetic. -/
theorem Valid.makeSpace (hb : b.Valid maxSize) (hfit : b.Fits len.toNat)
    (hlt : b.toBuffer.writableBytes < len.toNat) :
    Ensured maxSize b len.toNat (b.makeSpace maxSize len) := by
  have hfree := hb.toNat_free
  have hlength := hb.length_lt
  obtain ⟨hp, hr, hw⟩ := hb.ordered
  have hneed : (len + kCheapPrepend).toNat = len.toNat + Mymuduo.kCheapPrepend := by
    rw [BitVec.toNat_add]
    apply Nat.mod_eq_of_lt
    show len.toNat + Mymuduo.kCheapPrepend < _
    rcases hfit with hfit | hfit <;> omega
  have hbranch : b.writableBytes + b.prependableBytes < len + kCheapPrepend ↔
      b.toBuffer.writableBytes + b.toBuffer.prependableBytes
        < len.toNat + Mymuduo.kCheapPrepend := by
    rw [BitVec.lt_def, hfree, hneed]
  obtain ⟨b', hspace, hwf, hread, hroom⟩ := hb.wf.makeSpace hlt
  unfold Buffer64.makeSpace
  unfold Buffer.makeSpace at hspace
  split at hspace
  · -- the vector grows, or throws
    rename_i hgrow
    rw [if_pos (hbranch.mpr hgrow)]
    have hsum : (b.writerIndex_ + len).toNat = b.writerIndex_.toNat + len.toNat := by
      rw [BitVec.toNat_add]
      apply Nat.mod_eq_of_lt
      rcases hfit with hfit | hfit
      · simp only [Buffer.writableBytes, Buffer.prependableBytes, toBuffer] at hgrow
        omega
      · exact hfit
    obtain rfl := Option.some.inj hspace
    cases hresize : resize maxSize b.buffer_ (b.writerIndex_ + len) with
    | none => exact .threw
    | some buf =>
        obtain ⟨rfl, hle⟩ := resize_eq_some hresize
        rw [hsum] at hle ⊢
        refine .returned _ ⟨hwf, ?_⟩ hread hroom
        simpa [Buffer.length_resize] using hle
  · -- the readable bytes move to the front
    rename_i hmove
    rw [if_neg (hmove ∘ hbranch.mp)]
    obtain ⟨buf, hbuf, hb'⟩ := Option.bind_eq_some_iff.mp hspace
    have hcopy : Buffer.stdCopy b.buffer_ b.readerIndex_.toNat b.writerIndex_.toNat
        kCheapPrepend.toNat = some buf := hbuf
    have hindex : (kCheapPrepend + b.readableBytes).toNat
        = Mymuduo.kCheapPrepend + b.toBuffer.readableBytes := by
      rw [BitVec.toNat_add, hb.toNat_readableBytes]
      apply Nat.mod_eq_of_lt
      show Mymuduo.kCheapPrepend + (b.writerIndex_.toNat - b.readerIndex_.toNat) < _
      omega
    have heq : toBuffer ⟨buf, kCheapPrepend, kCheapPrepend + b.readableBytes⟩ = b' := by
      rw [toBuffer, hindex]
      exact Option.some.inj hb'
    simp only [hcopy, Option.bind_eq_bind, Option.bind_some]
    refine .returned _ ⟨?_, ?_⟩ ?_ ?_
    · rwa [heq]
    · rw [Buffer.length_stdCopy hcopy]
      exact hb.bound
    · rwa [heq]
    · rwa [heq]

theorem Valid.ensureWriteableBytes (hb : b.Valid maxSize) (hfit : b.Fits len.toNat) :
    Ensured maxSize b len.toNat (b.ensureWriteableBytes maxSize len) := by
  unfold Buffer64.ensureWriteableBytes
  split
  · rename_i hlt
    rw [BitVec.lt_def, hb.toNat_writableBytes] at hlt
    exact hb.makeSpace hfit hlt
  · rename_i hge
    rw [BitVec.lt_def, hb.toNat_writableBytes] at hge
    exact .returned b hb rfl (Nat.le_of_not_lt hge)

/-- A size that does not fit is too large for the free bytes, and what is done for
it makes no room or breaks the order. -/
theorem Valid.fits_of_ensures (hb : b.Valid maxSize) (h : Ensures maxSize b len) :
    b.Fits len.toNat := by
  by_contra hfit
  obtain ⟨hfree, hwrap⟩ := not_or.mp hfit
  have hlen := len.isLt
  have hlength := hb.length_lt
  have hprepend : Mymuduo.kCheapPrepend = 8 := rfl
  obtain ⟨hp, hr, hw⟩ := hb.ordered
  obtain ⟨called, hcalled, -, hreturned⟩ := h
  have hlt : b.writableBytes < len := by
    rw [BitVec.lt_def, hb.toNat_writableBytes]
    show b.buffer_.length - b.writerIndex_.toNat < _
    omega
  have hneed : (len + kCheapPrepend).toNat = (len.toNat + Mymuduo.kCheapPrepend) % 2 ^ 64 :=
    BitVec.toNat_add ..
  have hsum : (b.writerIndex_ + len).toNat = (b.writerIndex_.toNat + len.toNat) % 2 ^ 64 :=
    BitVec.toNat_add ..
  have hfreeNat : (b.writableBytes + b.prependableBytes).toNat
      = b.buffer_.length - b.writerIndex_.toNat + b.readerIndex_.toNat := hb.toNat_free
  rw [Buffer64.ensureWriteableBytes, if_pos hlt, Buffer64.makeSpace] at hcalled
  split at hcalled
  · -- `writerIndex_ + len` wraps, and the vector ends before the writer index
    rename_i hgrow
    rw [BitVec.lt_def, hneed, hfreeNat] at hgrow
    have hshort : (b.writerIndex_ + len).toNat < b.writerIndex_.toNat := by omega
    have hbound := hb.bound
    have hle : ¬ maxSize < b.writerIndex_ + len := by
      rw [BitVec.lt_def]
      omega
    rw [resize, if_neg hle] at hcalled
    obtain rfl := Option.some.inj hcalled
    obtain ⟨hordered, -, -⟩ := hreturned rfl
    have hwriter : b.writerIndex_.toNat ≤ _ := hordered.writer_le
    rw [Buffer.length_resize] at hwriter
    omega
  · -- `len + kCheapPrepend` wraps, and the vector stays as long as it is
    rename_i hmove
    rw [BitVec.lt_def, hneed, hfreeNat] at hmove
    obtain ⟨buf, hbuf, hcalled⟩ := Option.bind_eq_some_iff.mp hcalled
    obtain rfl := Option.some.inj hcalled
    obtain ⟨hordered, -, hroom⟩ := hreturned rfl
    have hsame := Buffer.length_stdCopy hbuf
    have hprepend' : Mymuduo.kCheapPrepend ≤ _ := hordered.prepend_le.trans hordered.reader_le
    rw [BitVec.le_def, hordered.toNat_writableBytes (by rwa [hsame]), hsame] at hroom
    omega

/-- `ensureWriteableBytes` does what it should exactly when the size fits. -/
theorem Valid.ensures_iff (hb : b.Valid maxSize) :
    Ensures maxSize b len ↔ b.Fits len.toNat :=
  ⟨hb.fits_of_ensures, fun hfit => (hb.ensureWriteableBytes hfit).ensures⟩

/-! ### Steps -/

/-- The bytes behind the indices, stored behind the writer index. -/
theorem Valid.store (hb : b.Valid maxSize) {data : List Byte}
    (hdata : data.length ≤ b.toBuffer.writableBytes) {n : SizeT} (hn : n.toNat = data.length) :
    ∃ buf, blit b.buffer_ b.writerIndex_.toNat data = some buf ∧
      buf.length = b.buffer_.length ∧
      Valid maxSize { b with buffer_ := buf, writerIndex_ := b.writerIndex_ + n } := by
  obtain ⟨buf, hbuf, hlength, hstore⟩ := hb.wf.store hdata
  have hlt := hb.length_lt
  have hw := hb.ordered.writer_le
  have hindex : (b.writerIndex_ + n).toNat = b.writerIndex_.toNat + data.length := by
    rw [BitVec.toNat_add, hn]
    apply Nat.mod_eq_of_lt
    have hroom : data.length ≤ b.buffer_.length - b.writerIndex_.toNat := hdata
    omega
  exact ⟨buf, hbuf, hlength, (hstore _ hindex).1, hlength.le.trans hb.bound⟩

/-- A size that fits is a `size_t`. -/
theorem Valid.lt_of_fits (hb : b.Valid maxSize) {n : Nat} (h : b.Fits n) : n < 2 ^ 64 := by
  have hlt := hb.length_lt
  obtain ⟨-, hr, hw⟩ := hb.ordered
  rcases h with h | h <;> omega

theorem Valid.append (hb : b.Valid maxSize) {data : List Byte} (hfit : b.Fits data.length) :
    ∃ called, b.append maxSize data = some called ∧ called.buffer.Valid maxSize := by
  have hn : (BitVec.ofNat 64 data.length).toNat = data.length :=
    BitVec.toNat_ofNat .. |>.trans (Nat.mod_eq_of_lt (hb.lt_of_fits hfit))
  have h : Ensured maxSize b (BitVec.ofNat 64 data.length).toNat
      (b.ensureWriteableBytes maxSize (BitVec.ofNat 64 data.length)) :=
    hb.ensureWriteableBytes (by rwa [hn])
  simp only [Buffer64.append, Option.bind_eq_bind]
  generalize b.ensureWriteableBytes maxSize (BitVec.ofNat 64 data.length) = o at h ⊢
  cases h with
  | threw => exact ⟨_, rfl, hb⟩
  | returned b' hb' hread hroom =>
      obtain ⟨buf, hbuf, -, hvalid⟩ := hb'.store (hn ▸ hroom) hn
      exact ⟨_, by simp only [Option.bind_some, hbuf]; rfl, hvalid⟩

theorem Valid.retrieveAll (hb : b.Valid maxSize) : b.retrieveAll.Valid maxSize :=
  ⟨hb.wf.retrieveAll, hb.bound⟩

theorem Valid.toBuffer_retrieve (hb : b.Valid maxSize) :
    (b.retrieve len).toBuffer = b.toBuffer.retrieve len.toNat := by
  have hlt : len < b.readableBytes ↔ len.toNat < b.toBuffer.readableBytes := by
    rw [BitVec.lt_def, hb.toNat_readableBytes]
  unfold Buffer64.retrieve Buffer.retrieve
  split
  · rename_i h
    rw [if_pos (hlt.mp h)]
    have hreadable : len.toNat < b.writerIndex_.toNat - b.readerIndex_.toNat := hlt.mp h
    have hindex : (b.readerIndex_ + len).toNat = b.readerIndex_.toNat + len.toNat := by
      rw [BitVec.toNat_add]
      exact Nat.mod_eq_of_lt (by have := b.writerIndex_.isLt; omega)
    rw [toBuffer, hindex]
    rfl
  · rename_i h
    rw [if_neg (h ∘ hlt.mpr)]
    rfl

theorem Valid.retrieve (hb : b.Valid maxSize) : (b.retrieve len).Valid maxSize := by
  constructor
  · rw [hb.toBuffer_retrieve]
    exact hb.wf.retrieve len.toNat
  · have hsame : (b.retrieve len).buffer_ = b.buffer_ := by
      unfold Buffer64.retrieve
      split <;> rfl
    rw [hsame]
    exact hb.bound

theorem Valid.retrieveAsString (hb : b.Valid maxSize) {s : List Byte}
    (h : b.retrieveAsString len = some (s, b')) : b'.Valid maxSize := by
  obtain ⟨-, hb'⟩ := Option.ite_none_right_eq_some.mp h
  obtain ⟨-, rfl⟩ := Prod.mk.inj (Option.some.inj hb')
  exact hb.retrieve

theorem Fits.mono {n m : Nat} (h : b.Fits n) (hle : m ≤ n) : b.Fits m := by
  rcases h with h | h
  · exact Or.inl (by omega)
  · exact Or.inr (by omega)

/-- `readFd` keeps the buffer valid: the spilled bytes are appended to a full
vector. -/
theorem Valid.readFd (hb : b.Valid maxSize) {k : ReadvResult} (hfit : b.Within (.readFd k))
    {called : Called} (h : b.readFd maxSize k = some called) : called.buffer.Valid maxSize := by
  have hcases := readv_cases k b.iovRoom
  have hlt := hb.length_lt
  have hwritable : b.writableBytes.toNat = b.buffer_.length - b.writerIndex_.toNat :=
    hb.toNat_writableBytes
  simp only [Within] at hfit
  simp only [Buffer64.readFd] at h
  generalize readv k b.iovRoom = call at hfit h hcases
  obtain ⟨buf, hbuf, h⟩ := Option.bind_eq_some_iff.mp h
  obtain ⟨extrabuf, -, h⟩ := Option.bind_eq_some_iff.mp h
  have hstored : (call.bytes.take b.writableBytes.toNat).length ≤ b.toBuffer.writableBytes := by
    rw [← hb.toNat_writableBytes]
    exact List.length_take_le _ _
  have hstore : ∀ n : SizeT, n.toNat = (call.bytes.take b.writableBytes.toNat).length →
      Valid maxSize { b with buffer_ := buf, writerIndex_ := b.writerIndex_ + n } := by
    intro n hn
    obtain ⟨buf', hbuf', -, hvalid⟩ := hb.store hstored hn
    obtain rfl : buf = buf' := Option.some.inj (hbuf.symm.trans hbuf')
    exact hvalid
  split at h
  · -- `::readv` failed: the indices stay
    obtain rfl := Option.some.inj h
    have hnil : call.bytes = [] := by
      rcases hcases with ⟨-, hnil⟩ | hret
      · exact hnil
      · omega
    simpa using hstore 0 (by simp [hnil])
  · have hret : call.ret = call.bytes.length := by
      rcases hcases with ⟨hneg, -⟩ | hret
      · omega
      · exact hret
    split at h
    · -- everything went into the vector
      obtain rfl := Option.some.inj h
      apply hstore
      rw [hret, BitVec.ofInt_natCast, BitVec.toNat_ofNat, List.length_take]
      omega
    · have hfull : b.full buf
          = { b with buffer_ := buf, writerIndex_ := b.writerIndex_ + b.writableBytes } := by
        rw [full, writableBytes, BitVec.add_comm, BitVec.sub_add_cancel]
      have hvalid : (b.full buf).Valid maxSize := by
        rw [hfull]
        exact hstore _ (by rw [List.length_take]; omega)
      have hlength : buf.length = b.buffer_.length := length_blit hbuf
      have hfit' : (b.full buf).Fits (call.bytes.length - b.writableBytes.toNat) := by
        simp only [Fits, full, hlength] at hfit ⊢
        exact hfit
      obtain ⟨called', hcalled', hb'⟩ := hvalid.append <| hfit'.mono <|
        show (extrabuf.take (call.ret.toNat - b.writableBytes.toNat)).length ≤ _ by
          rw [hret, Int.toNat_natCast]
          exact List.length_take_le _ _
      obtain rfl : called = called' := Option.some.inj (h.symm.trans hcalled')
      exact hb'

theorem Valid.next (hb : b.Valid maxSize) {op : SizeOp} (hfit : b.Within op)
    (h : (sizeMachine maxSize).next b op = some b') : b'.Valid maxSize := by
  cases op with
  | append data =>
      obtain ⟨called, hcalled, hvalid⟩ := hb.append hfit
      obtain rfl : called.buffer = b' := by simpa [sizeMachine, sizeStep, hcalled] using h
      exact hvalid
  | ensureWriteableBytes len =>
      have hcall := hb.ensureWriteableBytes hfit
      obtain ⟨called, hcalled, rfl⟩ := Option.map_eq_some_iff.mp h
      rw [hcalled] at hcall
      cases hcall with
      | threw => exact hb
      | returned b' hb' => exact hb'
  | retrieve len => obtain rfl := Option.some.inj h; exact hb.retrieve
  | retrieveAll => obtain rfl := Option.some.inj h; exact hb.retrieveAll
  | retrieveAsString len =>
      obtain ⟨⟨s, b'⟩, hs, rfl⟩ := Option.map_eq_some_iff.mp h
      exact hb.retrieveAsString hs
  | retrieveAllAsString =>
      obtain ⟨⟨s, b'⟩, hs, rfl⟩ := Option.map_eq_some_iff.mp h
      exact hb.retrieveAsString hs
  | readFd k =>
      obtain ⟨called, hcalled, rfl⟩ := Option.map_eq_some_iff.mp h
      exact hb.readFd hfit hcalled
  | writeFd k => obtain rfl := Option.some.inj h; exact hb

theorem Valid.run (hb : b.Valid maxSize) {ops : List SizeOp}
    (hfit : (sizeMachine maxSize).Along Within b ops)
    (hrun : (sizeMachine maxSize).run b ops = some b') : b'.Valid maxSize :=
  Machine.run_invariant (fun _ _ _ hb hfit h => Valid.next hb hfit h) hfit hrun hb

/-- **Sizes at the limits of `size_t`.**  The constructor does what it should exactly
when its sum does not wrap.  From there, while the calls of `ensureWriteableBytes` ask
for sizes that fit, the next one does what it should exactly when its size fits too. -/
theorem size_limits_iff (hmax : Mymuduo.kCheapPrepend ≤ maxSize.toNat) :
    (Constructs maxSize initialSize ↔ Mymuduo.kCheapPrepend + initialSize.toNat < 2 ^ 64) ∧
    (Mymuduo.kCheapPrepend + initialSize.toNat < 2 ^ 64 → ∀ b ops b',
      new maxSize initialSize = some b →
      (sizeMachine maxSize).Along Within b ops → (sizeMachine maxSize).run b ops = some b' →
      ∀ len, Ensures maxSize b' len ↔ b'.Fits len.toNat) :=
  ⟨constructs_iff hmax, fun hsize _ _ _ hnew hfit hrun _ =>
    ((valid_new hsize hnew).run hfit hrun).ensures_iff⟩

/-- The three kinds of failure, for a vector of at most 2^63 - 1 bytes: a constructor
whose sum wraps, a size for which no room is made, and one that shrinks the vector. -/
theorem size_limits_wrapped :
    ¬ Constructs 0x7fffffffffffffff 0xfffffffffffffff8 ∧
    (∃ b, new 0x7fffffffffffffff 16 = some b ∧
      ¬ Ensures 0x7fffffffffffffff b 0xfffffffffffffff8) ∧
    ∃ b b', new 0x7fffffffffffffff 16 = some b ∧
      (sizeMachine 0x7fffffffffffffff).run b [.append [1]] = some b' ∧
      ¬ Ensures 0x7fffffffffffffff b' 0xfffffffffffffff7 :=
  ⟨by decide +kernel, ⟨_, rfl, by decide +kernel⟩, _, _, rfl, rfl, by decide +kernel⟩

/-- A history through a growing vector, a short read and a size that fits just below
2^64. -/
theorem size_limits_growth :
    ∃ b b', new 0x7fffffffffffffff 16 = some b ∧
      (sizeMachine 0x7fffffffffffffff).run b
        [.append (List.replicate 20 1), .retrieve 3, .ensureWriteableBytes 4,
          .readFd (.deliver [2]), .ensureWriteableBytes 0xffffffffffffff00] = some b' ∧
      (Constructs 0x7fffffffffffffff 16 ↔ kCheapPrepend.toNat + 16 < 2 ^ 64) ∧
      (Ensures 0x7fffffffffffffff b' 12 ↔ b'.Fits 12) := by
  have hops : (new 0x7fffffffffffffff 16).any (fun b =>
      decide ((sizeMachine 0x7fffffffffffffff).Along Within b
        [.append (List.replicate 20 1), .retrieve 3, .ensureWriteableBytes 4,
          .readFd (.deliver [2]), .ensureWriteableBytes 0xffffffffffffff00]) &&
      ((sizeMachine 0x7fffffffffffffff).run b
        [.append (List.replicate 20 1), .retrieve 3, .ensureWriteableBytes 4,
          .readFd (.deliver [2]), .ensureWriteableBytes 0xffffffffffffff00]).isSome) = true := by
    decide +kernel
  obtain ⟨b, hnew, hb⟩ := (Option.any_eq_true _ _).mp hops
  obtain ⟨hfit, hrun⟩ := (Bool.and_eq_true _ _).mp hb
  obtain ⟨b', hrun⟩ := Option.isSome_iff_exists.mp hrun
  obtain ⟨hnew', hlater⟩ := @size_limits_iff 0x7fffffffffffffff 16 (by decide)
  exact ⟨b, b', hnew, hrun, hnew', hlater (by decide) b _ b' hnew (of_decide_eq_true hfit) hrun 12⟩

end Buffer64

end Mymuduo
