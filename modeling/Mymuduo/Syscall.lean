/-
Mymuduo/Syscall.lean

The system calls on a connection's socket, as the code sees them: `::write` and
`::readv` with a result the kernel is free to choose.

The choice is data (`WriteResult`, `ReadvResult`), so that the functions above
stay functions.  A choice is cut down to what the call offers: `accept n` takes
at most the offered bytes, `deliver bs` fills at most the room of the iovecs.
Every result the kernel may give is the outcome of some choice, and no other.

Code that logs a failure before it looks at `errno` again finds what the log line has
left there (Logger.cc writes to `std::cout` and does not keep it).  That value is part
of the choice of a failure.
-/
import Mathlib.Tactic
import Mathlib.Data.List.Basic

namespace Mymuduo

/-- `char`. -/
abbrev Byte := UInt8

/-- The values of `errno`. -/
abbrev Errno := Nat

def EWOULDBLOCK : Errno := 11
def EPIPE : Errno := 32
def ENOBUFS : Errno := 105
def ECONNRESET : Errno := 104

/-! ### `::write` -/

/-- What the kernel does with a `::write`.  A failure has two values of `errno`: `e` is
the one that the call sets, and `logged` the one found after a log line behind it. -/
inductive WriteResult
  | accept (n : Nat)
  | fail (e logged : Errno)
  deriving DecidableEq, Repr

/-- A `::write` that has returned: what was offered, what the kernel took, the
`ssize_t` and, when it is `-1`, `errno`, at once and after a log line. -/
structure WriteCall where
  offered : List Byte
  taken : List Byte
  ret : Int
  errno : Errno
  errnoLogged : Errno
  deriving DecidableEq, Repr

/-- `::write(fd, data, len)`. -/
def write (k : WriteResult) (data : List Byte) : WriteCall :=
  match k with
  | .accept n =>
      { offered := data, taken := data.take n, ret := (data.take n).length, errno := 0
        errnoLogged := 0 }
  | .fail e logged =>
      { offered := data, taken := [], ret := -1, errno := e, errnoLogged := logged }

@[simp] theorem write_offered (k : WriteResult) (data : List Byte) :
    (write k data).offered = data := by
  cases k <;> rfl

/-- Either the call returned the number of bytes taken, a prefix of what was
offered, or it failed and took nothing. -/
theorem write_cases (k : WriteResult) (data : List Byte) :
    ((write k data).ret = (write k data).taken.length ∧
        (write k data).taken = data.take (write k data).taken.length) ∨
      ((write k data).ret < 0 ∧ (write k data).taken = [] ∧
        k = .fail (write k data).errno (write k data).errnoLogged) := by
  cases k with
  | accept n => exact Or.inl ⟨rfl, by simp [write, List.take_eq_take_iff]⟩
  | fail e logged => exact Or.inr ⟨by simp [write], rfl, rfl⟩

theorem write_ret_le (k : WriteResult) (data : List Byte) :
    (write k data).ret ≤ data.length := by
  cases k with
  | accept n =>
      have hlen := List.length_take_le' n data
      show ((data.take n).length : Int) ≤ data.length
      omega
  | fail e logged =>
      show (-1 : Int) ≤ data.length
      omega

/-- The bytes taken and the bytes behind them make up the block, also when the call
failed. -/
theorem write_taken_append_drop (k : WriteResult) (data : List Byte) :
    (write k data).taken ++ data.drop (write k data).ret.toNat = data := by
  rcases write_cases k data with ⟨hret, htaken⟩ | ⟨hneg, htaken, -⟩
  · rw [hret, Int.toNat_natCast]
    conv_lhs => rw [htaken]
    rw [List.length_take_of_le, List.take_append_drop]
    rw [htaken]
    exact List.length_take_le' _ _
  · rw [Int.toNat_of_nonpos hneg.le, htaken]
    rfl

theorem write_taken_eq_nil {k : WriteResult} {data : List Byte}
    (h : ¬ 0 < (write k data).ret) : (write k data).taken = [] := by
  rcases write_cases k data with ⟨hret, -⟩ | ⟨-, htaken, -⟩
  · apply List.eq_nil_of_length_eq_zero
    omega
  · exact htaken

/-! ### `::readv` -/

/-- What the kernel does with a `::readv`: hand over bytes (none at the end of
the stream) or fail. -/
inductive ReadvResult
  | deliver (bs : List Byte)
  | fail (e : Errno)
  deriving DecidableEq, Repr

/-- The call does not fail. -/
def ReadvResult.delivers : ReadvResult → Bool
  | .deliver _ => true
  | .fail _ => false

/-- A `::readv` that has returned: the bytes stored into the iovecs in order,
the `ssize_t` and, when it is `-1`, `errno`. -/
structure ReadvCall where
  bytes : List Byte
  ret : Int
  errno : Errno
  deriving DecidableEq, Repr

/-- `::readv(fd, vec, iovcnt)`, where the iovecs have room for `room` bytes in
all. -/
def readv (k : ReadvResult) (room : Nat) : ReadvCall :=
  match k with
  | .deliver bs => { bytes := bs.take room, ret := (bs.take room).length, errno := 0 }
  | .fail e => { bytes := [], ret := -1, errno := e }

theorem readv_ret_neg_iff (k : ReadvResult) (room : Nat) :
    (readv k room).ret < 0 ↔ k.delivers = false := by
  cases k <;> simp [readv, ReadvResult.delivers]

theorem length_readv_le (k : ReadvResult) (room : Nat) :
    (readv k room).bytes.length ≤ room := by
  cases k with
  | deliver bs => exact List.length_take_le room bs
  | fail e => exact Nat.zero_le room

/-- Either the call failed and stored nothing, or it returned the number of
bytes stored. -/
theorem readv_cases (k : ReadvResult) (room : Nat) :
    ((readv k room).ret < 0 ∧ (readv k room).bytes = []) ∨
      (readv k room).ret = (readv k room).bytes.length := by
  cases k with
  | deliver bs => exact Or.inr rfl
  | fail e => exact Or.inl ⟨by simp [readv], rfl⟩

end Mymuduo
