/-
Mymuduo/ConnectionName.lean

The name of a connection: the server's name, its address and a number
(InetAddress.cc, `TcpServer::newConnection`).

`newConnection` prints the address and the value of an `int` counter into a
buffer of 64 bytes.  The printed text is at most 34 characters long
(`length_suffix_le`), so nothing is cut off, and two names of one server agree
only if the counters do (`connName_inj`).
-/
import Mathlib.Tactic

namespace Mymuduo

/-- A `std::string`, or the text before the terminating null of a `char` array. -/
abbrev Text := List Char

/-! ### Printing -/

/-- `%u`. -/
def formatUnsigned (n : Nat) : Text := Nat.toDigits 10 n

/-- `%d`. -/
def formatInt : Int → Text
  | .ofNat n => formatUnsigned n
  | .negSucc n => '-' :: formatUnsigned (n + 1)

/-- What `snprintf` leaves in a buffer of `size` bytes, the last of them for the
terminating null. -/
def snprintf (size : Nat) (text : Text) : Text := text.take (size - 1)

theorem snprintf_eq {size : Nat} {text : Text} (h : text.length < size) :
    snprintf size text = text :=
  List.take_of_length_le (by omega)

theorem formatUnsigned_injective : Function.Injective formatUnsigned := by
  intro m n h
  calc m = Nat.ofDigitChars 10 (formatUnsigned m) 0 := Nat.ofDigitChars_ten_toDigits.symm
    _ = Nat.ofDigitChars 10 (formatUnsigned n) 0 := by rw [h]
    _ = n := Nat.ofDigitChars_ten_toDigits

/-- A printed number has no sign in front. -/
theorem minus_cons_ne (n : Nat) (text : Text) : '-' :: text ≠ formatUnsigned n := by
  intro h
  have hmem : '-' ∈ Nat.toDigits 10 n := by
    rw [show Nat.toDigits 10 n = _ from h.symm]
    exact List.mem_cons_self
  have hdigit := Nat.isDigit_of_mem_toDigits (by decide) (by decide) hmem
  revert hdigit
  decide

theorem formatInt_injective : Function.Injective formatInt := by
  intro a b h
  cases a with
  | ofNat m =>
      cases b with
      | ofNat n => rw [formatUnsigned_injective h]
      | negSucc n => exact absurd h.symm (minus_cons_ne m _)
  | negSucc m =>
      cases b with
      | ofNat n => exact absurd h (minus_cons_ne n _)
      | negSucc n =>
          have := formatUnsigned_injective (List.cons_inj_right _ |>.mp h)
          rw [Nat.succ.inj this]

theorem length_formatUnsigned_le {n k : Nat} (hk : 0 < k) (h : n < 10 ^ k) :
    (formatUnsigned n).length ≤ k :=
  (Nat.length_toDigits_le_iff (by decide) hk).mpr h

/-- An `int` takes at most eleven characters. -/
theorem length_formatInt_le (x : BitVec 32) : (formatInt x.toInt).length ≤ 11 := by
  have hlt := BitVec.toInt_lt (x := x)
  have hle := BitVec.le_toInt (x := x)
  cases hx : x.toInt with
  | ofNat n =>
      rw [hx] at hlt
      have : (formatUnsigned n).length ≤ 10 :=
        length_formatUnsigned_le (by decide) (by simp at hlt; omega)
      exact this.trans (by decide)
  | negSucc n =>
      rw [hx] at hle
      have : (formatUnsigned (n + 1)).length ≤ 10 :=
        length_formatUnsigned_le (by decide) (by simp at hle; omega)
      exact Nat.succ_le_succ this

/-! ### Addresses -/

/-- An IPv4 address and port: the bytes of `addr_.sin_addr` in network order and
`ntohs(addr_.sin_port)`. -/
structure InetAddress where
  sin_addr : BitVec 8 × BitVec 8 × BitVec 8 × BitVec 8
  sin_port : BitVec 16
  deriving DecidableEq, Repr

namespace InetAddress

/-- `inet_ntop(AF_INET, …)`. -/
def toIp (addr : InetAddress) : Text :=
  let (a, b, c, d) := addr.sin_addr
  formatUnsigned a.toNat ++ '.' :: formatUnsigned b.toNat ++ '.' :: formatUnsigned c.toNat ++
    '.' :: formatUnsigned d.toNat

def toIpPort (addr : InetAddress) : Text :=
  addr.toIp ++ ':' :: formatUnsigned addr.sin_port.toNat

theorem length_octet_le (x : BitVec 8) : (formatUnsigned x.toNat).length ≤ 3 :=
  length_formatUnsigned_le (by decide) (by have := x.isLt; omega)

theorem length_toIpPort_le (addr : InetAddress) : addr.toIpPort.length ≤ 21 := by
  obtain ⟨⟨a, b, c, d⟩, port⟩ := addr
  have ha := length_octet_le a
  have hb := length_octet_le b
  have hc := length_octet_le c
  have hd := length_octet_le d
  have hport : (formatUnsigned port.toNat).length ≤ 5 :=
    length_formatUnsigned_le (by decide) (by have := port.isLt; omega)
  simp only [toIpPort, toIp, List.length_append, List.length_cons]
  omega

end InetAddress

/-! ### Names -/

/-- The text that `newConnection` prints. -/
def connSuffix (ipPort : Text) (connId : BitVec 32) : Text :=
  '-' :: ipPort ++ '#' :: formatInt connId.toInt

/-- `connName` in `newConnection`. -/
def connName (name ipPort : Text) (connId : BitVec 32) : Text :=
  name ++ snprintf 64 (connSuffix ipPort connId)

theorem length_suffix_le (addr : InetAddress) (connId : BitVec 32) :
    (connSuffix addr.toIpPort connId).length ≤ 34 := by
  have haddr := addr.length_toIpPort_le
  have hid := length_formatInt_le connId
  simp only [connSuffix, List.cons_append, List.length_cons, List.length_append]
  omega

/-- The buffer is long enough, so the name determines the counter. -/
theorem connName_inj {name : Text} {addr : InetAddress} {a b : BitVec 32} :
    connName name addr.toIpPort a = connName name addr.toIpPort b ↔ a = b := by
  refine ⟨fun h => ?_, fun h => by rw [h]⟩
  have hfit : ∀ x, snprintf 64 (connSuffix addr.toIpPort x) = connSuffix addr.toIpPort x :=
    fun x => snprintf_eq ((length_suffix_le addr x).trans_lt (by decide))
  have htext := List.append_cancel_left h
  rw [hfit, hfit] at htext
  have hint := List.append_cancel_left (show _ ++ '#' :: _ = _ ++ '#' :: _ from htext)
  exact BitVec.eq_of_toInt_eq (formatInt_injective (List.cons_inj_right _ |>.mp hint))

end Mymuduo
