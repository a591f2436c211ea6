/-
Mymuduo/AddressText.lean

`InetAddress` from a text and back (InetAddress.cc).

The constructor hands the text to `inet_pton`, which reads it character by character:
three dots, and between them decimal numbers up to 255 without leading zeros.  It leaves
the address alone when it finds anything else, and then the constructor has made it
0.0.0.0.  Every text that `inet_pton` accepts is the one that `inet_ntop` prints, so
texts and addresses determine each other (`address_round_trip`).
-/
import Mathlib.Data.List.TakeWhile
import Mymuduo.ConnectionName

namespace Mymuduo

/-! ### inet_pton -/

/-- The text as `c_str()` shows it: up to the first null. -/
def c_str (s : Text) : Text := s.takeWhile fun ch => ch ≠ Char.ofNat 0

/-- The locals of `inet_pton` for IPv4: the octets behind a dot, the one that is being
read, whether it has a digit, and how many have one. -/
structure PtonState where
  done : List Nat
  tp : Nat
  saw_digit : Bool
  octets : Nat
  deriving DecidableEq, Repr

namespace PtonState

def init : PtonState where
  done := []
  tp := 0
  saw_digit := false
  octets := 0

/-- The next character. -/
def step (s : PtonState) (ch : Char) : Option PtonState :=
  if ch.isDigit = true then
    let new := s.tp * 10 + (ch.toNat - 48)
    if s.saw_digit = true ∧ s.tp = 0 then none
    else if 255 < new then none
    else if s.saw_digit = true then some { s with tp := new }
    else if 4 < s.octets + 1 then none
    else some { s with tp := new, saw_digit := true, octets := s.octets + 1 }
  else if ch = '.' ∧ s.saw_digit = true then
    if s.octets = 4 then none
    else some { s with done := s.done ++ [s.tp], tp := 0, saw_digit := false }
  else none

/-- The four octets, when all of them have been read. -/
def result (s : PtonState) : Option (BitVec 8 × BitVec 8 × BitVec 8 × BitVec 8) :=
  match s.octets, s.done with
  | 4, [a, b, c] => some (.ofNat 8 a, .ofNat 8 b, .ofNat 8 c, .ofNat 8 s.tp)
  | _, _ => none

end PtonState

/-- `inet_pton(AF_INET, …)`; `none` is a return of zero. -/
def inet_pton (text : Text) : Option (BitVec 8 × BitVec 8 × BitVec 8 × BitVec 8) :=
  (text.foldlM PtonState.step PtonState.init).bind PtonState.result

/-! ### What has been read -/

namespace PtonState

/-- The text that leads to the state. -/
def shown (s : PtonState) : Text :=
  s.done.flatMap (fun n => formatUnsigned n ++ ['.']) ++
    if s.saw_digit = true then formatUnsigned s.tp else []

/-- The locals fit each other. -/
structure Fits (s : PtonState) : Prop where
  octets : s.octets = s.done.length + if s.saw_digit = true then 1 else 0
  atMost : s.octets ≤ 4
  fresh : s.saw_digit = false → s.tp = 0 ∧ s.octets ≤ 3
  tp : s.tp < 256
  done : ∀ n ∈ s.done, n < 256

theorem fits_init : init.Fits := ⟨rfl, by decide, fun _ => ⟨rfl, by decide⟩, by decide, nofun⟩

variable {s t : PtonState} {ch : Char}

/-- A digit is what `%u` prints for its value. -/
theorem formatUnsigned_digit (h : ch.isDigit = true) :
    ch.toNat - 48 < 10 ∧ formatUnsigned (ch.toNat - 48) = [ch] := by
  have hrange : 48 ≤ ch.toNat ∧ ch.toNat ≤ 57 := by
    simpa [Char.isDigit, UInt32.le_iff_toNat_le] using h
  have hlt : ch.toNat - 48 < 10 := by omega
  refine ⟨hlt, ?_⟩
  rw [formatUnsigned, Nat.toDigits_of_lt_base hlt]
  congr 1
  apply Char.toNat_inj.mp
  rw [Nat.toNat_digitChar_of_lt_ten hlt]
  omega

/-- A digit behind a number. -/
theorem formatUnsigned_append {n d : Nat} (hn : 0 < n) (hd : d < 10) :
    formatUnsigned n ++ formatUnsigned d = formatUnsigned (n * 10 + d) := by
  rw [Nat.mul_comm]
  exact Nat.toDigits_append_toDigits (by decide) hn hd

/-- Every step reads one character, and goes on with locals that fit. -/
theorem Fits.step (h : s.Fits) (ht : s.step ch = some t) : t.Fits ∧ t.shown = s.shown ++ [ch] := by
  unfold PtonState.step at ht
  dsimp only at ht
  by_cases hdigit : ch.isDigit = true
  · obtain ⟨hlt, hshown⟩ := formatUnsigned_digit hdigit
    rw [if_pos hdigit] at ht
    obtain ⟨hzero, ht⟩ := Option.ite_none_left_eq_some.mp ht
    obtain ⟨hmax, ht⟩ := Option.ite_none_left_eq_some.mp ht
    by_cases hsaw : s.saw_digit = true
    · -- one more digit of an octet
      rw [if_pos hsaw] at ht
      cases ht
      have hpos : 0 < s.tp := Nat.pos_of_ne_zero fun htp => hzero ⟨hsaw, htp⟩
      refine ⟨⟨h.octets, h.atMost, fun hs => ?_, by dsimp only; omega, h.done⟩, ?_⟩
      · rw [show s.saw_digit = false from hs] at hsaw
        cases hsaw
      · rw [shown, shown, if_pos hsaw]
        dsimp only
        rw [if_pos hsaw, List.append_assoc, ← formatUnsigned_append hpos hlt, hshown]
    · -- the first digit
      rw [if_neg hsaw] at ht
      obtain ⟨hfew, ht⟩ := Option.ite_none_left_eq_some.mp ht
      cases ht
      have hoctets := h.octets
      rw [if_neg hsaw] at hoctets
      have htp := (h.fresh (Bool.eq_false_of_not_eq_true hsaw)).1
      refine ⟨⟨?_, ?_, nofun, by dsimp only; omega, h.done⟩, ?_⟩
      · rw [if_pos rfl, hoctets]
      · exact Nat.le_of_not_lt hfew
      · rw [shown, shown, if_pos rfl, if_neg hsaw, List.append_nil, htp, Nat.zero_mul, Nat.zero_add,
          hshown]
  · rw [if_neg hdigit] at ht
    obtain ⟨⟨hch, hsaw⟩, ht⟩ := Option.ite_none_right_eq_some.mp ht
    obtain ⟨hfew, ht⟩ := Option.ite_none_left_eq_some.mp ht
    cases ht
    have hoctets := h.octets
    have hmost := h.atMost
    rw [if_pos hsaw] at hoctets
    refine ⟨⟨?_, hmost, fun _ => ⟨rfl, by dsimp only; omega⟩, Nat.zero_lt_succ _,
      fun n hn => ?_⟩, ?_⟩
    · simp [hoctets]
    · rcases List.mem_append.mp hn with hold | hnew
      · exact h.done n hold
      · exact List.mem_singleton.mp hnew ▸ h.tp
    · simp [shown, hsaw, hch]

theorem Fits.run {text : Text} (h : s.Fits) (ht : text.foldlM PtonState.step s = some t) :
    t.Fits ∧ t.shown = s.shown ++ text := by
  induction text generalizing s with
  | nil =>
      obtain rfl := Option.some.inj ht
      exact ⟨h, (List.append_nil _).symm⟩
  | cons ch text ih =>
      obtain ⟨u, hu, hrest⟩ := Option.bind_eq_some_iff.mp ht
      obtain ⟨hfits, hshown⟩ := h.step hu
      obtain ⟨hfits', hshown'⟩ := ih hfits hrest
      exact ⟨hfits', by rw [hshown', hshown, List.append_assoc, List.singleton_append]⟩

/-- The locals after an octet, when `done` has the ones before it. -/
def after (done : List Nat) (n : Nat) : PtonState := ⟨done, n, true, done.length + 1⟩

/-- Reading a printed number. -/
theorem run_formatUnsigned {done : List Nat} (hfew : done.length ≤ 3) {n : Nat} (hn : n < 256) :
    (formatUnsigned n).foldlM PtonState.step ⟨done, 0, false, done.length⟩ = some (after done n) := by
  induction n using Nat.strong_induction_on with
  | _ n ih =>
      by_cases hsmall : n < 10
      · have hdigit : n.digitChar.isDigit = true := by
          rw [Nat.isDigit_digitChar]
          exact decide_eq_true hsmall
        have hvalue : n.digitChar.toNat - 48 = n := Nat.toNat_digitChar_sub_48_of_lt_ten hsmall
        rw [formatUnsigned, Nat.toDigits_of_lt_base hsmall]
        simp [PtonState.step, hdigit, hvalue, after]
        omega
      · have hlast : (n % 10).digitChar.isDigit = true := by
          rw [Nat.isDigit_digitChar]
          exact decide_eq_true (Nat.mod_lt _ (by decide))
        have hvalue : (n % 10).digitChar.toNat - 48 = n % 10 :=
          Nat.toNat_digitChar_sub_48_of_lt_ten (Nat.mod_lt _ (by decide))
        have hsplit : n / 10 * 10 + n % 10 = n := by omega
        have hne : n / 10 ≠ 0 := by omega
        rw [formatUnsigned, Nat.toDigits_of_base_le (by decide) (by omega), List.foldlM_append]
        change (((formatUnsigned (n / 10)).foldlM PtonState.step _).bind fun s => _) = _
        rw [ih (n / 10) (by omega) (by omega)]
        simp [PtonState.step, hlast, hvalue, hsplit, hne, after]
        omega

/-- Reading a dot behind an octet. -/
theorem step_dot {done : List Nat} (hfew : done.length < 3) (n : Nat) :
    (after done n).step '.' = some ⟨done ++ [n], 0, false, (done ++ [n]).length⟩ := by
  have hdigit : ('.' : Char).isDigit = false := by decide
  simp [PtonState.step, hdigit, after]
  omega

end PtonState

/-! ### Texts and addresses -/

namespace InetAddress

/-- `InetAddress::InetAddress(uint16_t port, std::string ip)`. -/
def new (port : BitVec 16) (ip : Text) : InetAddress where
  sin_addr := (inet_pton (c_str ip)).getD (0, 0, 0, 0)
  sin_port := port

/-- A printed address is read back. -/
theorem inet_pton_toIp (addr : InetAddress) : inet_pton addr.toIp = some addr.sin_addr := by
  obtain ⟨⟨a, b, c, d⟩, port⟩ := addr
  have hread : ∀ (done : List Nat) (x : BitVec 8) (text : Text), done.length < 3 →
      (formatUnsigned x.toNat ++ '.' :: text).foldlM PtonState.step ⟨done, 0, false, done.length⟩
        = text.foldlM PtonState.step
            ⟨done ++ [x.toNat], 0, false, (done ++ [x.toNat]).length⟩ := by
    intro done x text hfew
    rw [List.foldlM_append, PtonState.run_formatUnsigned (by omega) x.isLt]
    change ((PtonState.after done x.toNat).step '.').bind _ = _
    rw [PtonState.step_dot hfew]
    rfl
  have htext : toIp ⟨(a, b, c, d), port⟩ = formatUnsigned a.toNat ++ '.' :: (formatUnsigned b.toNat ++
      '.' :: (formatUnsigned c.toNat ++ '.' :: formatUnsigned d.toNat)) := by simp [toIp]
  rw [inet_pton, htext]
  change (List.foldlM PtonState.step ⟨[], 0, false, ([] : List Nat).length⟩ _).bind _ = _
  rw [hread _ a _ (by simp), hread _ b _ (by simp), hread _ c _ (by simp),
    PtonState.run_formatUnsigned (by simp) d.isLt]
  simp [PtonState.after, PtonState.result]

/-- What is accepted has been printed. -/
theorem toIp_of_inet_pton {text : Text} {a : BitVec 8 × BitVec 8 × BitVec 8 × BitVec 8}
    (h : inet_pton text = some a) (port : BitVec 16) : toIp ⟨a, port⟩ = text := by
  obtain ⟨s, hs, hresult⟩ := Option.bind_eq_some_iff.mp h
  obtain ⟨hfits, hshown⟩ := PtonState.fits_init.run hs
  have hoctets := hfits.octets
  unfold PtonState.result at hresult
  split at hresult
  · rename_i a b c hfour hdone
    cases hresult
    -- the fourth octet has been read
    have hsaw : s.saw_digit = true := by
      by_contra hsaw
      have hfew := (hfits.fresh (Bool.eq_false_of_not_eq_true hsaw)).2
      omega
    have ha := hfits.done a (by simp [hdone])
    have hb := hfits.done b (by simp [hdone])
    have hc := hfits.done c (by simp [hdone])
    have hd := hfits.tp
    rw [PtonState.shown, hsaw, hdone] at hshown
    simpa [toIp, Nat.mod_eq_of_lt, ha, hb, hc, hd, PtonState.shown, PtonState.init] using hshown
  · cases hresult

theorem inet_pton_eq_some_iff {text : Text} {addr : InetAddress} :
    inet_pton text = some addr.sin_addr ↔ text = addr.toIp := by
  constructor
  · exact fun h => (toIp_of_inet_pton h addr.sin_port).symm
  · rintro rfl
    exact addr.inet_pton_toIp

/-- A printed address has digits and dots only. -/
theorem mem_toIp {addr : InetAddress} {ch : Char} (h : ch ∈ addr.toIp) :
    ch.isDigit = true ∨ ch = '.' := by
  have hnumber : ∀ n, ch ∈ formatUnsigned n → ch.isDigit = true := fun n hn =>
    Nat.isDigit_of_mem_toDigits (by decide) (by decide) hn
  simp only [toIp, List.mem_append, List.mem_cons] at h
  rcases h with ((h | h | h) | h | h) | h | h
  · exact .inl (hnumber _ h)
  · exact .inr h
  · exact .inl (hnumber _ h)
  · exact .inr h
  · exact .inl (hnumber _ h)
  · exact .inr h
  · exact .inl (hnumber _ h)

/-- A character that is no digit and no dot does not stop the text from being read. -/
theorem takeWhile_toIp (addr : InetAddress) {x : Char} (hdigit : x.isDigit = false) (hdot : x ≠ '.') :
    ∀ ch ∈ addr.toIp, decide (ch ≠ x) = true := by
  intro ch hch
  refine decide_eq_true ?_
  rintro rfl
  rcases mem_toIp hch with h | h
  · rw [hdigit] at h
    cases h
  · exact hdot h

theorem c_str_toIp (addr : InetAddress) : c_str addr.toIp = addr.toIp :=
  List.takeWhile_eq_self_iff.mpr (addr.takeWhile_toIp (by decide) (by decide))

theorem new_toIp (addr : InetAddress) : new addr.sin_port addr.toIp = addr := by
  rw [new, c_str_toIp, inet_pton_toIp]
  rfl

/-- What is before the colon is the address, and what is behind it the port. -/
theorem toIpPort_injective : Function.Injective toIpPort := by
  intro addr addr' h
  have hcut : ∀ a : InetAddress, a.toIpPort.takeWhile (fun ch => decide (ch ≠ ':')) = a.toIp := by
    intro a
    rw [toIpPort, List.takeWhile_append_of_pos (a.takeWhile_toIp (by decide) (by decide))]
    simp
  have hip : addr.toIp = addr'.toIp := by rw [← hcut, ← hcut, h]
  have hport : addr.sin_port = addr'.sin_port := by
    rw [toIpPort, toIpPort, hip] at h
    have htail := List.append_cancel_left h
    exact BitVec.eq_of_toNat_eq (formatUnsigned_injective (List.cons_inj_right _ |>.mp htail))
  rw [← addr.new_toIp, ← addr'.new_toIp, hip, hport]

/-- **Texts and addresses.**  `inet_pton` accepts a text just when it is the one that is
printed for the address; an address is the one made of its port and its text; an address
made of any other text is 0.0.0.0 with its port; and `toIpPort` prints different
addresses differently, in less than the 64 bytes of its buffer. -/
theorem address_round_trip :
    (∀ (text : Text) (addr : InetAddress), inet_pton text = some addr.sin_addr ↔ text = addr.toIp) ∧
      (∀ addr : InetAddress, new addr.sin_port addr.toIp = addr) ∧
      (∀ (port : BitVec 16) (ip : Text), (∀ addr : InetAddress, c_str ip ≠ addr.toIp) →
        (new port ip).toIpPort = "0.0.0.0:".toList ++ formatUnsigned port.toNat) ∧
      (∀ (port : BitVec 16) (ip : Text) (addr : InetAddress), c_str ip = addr.toIp →
        (new port ip).toIpPort = c_str ip ++ ':' :: formatUnsigned port.toNat) ∧
      Function.Injective toIpPort ∧ ∀ addr : InetAddress, addr.toIpPort.length < 64 := by
  refine ⟨fun _ _ => inet_pton_eq_some_iff, new_toIp, fun port ip h => ?_, fun port ip addr h => ?_,
    toIpPort_injective, fun addr => addr.length_toIpPort_le.trans_lt (by decide)⟩
  · have hnone : inet_pton (c_str ip) = none := by
      cases hpton : inet_pton (c_str ip) with
      | none => rfl
      | some a => exact absurd (toIp_of_inet_pton hpton 0).symm (h ⟨a, 0⟩)
    rw [new, hnone]
    rfl
  · rw [new, h, inet_pton_toIp]
    rfl

/-- The address of the example server. -/
example : (new 8000 "127.0.0.1".toList).toIpPort = "127.0.0.1:8000".toList := by decide

end InetAddress

end Mymuduo
