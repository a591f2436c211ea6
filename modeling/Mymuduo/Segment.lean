/-
Mymuduo/Segment.lean

Blocks of a list read as memory: bounds-checked copying, one element at a time.

`blit xs dst vs` stores the block `vs` into `xs` from index `dst` on, and
`copyWithin xs src dst n` copies `n` elements of `xs` to another place of the
same list, in increasing order.  Both are loops that give up (`none`) at the
first index outside the list, so a `some` result certifies that every access
was in bounds.  The two closed forms (`blit_eq`, `copyWithin_eq`) say when the
loops go through and what they leave; a forward copy may overlap its source as
long as it moves towards the front.
-/
import Mathlib.Tactic
import Mathlib.Data.List.Basic

namespace Segment

variable {α : Type*}

/-- Store the block `vs` into `xs`, from index `dst` on. -/
def blit (xs : List α) (dst : Nat) : List α → Option (List α)
  | [] => some xs
  | v :: vs => if dst < xs.length then blit (xs.set dst v) (dst + 1) vs else none

/-- Copy `n` elements of `xs` from index `src` on to index `dst` on, in
increasing order. -/
def copyWithin (xs : List α) (src dst : Nat) : Nat → Option (List α)
  | 0 => some xs
  | n + 1 =>
      match xs[src]? with
      | some v =>
          if dst < xs.length then copyWithin (xs.set dst v) (src + 1) (dst + 1) n else none
      | none => none

/-- The elements of `xs` from index `i` to index `j`. -/
def slice (xs : List α) (i j : Nat) : List α := (xs.take j).drop i

/-! ### One store -/

theorem take_succ_set {xs : List α} {i : Nat} (v : α) (h : i < xs.length) :
    (xs.set i v).take (i + 1) = xs.take i ++ [v] := by
  rw [List.set_eq_take_append_cons_drop, if_pos h]
  have hlen : (xs.take i).length = i := List.length_take_of_le (Nat.le_of_lt h)
  rw [List.take_append, hlen, List.take_of_length_le (by omega)]
  simp

theorem drop_set_of_le {xs : List α} {i j : Nat} (v : α) (h : i < j) :
    (xs.set i v).drop j = xs.drop j :=
  List.drop_set_of_lt h

/-! ### The loops in closed form -/

/-- A block that fits is stored, and the rest of the list is left alone. -/
theorem blit_eq {xs vs : List α} {dst : Nat} (h : dst + vs.length ≤ xs.length) :
    blit xs dst vs = some (xs.take dst ++ vs ++ xs.drop (dst + vs.length)) := by
  induction vs generalizing xs dst with
  | nil => simp [blit]
  | cons v vs ih =>
      have hlt : dst < xs.length := by simp at h; omega
      have hfit : dst + 1 + vs.length ≤ (xs.set dst v).length := by simp at h ⊢; omega
      rw [blit, if_pos hlt, ih hfit, take_succ_set v hlt, drop_set_of_le v (by omega)]
      simp [Nat.add_comm, Nat.add_left_comm]

/-- A forward copy towards the front goes through, overlapping or not. -/
theorem copyWithin_eq {xs : List α} {src dst n : Nat} (hle : dst ≤ src)
    (h : src + n ≤ xs.length) :
    copyWithin xs src dst n
      = some (xs.take dst ++ (xs.drop src).take n ++ xs.drop (dst + n)) := by
  induction n generalizing xs src dst with
  | zero => simp [copyWithin]
  | succ n ih =>
      have hsrc : src < xs.length := by omega
      have hdst : dst < xs.length := by omega
      have hfit : src + 1 + n ≤ (xs.set dst xs[src]).length := by simp; omega
      -- the stored element sits at `dst`, before everything still to be read
      have hread : (xs.set dst xs[src]).drop (src + 1) = xs.drop (src + 1) :=
        drop_set_of_le _ (by omega)
      simp only [copyWithin, List.getElem?_eq_getElem hsrc, if_pos hdst]
      rw [ih (by omega) hfit, take_succ_set _ hdst, hread, drop_set_of_le _ (by omega)]
      rw [List.drop_eq_getElem_cons hsrc, List.take_succ_cons]
      simp [Nat.add_comm, Nat.add_left_comm]

theorem length_blit {xs ys vs : List α} {dst : Nat} (h : blit xs dst vs = some ys) :
    ys.length = xs.length := by
  induction vs generalizing xs dst with
  | nil => obtain rfl := Option.some.inj h; rfl
  | cons v vs ih =>
      obtain ⟨-, h⟩ := Option.ite_none_right_eq_some.mp h
      rw [ih h, List.length_set]

theorem length_copyWithin {xs ys : List α} {src dst n : Nat}
    (h : copyWithin xs src dst n = some ys) : ys.length = xs.length := by
  induction n generalizing xs src dst with
  | zero => obtain rfl := Option.some.inj h; rfl
  | succ n ih =>
      rw [copyWithin] at h
      split at h
      · obtain ⟨-, h⟩ := Option.ite_none_right_eq_some.mp h
        rw [ih h, List.length_set]
      · cases h

/-! ### Slices -/

@[simp] theorem length_slice {xs : List α} {i j : Nat} (h : j ≤ xs.length) :
    (slice xs i j).length = j - i := by
  simp [slice, Nat.min_eq_left h]

@[simp] theorem slice_self (xs : List α) (i : Nat) : slice xs i i = [] := by
  simp [slice]

theorem slice_eq_take_drop (xs : List α) (i j : Nat) :
    slice xs i j = (xs.drop i).take (j - i) := by
  rw [slice, List.drop_take]

/-- Dropping from the front of a slice moves its left end. -/
theorem drop_slice (xs : List α) (i j n : Nat) :
    (slice xs i j).drop n = slice xs (i + n) j := by
  rw [slice, slice, List.drop_drop]

/-- A slice that ends inside a prefix does not see what follows the prefix. -/
theorem slice_append_left {xs ys : List α} {i j : Nat} (h : j ≤ xs.length) :
    slice (xs ++ ys) i j = slice xs i j := by
  rw [slice, slice, List.take_append_of_le_length h]

/-- The slice up to the end of a block stored right behind it. -/
theorem slice_take_append {xs vs ys : List α} {i j : Nat} (hij : i ≤ j)
    (hj : j ≤ xs.length) :
    slice (xs.take j ++ vs ++ ys) i (j + vs.length) = slice xs i j ++ vs := by
  have hlen : (xs.take j).length = j := List.length_take_of_le hj
  have htake : (xs.take j ++ vs ++ ys).take (j + vs.length) = xs.take j ++ vs := by
    rw [List.take_append_of_le_length (by simp [hlen])]
    exact List.take_of_length_le (by simp [hlen])
  rw [slice, htake, List.drop_append_of_le_length (by omega), slice]

end Segment
