/-
Mymuduo/Ledger.lean

What a machine takes in and gives out in the course of a run.

`gather f s es` is what the steps of the run from `s` along `es` yield, one after
the other; `f` reads the yield of a step off its label and the state before it.  A
machine that keeps what it has taken in until it gives it out is a queue to those
outside.  `conserved` derives that for whole runs from the balance of every step; and
`gather_le_budget` bounds the yield of a run whose every item is paid for.
-/
import Mymuduo.Transition

namespace Transition.Machine

variable {σ ε β : Type*}

/-- What the steps of the run from `s` along `es` yield. -/
def gather (M : Machine σ ε) (f : σ → ε → List β) : σ → List ε → List β
  | _, [] => []
  | s, e :: es => f s e ++ (M.next s e).elim [] fun t => M.gather f t es

variable {M : Machine σ ε} {f : σ → ε → List β} {s t u : σ} {e : ε} {es fs : List ε}
variable {P : σ → ε → Prop} {I : σ → Prop}

@[simp] theorem gather_nil : M.gather f s [] = [] := rfl

theorem gather_cons_of_next (h : M.next s e = some t) :
    M.gather f s (e :: es) = f s e ++ M.gather f t es := by
  rw [gather, h, Option.elim_some]

/-- The yield of a run is that of its first part, then that of the rest. -/
theorem gather_append (hrun : M.run s es = some t) :
    M.gather f s (es ++ fs) = M.gather f s es ++ M.gather f t fs := by
  induction es generalizing s with
  | nil =>
      obtain rfl := Option.some.inj hrun
      rfl
  | cons e es ih =>
      obtain ⟨v, hv, hrest⟩ := run_cons_some.mp hrun
      rw [List.cons_append, gather_cons_of_next hv, gather_cons_of_next hv, ih hrest,
        List.append_assoc]

theorem gather_concat (hrun : M.run s es = some t) (h : M.next t e = some u) :
    M.gather f s (es ++ [e]) = M.gather f s es ++ f t e := by
  rw [gather_append hrun, gather_cons_of_next h, gather_nil, List.append_nil]

/-- A reading of the yield that goes item by item may be taken step by step. -/
theorem gather_hom {γ : Type*} {g : List β → List γ} (hnil : g [] = [])
    (happend : ∀ xs ys, g (xs ++ ys) = g xs ++ g ys) (s : σ) (es : List ε) :
    g (M.gather f s es) = M.gather (fun s e => g (f s e)) s es := by
  induction es generalizing s with
  | nil => exact hnil
  | cons e es ih =>
      rw [gather, gather, happend]
      cases M.next s e with
      | none => rw [Option.elim_none, Option.elim_none, hnil]
      | some t => rw [Option.elim_some, Option.elim_some, ih]

/-- **Conservation.**  If what a guarded step finds and takes in is what it gives out
and leaves, then the same holds of every guarded run: the yield is given out in the
order in which it was taken in, nothing twice and nothing never. -/
theorem conserved {into out : σ → ε → List β} {content : σ → List β}
    (hkeep : ∀ s e t, I s → P s e → M.next s e = some t → I t)
    (hstep : ∀ s e t, I s → P s e → M.next s e = some t →
      content s ++ into s e = out s e ++ content t)
    (hP : M.Along P s es) (hrun : M.run s es = some t) (hs : I s) :
    content s ++ M.gather into s es = M.gather out s es ++ content t := by
  induction es generalizing s with
  | nil =>
      obtain rfl := Option.some.inj hrun
      simp
  | cons e es ih =>
      obtain ⟨u, hu, hrest⟩ := run_cons_some.mp hrun
      have hfirst := hstep s e u hs hP.1 hu
      have hlast := ih (hP.2 u hu) hrest (hkeep s e u hs hP.1 hu)
      calc content s ++ M.gather into s (e :: es)
          = (content s ++ into s e) ++ M.gather into u es := by
            rw [gather_cons_of_next hu, List.append_assoc]
        _ = out s e ++ (content u ++ M.gather into u es) := by
            rw [hfirst, List.append_assoc]
        _ = M.gather out s (e :: es) ++ content t := by
            rw [hlast, gather_cons_of_next hu, List.append_assoc]

/-- Conservation without a guard. -/
theorem conserved' {into out : σ → ε → List β} {content : σ → List β}
    (hkeep : ∀ s e t, I s → M.next s e = some t → I t)
    (hstep : ∀ s e t, I s → M.next s e = some t →
      content s ++ into s e = out s e ++ content t)
    (hrun : M.run s es = some t) (hs : I s) :
    content s ++ M.gather into s es = M.gather out s es ++ content t :=
  conserved (P := fun _ _ => True) (fun s e t h _ => hkeep s e t h)
    (fun s e t h _ => hstep s e t h) (along_of_forall fun _ _ _ => trivial) hrun hs

/-- A record that grows by the yield of each step has grown by the yield of the run. -/
theorem recorded {record : σ → List β}
    (hstep : ∀ s e t, M.next s e = some t → record t = record s ++ f s e)
    (hrun : M.run s es = some t) : record t = record s ++ M.gather f s es := by
  induction es generalizing s with
  | nil =>
      obtain rfl := Option.some.inj hrun
      simp
  | cons e es ih =>
      obtain ⟨u, hu, hrest⟩ := run_cons_some.mp hrun
      rw [ih hrest, hstep s e u hu, gather_cons_of_next hu, List.append_assoc]

/-- **A budget.**  If every guarded step pays `k` out of the budget for each item of its
yield, the run yields no more than the budget it starts with. -/
theorem gather_le_budget {budget : σ → Nat} {k : Nat}
    (hstep : ∀ s e t, I s → P s e → M.next s e = some t →
      I t ∧ k * (f s e).length + budget t ≤ budget s)
    (hP : M.Along P s es) (hrun : M.run s es = some t) (hs : I s) :
    k * (M.gather f s es).length + budget t ≤ budget s := by
  induction es generalizing s with
  | nil =>
      obtain rfl := Option.some.inj hrun
      simp
  | cons e es ih =>
      obtain ⟨u, hu, hrest⟩ := run_cons_some.mp hrun
      obtain ⟨hIu, hpaid⟩ := hstep s e u hs hP.1 hu
      have hlater := ih (hP.2 u hu) hrest hIu
      rw [gather_cons_of_next hu, List.length_append, Nat.mul_add]
      omega

/-- A run that does not meet its guard has a first step that does not. -/
theorem exists_step_of_not_along (hrun : M.run s es = some t) (hP : ¬ M.Along P s es) :
    ∃ es₁ e es₂ u, es = es₁ ++ e :: es₂ ∧ M.run s es₁ = some u ∧ ¬ P u e := by
  induction es generalizing s with
  | nil => exact absurd trivial hP
  | cons e es ih =>
      obtain ⟨v, hv, hrest⟩ := run_cons_some.mp hrun
      by_cases he : P s e
      · obtain ⟨es₁, e', es₂, u, rfl, hu, hnot⟩ :=
          ih hrest fun hes => hP ((along_cons_of_next hv).mpr ⟨he, hes⟩)
        exact ⟨e :: es₁, e', es₂, u, rfl, run_cons_some.mpr ⟨v, hv, hu⟩, hnot⟩
      · exact ⟨[], e, es, s, rfl, rfl, he⟩

end Transition.Machine
