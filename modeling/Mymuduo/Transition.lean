/-
Mymuduo/Transition.lean

Labelled machines and their runs, over any states and labels.

A machine says where it may start and, for a state and a label, which state
follows (`none` when the label is not enabled there).  Labels carry everything
a step does not decide by itself, so a run is determined by its start and its
labels.  These kinds of rule are provided:

* invariants: what every step keeps, every run keeps (`run_invariant`,
  `Reachable.invariant`, and `run_progress` when the steps are also enabled);
* guards: `Along P s es` says that every step of the run meets `P` in the state
  before it.  `not_bad_iff_along` is the rule for an *exact* guard: guarded
  steps keep the invariant, an unguarded step does damage that never heals;
* step properties: `Every Q s es` says that every step the run takes meets `Q`,
  which reads the states on both sides.  `every_iff_along` gives its exact guard;
* peaks: `peak load s es` is the largest load of a step, and `every_le_of_peak`
  bounds a size that grows only under a load;
* rest: steps that each do some of the work there is end in a state `AtRest`
  (`exists_run_to_rest`), after no more steps than there is work;
* refinement: a guarded run of one machine is a run of another one through related
  states, label for label (`run_lockstep`).
-/
import Mathlib.Tactic
import Mathlib.Data.List.Basic

namespace Transition

variable {σ τ ε : Type*}

/-- A labelled machine.  `next s e = none` means that `e` is not enabled in
`s`. -/
structure Machine (σ ε : Type*) where
  init : σ → Prop
  next : σ → ε → Option σ

namespace Machine

/-! ### Runs -/

/-- The state after the labels `es`, one after the other. -/
def run (M : Machine σ ε) (s : σ) (es : List ε) : Option σ := es.foldlM M.next s

/-- Every step of the run from `s` along `es` meets `P` in the state before
it. -/
def Along (M : Machine σ ε) (P : σ → ε → Prop) : σ → List ε → Prop
  | _, [] => True
  | s, e :: es => P s e ∧ ∀ t, M.next s e = some t → M.Along P t es

/-- Every step that the run from `s` along `es` takes meets `Q`, which reads
the state before and the state after it. -/
def Every (M : Machine σ ε) (Q : σ → ε → σ → Prop) : σ → List ε → Prop
  | _, [] => True
  | s, e :: es => ∀ t, M.next s e = some t → Q s e t ∧ M.Every Q t es

/-- The largest `load` of a step that the run from `s` along `es` takes. -/
def peak (M : Machine σ ε) (load : σ → ε → Nat) : σ → List ε → Nat
  | _, [] => 0
  | s, e :: es => max (load s e) ((M.next s e).elim 0 fun t => M.peak load t es)

/-- The states of the runs that start in an initial state. -/
def Reachable (M : Machine σ ε) (t : σ) : Prop :=
  ∃ s es, M.init s ∧ M.run s es = some t

variable {M : Machine σ ε} {s t u : σ} {e : ε} {es fs : List ε}
variable {P Q A : σ → ε → Prop} {I Bad : σ → Prop}

@[simp] theorem run_nil : M.run s [] = some s := rfl

@[simp] theorem run_cons : M.run s (e :: es) = (M.next s e).bind (M.run · es) := rfl

theorem run_append : M.run s (es ++ fs) = (M.run s es).bind (M.run · fs) :=
  List.foldlM_append

/-- A run that takes a first step. -/
theorem run_cons_some :
    M.run s (e :: es) = some t ↔ ∃ u, M.next s e = some u ∧ M.run u es = some t := by
  rw [run_cons, Option.bind_eq_some_iff]

@[simp] theorem along_nil : M.Along P s [] := trivial

theorem along_cons :
    M.Along P s (e :: es) ↔ P s e ∧ ∀ t, M.next s e = some t → M.Along P t es := Iff.rfl

theorem Along.imp (hPQ : ∀ s e, P s e → Q s e) (h : M.Along P s es) : M.Along Q s es := by
  induction es generalizing s with
  | nil => trivial
  | cons e es ih => exact ⟨hPQ s e h.1, fun t ht => ih (h.2 t ht)⟩

theorem along_of_forall (h : ∀ s, ∀ e ∈ es, P s e) : M.Along P s es := by
  induction es generalizing s with
  | nil => trivial
  | cons e es ih =>
      refine ⟨h s e List.mem_cons_self, fun t _ => ih ?_⟩
      exact fun s' e' he' => h s' e' (List.mem_cons_of_mem e he')

theorem Along.and (hP : M.Along P s es) (hQ : M.Along Q s es) :
    M.Along (fun s e => P s e ∧ Q s e) s es := by
  induction es generalizing s with
  | nil => trivial
  | cons e es ih =>
      exact ⟨⟨hP.1, hQ.1⟩, fun t ht => ih (hP.2 t ht) (hQ.2 t ht)⟩

/-- The guard of a run is that of its first part, and that of the rest from where the
first part ends. -/
theorem along_append :
    M.Along P s (es ++ fs) ↔ M.Along P s es ∧ ∀ t, M.run s es = some t → M.Along P t fs := by
  induction es generalizing s with
  | nil => exact ⟨fun h => ⟨trivial, fun _ ht => Option.some.inj ht ▸ h⟩, fun h => h.2 s rfl⟩
  | cons e es ih =>
      constructor
      · rintro ⟨he, hrest⟩
        refine ⟨⟨he, fun u hu => (ih.mp (hrest u hu)).1⟩, fun t ht => ?_⟩
        obtain ⟨u, hu, hrun⟩ := run_cons_some.mp ht
        exact (ih.mp (hrest u hu)).2 t hrun
      · rintro ⟨⟨he, hes⟩, hfs⟩
        refine ⟨he, fun u hu => ih.mpr ⟨hes u hu, fun t ht => hfs t ?_⟩⟩
        exact run_cons_some.mpr ⟨u, hu, ht⟩

/-- On a concrete run the guard can be evaluated. -/
instance Along.decidable (M : Machine σ ε) (P : σ → ε → Prop) [∀ s e, Decidable (P s e)] :
    (s : σ) → (es : List ε) → Decidable (M.Along P s es)
  | _, [] => isTrue trivial
  | s, e :: es =>
      match h : M.next s e with
      | none => decidable_of_iff (P s e) (by simp [along_cons, h])
      | some t =>
          have := Along.decidable M P t es
          decidable_of_iff (P s e ∧ M.Along P t es) (by simp [along_cons, h])

/-! ### Invariants -/

/-- What every guarded step keeps, every guarded run keeps. -/
theorem run_invariant
    (hstep : ∀ s e t, I s → P s e → M.next s e = some t → I t)
    (hP : M.Along P s es) (hrun : M.run s es = some t) (hs : I s) : I t := by
  induction es generalizing s with
  | nil => obtain rfl := Option.some.inj hrun; exact hs
  | cons e es ih =>
      obtain ⟨u, hu, hrest⟩ := run_cons_some.mp hrun
      exact ih (hP.2 u hu) hrest (hstep s e u hs hP.1 hu)

/-- What every step keeps, every run keeps. -/
theorem run_invariant' (hstep : ∀ s e t, I s → M.next s e = some t → I t)
    (hrun : M.run s es = some t) (hs : I s) : I t :=
  run_invariant (P := fun _ _ => True) (fun s e t h _ => hstep s e t h)
    (along_of_forall fun _ _ _ => trivial) hrun hs

/-- An invariant of the initial states and of every step holds in every
reachable state. -/
theorem Reachable.invariant (h : M.Reachable t) (hinit : ∀ s, M.init s → I s)
    (hstep : ∀ s e t, I s → M.next s e = some t → I t) : I t := by
  obtain ⟨s, es, hs, hrun⟩ := h
  exact run_invariant' hstep hrun (hinit s hs)

/-- If guarded steps are enabled and keep the invariant, a guarded run goes
through to its end. -/
theorem run_progress (hstep : ∀ s e, I s → P s e → ∃ t, M.next s e = some t ∧ I t)
    (hP : M.Along P s es) (hs : I s) : ∃ t, M.run s es = some t ∧ I t := by
  induction es generalizing s with
  | nil => exact ⟨s, rfl, hs⟩
  | cons e es ih =>
      obtain ⟨u, hu, hIu⟩ := hstep s e hs hP.1
      obtain ⟨t, ht, hIt⟩ := ih (hP.2 u hu) hIu
      exact ⟨t, run_cons_some.mpr ⟨u, hu, ht⟩, hIt⟩

/-! ### Exact guards -/

section Guard

variable (hkeep : ∀ s e t, I s → A s e → P s e → M.next s e = some t → I t)
variable (hbreak : ∀ s e t, I s → A s e → ¬ P s e → M.next s e = some t → Bad t)
variable (hstay : ∀ s e t, Bad s → A s e → M.next s e = some t → Bad t)

include hstay in
/-- Damage never heals. -/
theorem run_bad (hA : M.Along A s es) (hrun : M.run s es = some t) (hs : Bad s) :
    Bad t :=
  run_invariant hstay hA hrun hs

include hkeep hbreak hstay in
/-- A run that misses the guard somewhere ends in a bad state. -/
theorem bad_of_not_along (hA : M.Along A s es) (hrun : M.run s es = some t)
    (hs : I s) (hP : ¬ M.Along P s es) : Bad t := by
  induction es generalizing s with
  | nil => exact absurd along_nil hP
  | cons e es ih =>
      obtain ⟨u, hu, hrest⟩ := run_cons_some.mp hrun
      have hAu := hA.2 u hu
      by_cases hPe : P s e
      · -- the first step is guarded, so the guard is missed later
        refine ih hAu hrest (hkeep s e u hs hA.1 hPe hu) fun hPu => hP ⟨hPe, ?_⟩
        intro v hv
        obtain rfl : u = v := Option.some.inj (hu.symm.trans hv)
        exact hPu
      · exact run_bad hstay hAu hrest (hbreak s e u hs hA.1 hPe hu)

include hkeep hbreak hstay in
/-- **Exact guards.**  If guarded steps keep an invariant that excludes damage,
unguarded steps do damage, and damage never heals, then a run ends undamaged
exactly when all its steps were guarded. -/
theorem not_bad_iff_along (hdisj : ∀ s, I s → ¬ Bad s) (hA : M.Along A s es)
    (hrun : M.run s es = some t) (hs : I s) : ¬ Bad t ↔ M.Along P s es := by
  constructor
  · intro hgood
    by_contra hP
    exact hgood (bad_of_not_along hkeep hbreak hstay hA hrun hs hP)
  · intro hP
    refine hdisj t (run_invariant (P := fun s e => A s e ∧ P s e) ?_ (hA.and hP) hrun hs)
    exact fun s e t hs hAP ht => hkeep s e t hs hAP.1 hAP.2 ht

end Guard

/-! ### Step properties -/

section Every

variable {R : σ → ε → σ → Prop}

@[simp] theorem every_nil : M.Every R s [] := trivial

theorem every_cons_of_next (h : M.next s e = some t) :
    M.Every R s (e :: es) ↔ R s e t ∧ M.Every R t es := by
  constructor
  · exact fun hR => hR t h
  · intro hR u hu
    obtain rfl : t = u := Option.some.inj (h.symm.trans hu)
    exact hR

theorem along_cons_of_next (h : M.next s e = some t) :
    M.Along P s (e :: es) ↔ P s e ∧ M.Along P t es := by
  constructor
  · exact fun hP => ⟨hP.1, hP.2 t h⟩
  · rintro ⟨hPe, hPes⟩
    refine ⟨hPe, fun u hu => ?_⟩
    obtain rfl : t = u := Option.some.inj (h.symm.trans hu)
    exact hPes

/-- The steps after a run that the property covers. -/
theorem Every.after (hR : M.Every R s (es ++ fs)) (hrun : M.run s es = some t) :
    M.Every R t fs := by
  induction es generalizing s with
  | nil => obtain rfl := Option.some.inj hrun; exact hR
  | cons e es ih =>
      obtain ⟨u, hu, hrest⟩ := run_cons_some.mp hrun
      exact ih (hR u hu).2 hrest

/-- Guarded steps that keep the invariant and meet `R` make guarded runs whose
every step meets `R`. -/
theorem every_of_along (hR : ∀ s e t, I s → P s e → M.next s e = some t → R s e t)
    (hkeep : ∀ s e t, I s → P s e → M.next s e = some t → I t)
    (hP : M.Along P s es) (hs : I s) : M.Every R s es := by
  induction es generalizing s with
  | nil => trivial
  | cons e es ih =>
      intro t ht
      exact ⟨hR s e t hs hP.1 ht, ih (hP.2 t ht) (hkeep s e t hs hP.1 ht)⟩

/-- What every step that meets `R` keeps, a run whose every step meets `R`
keeps. -/
theorem run_invariant_of_every (hstep : ∀ s e t, I s → R s e t → M.next s e = some t → I t)
    (hR : M.Every R s es) (hrun : M.run s es = some t) (hs : I s) : I t := by
  induction es generalizing s with
  | nil => obtain rfl := Option.some.inj hrun; exact hs
  | cons e es ih =>
      obtain ⟨u, hu, hrest⟩ := run_cons_some.mp hrun
      obtain ⟨hRe, hRes⟩ := hR u hu
      exact ih hRes hrest (hstep s e u hs hRe hu)

/-- **Exact guards of a step property.**  If the guard decides the property of
the step and guarded steps keep the invariant, then every step of a run has the
property exactly when all its steps were guarded. -/
theorem every_iff_along
    (hR : ∀ s e t, I s → A s e → M.next s e = some t → (R s e t ↔ P s e))
    (hkeep : ∀ s e t, I s → A s e → P s e → M.next s e = some t → I t)
    (hA : M.Along A s es) (hrun : M.run s es = some t) (hs : I s) :
    M.Every R s es ↔ M.Along P s es := by
  induction es generalizing s with
  | nil => exact Iff.rfl
  | cons e es ih =>
      obtain ⟨u, hu, hrest⟩ := run_cons_some.mp hrun
      rw [every_cons_of_next hu, along_cons_of_next hu, hR s e u hs hA.1 hu]
      refine and_congr_right fun hPe => ?_
      exact ih (hA.2 u hu) hrest (hkeep s e u hs hA.1 hPe hu)

end Every

/-! ### Peaks -/

/-- If a step leaves a size that is no larger than it was or than what its load
accounts for, then no state of the run has a larger size than the first one or than
what the peak accounts for. -/
theorem every_le_of_peak {load : σ → ε → Nat} {size : σ → Nat} {f : Nat → Nat} {bound : Nat}
    (hf : Monotone f) (hkeep : ∀ s e t, I s → M.next s e = some t → I t)
    (hstep : ∀ s e t, I s → M.next s e = some t → size t ≤ max (size s) (f (load s e)))
    (hs : I s) (hsize : size s ≤ bound) (hpeak : f (M.peak load s es) ≤ bound) :
    M.Every (fun _ _ t => size t ≤ bound) s es := by
  induction es generalizing s with
  | nil => trivial
  | cons e es ih =>
      intro t ht
      have hload : f (load s e) ≤ bound := (hf (le_max_left _ _)).trans hpeak
      have ht_size : size t ≤ bound := (hstep s e t hs ht).trans (max_le hsize hload)
      refine ⟨ht_size, ih (hkeep s e t hs ht) ht_size (le_trans (hf ?_) hpeak)⟩
      rw [peak, ht]
      exact le_max_right _ _

/-! ### Coming to rest -/

/-- No guarded step is possible. -/
def AtRest (M : Machine σ ε) (P : σ → ε → Prop) (s : σ) : Prop :=
  ∀ e, P s e → M.next s e = none

section Rest

variable {work : σ → Nat}
variable (hwork : ∀ s e t, P s e → M.next s e = some t → work t < work s)
include hwork

/-- A guarded run has no more steps than the work it does. -/
theorem length_add_work_le (hP : M.Along P s es) (hrun : M.run s es = some t) :
    es.length + work t ≤ work s := by
  induction es generalizing s with
  | nil =>
      obtain rfl := Option.some.inj hrun
      simp
  | cons e es ih =>
      obtain ⟨u, hu, hrest⟩ := run_cons_some.mp hrun
      have hfirst := hwork s e u hP.1 hu
      have hlater := ih (hP.2 u hu) hrest
      rw [List.length_cons]
      omega

/-- **Coming to rest.**  If every guarded step does some work, every state has a guarded
run to one at rest. -/
theorem exists_run_to_rest (s : σ) :
    ∃ es t, M.Along P s es ∧ M.run s es = some t ∧ M.AtRest P t := by
  induction hn : work s using Nat.strong_induction_on generalizing s with
  | _ n ih =>
      by_cases hrest : M.AtRest P s
      · exact ⟨[], s, trivial, rfl, hrest⟩
      · simp only [AtRest, not_forall] at hrest
        obtain ⟨e, he, hnext⟩ := hrest
        obtain ⟨u, hu⟩ := Option.ne_none_iff_exists'.mp hnext
        obtain ⟨es, t, hes, hrun, ht⟩ := ih _ (hn ▸ hwork s e u he hu) u rfl
        exact ⟨e :: es, t, (along_cons_of_next hu).mpr ⟨he, hes⟩,
          run_cons_some.mpr ⟨u, hu, hrun⟩, ht⟩

end Rest

/-! ### Refinement -/

/-- Lockstep refinement: a guarded step of `M` is enabled, and `N` takes the
same label to a related state. -/
theorem run_lockstep {N : Machine τ ε} {R : σ → τ → Prop} {v : τ}
    (hstep : ∀ s v e, R s v → P s e →
      ∃ s' v', M.next s e = some s' ∧ N.next v e = some v' ∧ R s' v')
    (hP : M.Along P s es) (hR : R s v) :
    ∃ s' v', M.run s es = some s' ∧ N.run v es = some v' ∧ R s' v' := by
  induction es generalizing s v with
  | nil => exact ⟨s, v, rfl, rfl, hR⟩
  | cons e es ih =>
      obtain ⟨s₁, v₁, hs₁, hv₁, hR₁⟩ := hstep s v e hR hP.1
      obtain ⟨s', v', hs', hv', hR'⟩ := ih (hP.2 s₁ hs₁) hR₁
      exact ⟨s', v', run_cons_some.mpr ⟨s₁, hs₁, hs'⟩,
        run_cons_some.mpr ⟨v₁, hv₁, hv'⟩, hR'⟩

end Machine

end Transition
