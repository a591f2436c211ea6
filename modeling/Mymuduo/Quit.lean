/-
Mymuduo/Quit.lean

What `quit()` promises to the functors accepted before it.

`queueInLoop` calls that have returned when a `quit` is called are promised, and
`dropped` collects the promised functors that have not been executed when
`loop()` returns.  The loop tests `quit_` only between iterations.  A functor
that is queued when the swap of an iteration comes is executed in that
iteration; one that comes after the swap waits for the next, and is dropped if
`quit_` is set before the test.

`InTime` says which `quit` steps can drop nothing, and `nothing_dropped_iff` that
it is exact: a run whose steps are all in time drops nothing, and if the loop
has returned and has dropped nothing, then all steps were in time.
-/
import Mymuduo.FunctorQueue

namespace Mymuduo

open Transition EventLoop

variable {F Tid : Type*} {l l' : EventLoop F Tid} {e : LoopEvent F Tid}

/-! ### Promised and queued -/

/-- A functor that was promised is still queued. -/
def PromisedPending (l : EventLoop F Tid) : Prop := ∃ q ∈ l.pendingFunctors_, q.ticket ∈ l.promised

/-- The steps of `quit` that can drop nothing.  Between the swap of an iteration
and the next test of `quit_`, the store of `quit_` finds no promised functor in
the queue, and if `quit_` is set already, the call of `quit` finds no functor
there whose `queueInLoop` has returned. -/
def InTime (l : EventLoop F Tid) : LoopEvent F Tid → Prop
  | .call _ .storeQuit => l.pc.late = true → ¬ PromisedPending l
  | .call _ .quit =>
      l.pc.late = true → l.quit_ = true → ¬ ∃ q ∈ l.pendingFunctors_, q.ticket ∈ l.returned
  | _ => True

instance (l : EventLoop F Tid) : Decidable (PromisedPending l) :=
  inferInstanceAs (Decidable (∃ q ∈ l.pendingFunctors_, q.ticket ∈ l.promised))

instance (l : EventLoop F Tid) (e : LoopEvent F Tid) : Decidable (InTime l e) := by
  unfold InTime
  split <;> infer_instance

/-- Only tickets that were given out have been returned or promised. -/
structure Tickets (l : EventLoop F Tid) : Prop where
  order : QueueOrder l
  returned : ∀ n ∈ l.returned, n < l.history.length
  promised : ∀ n ∈ l.promised, n < l.history.length
  pushed : ∀ t n, l.activity t = .pushed n → n < l.history.length

/-- What a run keeps while all its steps are in time. -/
structure Kept (l : EventLoop F Tid) : Prop where
  tickets : Tickets l
  dropped : l.dropped = []
  late : l.quit_ = true → l.pc.late = true → ¬ PromisedPending l

/-- What a run keeps after a step that is not: something is dropped, or will be at
the next test of `quit_`. -/
structure Doomed (l : EventLoop F Tid) : Prop where
  tickets : Tickets l
  damage : l.dropped ≠ [] ∨ (l.quit_ = true ∧ l.pc.late = true ∧ PromisedPending l)

theorem tickets_new (t : Tid) : Tickets (EventLoop.new t : EventLoop F Tid) where
  order := queueOrder_new t
  returned := by simp [EventLoop.new]
  promised := by simp [EventLoop.new]
  pushed := by simp [EventLoop.new]

theorem kept_new (t : Tid) : Kept (EventLoop.new t : EventLoop F Tid) where
  tickets := tickets_new t
  dropped := rfl
  late := nofun

theorem not_doomed_of_kept (h : Kept l) : ¬ Doomed l := by
  rintro ⟨-, hdropped | ⟨hquit, hlate, hpend⟩⟩
  · exact hdropped h.dropped
  · exact h.late hquit hlate hpend

/-- At the test of `quit_`, what is dropped is what was promised and is still
queued. -/
theorem Tickets.unexecuted_eq_nil_iff (h : Tickets l) (hpc : l.pc = .test) :
    l.unexecuted = [] ↔ ¬ PromisedPending l := by
  have hrest : l.pc.rest = [] := by rw [hpc]; rfl
  unfold unexecuted PromisedPending
  rw [List.filter_eq_nil_iff]
  constructor
  · rintro hnone ⟨q, hq, hpromised⟩
    refine hnone q.ticket hpromised (decide_eq_true ?_)
    exact (h.order.not_executed_iff hrest (h.promised _ hpromised)).mpr ⟨q, hq, rfl⟩
  · intro hnone n hpromised hexec
    obtain ⟨q, hq, rfl⟩ :=
      (h.order.not_executed_iff hrest (h.promised n hpromised)).mp (of_decide_eq_true hexec)
    exact hnone ⟨q, hq, hpromised⟩

/-! ### Tickets -/

/-- Steps that give out no ticket and return no call. -/
theorem Tickets.congr (h : Tickets l) (horder : QueueOrder l')
    (hhist : l'.history = l.history) (hret : l'.returned = l.returned)
    (hprom : l'.promised = l.promised)
    (hact : ∀ t n, l'.activity t = .pushed n → l.activity t = .pushed n) : Tickets l' := by
  refine ⟨horder, ?_, ?_, ?_⟩
  · rw [hret, hhist]
    exact h.returned
  · rw [hprom, hhist]
    exact h.promised
  · intro t n hn
    rw [hhist]
    exact h.pushed t n (hact t n hn)

variable [DecidableEq Tid]

theorem Tickets.push (h : Tickets l) (t : Tid) (f : F) : Tickets (l.queueInLoop t f) := by
  have horder := h.order.push t f
  have hlen : (l.queueInLoop t f).history.length = l.history.length + 1 := by
    rw [queueInLoop_eq]
    exact List.length_append
  refine ⟨horder, ?_, ?_, ?_⟩
  · intro n hn
    rw [hlen]
    rw [queueInLoop_eq] at hn
    dsimp only at hn
    split at hn
    · exact (h.returned n hn).trans (Nat.lt_succ_self _)
    · rcases List.mem_cons.mp hn with rfl | hn
      · exact Nat.lt_succ_self _
      · exact (h.returned n hn).trans (Nat.lt_succ_self _)
  · intro n hn
    rw [hlen]
    rw [queueInLoop_eq] at hn
    exact (h.promised n hn).trans (Nat.lt_succ_self _)
  · intro t' n hn
    rw [hlen]
    rw [queueInLoop_eq] at hn
    dsimp only at hn
    split at hn
    · by_cases heq : t' = t
      · subst heq
        rw [Function.update_self] at hn
        obtain rfl := Activity.pushed.inj hn
        exact Nat.lt_succ_self _
      · rw [Function.update_of_ne heq] at hn
        exact (h.pushed t' n hn).trans (Nat.lt_succ_self _)
    · exact (h.pushed t' n hn).trans (Nat.lt_succ_self _)

theorem Tickets.step (h : Tickets l) (hstep : Step l e l') : Tickets l' := by
  have horder := h.order.step hstep
  cases hstep with
  | push t f c hc huser hidle => exact h.push t f
  | runInline t f hin huser => exact h
  | quit t huser hidle =>
      refine ⟨horder, h.returned, ?_, fun t' n hn => h.pushed t' n (eq_of_update (by simp) hn)⟩
      intro n hn
      exact (List.mem_append.mp hn).elim (h.returned n) (h.promised n)
  | storeQuit t huser hact =>
      refine h.congr horder rfl rfl rfl fun t' n hn => eq_of_update ?_ hn
      split <;> simp
  | wakeupPushed t n huser hact =>
      refine ⟨horder, ?_, h.promised, fun t' m hm => h.pushed t' m (eq_of_update (by simp) hm)⟩
      intro m hm
      rcases List.mem_cons.mp hm with rfl | hm
      · exact h.pushed t m hact
      · exact h.returned m hm
  | wakeupQuit t huser hact =>
      exact h.congr horder rfl rfl rfl fun t' n hn => eq_of_update (by simp) hn
  -- the loop thread gives out no ticket
  | _ => exact h.congr horder rfl rfl rfl fun t n hn => hn

/-! ### Steps in time -/

/-- A push adds no promised functor. -/
theorem Tickets.promisedPending_push (h : Tickets l) (t : Tid) (f : F) :
    PromisedPending (l.queueInLoop t f) ↔ PromisedPending l := by
  rw [queueInLoop_eq]
  constructor
  · rintro ⟨q, hq, hpromised⟩
    rcases List.mem_append.mp hq with hq | hq
    · exact ⟨q, hq, hpromised⟩
    · -- the ticket of the new entry is not given out yet
      obtain rfl := List.mem_singleton.mp hq
      exact absurd (h.promised _ hpromised) (Nat.lt_irrefl _)
  · rintro ⟨q, hq, hpromised⟩
    exact ⟨q, List.mem_append_left _ hq, hpromised⟩

/-- Steps in time keep what a run keeps. -/
theorem Kept.step (h : Kept l) (hP : InTime l e) (hstep : Step l e l') : Kept l' := by
  have htickets := h.tickets.step hstep
  cases hstep with
  | enterLoop hidle hpc => exact ⟨htickets, h.dropped, fun hq => by cases hq⟩
  | goOn hidle hpc hq => exact ⟨htickets, h.dropped, nofun⟩
  | leave hidle hpc hq =>
      refine ⟨htickets, ?_, nofun⟩
      show l.dropped ++ l.unexecuted = []
      rw [h.dropped, List.nil_append, h.tickets.unexecuted_eq_nil_iff hpc]
      exact h.late hq (by rw [hpc]; rfl)
  | poll b hidle hpc hready => exact ⟨htickets, h.dropped, nofun⟩
  | handleRead hidle hpc => exact ⟨htickets, h.dropped, nofun⟩
  | handlersDone hidle hpc => exact ⟨htickets, h.dropped, nofun⟩
  | swapFunctors hidle hpc =>
      refine ⟨htickets, h.dropped, ?_⟩
      rintro - - ⟨q, hq, -⟩
      cases hq
  | startFunctor q rest hidle hpc =>
      exact ⟨htickets, h.dropped, fun hq _ => h.late hq (by rw [hpc]; rfl)⟩
  | functorDone q rest hidle hpc =>
      exact ⟨htickets, h.dropped, fun hq _ => h.late hq (by rw [hpc]; rfl)⟩
  | batchDone hidle hpc =>
      exact ⟨htickets, h.dropped, fun hq _ => h.late hq (by rw [hpc]; rfl)⟩
  | push t f c hc huser hidle =>
      refine ⟨htickets, ?_, ?_⟩
      · rw [queueInLoop_eq]
        exact h.dropped
      · rw [h.tickets.promisedPending_push, queueInLoop_eq]
        exact h.late
  | runInline t f hin huser => exact h
  | quit t huser hidle =>
      refine ⟨htickets, h.dropped, ?_⟩
      rintro hq hlate ⟨q, hmem, hpromised⟩
      rcases List.mem_append.mp hpromised with hret | hprom
      · exact hP hlate hq ⟨q, hmem, hret⟩
      · exact h.late hq hlate ⟨q, hmem, hprom⟩
  | storeQuit t huser hact => exact ⟨htickets, h.dropped, fun _ hlate => hP hlate⟩
  | wakeupPushed t n huser hact => exact ⟨htickets, h.dropped, h.late⟩
  | wakeupQuit t huser hact => exact ⟨htickets, h.dropped, h.late⟩

/-! ### Steps that are not -/

/-- A step that is not in time dooms the run. -/
theorem doomed_of_not_inTime (h : Tickets l) (hP : ¬ InTime l e) (hstep : Step l e l') :
    Doomed l' := by
  refine ⟨h.step hstep, ?_⟩
  cases hstep with
  | storeQuit t huser hact =>
      obtain ⟨hlate, hpend⟩ := Classical.not_imp.mp hP
      exact Or.inr ⟨rfl, hlate, not_not.mp hpend⟩
  | quit t huser hidle =>
      obtain ⟨hlate, hrest⟩ := Classical.not_imp.mp hP
      obtain ⟨hq, hpend⟩ := Classical.not_imp.mp hrest
      obtain ⟨q, hmem, hret⟩ := not_not.mp hpend
      exact Or.inr ⟨hq, hlate, q, hmem, List.mem_append_left _ hret⟩
  | push t f c hc huser hidle =>
      rcases hc with rfl | ⟨rfl, -⟩
      · exact absurd trivial hP
      · exact absurd trivial hP
  | _ => exact absurd trivial hP

/-- A doomed run stays doomed: the queue only grows until the next test, and the
test leaves the loop. -/
theorem Doomed.step (h : Doomed l) (hstep : Step l e l') : Doomed l' := by
  obtain ⟨htickets, hdamage⟩ := h
  refine ⟨htickets.step hstep, ?_⟩
  rcases hdamage with hdropped | ⟨hquit, hlate, hpend⟩
  · -- what was dropped stays dropped
    apply Or.inl
    cases hstep with
    | leave hidle hpc hq =>
        intro hnil
        exact hdropped (List.append_eq_nil_iff.mp hnil).1
    | push t f c hc huser hidle =>
        rw [queueInLoop_eq]
        exact hdropped
    | _ => exact hdropped
  · cases hstep with
    | enterLoop hidle hpc => simp [hpc, LoopPc.late] at hlate
    | goOn hidle hpc hq => simp [hquit] at hq
    | leave hidle hpc hq =>
        apply Or.inl
        intro hnil
        exact (htickets.unexecuted_eq_nil_iff hpc).mp (List.append_eq_nil_iff.mp hnil).2 hpend
    | poll b hidle hpc hready => simp [hpc, LoopPc.late] at hlate
    | handleRead hidle hpc => simp [hpc, LoopPc.late] at hlate
    | handlersDone hidle hpc => simp [hpc, LoopPc.late] at hlate
    | swapFunctors hidle hpc => simp [hpc, LoopPc.late] at hlate
    | startFunctor q rest hidle hpc => exact Or.inr ⟨hquit, rfl, hpend⟩
    | functorDone q rest hidle hpc => exact Or.inr ⟨hquit, rfl, hpend⟩
    | batchDone hidle hpc => exact Or.inr ⟨hquit, rfl, hpend⟩
    | push t f c hc huser hidle =>
        refine Or.inr ⟨?_, ?_, (htickets.promisedPending_push t f).mpr hpend⟩
        · rw [queueInLoop_eq]
          exact hquit
        · rw [queueInLoop_eq]
          exact hlate
    | runInline t f hin huser => exact Or.inr ⟨hquit, hlate, hpend⟩
    | quit t huser hidle =>
        obtain ⟨q, hmem, hprom⟩ := hpend
        exact Or.inr ⟨hquit, hlate, q, hmem, List.mem_append_right _ hprom⟩
    | storeQuit t huser hact => exact Or.inr ⟨rfl, hlate, hpend⟩
    | wakeupPushed t n huser hact => exact Or.inr ⟨hquit, hlate, hpend⟩
    | wakeupQuit t huser hact => exact Or.inr ⟨hquit, hlate, hpend⟩

/-- **Nothing is dropped, exactly.**  In a run whose steps of `quit` are all in
time, no promised functor is dropped in any state reached; and a run after which
`loop()` is not running drops nothing only if all its steps were in time. -/
theorem nothing_dropped_iff {s t : EventLoop F Tid} {es : List (LoopEvent F Tid)}
    (hinit : (loopMachine F Tid).init s) (hrun : (loopMachine F Tid).run s es = some t) :
    ((loopMachine F Tid).Along InTime s es → t.dropped = []) ∧
      (t.pc = .outside → t.dropped = [] → (loopMachine F Tid).Along InTime s es) := by
  obtain ⟨tid, rfl⟩ := hinit
  have hexact : ¬ Doomed t ↔ (loopMachine F Tid).Along InTime (.new tid) es := by
    refine Machine.not_bad_iff_along (I := Kept) (A := fun _ _ => True) ?_ ?_ ?_ ?_
      (Machine.along_of_forall fun _ _ _ => trivial) hrun (kept_new tid)
    · intro l e l' hl _ hP hnext
      exact hl.step hP (step_of_next hnext)
    · intro l e l' hl _ hP hnext
      exact doomed_of_not_inTime hl.tickets hP (step_of_next hnext)
    · intro l e l' hl _ hnext
      exact hl.step (step_of_next hnext)
    · intro l hl
      exact not_doomed_of_kept hl
  have htickets : Tickets t :=
    Machine.run_invariant' (fun l e l' hl hnext => hl.step (step_of_next hnext)) hrun
      (tickets_new tid)
  constructor
  · intro halong
    by_contra hdropped
    exact hexact.mpr halong ⟨htickets, Or.inl hdropped⟩
  · intro hout hdropped
    apply hexact.mp
    rintro ⟨-, hdoomed | ⟨-, hlate, -⟩⟩
    · exact hdoomed hdropped
    · simp [hout, LoopPc.late] at hlate

/-! ### Concrete runs -/

/-- Thread 1 queues a functor and quits while the loop thread is in `epoll_wait`. -/
def quitInPoll : List (LoopEvent Nat Nat) :=
  [.loop .enterLoop, .loop .testQuit, .call 1 (.queueInLoop 10), .call 1 .wakeup,
    .call 1 .quit, .call 1 .storeQuit, .call 1 .wakeup, .loop (.poll true),
    .loop .handleRead, .loop .handlersDone, .loop .swapFunctors, .loop .startFunctor,
    .loop .functorDone, .loop .batchDone, .loop .testQuit]

theorem nothing_dropped_quit_in_poll :
    ∃ t, (loopMachine Nat Nat).run (EventLoop.new 0) quitInPoll = some t ∧ t.dropped = [] := by
  have hrun : ((loopMachine Nat Nat).run (EventLoop.new 0) quitInPoll).isSome := by
    decide +kernel
  refine ⟨_, (Option.some_get hrun).symm, ?_⟩
  exact (nothing_dropped_iff ⟨0, rfl⟩ (Option.some_get hrun).symm).1 (by decide +kernel)

/-- The loop thread is running a functor when thread 1 queues another one and then
quits, as a server that is destroyed does. -/
def quitInBatch : List (LoopEvent Nat Nat) :=
  [.loop .enterLoop, .call 1 (.queueInLoop 10), .call 1 .wakeup, .loop .testQuit,
    .loop (.poll true), .loop .handleRead, .loop .handlersDone, .loop .swapFunctors,
    .loop .startFunctor, .call 1 (.queueInLoop 11), .call 1 .wakeup, .call 1 .quit,
    .call 1 .storeQuit, .call 1 .wakeup, .loop .functorDone, .loop .batchDone,
    .loop .testQuit]

/-- `loop()` has returned, and the second functor, accepted before `quit`, was not
executed. -/
theorem dropped_quit_in_batch :
    ∃ t, (loopMachine Nat Nat).run (EventLoop.new 0) quitInBatch = some t ∧
      t.pc = .outside ∧ 1 ∈ t.promised ∧ t.executed.map (fun p => p.1.functor) = [10] ∧
        t.dropped = [1] := by
  have hrun : ((loopMachine Nat Nat).run (EventLoop.new 0) quitInBatch).isSome := by
    decide +kernel
  refine ⟨_, (Option.some_get hrun).symm, ?_⟩
  decide +kernel +revert

end Mymuduo
