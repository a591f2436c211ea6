/-
Mymuduo/FunctorQueue.lean

The functor queue of an event loop is first in, first out.

At every point of every run the pushes so far, in order, are the functors
started so far, the rest of the batch, and what is still queued.  The batch a
functor runs in is later than the batch of the functor that queued it, because
the swap empties the queue before the batch starts.

Tickets number the pushes, so the same law says which tickets have been executed
and which are still queued (`QueueOrder.not_executed_iff`).
-/
import Mathlib.Data.List.Nodup
import Mymuduo.EventLoop

namespace Mymuduo

open Transition EventLoop

variable {F Tid : Type*} {l l' : EventLoop F Tid} {e : LoopEvent F Tid}

/-- A functor that a functor of batch `b` queued. -/
def Queued.From (q : Queued F) (b : Nat) : Prop := q.origin = .functor b

/-- What holds of the queue at every point of a run. -/
structure QueueOrder (l : EventLoop F Tid) : Prop where
  order : l.history = l.executed.map Prod.fst ++ l.pc.rest ++ l.pendingFunctors_
  tickets : l.history.map Queued.ticket = List.range l.history.length
  executedLater : ∀ p ∈ l.executed, ∀ b, p.1.From b → b < p.2
  restLater : ∀ q ∈ l.pc.rest, ∀ b, q.From b → b < l.batches
  pendingLater : ∀ q ∈ l.pendingFunctors_, ∀ b, q.From b → b ≤ l.batches

theorem queueOrder_new (t : Tid) : QueueOrder (EventLoop.new t : EventLoop F Tid) where
  order := rfl
  tickets := rfl
  executedLater := by simp [EventLoop.new]
  restLater := by simp [EventLoop.new, LoopPc.rest]
  pendingLater := by simp [EventLoop.new]

/-- Steps that leave the queue, the batch and the ghosts of both alone. -/
theorem QueueOrder.congr (h : QueueOrder l) (hhist : l'.history = l.history)
    (hexec : l'.executed = l.executed) (hrest : l'.pc.rest = l.pc.rest)
    (hpend : l'.pendingFunctors_ = l.pendingFunctors_) (hb : l'.batches = l.batches) :
    QueueOrder l' := by
  obtain ⟨horder, htick, hex, hre, hpe⟩ := h
  refine ⟨?_, ?_, ?_, ?_, ?_⟩
  · rw [hhist, hexec, hrest, hpend]
    exact horder
  · rw [hhist]
    exact htick
  · rw [hexec]
    exact hex
  · rw [hrest, hb]
    exact hre
  · rw [hpend, hb]
    exact hpe

/-- The swap makes the queue the batch, under a new batch number. -/
theorem QueueOrder.swap (h : QueueOrder l) (hpc : l.pc = .swap) :
    QueueOrder { l with pendingFunctors_ := [], pc := .batch l.pendingFunctors_,
                        batches := l.batches + 1 } := by
  refine ⟨?_, h.tickets, h.executedLater, ?_, by simp⟩
  · show l.history = _ ++ l.pendingFunctors_ ++ []
    rw [h.order, hpc, List.append_nil]
    simp [LoopPc.rest]
  · intro q hq b hb
    exact Nat.lt_succ_of_le (h.pendingLater q hq b hb)

/-- A functor moves from the batch to the executed ones. -/
theorem QueueOrder.start (h : QueueOrder l) {q : Queued F} {rest : List (Queued F)}
    (hpc : l.pc = .batch (q :: rest)) :
    QueueOrder { l with pc := .functor q rest, executed := l.executed ++ [(q, l.batches)] } := by
  have hrest : l.pc.rest = q :: rest := by
    rw [hpc]
    rfl
  refine ⟨?_, h.tickets, ?_, ?_, h.pendingLater⟩
  · show l.history = (l.executed ++ [(q, l.batches)]).map Prod.fst ++ rest ++ l.pendingFunctors_
    rw [h.order, hrest]
    simp
  · intro p hp b hb
    rcases List.mem_append.mp hp with hp | hp
    · exact h.executedLater p hp b hb
    · obtain rfl := List.mem_singleton.mp hp
      exact h.restLater q (by simp [hrest]) b hb
  · intro q' hq' b hb
    apply h.restLater q' _ b hb
    rw [hrest]
    exact List.mem_cons_of_mem q hq'

/-- Between two batches, a ticket that was given out has been executed or is still
queued, and not both. -/
theorem QueueOrder.not_executed_iff (h : QueueOrder l) (hrest : l.pc.rest = []) {n : Nat}
    (hn : n < l.history.length) :
    n ∉ l.executed.map (fun p => p.1.ticket) ↔ ∃ q ∈ l.pendingFunctors_, q.ticket = n := by
  have hsplit : l.executed.map (fun p => p.1.ticket) ++ l.pendingFunctors_.map Queued.ticket
      = List.range l.history.length := by
    rw [← h.tickets, h.order, hrest, List.append_nil, List.map_append, List.map_map]
    rfl
  have hmem : n ∈ l.executed.map (fun p => p.1.ticket) ++ l.pendingFunctors_.map Queued.ticket := by
    rw [hsplit]
    exact List.mem_range.mpr hn
  have hdisjoint : List.Disjoint (l.executed.map fun p => p.1.ticket)
      (l.pendingFunctors_.map Queued.ticket) := by
    apply List.disjoint_of_nodup_append
    rw [hsplit]
    exact List.nodup_range
  rw [← List.mem_map]
  constructor
  · intro hnot
    exact (List.mem_append.mp hmem).resolve_left hnot
  · intro hpend hexec
    exact hdisjoint hexec hpend

/-! ### Runs -/

variable [DecidableEq Tid]

/-- A functor of the running batch queues at the current batch number. -/
theorem entry_from {t : Tid} {f : F} {b : Nat} (h : (l.entry t f).From b) : b = l.batches := by
  unfold Queued.From entry originOf at h
  dsimp only at h
  split at h
  · split at h <;> first
      | exact (Origin.functor.inj h).symm
      | cases h
  · cases h

theorem QueueOrder.push (h : QueueOrder l) (t : Tid) (f : F) :
    QueueOrder (l.queueInLoop t f) := by
  rw [queueInLoop_eq]
  refine ⟨?_, ?_, h.executedLater, h.restLater, ?_⟩
  · show l.history ++ [l.entry t f] = _ ++ l.pc.rest ++ (l.pendingFunctors_ ++ [l.entry t f])
    rw [h.order]
    simp only [List.append_assoc]
  · show (l.history ++ [l.entry t f]).map Queued.ticket
      = List.range (l.history ++ [l.entry t f]).length
    rw [List.map_append, h.tickets, List.length_append, List.length_singleton, List.range_succ]
    rfl
  · intro q hq b hb
    rcases List.mem_append.mp hq with hq | hq
    · exact h.pendingLater q hq b hb
    · obtain rfl := List.mem_singleton.mp hq
      exact (entry_from hb).le

/-- Every step keeps the order. -/
theorem QueueOrder.step (h : QueueOrder l) (hstep : Step l e l') : QueueOrder l' := by
  cases hstep with
  | push t f c hc huser hidle => exact h.push t f
  | swapFunctors hidle hpc => exact h.swap hpc
  | startFunctor q rest hidle hpc => exact h.start hpc
  -- no other step moves a functor
  | runInline t f hin huser => exact h
  | enterLoop hidle hpc | goOn hidle hpc hq | leave hidle hpc hq | poll b hidle hpc hready
  | handleRead hidle hpc | handlersDone hidle hpc | functorDone q rest hidle hpc
  | batchDone hidle hpc =>
      refine h.congr rfl rfl ?_ rfl rfl
      rw [hpc]
      rfl
  | quit t huser hidle => exact h.congr rfl rfl rfl rfl rfl
  | storeQuit t huser hact => exact h.congr rfl rfl rfl rfl rfl
  | wakeupPushed t n huser hact => exact h.congr rfl rfl rfl rfl rfl
  | wakeupQuit t huser hact => exact h.congr rfl rfl rfl rfl rfl

theorem queueOrder_of_reachable (h : (loopMachine F Tid).Reachable l) : QueueOrder l := by
  refine h.invariant ?_ ?_
  · rintro _ ⟨t, rfl⟩
    exact queueOrder_new t
  · intro s e t hs hnext
    exact hs.step (step_of_next hnext)

/-- **Functor queue order.**  In every reachable state the functors pushed, in
push order, are those executed, in execution order, then the rest of the batch,
then the pending ones; and a functor that a functor of batch `b` queued is
executed in a later batch only. -/
theorem functor_queue_order (h : (loopMachine F Tid).Reachable l) :
    l.history = l.executed.map Prod.fst ++ l.pc.rest ++ l.pendingFunctors_ ∧
      ∀ q b b', (q, b') ∈ l.executed → q.origin = .functor b → b < b' := by
  have horder := queueOrder_of_reachable h
  refine ⟨horder.order, ?_⟩
  intro q b b' hmem hfrom
  exact horder.executedLater (q, b') hmem b hfrom

/-! ### The queue as a FIFO -/

/-- The operations of an abstract queue. -/
inductive FifoOp (α : Type*)
  | enqueue (x : α)
  | dequeue

def fifoNext {α : Type*} (v : List α) : FifoOp α → Option (List α)
  | .enqueue x => some (v ++ [x])
  | .dequeue =>
      match v with
      | [] => none
      | _ :: v => some v

def fifoMachine (α : Type*) : Machine (List α) (FifoOp α) where
  init v := v = []
  next := fifoNext

/-- The functors that wait, whether in the batch or in the queue. -/
def backlog (l : EventLoop F Tid) : List (Queued F) := l.pc.rest ++ l.pendingFunctors_

/-- What a step does to the functors that wait. -/
def fifoOps (l : EventLoop F Tid) : LoopEvent F Tid → List (FifoOp (Queued F))
  | .call t (.queueInLoop f) => [.enqueue (l.entry t f)]
  | .call t (.runInLoop f) => if l.isInLoopThread t then [] else [.enqueue (l.entry t f)]
  | .loop .startFunctor => [.dequeue]
  | _ => []

theorem backlog_push (t : Tid) (f : F) :
    backlog (l.queueInLoop t f) = backlog l ++ [l.entry t f] := by
  rw [queueInLoop_eq]
  exact (List.append_assoc _ _ _).symm

/-- An event loop is a FIFO: pushes enqueue, starts dequeue, and no other step, the
swap included, changes what waits. -/
theorem backlog_next (h : l.next e = some l') :
    (fifoMachine (Queued F)).run (backlog l) (fifoOps l e) = some (backlog l') := by
  cases step_of_next h with
  | push t f c hc huser hidle =>
      rw [backlog_push]
      rcases hc with rfl | ⟨rfl, hout⟩
      · rfl
      · rw [fifoOps, hout]
        rfl
  | runInline t f hin huser =>
      rw [fifoOps, if_pos hin]
      rfl
  | swapFunctors hidle hpc =>
      show some (l.pc.rest ++ l.pendingFunctors_) = some (l.pendingFunctors_ ++ [])
      rw [hpc, List.append_nil]
      rfl
  | startFunctor q rest hidle hpc =>
      show fifoNext (l.pc.rest ++ l.pendingFunctors_) .dequeue >>= _ = _
      rw [hpc]
      rfl
  | enterLoop hidle hpc | goOn hidle hpc hq | leave hidle hpc hq | poll b hidle hpc hready
  | handleRead hidle hpc | handlersDone hidle hpc | functorDone q rest hidle hpc
  | batchDone hidle hpc =>
      show some (l.pc.rest ++ l.pendingFunctors_) = _
      rw [hpc]
      rfl
  | quit t huser hidle => rfl
  | storeQuit t huser hact => rfl
  | wakeupPushed t n huser hact => rfl
  | wakeupQuit t huser hact => rfl

/-- Thread 1 queues a functor, and the functor queues another one, which runs in
the next round of the loop of thread 0. -/
def requeue : List (LoopEvent Nat Nat) :=
  [.call 1 (.queueInLoop 10), .call 1 .wakeup, .loop .enterLoop, .loop .testQuit,
    .loop (.poll true), .loop .handleRead, .loop .handlersDone, .loop .swapFunctors,
    .loop .startFunctor, .call 0 (.queueInLoop 11), .call 0 .wakeup, .loop .functorDone,
    .loop .batchDone, .loop .testQuit, .loop (.poll true), .loop .handleRead,
    .loop .handlersDone, .loop .swapFunctors, .loop .startFunctor]

theorem functor_queue_order_requeue :
    ∃ l, (loopMachine Nat Nat).run (EventLoop.new 0) requeue = some l ∧
      l.history = l.executed.map Prod.fst ++ l.pc.rest ++ l.pendingFunctors_ ∧
        ∀ q b b', (q, b') ∈ l.executed → q.origin = .functor b → b < b' := by
  have hrun : ((loopMachine Nat Nat).run (EventLoop.new 0) requeue).isSome := by decide +kernel
  refine ⟨_, (Option.some_get hrun).symm, ?_⟩
  exact functor_queue_order ⟨_, requeue, ⟨0, rfl⟩, (Option.some_get hrun).symm⟩

end Mymuduo
