/-
Mymuduo/FunctorCustody.lean

Where the functors of an event loop are kept.

A functor object lives in `pendingFunctors_` until the swap, and then in the
local vector of `doPendingFunctors`, which is destroyed as a whole at the end of
the batch: a functor that has run is still there until then, with everything it
has bound.  `hands_of_step` says what a step of the loop does to the two places.

`post` is a complete `queueInLoop`, the push and the wakeup it owes in one step
(`post_eq`), for the systems in which the wakeup does not matter.
-/
import Mymuduo.EventLoop

namespace Mymuduo

open Transition

variable {F Tid : Type*}

namespace EventLoop

/-! ### The two places -/

/-- The functors of the queue. -/
def pending (l : EventLoop F Tid) : List F := l.pendingFunctors_.map Queued.functor

/-- The functors of the current batch that have not been started. -/
def rest (l : EventLoop F Tid) : List F := l.pc.rest.map Queued.functor

/-- The functors of the current batch that have been started. -/
def started (l : EventLoop F Tid) : List F :=
  (l.executed.filter fun p => p.2 = l.batches).map fun p => p.1.functor

/-- The local vector of `doPendingFunctors`. -/
def batch (l : EventLoop F Tid) : List F :=
  match l.pc with
  | .batch _ | .functor _ _ => l.started ++ l.rest
  | _ => []

/-- The functor that is running. -/
def running (l : EventLoop F Tid) : Option F :=
  match l.pc with
  | .functor q _ => some q.functor
  | _ => none

/-- The functors that are still to be started. -/
def waiting (l : EventLoop F Tid) : List F := l.pending ++ l.rest

/-- All functor objects of the loop. -/
def functors (l : EventLoop F Tid) : List F := l.pending ++ l.batch

theorem rest_subset_batch {l : EventLoop F Tid} {f : F} (hf : f ∈ l.rest) : f ∈ l.batch := by
  unfold batch
  split
  · exact List.mem_append_right _ hf
  · exact List.mem_append_right _ hf
  · rename_i hbatch hfunctor
    -- only the two states above have a rest
    unfold rest at hf
    cases hpc : l.pc with
    | batch rest => exact absurd hpc (hbatch rest)
    | functor q rest => exact absurd hpc (hfunctor q rest)
    | _ => simp [hpc, LoopPc.rest] at hf

/-- A functor that waits is a functor object of the loop. -/
theorem mem_functors_of_waiting {l : EventLoop F Tid} {f : F} (hf : f ∈ l.waiting) :
    f ∈ l.functors := by
  rcases List.mem_append.mp hf with hf | hf
  · exact List.mem_append_left _ hf
  · exact List.mem_append_right _ (rest_subset_batch hf)

/-- What the places rely on. -/
structure Kempt (l : EventLoop F Tid) : Prop where
  executed : ∀ p ∈ l.executed, p.2 ≤ l.batches
  running : ∀ q rest, l.pc = .functor q rest → (q, l.batches) ∈ l.executed

/-- The batch depends on the loop thread's place and what it has started. -/
theorem batch_congr {l l' : EventLoop F Tid} (hpc : l'.pc = l.pc)
    (hexec : l'.executed = l.executed) (hb : l'.batches = l.batches) : l'.batch = l.batch := by
  simp only [batch, started, rest, hpc, hexec, hb]

theorem Kempt.congr {l l' : EventLoop F Tid} (h : l.Kempt) (hpc : l'.pc = l.pc)
    (hexec : l'.executed = l.executed) (hb : l'.batches = l.batches) : l'.Kempt where
  executed := by
    rw [hexec, hb]
    exact h.executed
  running := by
    rw [hpc, hexec, hb]
    exact h.running

/-! ### A complete call -/

section Call

variable [DecidableEq Tid]

/-- `queueInLoop` of thread `t`, with the wakeup. -/
def post (l : EventLoop F Tid) (t : Tid) (f : F) : EventLoop F Tid :=
  let q := l.entry t f
  let l' := { l with
    pendingFunctors_ := l.pendingFunctors_ ++ [q]
    history := l.history ++ [q]
    returned := l.history.length :: l.returned }
  if l.owesWakeup t then l'.wakeup else l'

/-- Several calls, one after the other. -/
def posts (l : EventLoop F Tid) (t : Tid) (fs : List F) : EventLoop F Tid :=
  fs.foldl (fun l f => l.post t f) l

/-- A complete call is the push, and the wakeup if one is owed. -/
theorem post_eq {l : EventLoop F Tid} {t : Tid} (f : F) (hidle : l.activity t = .idle) :
    (if l.owesWakeup t then (l.queueInLoop t f).callNext t .wakeup
      else some (l.queueInLoop t f)) = some (l.post t f) := by
  have hback : ∀ a : Activity,
      Function.update (Function.update l.activity t a) t .idle = l.activity := by
    intro a
    rw [Function.update_idem, ← hidle, Function.update_eq_self]
  rw [queueInLoop_eq]
  by_cases howes : l.owesWakeup t = true
  · simp only [howes, if_true, callNext, Function.update_self, setActivity, wakeup, post, hback]
  · simp only [howes, if_false, post, Bool.false_eq_true]

section Post

variable (l : EventLoop F Tid) (t : Tid) (f : F)

@[simp] theorem post_pending : (l.post t f).pending = l.pending ++ [f] := by
  unfold post
  dsimp only
  split <;> simp [pending, wakeup, entry]

@[simp] theorem post_pc : (l.post t f).pc = l.pc := by
  unfold post
  dsimp only
  split <;> rfl

@[simp] theorem post_executed : (l.post t f).executed = l.executed := by
  unfold post
  dsimp only
  split <;> rfl

@[simp] theorem post_batches : (l.post t f).batches = l.batches := by
  unfold post
  dsimp only
  split <;> rfl

@[simp] theorem post_threadId : (l.post t f).threadId_ = l.threadId_ := by
  unfold post
  dsimp only
  split <;> rfl

end Post

@[simp] theorem post_rest (l : EventLoop F Tid) (t : Tid) (f : F) :
    (l.post t f).rest = l.rest := by
  simp [rest]

@[simp] theorem post_batch (l : EventLoop F Tid) (t : Tid) (f : F) :
    (l.post t f).batch = l.batch :=
  batch_congr (l.post_pc t f) (l.post_executed t f) (l.post_batches t f)

@[simp] theorem post_running (l : EventLoop F Tid) (t : Tid) (f : F) :
    (l.post t f).running = l.running := by
  simp [running]

@[simp] theorem posts_nil (l : EventLoop F Tid) (t : Tid) : l.posts t [] = l := rfl

@[simp] theorem posts_cons (l : EventLoop F Tid) (t : Tid) (f : F) (fs : List F) :
    l.posts t (f :: fs) = (l.post t f).posts t fs := rfl

/-- What `fs` posts leave: `fs` at the end of the queue, the rest as it was. -/
structure Posted (l : EventLoop F Tid) (fs : List F) (l' : EventLoop F Tid) : Prop where
  pending : l'.pending = l.pending ++ fs
  pc : l'.pc = l.pc
  executed : l'.executed = l.executed
  batches : l'.batches = l.batches
  threadId : l'.threadId_ = l.threadId_

theorem posted_posts (l : EventLoop F Tid) (t : Tid) (fs : List F) :
    l.Posted fs (l.posts t fs) := by
  induction fs generalizing l with
  | nil => exact ⟨(List.append_nil _).symm, rfl, rfl, rfl, rfl⟩
  | cons f fs ih =>
      have h := ih (l.post t f)
      exact ⟨by simpa using h.pending, by simpa using h.pc, by simpa using h.executed,
        by simpa using h.batches, by simpa using h.threadId⟩

omit [DecidableEq Tid]

namespace Posted

variable {l l' : EventLoop F Tid} {fs : List F} (h : l.Posted fs l')
include h

theorem batch : l'.batch = l.batch := batch_congr h.pc h.executed h.batches

theorem rest : l'.rest = l.rest := by rw [EventLoop.rest, h.pc, EventLoop.rest]

theorem kempt (hl : l.Kempt) : l'.Kempt := hl.congr h.pc h.executed h.batches

end Posted

end Call

/-! ### Steps -/

/-- What a step of the loop does to the places. -/
inductive Hands (l : EventLoop F Tid) : LoopEvent F Tid → EventLoop F Tid → Prop
  | keep (e : LoopEvent F Tid) (l' : EventLoop F Tid) (hpending : l'.pending = l.pending)
      (hbatch : l'.batch = l.batch) (hrest : l'.rest = l.rest)
      (hrunning : ∀ f, l'.running = some f → l.running = some f)
      (he : e ≠ .loop .startFunctor) : Hands l e l'
  | swap (l' : EventLoop F Tid) (hrest : l.rest = []) (hpending' : l'.pending = [])
      (hbatch' : l'.batch = l.pending) (hrest' : l'.rest = l.pending)
      (hrunning : l'.running = none) : Hands l (.loop .swapFunctors) l'
  | start (q : Queued F) (l' : EventLoop F Tid) (rest : List (Queued F))
      (hpc : l'.pc = .functor q rest) (hpending : l'.pending = l.pending)
      (hbatch : l'.batch = l.batch) (hrest : l.rest = q.functor :: l'.rest)
      (hmem : q.functor ∈ l.batch) : Hands l (.loop .startFunctor) l'
  | endBatch (l' : EventLoop F Tid) (hrest : l.rest = []) (hpending : l'.pending = l.pending)
      (hbatch' : l'.batch = []) (hrest' : l'.rest = []) (hrunning : l'.running = none) :
      Hands l (.loop .batchDone) l'
  | push (f : F) (t : Tid) (c : Call F) (l' : EventLoop F Tid)
      (hc : c = .queueInLoop f ∨ c = .runInLoop f) (hpending : l'.pending = l.pending ++ [f])
      (hbatch : l'.batch = l.batch) (hrest : l'.rest = l.rest)
      (hrunning : l'.running = l.running) : Hands l (.call t c) l'

variable {l l' : EventLoop F Tid} {e : LoopEvent F Tid}

/-- The swap makes the queue the batch. -/
theorem Kempt.batch_swap (h : l.Kempt) :
    { l with pendingFunctors_ := [], pc := .batch l.pendingFunctors_,
             batches := l.batches + 1 }.batch = l.pending := by
  have hstarted : l.executed.filter (fun p => p.2 = l.batches + 1) = [] := by
    rw [List.filter_eq_nil_iff]
    intro p hp
    have hle := h.executed p hp
    simp
    omega
  show (l.executed.filter fun p => p.2 = l.batches + 1).map _ ++ _ = _
  rw [hstarted]
  rfl

/-- A functor that is started stays in the vector. -/
theorem batch_start {q : Queued F} {rest : List (Queued F)} (hpc : l.pc = .batch (q :: rest)) :
    { l with pc := .functor q rest, executed := l.executed ++ [(q, l.batches)] }.batch
      = l.batch := by
  simp [batch, started, EventLoop.rest, hpc, LoopPc.rest, List.filter_append]

variable [DecidableEq Tid]

theorem hands_of_step (h : l.Kempt) (hstep : Step l e l') : Hands l e l' := by
  cases hstep with
  | enterLoop hidle hpc =>
      exact .keep _ _ rfl (by simp [batch, hpc]) (by simp [rest, hpc, LoopPc.rest])
        (by simp [running]) (by simp)
  | goOn hidle hpc hq =>
      exact .keep _ _ rfl (by simp [batch, hpc]) (by simp [rest, hpc, LoopPc.rest])
        (by simp [running]) (by simp)
  | leave hidle hpc hq =>
      exact .keep _ _ rfl (by simp [batch, hpc]) (by simp [rest, hpc, LoopPc.rest])
        (by simp [running]) (by simp)
  | poll b hidle hpc hready =>
      exact .keep _ _ rfl (by simp [batch, hpc]) (by simp [rest, hpc, LoopPc.rest])
        (by simp [running]) (by simp)
  | handleRead hidle hpc =>
      exact .keep _ _ rfl (by simp [batch, hpc]) (by simp [rest, hpc, LoopPc.rest])
        (by simp [running]) (by simp)
  | handlersDone hidle hpc =>
      exact .keep _ _ rfl (by simp [batch, hpc]) (by simp [rest, hpc, LoopPc.rest])
        (by simp [running]) (by simp)
  | swapFunctors hidle hpc =>
      exact .swap _ (by simp [rest, hpc, LoopPc.rest]) rfl h.batch_swap rfl rfl
  | startFunctor q rest hidle hpc =>
      refine .start q _ rest rfl rfl (batch_start hpc) ?_ ?_
      · simp [EventLoop.rest, hpc, LoopPc.rest]
      · simp [batch, EventLoop.rest, hpc, LoopPc.rest]
  | functorDone q rest hidle hpc =>
      exact .keep _ _ rfl (by simp [batch, started, EventLoop.rest, hpc, LoopPc.rest])
        (by simp [EventLoop.rest, hpc, LoopPc.rest]) (by simp [running]) (by simp)
  | batchDone hidle hpc =>
      exact .endBatch _ (by simp [rest, hpc, LoopPc.rest]) rfl rfl rfl rfl
  | push t f c hc huser hidle =>
      rw [queueInLoop_eq]
      exact .push f t c _ (hc.imp id And.left) (by simp [pending, entry]) (batch_congr rfl rfl rfl)
        rfl rfl
  | runInline t f hin huser => exact .keep _ _ rfl rfl rfl (fun _ => id) (by simp)
  | quit t huser hidle => exact .keep _ _ rfl (batch_congr rfl rfl rfl) rfl (fun _ => id) (by simp)
  | storeQuit t huser hact =>
      exact .keep _ _ rfl (batch_congr rfl rfl rfl) rfl (fun _ => id) (by simp)
  | wakeupPushed t n huser hact =>
      exact .keep _ _ rfl (batch_congr rfl rfl rfl) rfl (fun _ => id) (by simp)
  | wakeupQuit t huser hact =>
      exact .keep _ _ rfl (batch_congr rfl rfl rfl) rfl (fun _ => id) (by simp)

omit [DecidableEq Tid] in
/-- A step adds no functor object, except by a push. -/
theorem Hands.mem_functors (h : Hands l e l') {f : F} (hf : f ∈ l'.functors) :
    f ∈ l.functors ∨ ∃ t c, e = .call t c ∧ (c = .queueInLoop f ∨ c = .runInLoop f) := by
  unfold functors at hf ⊢
  cases h with
  | keep _ _ hpending hbatch _ _ _ =>
      rw [hpending, hbatch] at hf
      exact .inl hf
  | swap _ _ hpending' hbatch' _ _ =>
      rw [hpending', hbatch'] at hf
      exact .inl (List.mem_append_left _ hf)
  | start _ _ _ _ hpending hbatch _ _ =>
      rw [hpending, hbatch] at hf
      exact .inl hf
  | endBatch _ _ hpending hbatch' _ _ =>
      rw [hpending, hbatch', List.append_nil] at hf
      exact .inl (List.mem_append_left _ hf)
  | push g t c _ hc hpending hbatch _ _ =>
      rw [hpending, hbatch] at hf
      simp only [List.mem_append, List.mem_singleton] at hf
      rcases hf with (hf | rfl) | hf
      · exact .inl (List.mem_append_left _ hf)
      · exact .inr ⟨t, c, rfl, hc⟩
      · exact .inl (List.mem_append_right _ hf)

omit [DecidableEq Tid] in
/-- A functor that waits was waiting before, or has been pushed. -/
theorem Hands.waiting_before (h : Hands l e l') {f : F} (hf : f ∈ l'.waiting) :
    f ∈ l.waiting ∨ ∃ t c, e = .call t c ∧ (c = .queueInLoop f ∨ c = .runInLoop f) := by
  unfold waiting at hf ⊢
  cases h with
  | keep _ _ hpending _ hrest _ _ =>
      rw [hpending, hrest] at hf
      exact .inl hf
  | swap _ hrest hpending' _ hrest' _ =>
      rw [hpending', hrest', List.nil_append] at hf
      exact .inl (List.mem_append_left _ hf)
  | start q _ rest' _ hpending _ hrest _ =>
      rw [hpending] at hf
      rw [hrest]
      rcases List.mem_append.mp hf with hf | hf
      · exact .inl (List.mem_append_left _ hf)
      · exact .inl (List.mem_append_right _ (List.mem_cons_of_mem _ hf))
  | endBatch _ _ hpending _ hrest' _ =>
      rw [hpending, hrest', List.append_nil] at hf
      exact .inl (List.mem_append_left _ hf)
  | push g t c _ hc hpending _ hrest _ =>
      rw [hpending, hrest] at hf
      simp only [List.mem_append, List.mem_singleton] at hf
      rcases hf with (hf | rfl) | hf
      · exact .inl (List.mem_append_left _ hf)
      · exact .inr ⟨t, c, rfl, hc⟩
      · exact .inl (List.mem_append_right _ hf)

omit [DecidableEq Tid] in
/-- A functor that waits goes on waiting, until it is started. -/
theorem Hands.mem_waiting (h : Hands l e l') {f : F} (hf : f ∈ l.waiting) :
    f ∈ l'.waiting ∨ e = .loop .startFunctor ∧ l'.running = some f := by
  unfold waiting at hf ⊢
  cases h with
  | keep _ _ hpending _ hrest _ _ =>
      rw [hpending, hrest]
      exact .inl hf
  | swap _ hrest hpending' _ hrest' _ =>
      rw [hrest, List.append_nil] at hf
      rw [hpending', hrest']
      exact .inl (List.mem_append_right _ hf)
  | start q _ rest' hpc hpending _ hrest _ =>
      rw [hrest, List.mem_append, List.mem_cons] at hf
      rw [hpending, List.mem_append]
      rcases hf with hf | rfl | hf
      · exact .inl (.inl hf)
      · exact .inr ⟨rfl, by simp only [running, hpc]⟩
      · exact .inl (.inr hf)
  | endBatch _ hrest hpending _ _ _ =>
      rw [hrest, List.append_nil] at hf
      rw [hpending]
      exact .inl (List.mem_append_left _ hf)
  | push g t c _ _ hpending _ hrest _ =>
      rw [hpending, hrest]
      refine .inl ?_
      rcases List.mem_append.mp hf with hf | hf
      · exact List.mem_append_left _ (List.mem_append_left _ hf)
      · exact List.mem_append_right _ hf

theorem Kempt.step (h : l.Kempt) (hstep : Step l e l') : l'.Kempt := by
  cases hstep with
  | swapFunctors hidle hpc =>
      exact ⟨fun p hp => (h.executed p hp).trans (Nat.le_succ _), by simp⟩
  | startFunctor q rest hidle hpc =>
      refine ⟨fun p hp => ?_, fun q' rest' hq' => ?_⟩
      · rcases List.mem_append.mp hp with hp | hp
        · exact h.executed p hp
        · obtain rfl := List.mem_singleton.mp hp
          exact Nat.le_refl _
      · cases hq'
        exact List.mem_append_right _ List.mem_cons_self
  | push t f c hc huser hidle =>
      rw [queueInLoop_eq]
      exact h.congr rfl rfl rfl
  | runInline t f hin huser => exact h
  | quit t huser hidle => exact h.congr rfl rfl rfl
  | storeQuit t huser hact => exact h.congr rfl rfl rfl
  | wakeupPushed t n huser hact => exact h.congr rfl rfl rfl
  | wakeupQuit t huser hact => exact h.congr rfl rfl rfl
  | _ => exact ⟨h.executed, by simp⟩

omit [DecidableEq Tid] in
/-- The running functor is in the vector. -/
theorem Kempt.running_mem (h : l.Kempt) {f : F} (hf : l.running = some f) : f ∈ l.batch := by
  unfold EventLoop.running at hf
  split at hf <;> [skip; cases hf]
  rename_i q rest hpc
  obtain rfl := Option.some.inj hf
  have hmem : q.functor ∈ l.started := by
    refine List.mem_map.mpr ⟨_, List.mem_filter.mpr ⟨h.running q rest hpc, ?_⟩, rfl⟩
    simp
  simp [batch, hpc, hmem]

omit [DecidableEq Tid] in
theorem kempt_new (t : Tid) : (EventLoop.new t : EventLoop F Tid).Kempt :=
  ⟨by simp [new], by simp [new]⟩

end EventLoop

end Mymuduo
