/-
Mymuduo/Wakeup.lean

No lost wakeup: the loop thread never goes to sleep on work that it was woken
for.

A functor is *awaited* if it was queued by another thread or from inside the
running loop.  While the loop thread is between a batch and its next
`epoll_wait`, any awaited functor in the queue is covered: the eventfd counter
is nonzero, or some thread has pushed and still has to write to the eventfd.
`handleRead` resets the counter, but only in the handlers, and from there the
loop thread swaps the queue out before it tests or polls again; a functor queued
by a handler needs no wakeup for the same reason.
-/
import Mymuduo.EventLoop

namespace Mymuduo

open Transition EventLoop

variable {F Tid : Type*} {l l' : EventLoop F Tid} {e : LoopEvent F Tid}

/-- The loop thread will swap the queue out before it tests `quit_` or polls. -/
def LoopPc.beforeSwap : LoopPc F → Bool
  | .handlers _ | .swap => true
  | _ => false

/-- The loop thread is in `doPendingFunctors`. -/
def LoopPc.doingPending : LoopPc F → Bool
  | .swap | .batch _ | .functor _ _ => true
  | _ => false

/-- The functors that the loop must not sleep on. -/
def Awaited (l : EventLoop F Tid) : Prop := ∃ q ∈ l.pendingFunctors_, q.origin ≠ .outside

/-- A wakeup has been written or is owed. -/
def Covered (l : EventLoop F Tid) : Prop := l.wakeupFd_ ≠ 0 ∨ ∃ t n, l.activity t = .pushed n

/-- What holds of wakeups at every point of a run. -/
structure Awake (l : EventLoop F Tid) : Prop where
  idle : l.pc.userCode = false → l.activity l.threadId_ = .idle
  calling : l.pc.doingPending = true → l.callingPendingFunctors_ = true
  covered : l.pc.beforeSwap = false → Awaited l → Covered l

theorem awake_new (t : Tid) : Awake (EventLoop.new t : EventLoop F Tid) where
  idle := fun _ => rfl
  calling := nofun
  covered := fun _ h => by simp [Awaited, EventLoop.new] at h

/-- The steps of the loop thread that touch neither the queue nor the wakeups. -/
theorem Awake.control (h : Awake l) (hidle : l.activity l.threadId_ = .idle)
    (hpc : l.pc.beforeSwap = false) (ht : l'.threadId_ = l.threadId_)
    (hact : l'.activity = l.activity) (hfd : l'.wakeupFd_ = l.wakeupFd_)
    (hpend : l'.pendingFunctors_ = l.pendingFunctors_)
    (hcalling : l'.pc.doingPending = true → l'.callingPendingFunctors_ = true) : Awake l' := by
  refine ⟨fun _ => by rw [hact, ht, hidle], hcalling, fun _ hawaited => ?_⟩
  unfold Awaited at hawaited
  unfold Covered
  rw [hpend] at hawaited
  rw [hfd, hact]
  exact h.covered hpc hawaited

/-- A write to the eventfd leaves the counter nonzero, also where it fails. -/
theorem wakeup_ne_zero (l : EventLoop F Tid) : l.wakeup.wakeupFd_ ≠ 0 := by
  show (if l.wakeupFd_ < eventfdMax then l.wakeupFd_ + 1 else l.wakeupFd_) ≠ 0
  split
  · omega
  · rename_i hmax
    have : 0 < eventfdMax := by decide
    omega

variable [DecidableEq Tid]

/-- What a thread that is in no push goes on to does not uncover anything. -/
theorem Covered.setActivity {t : Tid} {a : Activity} (h : Covered l)
    (hnot : ∀ n, l.activity t ≠ .pushed n) : Covered (l.setActivity t a) := by
  rcases h with hfd | ⟨t', n, hn⟩
  · exact Or.inl hfd
  · refine Or.inr ⟨t', n, ?_⟩
    have hne : t' ≠ t := by
      rintro rfl
      exact hnot n hn
    show Function.update l.activity t a t' = .pushed n
    rw [Function.update_of_ne hne, hn]

/-- A call step of thread `t` leaves the loop thread idle where it runs no user
code. -/
theorem Awake.idle_of_user (h : Awake l) {t : Tid} (a : Activity)
    (huser : l.isInLoopThread t = true → l.pc.userCode = true) :
    l.pc.userCode = false → Function.update l.activity t a l.threadId_ = .idle := by
  intro hpc
  have hne : l.threadId_ ≠ t := by
    intro heq
    have huser' := huser (decide_eq_true heq.symm)
    rw [hpc] at huser'
    cases huser'
  rw [Function.update_of_ne hne]
  exact h.idle hpc

/-- A push that owes no wakeup is one of the loop thread, outside the loop or in a
handler. -/
theorem Awake.entry_origin (h : Awake l) {t : Tid} (f : F)
    (huser : l.isInLoopThread t = true → l.pc.userCode = true)
    (howes : l.owesWakeup t = false) (hpc : l.pc.beforeSwap = false) :
    (l.entry t f).origin = .outside := by
  obtain ⟨hin, hcalling⟩ : l.isInLoopThread t = true ∧ l.callingPendingFunctors_ = false := by
    simpa [owesWakeup] using howes
  have huser' := huser hin
  have hcalls := h.calling
  show l.originOf t = .outside
  unfold originOf
  rw [if_pos hin]
  cases hl : l.pc with
  | outside => rfl
  | handlers b => simp [hl, LoopPc.beforeSwap] at hpc
  | functor q rest =>
      rw [hl] at hcalls
      rw [hcalls rfl] at hcalling
      cases hcalling
  | test | poll | swap | batch rest => simp [hl, LoopPc.userCode] at huser'

theorem Awake.push (h : Awake l) {t : Tid} (f : F)
    (huser : l.isInLoopThread t = true → l.pc.userCode = true) :
    Awake (l.queueInLoop t f) := by
  rw [queueInLoop_eq]
  cases howes : l.owesWakeup t with
  | true =>
      -- the pushing thread covers the queue until its wakeup
      refine ⟨h.idle_of_user _ huser, h.calling, fun _ _ => Or.inr ⟨t, l.history.length, ?_⟩⟩
      exact Function.update_self _ _ _
  | false =>
      -- no wakeup follows, so the new entry must be one that needs none
      refine ⟨h.idle, h.calling, fun hpc hawaited => h.covered hpc ?_⟩
      obtain ⟨q, hq, horigin⟩ := hawaited
      rcases List.mem_append.mp hq with hq | hq
      · exact ⟨q, hq, horigin⟩
      · obtain rfl := List.mem_singleton.mp hq
        exact absurd (h.entry_origin f huser howes hpc) horigin

/-- Every step keeps it. -/
theorem Awake.step (h : Awake l) (hstep : Step l e l') : Awake l' := by
  cases hstep with
  | enterLoop hidle hpc =>
      exact h.control hidle (by rw [hpc]; rfl) rfl rfl rfl rfl nofun
  | goOn hidle hpc hq =>
      exact h.control hidle (by rw [hpc]; rfl) rfl rfl rfl rfl nofun
  | leave hidle hpc hq =>
      exact h.control hidle (by rw [hpc]; rfl) rfl rfl rfl rfl nofun
  | batchDone hidle hpc =>
      exact h.control hidle (by rw [hpc]; rfl) rfl rfl rfl rfl nofun
  | startFunctor q rest hidle hpc =>
      exact h.control hidle (by rw [hpc]; rfl) rfl rfl rfl rfl
        fun _ => h.calling (by rw [hpc]; rfl)
  | functorDone q rest hidle hpc =>
      exact h.control hidle (by rw [hpc]; rfl) rfl rfl rfl rfl
        fun _ => h.calling (by rw [hpc]; rfl)
  -- from the poll to the swap nothing needs to be covered
  | poll b hidle hpc hready =>
      exact ⟨fun _ => hidle, nofun, nofun⟩
  | handleRead hidle hpc =>
      exact ⟨fun _ => hidle, nofun, nofun⟩
  | handlersDone hidle hpc =>
      exact ⟨fun _ => hidle, fun _ => rfl, nofun⟩
  | swapFunctors hidle hpc =>
      -- the batch takes all that was queued
      refine ⟨fun _ => hidle, fun _ => h.calling (by rw [hpc]; rfl), fun _ hawaited => ?_⟩
      simp [Awaited] at hawaited
  | push t f c hc huser hidle => exact h.push f huser
  | runInline t f hin huser => exact h
  | quit t huser hidle =>
      refine ⟨h.idle_of_user _ huser, h.calling, fun hpc hawaited => ?_⟩
      exact (h.covered hpc hawaited).setActivity (by simp [hidle])
  | storeQuit t huser hact =>
      refine ⟨h.idle_of_user _ huser, h.calling, fun hpc hawaited => ?_⟩
      exact (h.covered hpc hawaited).setActivity (by simp [hact])
  | wakeupPushed t n huser hact =>
      exact ⟨h.idle_of_user _ huser, h.calling, fun _ _ => Or.inl (wakeup_ne_zero l)⟩
  | wakeupQuit t huser hact =>
      exact ⟨h.idle_of_user _ huser, h.calling, fun _ _ => Or.inl (wakeup_ne_zero l)⟩

theorem awake_of_reachable (h : (loopMachine F Tid).Reachable l) : Awake l := by
  refine h.invariant ?_ ?_
  · rintro _ ⟨t, rfl⟩
    exact awake_new t
  · intro s e t hs hnext
    exact hs.step (step_of_next hnext)

/-- **No lost wakeup.**  In every reachable state in which the loop thread is about
to enter `epoll_wait`, if a functor queued by another thread or from inside the
running loop is still pending, then the eventfd counter is nonzero or some other
thread has pushed and not yet performed its wakeup write. -/
theorem no_lost_wakeup (h : (loopMachine F Tid).Reachable l) (hpoll : l.pc = .poll)
    (hpending : ∃ q ∈ l.pendingFunctors_, q.origin ≠ .outside) :
    l.wakeupFd_ ≠ 0 ∨ ∃ t n, t ≠ l.threadId_ ∧ l.activity t = .pushed n := by
  have hawake := awake_of_reachable h
  have hidle := hawake.idle (by rw [hpoll]; rfl)
  rcases hawake.covered (by rw [hpoll]; rfl) hpending with hfd | ⟨t, n, hn⟩
  · exact Or.inl hfd
  · refine Or.inr ⟨t, n, ?_, hn⟩
    -- the loop thread itself is in no call when it polls
    rintro rfl
    rw [hidle] at hn
    cases hn

/-- A functor queues another one, and the loop comes round to `epoll_wait`. -/
def requeueThenPoll : List (LoopEvent Nat Nat) :=
  [.call 1 (.queueInLoop 10), .call 1 .wakeup, .loop .enterLoop, .loop .testQuit,
    .loop (.poll true), .loop .handleRead, .loop .handlersDone, .loop .swapFunctors,
    .loop .startFunctor, .call 0 (.queueInLoop 11), .call 0 .wakeup, .loop .functorDone,
    .loop .batchDone, .loop .testQuit]

theorem no_lost_wakeup_requeue :
    ∃ l, (loopMachine Nat Nat).run (EventLoop.new 0) requeueThenPoll = some l ∧
      (l.wakeupFd_ ≠ 0 ∨ ∃ t n, t ≠ l.threadId_ ∧ l.activity t = .pushed n) := by
  have hrun : ((loopMachine Nat Nat).run (EventLoop.new 0) requeueThenPoll).isSome := by
    decide +kernel
  refine ⟨_, (Option.some_get hrun).symm, ?_⟩
  exact no_lost_wakeup ⟨_, requeueThenPoll, ⟨0, rfl⟩, (Option.some_get hrun).symm⟩
    (by decide +kernel +revert) (by decide +kernel +revert)

end Mymuduo
