/-
Mymuduo/EventLoop.lean

`EventLoop` (EventLoop.h, EventLoop.cc) and the threads that call it.

A machine whose steps are the atomic actions of the source: the loop thread goes
round `loop()` (`LoopStep`: the test of `quit_`, `epoll_wait`, the handlers with
the wakeup channel's `handleRead` among them, and `doPendingFunctors` in its
pieces), and every thread makes calls (`Call`).  `queueInLoop` is a push under
the mutex and, in a step of its own, the wakeup it owes; `quit` is the entry of
the call, the store of `quit_` and again a wakeup.  The loop thread runs user
code in its handlers and functors, and outside `loop()`.

The functors themselves are of any type `F`; what running one does is up to the
systems that are built over this machine.

Besides the members, the state keeps ghosts for the statements: who queued each
functor (`Origin`), all pushes (`history`), what has been started and in which
batch (`executed`), which `queueInLoop` calls have returned (`returned`), which
had returned when some `quit` was called (`promised`), and which of these had
not been executed when `loop()` returned (`dropped`).
-/
import Mathlib.Tactic
import Mathlib.Logic.Function.Basic
import Mymuduo.Transition

namespace Mymuduo

open Transition

/-! ### States -/

/-- Who queued a functor: another thread, a handler, a functor of a batch, or the
loop thread while `loop()` is not running. -/
inductive Origin
  | otherThread
  | handler
  | functor (batch : Nat)
  | outside
  deriving DecidableEq, Repr

/-- A functor in the queue, numbered by its place in the order of pushes. -/
structure Queued (F : Type*) where
  functor : F
  ticket : Nat
  origin : Origin
  deriving DecidableEq, Repr

/-- Where the loop thread is. -/
inductive LoopPc (F : Type*)
  | outside
  | test
  | poll
  | handlers (wakeup : Bool)
  | swap
  | batch (rest : List (Queued F))
  | functor (q : Queued F) (rest : List (Queued F))
  deriving DecidableEq, Repr

/-- What a thread is in the middle of: a push whose wakeup is to come, a `quit`
before its store, a `quit` whose wakeup is to come. -/
inductive Activity
  | idle
  | pushed (ticket : Nat)
  | quitting
  | quitStored
  deriving DecidableEq, Repr

structure EventLoop (F Tid : Type*) where
  looping_ : Bool
  quit_ : Bool
  callingPendingFunctors_ : Bool
  pendingFunctors_ : List (Queued F)
  threadId_ : Tid
  wakeupFd_ : Nat
  pc : LoopPc F
  activity : Tid → Activity
  batches : Nat
  history : List (Queued F)
  executed : List (Queued F × Nat)
  returned : List Nat
  promised : List Nat
  dropped : List Nat

/-- The largest value of an eventfd counter; a write beyond it fails. -/
def eventfdMax : Nat := 2 ^ 64 - 2

/-- The steps of the loop thread. -/
inductive LoopStep
  | enterLoop
  | testQuit
  | poll (wakeupActive : Bool)
  | handleRead
  | handlersDone
  | swapFunctors
  | startFunctor
  | functorDone
  | batchDone
  deriving DecidableEq, Repr

/-- The steps of a call, by any thread. -/
inductive Call (F : Type*)
  | queueInLoop (f : F)
  | runInLoop (f : F)
  | quit
  | storeQuit
  | wakeup
  deriving DecidableEq, Repr

inductive LoopEvent (F Tid : Type*)
  | loop (e : LoopStep)
  | call (t : Tid) (c : Call F)
  deriving DecidableEq, Repr

variable {F Tid : Type*}

namespace LoopPc

/-- The loop thread is running user code. -/
def userCode : LoopPc F → Bool
  | .outside | .handlers _ | .functor _ _ => true
  | _ => false

/-- The functors of the batch that have not been started. -/
def rest : LoopPc F → List (Queued F)
  | .batch rest | .functor _ rest => rest
  | _ => []

/-- After the swap of an iteration, before the next test of `quit_`. -/
def late : LoopPc F → Bool
  | .test | .batch _ | .functor _ _ => true
  | _ => false

end LoopPc

/-- A value that an update does not write was there before. -/
theorem eq_of_update {α β : Type*} [DecidableEq α] {f : α → β} {a a' : α} {x y : β}
    (hne : x ≠ y) (h : Function.update f a x a' = y) : f a' = y := by
  by_cases heq : a' = a
  · subst heq
    rw [Function.update_self] at h
    exact absurd h hne
  · rwa [Function.update_of_ne heq] at h

namespace EventLoop

variable [DecidableEq Tid]

/-- `EventLoop::EventLoop` in thread `t`. -/
def new (t : Tid) : EventLoop F Tid where
  looping_ := false
  quit_ := false
  callingPendingFunctors_ := false
  pendingFunctors_ := []
  threadId_ := t
  wakeupFd_ := 0
  pc := .outside
  activity := fun _ => .idle
  batches := 0
  history := []
  executed := []
  returned := []
  promised := []
  dropped := []

def isInLoopThread (l : EventLoop F Tid) (t : Tid) : Bool := decide (t = l.threadId_)

def setActivity (l : EventLoop F Tid) (t : Tid) (a : Activity) : EventLoop F Tid :=
  { l with activity := Function.update l.activity t a }

/-! ### Calls -/

def originOf (l : EventLoop F Tid) (t : Tid) : Origin :=
  if l.isInLoopThread t then
    match l.pc with
    | .outside => .outside
    | .functor _ _ => .functor l.batches
    | _ => .handler
  else .otherThread

/-- The queue entry that a push makes. -/
def entry (l : EventLoop F Tid) (t : Tid) (f : F) : Queued F where
  functor := f
  ticket := l.history.length
  origin := l.originOf t

/-- The push of `queueInLoop`.  The call returns at once if it owes no wakeup. -/
def queueInLoop (l : EventLoop F Tid) (t : Tid) (f : F) : EventLoop F Tid :=
  let q := l.entry t f
  let l := { l with pendingFunctors_ := l.pendingFunctors_ ++ [q], history := l.history ++ [q] }
  if !l.isInLoopThread t ∨ l.callingPendingFunctors_ then l.setActivity t (.pushed q.ticket)
  else { l with returned := q.ticket :: l.returned }

/-- On the loop thread the functor runs at once, as part of the user code that
passed it. -/
def runInLoop (l : EventLoop F Tid) (t : Tid) (f : F) : EventLoop F Tid :=
  if l.isInLoopThread t then l else l.queueInLoop t f

/-- The write to the eventfd. -/
def wakeup (l : EventLoop F Tid) : EventLoop F Tid :=
  { l with wakeupFd_ := if l.wakeupFd_ < eventfdMax then l.wakeupFd_ + 1 else l.wakeupFd_ }

/-- One step of a call of thread `t`. -/
def callNext (l : EventLoop F Tid) (t : Tid) : Call F → Option (EventLoop F Tid)
  | .queueInLoop f => if l.activity t = .idle then some (l.queueInLoop t f) else none
  | .runInLoop f => if l.activity t = .idle then some (l.runInLoop t f) else none
  | .quit =>
      if l.activity t = .idle then
        some ({ l with promised := l.returned ++ l.promised }.setActivity t .quitting)
      else none
  | .storeQuit =>
      if l.activity t = .quitting then
        some ({ l with quit_ := true }.setActivity t
          (if l.isInLoopThread t then .idle else .quitStored))
      else none
  | .wakeup =>
      match l.activity t with
      | .pushed n => some ({ l.wakeup with returned := n :: l.returned }.setActivity t .idle)
      | .quitStored => some (l.wakeup.setActivity t .idle)
      | _ => none

/-! ### The loop thread -/

/-- What was promised and has not been executed. -/
def unexecuted (l : EventLoop F Tid) : List Nat :=
  l.promised.filter fun n => n ∉ l.executed.map fun p => p.1.ticket

/-- One step of `loop()` and of `doPendingFunctors`. -/
def loopNext (l : EventLoop F Tid) : LoopStep → Option (EventLoop F Tid)
  | .enterLoop =>
      match l.pc with
      | .outside => some { l with looping_ := true, quit_ := false, pc := .test }
      | _ => none
  | .testQuit =>
      match l.pc with
      | .test =>
          if l.quit_ then
            -- `loop()` returns without another look at the queue
            some { l with looping_ := false, pc := .outside,
                          dropped := l.dropped ++ l.unexecuted }
          else some { l with pc := .poll }
      | _ => none
  | .poll wakeupActive =>
      match l.pc with
      | .poll =>
          -- the wakeup channel is active only if there is something to read
          if wakeupActive = true ∧ l.wakeupFd_ = 0 then none
          else some { l with pc := .handlers wakeupActive }
      | _ => none
  | .handleRead =>
      match l.pc with
      | .handlers true => some { l with wakeupFd_ := 0, pc := .handlers false }
      | _ => none
  | .handlersDone =>
      match l.pc with
      -- `doPendingFunctors` sets the flag before it takes the lock
      | .handlers false => some { l with callingPendingFunctors_ := true, pc := .swap }
      | _ => none
  | .swapFunctors =>
      match l.pc with
      | .swap =>
          some { l with pendingFunctors_ := [], pc := .batch l.pendingFunctors_,
                        batches := l.batches + 1 }
      | _ => none
  | .startFunctor =>
      match l.pc with
      | .batch (q :: rest) =>
          some { l with pc := .functor q rest, executed := l.executed ++ [(q, l.batches)] }
      | _ => none
  | .functorDone =>
      match l.pc with
      | .functor _ rest => some { l with pc := .batch rest }
      | _ => none
  | .batchDone =>
      match l.pc with
      | .batch [] => some { l with callingPendingFunctors_ := false, pc := .test }
      | _ => none

/-- The loop thread goes on when it is in no call; it makes calls from user
code. -/
def next (l : EventLoop F Tid) : LoopEvent F Tid → Option (EventLoop F Tid)
  | .loop e => if l.activity l.threadId_ = .idle then l.loopNext e else none
  | .call t c =>
      if l.isInLoopThread t = true ∧ l.pc.userCode = false then none else l.callNext t c

/-! ### What one step does -/

/-- The call of `queueInLoop` goes on to `wakeup()` after its push. -/
def owesWakeup (l : EventLoop F Tid) (t : Tid) : Bool :=
  !l.isInLoopThread t || l.callingPendingFunctors_

/-- A push adds its entry to the queue, and either owes a wakeup or has
returned. -/
theorem queueInLoop_eq (l : EventLoop F Tid) (t : Tid) (f : F) :
    l.queueInLoop t f = { l with
      pendingFunctors_ := l.pendingFunctors_ ++ [l.entry t f]
      history := l.history ++ [l.entry t f]
      activity := if l.owesWakeup t then
        Function.update l.activity t (.pushed l.history.length) else l.activity
      returned := if l.owesWakeup t then l.returned else l.history.length :: l.returned } := by
  show (if !l.isInLoopThread t ∨ l.callingPendingFunctors_ then _ else _) = _
  by_cases h : l.owesWakeup t = true
  · rw [if_pos (by simpa [owesWakeup] using h), if_pos h, if_pos h]
    rfl
  · rw [if_neg (by simpa [owesWakeup] using h), if_neg h, if_neg h]
    rfl

/-- The steps, each with what it needs and what it leaves. -/
inductive Step (l : EventLoop F Tid) : LoopEvent F Tid → EventLoop F Tid → Prop
  | enterLoop (hidle : l.activity l.threadId_ = .idle) (hpc : l.pc = .outside) :
      Step l (.loop .enterLoop) { l with looping_ := true, quit_ := false, pc := .test }
  | goOn (hidle : l.activity l.threadId_ = .idle) (hpc : l.pc = .test) (hq : l.quit_ = false) :
      Step l (.loop .testQuit) { l with pc := .poll }
  | leave (hidle : l.activity l.threadId_ = .idle) (hpc : l.pc = .test) (hq : l.quit_ = true) :
      Step l (.loop .testQuit) { l with looping_ := false, pc := .outside,
                                        dropped := l.dropped ++ l.unexecuted }
  | poll (b : Bool) (hidle : l.activity l.threadId_ = .idle) (hpc : l.pc = .poll)
      (hready : b = true → l.wakeupFd_ ≠ 0) :
      Step l (.loop (.poll b)) { l with pc := .handlers b }
  | handleRead (hidle : l.activity l.threadId_ = .idle) (hpc : l.pc = .handlers true) :
      Step l (.loop .handleRead) { l with wakeupFd_ := 0, pc := .handlers false }
  | handlersDone (hidle : l.activity l.threadId_ = .idle) (hpc : l.pc = .handlers false) :
      Step l (.loop .handlersDone) { l with callingPendingFunctors_ := true, pc := .swap }
  | swapFunctors (hidle : l.activity l.threadId_ = .idle) (hpc : l.pc = .swap) :
      Step l (.loop .swapFunctors)
        { l with pendingFunctors_ := [], pc := .batch l.pendingFunctors_,
                 batches := l.batches + 1 }
  | startFunctor (q : Queued F) (rest : List (Queued F))
      (hidle : l.activity l.threadId_ = .idle) (hpc : l.pc = .batch (q :: rest)) :
      Step l (.loop .startFunctor)
        { l with pc := .functor q rest, executed := l.executed ++ [(q, l.batches)] }
  | functorDone (q : Queued F) (rest : List (Queued F))
      (hidle : l.activity l.threadId_ = .idle) (hpc : l.pc = .functor q rest) :
      Step l (.loop .functorDone) { l with pc := .batch rest }
  | batchDone (hidle : l.activity l.threadId_ = .idle) (hpc : l.pc = .batch []) :
      Step l (.loop .batchDone) { l with callingPendingFunctors_ := false, pc := .test }
  | push (t : Tid) (f : F) (c : Call F)
      (hc : c = .queueInLoop f ∨ c = .runInLoop f ∧ l.isInLoopThread t = false)
      (huser : l.isInLoopThread t = true → l.pc.userCode = true)
      (hidle : l.activity t = .idle) : Step l (.call t c) (l.queueInLoop t f)
  | runInline (t : Tid) (f : F) (hin : l.isInLoopThread t = true)
      (huser : l.pc.userCode = true) : Step l (.call t (.runInLoop f)) l
  | quit (t : Tid) (huser : l.isInLoopThread t = true → l.pc.userCode = true)
      (hidle : l.activity t = .idle) :
      Step l (.call t .quit)
        ({ l with promised := l.returned ++ l.promised }.setActivity t .quitting)
  | storeQuit (t : Tid) (huser : l.isInLoopThread t = true → l.pc.userCode = true)
      (hact : l.activity t = .quitting) :
      Step l (.call t .storeQuit)
        ({ l with quit_ := true }.setActivity t
          (if l.isInLoopThread t then .idle else .quitStored))
  | wakeupPushed (t : Tid) (n : Nat)
      (huser : l.isInLoopThread t = true → l.pc.userCode = true)
      (hact : l.activity t = .pushed n) :
      Step l (.call t .wakeup)
        ({ l.wakeup with returned := n :: l.returned }.setActivity t .idle)
  | wakeupQuit (t : Tid) (huser : l.isInLoopThread t = true → l.pc.userCode = true)
      (hact : l.activity t = .quitStored) :
      Step l (.call t .wakeup) (l.wakeup.setActivity t .idle)

/-- A step of the loop thread. -/
theorem step_of_loopNext {l l' : EventLoop F Tid} {e : LoopStep}
    (hidle : l.activity l.threadId_ = .idle) (h : l.loopNext e = some l') :
    Step l (.loop e) l' := by
  cases e with
  | enterLoop =>
      simp only [loopNext] at h
      split at h <;> [skip; cases h]
      rename_i hpc
      obtain rfl := Option.some.inj h
      exact .enterLoop hidle hpc
  | testQuit =>
      simp only [loopNext] at h
      split at h <;> [skip; cases h]
      rename_i hpc
      split at h
      · rename_i hq
        obtain rfl := Option.some.inj h
        exact .leave hidle hpc hq
      · rename_i hq
        obtain rfl := Option.some.inj h
        exact .goOn hidle hpc (by simpa using hq)
  | poll b =>
      simp only [loopNext] at h
      split at h <;> [skip; cases h]
      rename_i hpc
      split at h
      · cases h
      · rename_i hready
        obtain rfl := Option.some.inj h
        exact .poll b hidle hpc fun hb hzero => hready ⟨hb, hzero⟩
  | handleRead =>
      simp only [loopNext] at h
      split at h <;> [skip; cases h]
      rename_i hpc
      obtain rfl := Option.some.inj h
      exact .handleRead hidle hpc
  | handlersDone =>
      simp only [loopNext] at h
      split at h <;> [skip; cases h]
      rename_i hpc
      obtain rfl := Option.some.inj h
      exact .handlersDone hidle hpc
  | swapFunctors =>
      simp only [loopNext] at h
      split at h <;> [skip; cases h]
      rename_i hpc
      obtain rfl := Option.some.inj h
      exact .swapFunctors hidle hpc
  | startFunctor =>
      simp only [loopNext] at h
      split at h <;> [skip; cases h]
      rename_i q rest hpc
      obtain rfl := Option.some.inj h
      exact .startFunctor q rest hidle hpc
  | functorDone =>
      simp only [loopNext] at h
      split at h <;> [skip; cases h]
      rename_i q rest hpc
      obtain rfl := Option.some.inj h
      exact .functorDone q rest hidle hpc
  | batchDone =>
      simp only [loopNext] at h
      split at h <;> [skip; cases h]
      rename_i hpc
      obtain rfl := Option.some.inj h
      exact .batchDone hidle hpc

/-- A step of a call. -/
theorem step_of_callNext {l l' : EventLoop F Tid} {t : Tid} {c : Call F}
    (huser : l.isInLoopThread t = true → l.pc.userCode = true)
    (h : l.callNext t c = some l') : Step l (.call t c) l' := by
  cases c with
  | queueInLoop f =>
      simp only [callNext, Option.ite_none_right_eq_some, Option.some.injEq] at h
      obtain ⟨hidle, rfl⟩ := h
      exact .push t f _ (Or.inl rfl) huser hidle
  | runInLoop f =>
      simp only [callNext, Option.ite_none_right_eq_some, Option.some.injEq] at h
      obtain ⟨hidle, rfl⟩ := h
      unfold runInLoop
      split
      · rename_i hin
        exact .runInline t f hin (huser hin)
      · rename_i hout
        exact .push t f _ (Or.inr ⟨rfl, by simpa using hout⟩) huser hidle
  | quit =>
      simp only [callNext, Option.ite_none_right_eq_some, Option.some.injEq] at h
      obtain ⟨hidle, rfl⟩ := h
      exact .quit t huser hidle
  | storeQuit =>
      simp only [callNext, Option.ite_none_right_eq_some, Option.some.injEq] at h
      obtain ⟨hact, rfl⟩ := h
      exact .storeQuit t huser hact
  | wakeup =>
      simp only [callNext] at h
      split at h
      · rename_i n hact
        obtain rfl := Option.some.inj h
        exact .wakeupPushed t n huser hact
      · rename_i hact
        obtain rfl := Option.some.inj h
        exact .wakeupQuit t huser hact
      · cases h

theorem step_of_next {l l' : EventLoop F Tid} {e : LoopEvent F Tid}
    (h : l.next e = some l') : Step l e l' := by
  cases e with
  | loop e =>
      simp only [next, Option.ite_none_right_eq_some] at h
      exact step_of_loopNext h.1 h.2
  | call t c =>
      simp only [next, Option.ite_none_left_eq_some] at h
      refine step_of_callNext (fun hin => ?_) h.2
      by_contra huser
      exact h.1 ⟨hin, by simpa using huser⟩

/-- The loop belongs to one thread for good. -/
theorem Step.threadId {l l' : EventLoop F Tid} {e : LoopEvent F Tid} (h : Step l e l') :
    l'.threadId_ = l.threadId_ := by
  cases h with
  | push t f c hc huser hidle => rw [queueInLoop_eq]
  | _ => rfl

end EventLoop

/-- The runs of an event loop and its callers. -/
def loopMachine (F Tid : Type*) [DecidableEq Tid] :
    Machine (EventLoop F Tid) (LoopEvent F Tid) where
  init l := ∃ t, l = EventLoop.new t
  next := EventLoop.next

end Mymuduo
