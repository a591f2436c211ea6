/-
Mymuduo/EventLoopThread.lean

`EventLoopThread` (EventLoopThread.h, EventLoopThread.cc): a thread that owns an
`EventLoop`, and the object that starts and stops it.

Three parties act.  The new thread goes through `threadFunc`: it constructs the
loop on its stack, publishes its address in `loop_`, runs `loop()`, clears `loop_`
and destroys the loop.  The owner, on another thread, calls `startLoop` and later
the destructor, which tests `loop_`, reads it again for `loop_->quit()`, and joins;
`quit()` itself is a store to `quit_` and then a write to `wakeupFd_`.  Any
thread may call the loop through a pointer it has been given.

The mutex makes the accesses of `threadFunc` and `startLoop` to `loop_` atomic;
the destructor takes no lock.  A step of the destructor that goes through a null
pointer or into a destroyed loop leads to `crashed`, where the destructor does
nothing more.

The ghost `requested` says that some `quit()` has stored `quit_`.
-/
import Mymuduo.EventLoop

namespace Mymuduo

open Transition EventLoop

/-- Where the new thread is in `threadFunc`. -/
inductive FuncPc
  | notStarted
  | started
  -- `EventLoop loop;` is done, and `callback_` runs
  | constructed
  -- `loop_` points to the loop, `loop()` has not been entered
  | published
  | running
  -- `loop()` has returned
  | returned
  -- `loop_` is null again
  | cleared
  | destroyed
  deriving DecidableEq, Repr

/-- Where the owner is in `startLoop`. -/
inductive StartPc
  | idle
  | waiting
  | done
  deriving DecidableEq, Repr

/-- Where the owner is in `~EventLoopThread`. -/
inductive DtorPc
  | idle
  -- `loop_` was not null at the test
  | tested
  -- in `quit()`, before its store
  | quitting
  -- in `quit()`, before the write to `wakeupFd_`
  | stored
  | joining
  | done
  | crashed
  deriving DecidableEq, Repr

/-- `loop_` is null or points to the loop on the stack of `threadFunc`, so a
`Bool` says all about it: it is not null.  `stack` is that loop, an object from
`constructed` to `cleared`. -/
structure EventLoopThread (F Tid : Type*) where
  loop_ : Bool
  exiting_ : Bool
  stack : EventLoop F Tid
  func : FuncPc
  starter : StartPc
  dtor : DtorPc
  requested : Bool

inductive ThreadEvent (F Tid : Type*)
  | start
  | startReturn
  | construct
  | publish
  | loop (e : LoopStep)
  | clear
  | destroy
  | call (t : Tid) (c : Call F)
  | dtorTest
  | dtorRead
  | dtorStore
  | dtorWakeup
  | dtorJoin
  deriving DecidableEq, Repr

namespace FuncPc

/-- The loop is an object. -/
def alive : FuncPc → Bool
  | .notStarted | .started | .destroyed => false
  | _ => true

/-- `loop_` points to it. -/
def linked : FuncPc → Bool
  | .published | .running | .returned => true
  | _ => false

/-- `loop()` has not returned. -/
def early : FuncPc → Bool
  | .notStarted | .started | .constructed | .published | .running => true
  | _ => false

/-- After a step of `loop()`. -/
def ofPc {F : Type*} : LoopPc F → FuncPc
  | .outside => .returned
  | _ => .running

theorem alive_of_linked {p : FuncPc} (h : p.linked = true) : p.alive = true := by
  cases p <;> simp_all [linked, alive]

end FuncPc

/-- The step of `quit()` that sets the flag. -/
def Call.isStoreQuit {F : Type*} : Call F → Bool
  | .storeQuit => true
  | _ => false

variable {F Tid : Type*} [DecidableEq Tid]

namespace EventLoopThread

/-- `EventLoopThread::EventLoopThread`; the thread that will run `threadFunc` is
`loopTid`. -/
def new (loopTid : Tid) : EventLoopThread F Tid where
  loop_ := false
  exiting_ := false
  stack := EventLoop.new loopTid
  func := .notStarted
  starter := .idle
  dtor := .idle
  requested := false

/-! ### Calls on the loop -/

/-- A step of a call on the loop. -/
def invoke (s : EventLoopThread F Tid) (t : Tid) (c : Call F) :
    Option (EventLoopThread F Tid) :=
  (s.stack.next (.call t c)).map fun l =>
    { s with stack := l, requested := s.requested || c.isStoreQuit }

/-- Thread `t` may call the loop: it is an object, the loop's own thread is in
user code, and the owner is not in its destructor. -/
def mayCall (owner loopTid : Tid) (s : EventLoopThread F Tid) (t : Tid) : Bool :=
  s.func.alive && (t ≠ loopTid || s.func = .constructed || s.func = .running) &&
    (t ≠ owner || s.dtor = .idle)

/-- A step of the destructor that goes through the pointer it has read. -/
def dtorStep (owner : Tid) (s : EventLoopThread F Tid) (valid : Bool) (c : Call F)
    (pc : DtorPc) : Option (EventLoopThread F Tid) :=
  if valid then (s.invoke owner c).map fun s => { s with dtor := pc }
  else some { s with dtor := .crashed }

/-! ### Steps -/

def next (owner loopTid : Tid) (s : EventLoopThread F Tid) :
    ThreadEvent F Tid → Option (EventLoopThread F Tid)
  | .start =>
      if s.starter = .idle ∧ s.dtor = .idle ∧ s.func = .notStarted then
        some { s with starter := .waiting, func := .started }
      else none
  -- the wait on `cond_` ends when `loop_` is not null
  | .startReturn =>
      if s.starter = .waiting ∧ s.loop_ = true then some { s with starter := .done } else none
  | .construct =>
      if s.func = .started then
        some { s with stack := EventLoop.new loopTid, func := .constructed }
      else none
  | .publish =>
      if s.func = .constructed ∧ s.stack.activity loopTid = .idle then
        some { s with loop_ := true, func := .published }
      else none
  | .loop e =>
      if s.func = .published ∧ e = .enterLoop ∨ s.func = .running then
        (s.stack.next (.loop e)).map fun l => { s with stack := l, func := .ofPc l.pc }
      else none
  | .clear =>
      if s.func = .returned then some { s with loop_ := false, func := .cleared } else none
  | .destroy => if s.func = .cleared then some { s with func := .destroyed } else none
  | .call t c => if s.mayCall owner loopTid t then s.invoke t c else none
  | .dtorTest =>
      -- the owner is in no other call
      if s.dtor = .idle ∧ s.starter ≠ .waiting ∧ s.stack.activity owner = .idle then
        some { s with exiting_ := true, dtor := if s.loop_ then .tested else .done }
      else none
  | .dtorRead => if s.dtor = .tested then s.dtorStep owner s.loop_ .quit .quitting else none
  | .dtorStore =>
      if s.dtor = .quitting then s.dtorStep owner s.func.alive .storeQuit .stored else none
  | .dtorWakeup =>
      if s.dtor = .stored then s.dtorStep owner s.func.alive .wakeup .joining else none
  | .dtorJoin =>
      if s.dtor = .joining ∧ s.func = .destroyed then some { s with dtor := .done } else none

end EventLoopThread

/-- The runs of one `EventLoopThread`, of its owner and of the callers of its
loop. -/
def threadMachine (F : Type*) {Tid : Type*} [DecidableEq Tid] (owner loopTid : Tid) :
    Machine (EventLoopThread F Tid) (ThreadEvent F Tid) where
  init s := s = .new loopTid ∧ owner ≠ loopTid
  next := EventLoopThread.next owner loopTid

namespace EventLoopThread

variable {owner loopTid : Tid} {s s' : EventLoopThread F Tid} {e : ThreadEvent F Tid}

/-! ### What one step does -/

/-- The steps, each with what it needs and what it leaves. -/
inductive Act (s : EventLoopThread F Tid) : ThreadEvent F Tid → EventLoopThread F Tid → Prop
  | start (hd : s.dtor = .idle) (hf : s.func = .notStarted) :
      Act s .start { s with starter := .waiting, func := .started }
  | startReturn : Act s .startReturn { s with starter := .done }
  | construct (t : Tid) (hf : s.func = .started) :
      Act s .construct { s with stack := EventLoop.new t, func := .constructed }
  | publish (hf : s.func = .constructed) :
      Act s .publish { s with loop_ := true, func := .published }
  | loop (e : LoopStep) (l : EventLoop F Tid) (hf : s.func = .published ∨ s.func = .running)
      (h : Step s.stack (.loop e) l) :
      Act s (.loop e) { s with stack := l, func := .ofPc l.pc }
  | clear (hf : s.func = .returned) : Act s .clear { s with loop_ := false, func := .cleared }
  | destroy (hf : s.func = .cleared) : Act s .destroy { s with func := .destroyed }
  | call (t : Tid) (c : Call F) (l : EventLoop F Tid) (hf : s.func.alive = true)
      (h : Step s.stack (.call t c) l) :
      Act s (.call t c) { s with stack := l, requested := s.requested || c.isStoreQuit }
  | dtorTest (hd : s.dtor = .idle) :
      Act s .dtorTest { s with exiting_ := true, dtor := if s.loop_ then .tested else .done }
  | dtorRead (t : Tid) (l : EventLoop F Tid) (hd : s.dtor = .tested) (hlink : s.loop_ = true)
      (h : Step s.stack (.call t .quit) l) :
      Act s .dtorRead { s with stack := l, dtor := .quitting }
  | dtorStore (t : Tid) (l : EventLoop F Tid) (hd : s.dtor = .quitting)
      (hf : s.func.alive = true) (h : Step s.stack (.call t .storeQuit) l) :
      Act s .dtorStore { s with stack := l, dtor := .stored, requested := true }
  | dtorWakeup (t : Tid) (l : EventLoop F Tid) (hd : s.dtor = .stored)
      (hf : s.func.alive = true) (h : Step s.stack (.call t .wakeup) l) :
      Act s .dtorWakeup { s with stack := l, dtor := .joining }
  | crash (e : ThreadEvent F Tid)
      (h : e = .dtorRead ∧ s.dtor = .tested ∧ s.loop_ = false ∨
        e = .dtorStore ∧ s.dtor = .quitting ∧ s.func.alive = false ∨
        e = .dtorWakeup ∧ s.dtor = .stored ∧ s.func.alive = false) :
      Act s e { s with dtor := .crashed }
  | dtorJoin (hd : s.dtor = .joining) : Act s .dtorJoin { s with dtor := .done }

theorem invoke_eq_some {t : Tid} {c : Call F} (h : s.invoke t c = some s') :
    ∃ l, Step s.stack (.call t c) l ∧
      s' = { s with stack := l, requested := s.requested || c.isStoreQuit } := by
  obtain ⟨l, hl, rfl⟩ := Option.map_eq_some_iff.mp h
  exact ⟨l, step_of_next hl, rfl⟩

/-- A step of the destructor makes its call, or crashes. -/
theorem dtorStep_eq_some {valid : Bool} {c : Call F} {pc : DtorPc}
    (h : s.dtorStep owner valid c pc = some s') :
    (valid = true ∧ ∃ l, Step s.stack (.call owner c) l ∧
      s' = { s with stack := l, dtor := pc, requested := s.requested || c.isStoreQuit }) ∨
    (valid = false ∧ s' = { s with dtor := .crashed }) := by
  cases valid with
  | true =>
      obtain ⟨u, hu, rfl⟩ := Option.map_eq_some_iff.mp h
      obtain ⟨l, hl, rfl⟩ := invoke_eq_some hu
      exact .inl ⟨rfl, l, hl, rfl⟩
  | false => exact .inr ⟨rfl, (Option.some.inj h).symm⟩

theorem act_of_next (h : (threadMachine F owner loopTid).next s e = some s') : s.Act e s' := by
  cases e with
  | start =>
      simp only [threadMachine, next, Option.ite_none_right_eq_some, Option.some.injEq] at h
      obtain ⟨⟨-, hd, hf⟩, rfl⟩ := h
      exact .start hd hf
  | startReturn =>
      simp only [threadMachine, next, Option.ite_none_right_eq_some, Option.some.injEq] at h
      obtain ⟨-, rfl⟩ := h
      exact .startReturn
  | construct =>
      simp only [threadMachine, next, Option.ite_none_right_eq_some, Option.some.injEq] at h
      obtain ⟨hf, rfl⟩ := h
      exact .construct loopTid hf
  | publish =>
      simp only [threadMachine, next, Option.ite_none_right_eq_some, Option.some.injEq] at h
      obtain ⟨⟨hf, -⟩, rfl⟩ := h
      exact .publish hf
  | loop e =>
      simp only [threadMachine, next, Option.ite_none_right_eq_some] at h
      obtain ⟨hf, h⟩ := h
      obtain ⟨l, hl, rfl⟩ := Option.map_eq_some_iff.mp h
      exact .loop e l (hf.imp_left And.left) (step_of_next hl)
  | clear =>
      simp only [threadMachine, next, Option.ite_none_right_eq_some, Option.some.injEq] at h
      obtain ⟨hf, rfl⟩ := h
      exact .clear hf
  | destroy =>
      simp only [threadMachine, next, Option.ite_none_right_eq_some, Option.some.injEq] at h
      obtain ⟨hf, rfl⟩ := h
      exact .destroy hf
  | call t c =>
      simp only [threadMachine, next, Option.ite_none_right_eq_some] at h
      obtain ⟨hmay, h⟩ := h
      obtain ⟨l, hl, rfl⟩ := invoke_eq_some h
      simp only [mayCall, Bool.and_eq_true] at hmay
      exact .call t c l hmay.1.1 hl
  | dtorTest =>
      simp only [threadMachine, next, Option.ite_none_right_eq_some, Option.some.injEq] at h
      obtain ⟨⟨hd, -⟩, rfl⟩ := h
      exact .dtorTest hd
  | dtorRead =>
      simp only [threadMachine, next, Option.ite_none_right_eq_some] at h
      obtain ⟨hd, h⟩ := h
      rcases dtorStep_eq_some h with ⟨hlink, l, hl, rfl⟩ | ⟨hnull, rfl⟩
      · simpa [Call.isStoreQuit] using Act.dtorRead owner l hd hlink hl
      · exact .crash _ (.inl ⟨rfl, hd, hnull⟩)
  | dtorStore =>
      simp only [threadMachine, next, Option.ite_none_right_eq_some] at h
      obtain ⟨hd, h⟩ := h
      rcases dtorStep_eq_some h with ⟨halive, l, hl, rfl⟩ | ⟨hdead, rfl⟩
      · simpa [Call.isStoreQuit] using Act.dtorStore owner l hd halive hl
      · exact .crash _ (.inr (.inl ⟨rfl, hd, hdead⟩))
  | dtorWakeup =>
      simp only [threadMachine, next, Option.ite_none_right_eq_some] at h
      obtain ⟨hd, h⟩ := h
      rcases dtorStep_eq_some h with ⟨halive, l, hl, rfl⟩ | ⟨hdead, rfl⟩
      · simpa [Call.isStoreQuit] using Act.dtorWakeup owner l hd halive hl
      · exact .crash _ (.inr (.inr ⟨rfl, hd, hdead⟩))
  | dtorJoin =>
      simp only [threadMachine, next, Option.ite_none_right_eq_some, Option.some.injEq] at h
      obtain ⟨⟨hd, -⟩, rfl⟩ := h
      exact .dtorJoin hd

end EventLoopThread

end Mymuduo
