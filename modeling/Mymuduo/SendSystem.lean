/-
Mymuduo/SendSystem.lean

An open connection, its event loop and the threads that send on it.

The calls of `TcpConnection::send` and `TcpConnection::shutdown` are cut where
other threads may come in between: `send` loads `state_`, then binds the pointer
and the length of the caller's string into a functor and queues it; `shutdown`
loads `state_`, stores kDisconnecting, then queues `shutdownInLoop`.  On the loop
thread `sendInLoop` and `shutdownInLoop` run at once.  A writable event is
`writeOut` and, once the output buffer is empty, `finishWrite`.

The strings of the callers live in `memory`.  A functor that reads through its
pointer finds what is there then: the bytes at that address, or something
indeterminate if there are fewer than it asks for.

Ghosts: `calls` lists the sends that found the connection connected and the calls
of `shutdown`; `deliveries` the sends whose `sendInLoop` has run, with what was
read; `kept` those of them whose bytes `sendInLoop` has not given up; `fins` what had
been done at each `shutdownWrite`.  Runs end when the connection is closed or destroyed.
-/
import Mymuduo.ConnectionRun
import Mymuduo.FunctorQueue

namespace Mymuduo

open Transition

/-! ### Memory -/

/-- The address of the characters of a string. -/
abbrev Addr := Nat

/-- The strings of the callers; `none` after destruction. -/
abbrev Memory := Addr → Option (List Byte)

/-- The `len` bytes at `data`, if there are that many. -/
def fetch (m : Memory) (data : Addr) (len : Nat) : Option (List Byte) :=
  let block := (m data).getD []
  if len ≤ block.length then some (block.take len) else none

theorem fetch_length {m : Memory} {data : Addr} {buf : List Byte} (h : m data = some buf) :
    fetch m data buf.length = some buf := by
  simp [fetch, h]

/-! ### States -/

/-- The functors in the queue: those of `send` and `shutdown`, and any other, such
as the ones that run the write-complete and high-water-mark callbacks. -/
inductive ConnFunctor (Tid : Type*)
  | sendInLoop (call : Nat) (data : Addr) (len : Nat)
  | shutdownInLoop (t : Tid)
  | other
  deriving DecidableEq, Repr

/-- What user code has called on the connection. -/
inductive ApiCall (Tid : Type*)
  | send (t : Tid) (buf : List Byte)
  | shutdown (t : Tid)
  deriving DecidableEq, Repr

/-- Where a thread is inside `send` or `shutdown`. -/
inductive Caller
  | idle
  | sendFound (call : Nat) (data : Addr)
  | shutdownFound
  | shutdownStored
  deriving DecidableEq, Repr

/-- A `sendInLoop` that has run: for which call, and what it read. -/
structure Delivery where
  call : Nat
  data : Option (List Byte)
  deriving DecidableEq, Repr

/-- The state of affairs at a `shutdownWrite`. -/
structure FinRecord where
  kept : List Nat
  trace : List Effect
  deriving DecidableEq, Repr

structure SendSystem (Tid : Type*) where
  conn : TcpConnection
  loop : EventLoop (ConnFunctor Tid) Tid
  memory : Memory
  caller : Tid → Caller
  draining : Bool
  calls : List (ApiCall Tid)
  deliveries : List Delivery
  kept : List Nat
  fins : List FinRecord

/-- What a functor meets when it runs: the answer to a direct write, and what is
found where memory holds too little. -/
structure Answer where
  write : WriteResult
  indeterminate : List Byte
  deriving DecidableEq, Repr

inductive SystemEvent (Tid : Type*)
  | loop (e : LoopStep) (a : Answer)
  | call (t : Tid) (c : Call (ConnFunctor Tid))
  | modify (t : Tid) (p : Addr) (block : Option (List Byte))
  | send (t : Tid) (p : Addr) (w : WriteResult)
  | sendQueue (t : Tid)
  | shutdown (t : Tid)
  | shutdownStore (t : Tid)
  | shutdownRun (t : Tid)
  | writeOut (w : WriteResult)
  | finishWrite
  deriving DecidableEq, Repr

/-- A call on the loop that does not concern the connection. -/
def Call.isOther {Tid : Type*} : Call (ConnFunctor Tid) → Bool
  | .queueInLoop .other | .runInLoop .other | .quit | .storeQuit | .wakeup => true
  | _ => false

namespace SendSystem

variable {Tid : Type*} [DecidableEq Tid]

/-! ### Steps -/

/-- Thread `t` is in no call on the connection, and not between the halves of
`handleWrite`. -/
def free (s : SendSystem Tid) (t : Tid) : Bool :=
  decide (s.caller t = .idle) && !(s.loop.isInLoopThread t && s.draining)

/-- Thread `t` may call `send` or `shutdown`. -/
def canCall (s : SendSystem Tid) (t : Tid) : Bool :=
  s.free t && decide (s.loop.activity t = .idle) &&
    (!s.loop.isInLoopThread t || s.loop.pc.userCode)

def setCaller (s : SendSystem Tid) (t : Tid) (k : Caller) : SendSystem Tid :=
  { s with caller := Function.update s.caller t k }

theorem setCaller_self (s : SendSystem Tid) (t : Tid) (k : Caller) :
    (s.setCaller t k).caller t = k := by
  simp [setCaller]

theorem setCaller_of_ne (s : SendSystem Tid) {t t' : Tid} (h : t' ≠ t) (k : Caller) :
    (s.setCaller t k).caller t' = s.caller t' := by
  simp [setCaller, h]

def record (s : SendSystem Tid) (c : ApiCall Tid) : SendSystem Tid :=
  { s with calls := s.calls ++ [c] }

/-- `sendInLoop` runs for a call, with the data it has read. -/
def deliver (s : SendSystem Tid) (call : Nat) (data : Option (List Byte)) (a : Answer) :
    SendSystem Tid :=
  { s with conn := s.conn.sendInLoop (data.getD a.indeterminate) a.write
           deliveries := s.deliveries ++ [⟨call, data⟩]
           kept := if s.conn.GivesUp a.write then s.kept else s.kept ++ [call] }

/-- `shutdownInLoop` runs. -/
def shutdownInLoop (s : SendSystem Tid) : SendSystem Tid :=
  { s with
    conn := s.conn.shutdownInLoop
    fins := if !s.conn.channel_.isWriting then
      s.fins ++ [⟨s.kept, s.conn.trace⟩] else s.fins }

/-- A functor runs. -/
def runFunctor (s : SendSystem Tid) (a : Answer) : ConnFunctor Tid → SendSystem Tid
  | .sendInLoop call data len => s.deliver call (fetch s.memory data len) a
  | .shutdownInLoop _ => s.shutdownInLoop
  | .other => s

/-- The loop thread goes on, and runs the functor it starts. -/
def loopNext (s : SendSystem Tid) (e : LoopStep) (a : Answer) : Option (SendSystem Tid) :=
  match s.loop.next (.loop e) with
  | none => none
  | some l =>
      match e, l.pc with
      | .startFunctor, .functor q _ => some ({ s with loop := l }.runFunctor a q.functor)
      | _, _ => some { s with loop := l }

/-- `send` up to its load of `state_`, and on the loop thread to its end. -/
def send (s : SendSystem Tid) (t : Tid) (p : Addr) (buf : List Byte) (w : WriteResult) :
    SendSystem Tid :=
  if s.conn.state_ = .kConnected then
    let i := s.calls.length
    let s := s.record (.send t buf)
    if s.loop.isInLoopThread t then s.deliver i (some buf) ⟨w, []⟩
    else s.setCaller t (.sendFound i p)
  else s

/-- `shutdown` up to its load of `state_`. -/
def shutdown (s : SendSystem Tid) (t : Tid) : SendSystem Tid :=
  -- a call that finds another state is recorded too
  let s := s.record (.shutdown t)
  if s.conn.state_ = .kConnected then s.setCaller t .shutdownFound else s

/-- The functor of a thread goes into the queue, which ends its call. -/
def queue (s : SendSystem Tid) (t : Tid) (f : ConnFunctor Tid) : Option (SendSystem Tid) :=
  (s.loop.next (.call t (.runInLoop f))).map fun l => { s with loop := l }.setCaller t .idle

def next (s : SendSystem Tid) : SystemEvent Tid → Option (SendSystem Tid)
  | .loop e a => if s.free s.loop.threadId_ then s.loopNext e a else none
  | .call t c =>
      if s.free t = true ∧ c.isOther = true then
        (s.loop.next (.call t c)).map fun l => { s with loop := l }
      else none
  | .modify t p block =>
      -- a thread changes strings between its calls
      if s.caller t = .idle ∧ s.loop.activity t = .idle then
        some { s with memory := Function.update s.memory p block }
      else none
  | .send t p w =>
      match s.memory p with
      | some buf => if s.canCall t then some (s.send t p buf w) else none
      | none => none
  | .sendQueue t =>
      match s.caller t with
      | .sendFound i p =>
          if s.loop.isInLoopThread t then none
          -- the length is bound here; the bytes are read when the functor runs
          else s.queue t (.sendInLoop i p ((s.memory p).getD []).length)
      | _ => none
  | .shutdown t => if s.canCall t then some (s.shutdown t) else none
  | .shutdownStore t =>
      if s.caller t = .shutdownFound then
        some ({ s with conn := s.conn.setState .kDisconnecting }.setCaller t .shutdownStored)
      else none
  | .shutdownRun t =>
      if s.caller t = .shutdownStored then
        if s.loop.isInLoopThread t then some (s.shutdownInLoop.setCaller t .idle)
        else s.queue t (.shutdownInLoop t)
      else none
  | .writeOut w =>
      match s.loop.pc with
      | .handlers _ =>
          if s.canCall s.loop.threadId_ then
            some { s with conn := (s.conn.writeOut w).1, draining := (s.conn.writeOut w).2 }
          else none
      | _ => none
  | .finishWrite =>
      if s.draining then
        -- `state_` may have been stored since the first half
        let s := if s.conn.state_ = .kDisconnecting then s.shutdownInLoop else s
        some { s with draining := false }
      else none

/-- A connection that has just been established, no functor of which waits, and
threads that have not called it yet. -/
structure Init (s : SendSystem Tid) : Prop where
  conn : ∃ self fd writeComplete highWaterMarkSet highWaterMark p, p.epollSet fd = none ∧
    s.conn = (TcpConnection.new self fd writeComplete highWaterMarkSet highWaterMark
      p).connectEstablished []
  loop : ∀ q ∈ backlog s.loop, q.functor = .other
  caller : ∀ t, s.caller t = .idle
  draining : s.draining = false
  calls : s.calls = []
  deliveries : s.deliveries = []
  kept : s.kept = []
  fins : s.fins = []

/-! ### What one step does -/

/-- The steps, each with what it needs and what it leaves.  Of the loop they keep
what it does to the functors that wait. -/
inductive Step (s : SendSystem Tid) : SystemEvent Tid → SendSystem Tid → Prop
  | loop (e : LoopStep) (a : Answer) (l : EventLoop (ConnFunctor Tid) Tid)
      (he : e ≠ .startFunctor) (ht : l.threadId_ = s.loop.threadId_)
      (hlog : backlog l = backlog s.loop) :
      Step s (.loop e a) { s with loop := l }
  | start (a : Answer) (l : EventLoop (ConnFunctor Tid) Tid) (q : Queued (ConnFunctor Tid))
      (rest : List (Queued (ConnFunctor Tid))) (ht : l.threadId_ = s.loop.threadId_)
      (hdraining : s.draining = false) (hpc : s.loop.pc = .batch (q :: rest))
      (hlog : backlog s.loop = q :: backlog l) :
      Step s (.loop .startFunctor a) ({ s with loop := l }.runFunctor a q.functor)
  | call (t : Tid) (c : Call (ConnFunctor Tid)) (l : EventLoop (ConnFunctor Tid) Tid)
      (qs : List (Queued (ConnFunctor Tid))) (ht : l.threadId_ = s.loop.threadId_)
      (hlog : backlog l = backlog s.loop ++ qs) (hqs : ∀ q ∈ qs, q.functor = .other) :
      Step s (.call t c) { s with loop := l }
  | modify (t : Tid) (p : Addr) (block : Option (List Byte)) :
      Step s (.modify t p block) { s with memory := Function.update s.memory p block }
  | sendReturn (t : Tid) (p : Addr) (w : WriteResult) : Step s (.send t p w) s
  | sendFound (t : Tid) (p : Addr) (buf : List Byte) (w : WriteResult)
      (hmem : s.memory p = some buf) (hstate : s.conn.state_ = .kConnected)
      (hout : s.loop.isInLoopThread t = false) (hidle : s.caller t = .idle) :
      Step s (.send t p w)
        ((s.record (.send t buf)).setCaller t (.sendFound s.calls.length p))
  | sendInline (t : Tid) (p : Addr) (buf : List Byte) (w : WriteResult)
      (hstate : s.conn.state_ = .kConnected) (hin : s.loop.isInLoopThread t = true)
      (hidle : s.caller t = .idle) (hdraining : s.draining = false) :
      Step s (.send t p w)
        ((s.record (.send t buf)).deliver s.calls.length (some buf) ⟨w, []⟩)
  | sendQueue (t : Tid) (i : Nat) (p : Addr) (l : EventLoop (ConnFunctor Tid) Tid)
      (q : Queued (ConnFunctor Tid)) (hcaller : s.caller t = .sendFound i p)
      (ht : l.threadId_ = s.loop.threadId_) (hlog : backlog l = backlog s.loop ++ [q])
      (hq : q.functor = .sendInLoop i p ((s.memory p).getD []).length) :
      Step s (.sendQueue t) ({ s with loop := l }.setCaller t .idle)
  | shutdownReturn (t : Tid) (hstate : s.conn.state_ ≠ .kConnected)
      (hidle : s.caller t = .idle) : Step s (.shutdown t) (s.record (.shutdown t))
  | shutdownFound (t : Tid) (hstate : s.conn.state_ = .kConnected)
      (hidle : s.caller t = .idle) :
      Step s (.shutdown t) ((s.record (.shutdown t)).setCaller t .shutdownFound)
  | shutdownStore (t : Tid) (hcaller : s.caller t = .shutdownFound) :
      Step s (.shutdownStore t)
        ({ s with conn := s.conn.setState .kDisconnecting }.setCaller t .shutdownStored)
  | shutdownQueue (t : Tid) (l : EventLoop (ConnFunctor Tid) Tid)
      (q : Queued (ConnFunctor Tid)) (hcaller : s.caller t = .shutdownStored)
      (hout : s.loop.isInLoopThread t = false) (ht : l.threadId_ = s.loop.threadId_)
      (hlog : backlog l = backlog s.loop ++ [q]) (hq : q.functor = .shutdownInLoop t) :
      Step s (.shutdownRun t) ({ s with loop := l }.setCaller t .idle)
  | shutdownInline (t : Tid) (hcaller : s.caller t = .shutdownStored)
      (hin : s.loop.isInLoopThread t = true) :
      Step s (.shutdownRun t) (s.shutdownInLoop.setCaller t .idle)
  | writeOut (w : WriteResult) :
      Step s (.writeOut w)
        { s with conn := (s.conn.writeOut w).1, draining := (s.conn.writeOut w).2 }
  | finish (hdraining : s.draining = true) (hstate : s.conn.state_ = .kDisconnecting) :
      Step s .finishWrite { s.shutdownInLoop with draining := false }
  | finishQuiet (hdraining : s.draining = true) (hstate : s.conn.state_ ≠ .kDisconnecting) :
      Step s .finishWrite { s with draining := false }

theorem free_iff {s : SendSystem Tid} {t : Tid} : s.free t = true ↔
    s.caller t = .idle ∧ (s.loop.isInLoopThread t = true → s.draining = false) := by
  cases hin : s.loop.isInLoopThread t <;> simp [free, hin]

theorem free_of_canCall {s : SendSystem Tid} {t : Tid} (h : s.canCall t = true) :
    s.free t = true := by
  simp only [canCall, Bool.and_eq_true] at h
  exact h.1.1

theorem step_of_loopNext {s s' : SendSystem Tid} {e : LoopStep} {a : Answer}
    (hdraining : s.draining = false) (h : s.loopNext e a = some s') : Step s (.loop e a) s' := by
  unfold loopNext at h
  cases hl : s.loop.next (.loop e) with
  | none => simp [hl] at h
  | some l =>
      have hfifo := backlog_next hl
      have hstep := EventLoop.step_of_next hl
      by_cases he : e = .startFunctor
      · subst he
        cases hstep with
        | startFunctor q rest hidle hpc =>
            simp only [hl] at h
            obtain rfl := Option.some.inj h
            refine .start a _ q rest rfl hdraining hpc ?_
            show s.loop.pc.rest ++ s.loop.pendingFunctors_ = _
            rw [hpc]
            rfl
      · have hsame : backlog l = backlog s.loop := by
          cases e <;> first
            | exact absurd rfl he
            | exact (Option.some.inj hfifo).symm
        have hs' : s' = { s with loop := l } := by
          simp only [hl] at h
          split at h
          · exact absurd rfl he
          · exact (Option.some.inj h).symm
        rw [hs']
        exact .loop e a l he hstep.threadId hsame

/-- A thread other than the loop's queues a functor. -/
theorem queue_some {s s' : SendSystem Tid} {t : Tid} {f : ConnFunctor Tid}
    (hout : s.loop.isInLoopThread t = false) (h : s.queue t f = some s') :
    ∃ l q, s' = { s with loop := l }.setCaller t .idle ∧ l.threadId_ = s.loop.threadId_ ∧
      backlog l = backlog s.loop ++ [q] ∧ q.functor = f := by
  obtain ⟨l, hl, rfl⟩ := Option.map_eq_some_iff.mp h
  refine ⟨l, s.loop.entry t f, rfl, (EventLoop.step_of_next hl).threadId, ?_, rfl⟩
  have hfifo := backlog_next hl
  rw [fifoOps, hout] at hfifo
  exact (Option.some.inj hfifo).symm

/-- Other calls queue nothing of the connection. -/
theorem other_of_isOther {l : EventLoop (ConnFunctor Tid) Tid} {t : Tid}
    {c : Call (ConnFunctor Tid)} {v : List (Queued (ConnFunctor Tid))} (hc : c.isOther = true)
    (h : (fifoMachine _).run (backlog l) (fifoOps l (.call t c)) = some v) :
    ∃ qs, v = backlog l ++ qs ∧ ∀ q ∈ qs, q.functor = .other := by
  have hnone : some (backlog l) = some v → ∃ qs, v = backlog l ++ qs ∧
      ∀ q ∈ qs, q.functor = ConnFunctor.other := by
    intro hv
    exact ⟨[], by rw [List.append_nil, Option.some.inj hv], by simp⟩
  have hone : some (backlog l ++ [l.entry t .other]) = some v → ∃ qs, v = backlog l ++ qs ∧
      ∀ q ∈ qs, q.functor = ConnFunctor.other := by
    intro hv
    exact ⟨[l.entry t .other], (Option.some.inj hv).symm, by simp [EventLoop.entry]⟩
  cases c with
  | queueInLoop f =>
      cases f with
      | other => exact hone h
      | sendInLoop i p n => cases hc
      | shutdownInLoop t => cases hc
  | runInLoop f =>
      cases f with
      | other =>
          rw [fifoOps] at h
          split at h
          · exact hnone h
          · exact hone h
      | sendInLoop i p n => cases hc
      | shutdownInLoop t => cases hc
  | quit => exact hnone h
  | storeQuit => exact hnone h
  | wakeup => exact hnone h

theorem step_of_next {s s' : SendSystem Tid} {e : SystemEvent Tid} (h : s.next e = some s') :
    Step s e s' := by
  cases e with
  | loop e a =>
      simp only [next, Option.ite_none_right_eq_some] at h
      refine step_of_loopNext ((free_iff.mp h.1).2 ?_) h.2
      exact decide_eq_true rfl
  | call t c =>
      simp only [next, Option.ite_none_right_eq_some] at h
      obtain ⟨⟨-, hc⟩, h⟩ := h
      obtain ⟨l, hl, rfl⟩ := Option.map_eq_some_iff.mp h
      obtain ⟨qs, hlog, hqs⟩ := other_of_isOther hc (backlog_next hl)
      exact .call t c l qs (EventLoop.step_of_next hl).threadId hlog hqs
  | modify t p block =>
      simp only [next, Option.ite_none_right_eq_some, Option.some.injEq] at h
      obtain ⟨-, rfl⟩ := h
      exact .modify t p block
  | send t p w =>
      simp only [next] at h
      split at h
      · rename_i buf hmem
        simp only [Option.ite_none_right_eq_some, Option.some.injEq] at h
        obtain ⟨hcan, rfl⟩ := h
        obtain ⟨hidle, hdraining⟩ := free_iff.mp (free_of_canCall hcan)
        unfold send
        dsimp only
        split
        · rename_i hstate
          split
          · rename_i hin
            exact .sendInline t p buf w hstate hin hidle (hdraining hin)
          · rename_i hout
            exact .sendFound t p buf w hmem hstate (by simpa [record] using hout) hidle
        · exact .sendReturn t p w
      · cases h
  | sendQueue t =>
      simp only [next] at h
      split at h
      · rename_i i p hcaller
        split at h
        · cases h
        · rename_i hout
          obtain ⟨l, q, rfl, ht, hlog, hq⟩ := queue_some (by simpa using hout) h
          exact .sendQueue t i p l q hcaller ht hlog hq
      · cases h
  | shutdown t =>
      simp only [next, Option.ite_none_right_eq_some, Option.some.injEq] at h
      obtain ⟨hcan, rfl⟩ := h
      obtain ⟨hidle, -⟩ := free_iff.mp (free_of_canCall hcan)
      unfold shutdown
      dsimp only
      split
      · rename_i hstate
        exact .shutdownFound t hstate hidle
      · rename_i hstate
        exact .shutdownReturn t hstate hidle
  | shutdownStore t =>
      simp only [next, Option.ite_none_right_eq_some, Option.some.injEq] at h
      obtain ⟨hcaller, rfl⟩ := h
      exact .shutdownStore t hcaller
  | shutdownRun t =>
      simp only [next, Option.ite_none_right_eq_some] at h
      obtain ⟨hcaller, h⟩ := h
      split at h
      · rename_i hin
        obtain rfl := Option.some.inj h
        exact .shutdownInline t hcaller hin
      · rename_i hout
        have hout' : s.loop.isInLoopThread t = false := by simpa using hout
        obtain ⟨l, q, rfl, ht, hlog, hq⟩ := queue_some hout' h
        exact .shutdownQueue t l q hcaller hout' ht hlog hq
  | writeOut w =>
      simp only [next] at h
      split at h
      · simp only [Option.ite_none_right_eq_some, Option.some.injEq] at h
        obtain ⟨-, rfl⟩ := h
        exact .writeOut w
      · cases h
  | finishWrite =>
      simp only [next, Option.ite_none_right_eq_some, Option.some.injEq] at h
      obtain ⟨hdraining, rfl⟩ := h
      split
      · rename_i hstate
        exact .finish hdraining hstate
      · rename_i hstate
        exact .finishQuiet hdraining hstate

end SendSystem

/-- The runs of the system, up to the end of the connection. -/
def sendMachine (Tid : Type*) [DecidableEq Tid] :
    Machine (SendSystem Tid) (SystemEvent Tid) where
  init := SendSystem.Init
  next := SendSystem.next

/-! ### Where the concrete runs start -/

/-- The loop of thread 0, with the string "hi" at address 100. -/
def firstSystem : SendSystem Nat where
  conn := firstConnection
  loop := .new 0
  memory := fun p => if p = 100 then some [104, 105] else none
  caller := fun _ => .idle
  draining := false
  calls := []
  deliveries := []
  kept := []
  fins := []

theorem init_firstSystem : (sendMachine Nat).init firstSystem where
  conn := ⟨1, 7, true, true, 4, EPollPoller.new, rfl, rfl⟩
  loop := by simp [firstSystem, backlog, EventLoop.new, LoopPc.rest]
  caller := fun _ => rfl
  draining := rfl
  calls := rfl
  deliveries := rfl
  kept := rfl
  fins := rfl

/-- One iteration of the loop up to the start of the first functor. -/
def iteration (a : Answer) : List (SystemEvent Nat) :=
  [.loop .testQuit a, .loop (.poll true) a, .loop .handleRead a, .loop .handlersDone a,
    .loop .swapFunctors a, .loop .startFunctor a]

end Mymuduo
