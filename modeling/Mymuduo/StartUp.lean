/-
Mymuduo/StartUp.lean

`TcpServer::start` (TcpServer.cc) with `EventLoopThreadPool::start` and the threads that
it starts.

Any number of threads may call `start`, at the same time; `started_` is atomic, and only
the thread whose increment finds zero goes on.  It makes the `EventLoopThread`s one by
one, each with its own steps (EventLoopThread.lean): `startLoop` waits until the new
thread has constructed its loop, called `threadInitCallback_` on it and published it.
Then it hands `Acceptor::listen` to the base loop, which may be another thread's.

Whatever the interleaving, the server listens once, and when it does, the pool is what
the plain `for` loop makes (RoundRobin.lean) and every loop in it is open for business
(`server_starts_once`).  The loop of thread `i` is `some i`, the base loop `none`.
-/
import Mymuduo.Handshake
import Mymuduo.RoundRobin

namespace Mymuduo

open Transition

variable {F Tid : Type*}

/-! ### The pool, thread by thread -/

namespace ThreadPool

variable {Loop : Type*}

/-- `threads_.push_back` in `start`. -/
def newThread (p : ThreadPool Loop) (cb : Bool) (i : Nat) : ThreadPool Loop :=
  { p with threads_ :=
      p.threads_ ++ [⟨snprintf (p.name_.length + 32) (p.name_ ++ formatInt i), cb⟩] }

/-- `loops_.push_back` in `start`. -/
def addLoop (p : ThreadPool Loop) (loop : Loop) : ThreadPool Loop :=
  { p with loops_ := p.loops_ ++ [loop] }

/-- The pool after the first `i` threads. -/
def through (p : ThreadPool Loop) (cb : Bool) (startLoop : Nat → Loop) (i : Nat) :
    ThreadPool Loop :=
  (List.range i).foldl (startThread cb startLoop) { p with started_ := true }

theorem through_succ (p : ThreadPool Loop) (cb : Bool) (startLoop : Nat → Loop) (i : Nat) :
    p.through cb startLoop (i + 1)
      = ((p.through cb startLoop i).newThread cb i).addLoop (startLoop i) := by
  rw [through, List.range_succ, List.foldl_append]
  rfl

@[simp] theorem through_numThreads (p : ThreadPool Loop) (cb : Bool) (startLoop : Nat → Loop)
    (i : Nat) : (p.through cb startLoop i).numThreads_ = p.numThreads_ := by
  induction i with
  | zero => rfl
  | succ i ih =>
      rw [through_succ]
      exact ih

end ThreadPool

/-! ### States and steps -/

/-- Where `start` is, in the thread that goes on. -/
inductive Starter (Tid : Type*)
  | idle
  -- before the next round of the `for` loop
  | creating (t : Tid) (i : Nat)
  -- in `startLoop` of thread `i`
  | waiting (t : Tid) (i : Nat)
  -- `threadPool_->start` has returned
  | posting (t : Tid)
  | done
  deriving DecidableEq, Repr

/-- The thread that is in `start`. -/
def Starter.caller : Starter Tid → Option Tid
  | .creating t _ | .waiting t _ | .posting t => some t
  | .idle | .done => none

/-- A server that is started.  `called` counts the calls of `threadInitCallback_` on a
loop, `queued` the functors with `Acceptor::listen` in the base loop, `listening` the
calls of `Acceptor::listen`. -/
structure StartUp (F Tid : Type*) where
  started_ : BitVec 32
  pool : ThreadPool (Option Nat)
  starter : Starter Tid
  thread : Nat → EventLoopThread F Tid
  called : Option Nat → Nat
  queued : Nat
  listening : Nat

inductive StartEvent (F Tid : Type*)
  | start (t : Tid)
  | newThread
  | startLoopReturns
  | poolStarted
  | runInLoop
  | listen
  | callback (i : Nat)
  | thread (i : Nat) (e : ThreadEvent F Tid)
  deriving DecidableEq, Repr

namespace ThreadEvent

/-- The steps of `startLoop` and of the destructor. -/
def byOwner : ThreadEvent F Tid → Bool
  | .start | .startReturn | .dtorTest | .dtorRead | .dtorStore | .dtorWakeup | .dtorJoin => true
  | _ => false

def publishes : ThreadEvent F Tid → Bool
  | .publish => true
  | _ => false

end ThreadEvent

namespace StartUp

variable [DecidableEq Tid]

def setThread (s : StartUp F Tid) (i : Nat) (x : EventLoopThread F Tid) : StartUp F Tid :=
  { s with thread := Function.update s.thread i x }

/-- `cb(loop)`. -/
def call (s : StartUp F Tid) (l : Option Nat) : StartUp F Tid :=
  { s with called := Function.update s.called l (s.called l + 1) }

def next (base : Tid) (tid : Nat → Tid) (cb : Bool) (s : StartUp F Tid) :
    StartEvent F Tid → Option (StartUp F Tid)
  | .start t =>
      if s.starter.caller = some t then none
      else some { s with
        started_ := s.started_ + 1
        starter := if s.started_ = 0 then .creating t 0 else s.starter
        pool := if s.started_ = 0 then { s.pool with started_ := true } else s.pool }
  | .newThread =>
      match s.starter with
      | .creating t i =>
          if (i : Int) < s.pool.numThreads_ then
            ((s.thread i).next t (tid i) .start).map fun x =>
              { s.setThread i x with pool := s.pool.newThread cb i, starter := .waiting t i }
          else none
      | _ => none
  | .startLoopReturns =>
      match s.starter with
      | .waiting t i =>
          ((s.thread i).next t (tid i) .startReturn).map fun x =>
            { s.setThread i x with pool := s.pool.addLoop (some i), starter := .creating t (i + 1) }
      | _ => none
  | .poolStarted =>
      match s.starter with
      | .creating t i =>
          if (i : Int) < s.pool.numThreads_ then none
          else
            let s := { s with starter := .posting t }
            some (if s.pool.numThreads_ = 0 ∧ cb = true then s.call none else s)
      | _ => none
  | .runInLoop =>
      match s.starter with
      | .posting t =>
          let s := { s with starter := .done }
          some (if t = base then { s with listening := s.listening + 1 }
            else { s with queued := s.queued + 1 })
      | _ => none
  | .listen =>
      if 0 < s.queued then some { s with queued := s.queued - 1, listening := s.listening + 1 }
      else none
  -- in `threadFunc`, between the construction of the loop and its publication
  | .callback i =>
      if cb = true ∧ (s.thread i).func = .constructed ∧ s.called (some i) = 0 then
        some (s.call (some i))
      else none
  | .thread i e =>
      if e.byOwner = true ∨ (e.publishes = true ∧ cb = true ∧ s.called (some i) = 0) then none
      else ((s.thread i).next base (tid i) e).map (s.setThread i)

end StartUp

/-- The runs in which the threads `tid i` are started by a server on the loop of `base`. -/
def startMachine (F : Type*) {Tid : Type*} [DecidableEq Tid] (base : Tid) (tid : Nat → Tid)
    (cb : Bool) : Machine (StartUp F Tid) (StartEvent F Tid) where
  init s := s.started_ = 0 ∧
    (∃ name numThreads, s.pool = (ThreadPool.new none name).setThreadNum numThreads) ∧
    s.starter = .idle ∧ (∀ i, s.thread i = .new (tid i)) ∧ (∀ l, s.called l = 0) ∧
    s.queued = 0 ∧ s.listening = 0
  next := StartUp.next base tid cb

/-! ### One thread -/

/-- `threadFunc` has published its loop. -/
def FuncPc.opened : FuncPc → Bool
  | .notStarted | .started | .constructed => false
  | _ => true

theorem FuncPc.opened_of_linked {p : FuncPc} (h : p.linked = true) : p.opened = true := by
  cases p <;> simp_all [linked, opened]

theorem FuncPc.opened_ofPc (p : LoopPc F) : (FuncPc.ofPc p).opened = true :=
  opened_of_linked (EventLoopThread.linked_ofPc p)

namespace EventLoopThread

variable {x y : EventLoopThread F Tid} {k : Nat} {cb : Bool} {e : ThreadEvent F Tid}

/-- How far a thread is, with `k` calls of `threadInitCallback_`: `startLoop` begins with
a thread that has not been started, and returns after the publication. -/
structure Staged (cb : Bool) (x : EventLoopThread F Tid) (k : Nat) : Prop where
  linked : x.Linked
  fresh : x.starter = .idle → x.func = .notStarted
  early : x.func = .notStarted ∨ x.func = .started → k = 0
  atMost : k ≤ if cb then 1 else 0
  called : x.func.opened = true → k = if cb then 1 else 0
  returned : x.starter = .done → x.func.opened = true

theorem staged_new (cb : Bool) (t : Tid) :
    (EventLoopThread.new t : EventLoopThread F Tid).Staged cb 0 :=
  ⟨rfl, fun _ => rfl, fun _ => rfl, Nat.zero_le _, nofun, nofun⟩

theorem Staged.callback (h : x.Staged true 0) (hf : x.func = .constructed) : x.Staged true 1 :=
  ⟨h.linked, h.fresh, by simp [hf], Nat.le_refl _, by simp [hf, FuncPc.opened], h.returned⟩

variable [DecidableEq Tid] {owner loopTid : Tid}

theorem Staged.start (h : x.Staged cb k) (hy : x.next owner loopTid .start = some y) :
    y.Staged cb k ∧ y.starter = .waiting := by
  obtain ⟨⟨hs, -, hf⟩, hy⟩ := Option.ite_none_right_eq_some.mp hy
  cases hy
  have hlinked := h.linked
  rw [Linked, hf] at hlinked
  have hnot : FuncPc.started.opened ≠ true := by simp [FuncPc.opened]
  refine ⟨⟨hlinked, ?_, ?_, h.atMost, fun hopened => absurd hopened hnot, ?_⟩, rfl⟩
  · intro hidle
    cases hidle
  · intro _
    exact h.early (.inl hf)
  · intro hdone
    cases hdone

theorem Staged.startReturn (h : x.Staged cb k) (hy : x.next owner loopTid .startReturn = some y) :
    y.Staged cb k ∧ y.starter = .done := by
  obtain ⟨⟨-, hloop⟩, hy⟩ := Option.ite_none_right_eq_some.mp hy
  cases hy
  have hopened : x.func.opened = true := FuncPc.opened_of_linked (h.linked ▸ hloop)
  exact ⟨⟨h.linked, nofun, h.early, h.atMost, h.called, fun _ => hopened⟩, rfl⟩

/-- The steps of the thread itself and of the callers of its loop. -/
theorem Staged.step (h : x.Staged cb k) (howner : e.byOwner = false)
    (hpublish : e.publishes = true → cb = true → k ≠ 0)
    (hy : (threadMachine F owner loopTid).next x e = some y) :
    y.Staged cb k ∧ y.starter = x.starter := by
  have hact := act_of_next hy
  have hlinked := h.linked.next hact
  -- a thread that runs has been started
  have hbusy : x.func ≠ .notStarted → x.starter ≠ .idle := fun hf hs => hf (h.fresh hs)
  cases hact with
  | construct t hf =>
      refine ⟨⟨hlinked, fun hs => absurd hs (hbusy (by simp [hf])), by simp, h.atMost, nofun,
        fun hs => ?_⟩, rfl⟩
      have hopened := h.returned hs
      rw [hf] at hopened
      cases hopened
  | publish hf =>
      refine ⟨⟨hlinked, fun hs => absurd hs (hbusy (by simp [hf])), by simp, h.atMost, fun _ => ?_,
        fun _ => rfl⟩, rfl⟩
      have hmost := h.atMost
      cases cb with
      | false => exact Nat.le_zero.mp hmost
      | true => exact Nat.le_antisymm hmost (Nat.pos_of_ne_zero (hpublish rfl rfl))
  | loop e l hf hstep =>
      have hopened : x.func.opened = true := by rcases hf with hf | hf <;> rw [hf] <;> rfl
      refine ⟨⟨hlinked, fun hs => absurd hs (hbusy ?_), ?_, h.atMost, fun _ => h.called hopened,
        fun _ => FuncPc.opened_ofPc l.pc⟩, rfl⟩
      · rcases hf with hf | hf <;> simp [hf]
      · have hopened' := FuncPc.opened_ofPc l.pc
        rintro (hnew | hnew)
        · rw [show FuncPc.ofPc l.pc = .notStarted from hnew] at hopened'
          cases hopened'
        · rw [show FuncPc.ofPc l.pc = .started from hnew] at hopened'
          cases hopened'
  | clear hf =>
      exact ⟨⟨hlinked, fun hs => absurd hs (hbusy (by simp [hf])), by simp, h.atMost,
        fun _ => h.called (by rw [hf]; rfl), fun _ => rfl⟩, rfl⟩
  | destroy hf =>
      exact ⟨⟨hlinked, fun hs => absurd hs (hbusy (by simp [hf])), by simp, h.atMost,
        fun _ => h.called (by rw [hf]; rfl), fun _ => rfl⟩, rfl⟩
  | call t c l hf hstep =>
      exact ⟨⟨hlinked, h.fresh, h.early, h.atMost, h.called, h.returned⟩, rfl⟩
  | start hd hf => cases howner
  | startReturn => cases howner
  | dtorTest hd => cases howner
  | dtorRead t l hd hlink hstep => cases howner
  | dtorStore t l hd hf hstep => cases howner
  | dtorWakeup t l hd hf hstep => cases howner
  | crash e hcase => rcases hcase with ⟨rfl, -⟩ | ⟨rfl, -⟩ | ⟨rfl, -⟩ <;> cases howner
  | dtorJoin hd => cases howner

end EventLoopThread

/-! ### The whole -/

namespace Starter

/-- The pool, as far as it has come. -/
def poolOf (p : ThreadPool (Option Nat)) (cb : Bool) : Starter Tid → ThreadPool (Option Nat)
  | .idle => p
  | .creating _ i => p.through cb some i
  | .waiting _ i => (p.through cb some i).newThread cb i
  | .posting _ | .done => (p.start cb some).1

/-- Where thread `i` is in its `startLoop`. -/
def stageOf (n i : Nat) : Starter Tid → StartPc
  | .idle => .idle
  | .creating _ k => if i < k then .done else .idle
  | .waiting _ k => if i < k then .done else if i = k then .waiting else .idle
  | .posting _ | .done => if i < n then .done else .idle

/-- `threadInitCallback_` has been called on the base loop, if it is at all. -/
def baseOf (p : ThreadPool (Option Nat)) (cb : Bool) : Starter Tid → Nat
  | .posting _ | .done => if p.numThreads_ = 0 ∧ cb = true then 1 else 0
  | _ => 0

theorem baseOf_le (p : ThreadPool (Option Nat)) (cb : Bool) (x : Starter Tid) :
    x.baseOf p cb ≤ 1 := by
  unfold baseOf
  split
  · split <;> simp
  · split <;> simp
  · simp

/-- `listen` has been handed to the base loop. -/
def listensOf : Starter Tid → Nat
  | .done => 1
  | _ => 0

/-- The threads that the `for` loop has made, while it is running. -/
def rounds : Starter Tid → Nat
  | .creating _ i => i
  | .waiting _ i => i + 1
  | _ => 0

end Starter

namespace StartUp

/-- What holds in every state of a start from the pool `p`. -/
structure Starting (p : ThreadPool (Option Nat)) (cb : Bool) (s : StartUp F Tid) : Prop where
  started : s.started_ = 0 → s.starter = .idle
  within : s.starter.rounds ≤ p.numThreads_.toNat
  pool : s.pool = s.starter.poolOf p cb
  stage : ∀ i, (s.thread i).starter = s.starter.stageOf p.numThreads_.toNat i
  staged : ∀ i, (s.thread i).Staged cb (s.called (some i))
  base : s.called none = s.starter.baseOf p cb
  listens : s.queued + s.listening = s.starter.listensOf

/-- Fewer than 2^32 calls of `start`: an increment does not come round to zero. -/
def NoWrap (s : StartUp F Tid) : StartEvent F Tid → Prop
  | .start _ => s.started_ + 1 ≠ 0
  | _ => True

variable [DecidableEq Tid] {p : ThreadPool (Option Nat)} {cb : Bool} {s t : StartUp F Tid}
  {e : StartEvent F Tid} {base : Tid} {tid : Nat → Tid}

theorem starting_of_init (h : (startMachine F base tid cb).init s) : s.Starting s.pool cb := by
  obtain ⟨-, -, hstarter, hthread, hcalled, hqueued, hlistening⟩ := h
  refine ⟨fun _ => hstarter, ?_, ?_, fun i => ?_, fun i => ?_, ?_, ?_⟩
  · rw [hstarter]
    exact Nat.zero_le _
  · rw [hstarter]
    rfl
  · rw [hthread, hstarter]
    rfl
  · rw [hthread, hcalled]
    exact EventLoopThread.staged_new cb (tid i)
  · rw [hcalled, hstarter]
    rfl
  · rw [hqueued, hlistening, hstarter]
    rfl

namespace Starting

variable (h : s.Starting p cb)
include h

omit [DecidableEq Tid] in
/-- A thread goes on, and the others stay. -/
theorem setThread_staged {i : Nat} {x : EventLoopThread F Tid}
    (hx : x.Staged cb (s.called (some i))) (j : Nat) :
    (Function.update s.thread i x j).Staged cb (s.called (some j)) := by
  by_cases hj : j = i
  · subst hj
    rwa [Function.update_self]
  · rw [Function.update_of_ne hj]
    exact h.staged j

omit [DecidableEq Tid] in
/-- The thread of the round that is running goes on in its `startLoop`. -/
theorem setThread_stage {k : Nat} {x : EventLoopThread F Tid} {starter : Starter Tid}
    (hx : x.starter = starter.stageOf p.numThreads_.toNat k)
    (hsame : ∀ i ≠ k, starter.stageOf p.numThreads_.toNat i
      = s.starter.stageOf p.numThreads_.toNat i) (i : Nat) :
    (Function.update s.thread k x i).starter = starter.stageOf p.numThreads_.toNat i := by
  by_cases hi : i = k
  · subst hi
    rwa [Function.update_self]
  · rw [Function.update_of_ne hi, hsame i hi]
    exact h.stage i

omit [DecidableEq Tid] in
theorem started_ne (hs : s.starter ≠ .idle) : s.started_ ≠ 0 := fun hzero => hs (h.started hzero)

theorem start_step {th : Tid} (hwrap : s.started_ + 1 ≠ 0)
    (ht : StartUp.next base tid cb s (.start th) = some t) : t.Starting p cb := by
  obtain ⟨-, ht⟩ := Option.ite_none_left_eq_some.mp ht
  cases ht
  by_cases hzero : s.started_ = 0
  · -- the first call
    have hidle := h.started hzero
    obtain ⟨-, -, hpool, hstage, hstaged, hbase, hlistens⟩ := h
    rw [hidle] at hpool hstage hbase hlistens
    simp only [hzero, if_true]
    refine ⟨fun hs => absurd hs (hzero ▸ hwrap), Nat.zero_le _, ?_, fun i => ?_, hstaged, hbase,
      hlistens⟩
    · show { s.pool with started_ := true } = p.through cb some 0
      rw [hpool]
      rfl
    · rw [hstage]
      simp [Starter.stageOf]
  · simp only [hzero, if_false]
    exact ⟨fun hs => absurd hs hwrap, h.within, h.pool, h.stage, h.staged, h.base, h.listens⟩

theorem newThread_step (ht : StartUp.next base tid cb s .newThread = some t) :
    t.Starting p cb := by
  simp only [StartUp.next] at ht
  split at ht
  · rename_i th k hstarter
    obtain ⟨hlt, ht⟩ := Option.ite_none_right_eq_some.mp ht
    obtain ⟨x, hx, rfl⟩ := Option.map_eq_some_iff.mp ht
    obtain ⟨hstaged, hwaiting⟩ := (h.staged k).start hx
    have hne := h.started_ne (by simp [hstarter])
    obtain ⟨-, -, hpool, -, -, hbase, hlistens⟩ := id h
    rw [hstarter] at hpool hbase hlistens
    refine ⟨fun hs => absurd hs hne, ?_, ?_, h.setThread_stage ?_ fun i hi => ?_,
      h.setThread_staged hstaged, hbase, hlistens⟩
    · rw [hpool] at hlt
      have hround : (k : Int) < p.numThreads_ := by simpa [Starter.poolOf] using hlt
      show k + 1 ≤ p.numThreads_.toNat
      omega
    · show s.pool.newThread cb k = _
      rw [hpool]
      rfl
    · simp [hwaiting, Starter.stageOf]
    · rw [hstarter]
      simp [Starter.stageOf, hi]
  · cases ht

theorem startLoopReturns_step (ht : StartUp.next base tid cb s .startLoopReturns = some t) :
    t.Starting p cb := by
  simp only [StartUp.next] at ht
  split at ht
  · rename_i th k hstarter
    obtain ⟨x, hx, rfl⟩ := Option.map_eq_some_iff.mp ht
    obtain ⟨hstaged, hdone⟩ := (h.staged k).startReturn hx
    have hne := h.started_ne (by simp [hstarter])
    obtain ⟨-, hwithin, hpool, -, -, hbase, hlistens⟩ := id h
    rw [hstarter] at hwithin hpool hbase hlistens
    refine ⟨fun hs => absurd hs hne, hwithin, ?_, h.setThread_stage ?_ fun i hi => ?_,
      h.setThread_staged hstaged, hbase, hlistens⟩
    · show s.pool.addLoop (some k) = p.through cb some (k + 1)
      rw [hpool, ThreadPool.through_succ]
      rfl
    · simp [hdone, Starter.stageOf]
    · have hlt : i < k + 1 ↔ i < k := by omega
      rw [hstarter]
      simp [Starter.stageOf, hi, hlt]
  · cases ht

theorem poolStarted_step (ht : StartUp.next base tid cb s .poolStarted = some t) :
    t.Starting p cb := by
  simp only [StartUp.next] at ht
  split at ht
  · rename_i th k hstarter
    obtain ⟨hge, ht⟩ := Option.ite_none_left_eq_some.mp ht
    obtain rfl := Option.some.inj ht
    have hne := h.started_ne (by simp [hstarter])
    obtain ⟨-, hwithin, hpool, hstage, hstaged, hbase, hlistens⟩ := h
    rw [hstarter] at hwithin hpool hstage hbase hlistens
    -- the loop ends after its last round
    have hnum : s.pool.numThreads_ = p.numThreads_ := by rw [hpool]; simp [Starter.poolOf]
    have hk : k = p.numThreads_.toNat := by
      have hle : k ≤ p.numThreads_.toNat := hwithin
      omega
    have hfull : s.pool = (p.start cb some).1 := by
      rw [hpool, hk]
      rfl
    by_cases hcb : s.pool.numThreads_ = 0 ∧ cb = true
    · rw [if_pos hcb]
      refine ⟨fun hs => absurd hs hne, Nat.zero_le _, hfull, fun i => ?_, fun i => ?_, ?_, hlistens⟩
      · show (s.thread i).starter = _
        rw [hstage, hk]
        rfl
      · show (s.thread i).Staged cb (Function.update s.called none (s.called none + 1) (some i))
        rw [Function.update_of_ne (by simp)]
        exact hstaged i
      · show Function.update s.called none (s.called none + 1) none
          = if p.numThreads_ = 0 ∧ cb = true then 1 else 0
        rw [Function.update_self, hbase, if_pos (hnum ▸ hcb)]
        rfl
    · rw [if_neg hcb]
      refine ⟨fun hs => absurd hs hne, Nat.zero_le _, hfull, fun i => ?_, hstaged, ?_, hlistens⟩
      · show (s.thread i).starter = _
        rw [hstage, hk]
        rfl
      · show s.called none = if p.numThreads_ = 0 ∧ cb = true then 1 else 0
        rw [hbase, if_neg (hnum ▸ hcb)]
        rfl
  · cases ht

theorem runInLoop_step (ht : StartUp.next base tid cb s .runInLoop = some t) :
    t.Starting p cb := by
  simp only [StartUp.next] at ht
  split at ht
  · rename_i th hstarter
    obtain rfl := Option.some.inj ht
    have hne := h.started_ne (by simp [hstarter])
    obtain ⟨-, -, hpool, hstage, hstaged, hbase, hlistens⟩ := h
    rw [hstarter] at hpool hstage hbase hlistens
    have hnone : s.queued + s.listening = 0 := hlistens
    split
    · refine ⟨fun hs => absurd hs hne, Nat.zero_le _, hpool, hstage, hstaged, hbase, ?_⟩
      show s.queued + (s.listening + 1) = 1
      omega
    · refine ⟨fun hs => absurd hs hne, Nat.zero_le _, hpool, hstage, hstaged, hbase, ?_⟩
      show s.queued + 1 + s.listening = 1
      omega
  · cases ht

theorem step (hwrap : s.NoWrap e) (ht : (startMachine F base tid cb).next s e = some t) :
    t.Starting p cb := by
  change StartUp.next base tid cb s e = some t at ht
  cases e with
  | start th => exact h.start_step hwrap ht
  | newThread => exact h.newThread_step ht
  | startLoopReturns => exact h.startLoopReturns_step ht
  | poolStarted => exact h.poolStarted_step ht
  | runInLoop => exact h.runInLoop_step ht
  | listen =>
      obtain ⟨hqueued, ht⟩ := Option.ite_none_right_eq_some.mp ht
      obtain rfl := Option.some.inj ht
      refine ⟨h.started, h.within, h.pool, h.stage, h.staged, h.base, ?_⟩
      rw [← h.listens]
      show s.queued - 1 + (s.listening + 1) = _
      omega
  | callback i =>
      obtain ⟨⟨hcb, hf, hzero⟩, ht⟩ := Option.ite_none_right_eq_some.mp ht
      obtain rfl := Option.some.inj ht
      subst hcb
      refine ⟨h.started, h.within, h.pool, h.stage, fun j => ?_, ?_, h.listens⟩
      · show (s.thread j).Staged true 
          (Function.update s.called (some i) (s.called (some i) + 1) (some j))
        by_cases hj : j = i
        · subst hj
          rw [Function.update_self, hzero]
          exact (hzero ▸ h.staged j).callback hf
        · rw [Function.update_of_ne (by simpa using hj)]
          exact h.staged j
      · show Function.update s.called (some i) (s.called (some i) + 1) none = _
        rw [Function.update_of_ne (by simp)]
        exact h.base
  | thread i e =>
      obtain ⟨hmay, ht⟩ := Option.ite_none_left_eq_some.mp ht
      obtain ⟨x, hx, rfl⟩ := Option.map_eq_some_iff.mp ht
      obtain ⟨howner, hpublish⟩ := not_or.mp hmay
      obtain ⟨hstaged, hsame⟩ := (h.staged i).step (Bool.eq_false_of_not_eq_true howner)
        (fun hp hcb hk => hpublish ⟨hp, hcb, hk⟩) hx
      refine ⟨h.started, h.within, h.pool, h.setThread_stage ?_ fun _ _ => rfl,
        h.setThread_staged hstaged, h.base, h.listens⟩
      rw [hsame]
      exact h.stage i

end Starting

/-- **A server starts once, and listens when it is ready.**  Whatever threads call
`start`, and however the threads of the pool run in between, `listen` is called at most
once and `threadInitCallback_` at most once on a loop.  When `listen` is handed to the
base loop, the pool is the one that the plain loop of `start` makes, each of its loops
has been published, after its call of `threadInitCallback_`, and the base loop has had
one exactly if the thread number is zero and the callback is set. -/
theorem server_starts_once {es : List (StartEvent F Tid)}
    (hinit : (startMachine F base tid cb).init s)
    (hwrap : (startMachine F base tid cb).Along NoWrap s es)
    (hrun : (startMachine F base tid cb).run s es = some t) :
    t.queued + t.listening ≤ 1 ∧ (∀ l, t.called l ≤ 1) ∧
      (0 < t.queued + t.listening →
        t.pool = (s.pool.start cb some).1 ∧
        t.pool.toEventLoopThreadPool
          = .started none ((List.range s.pool.numThreads_.toNat).map some) ∧
        (∀ i, some i ∈ t.pool.loops_ → (t.thread i).func.opened = true ∧
          t.called (some i) = if cb then 1 else 0) ∧
        t.called none = if s.pool.numThreads_ = 0 ∧ cb = true then 1 else 0) := by
  have h : t.Starting s.pool cb :=
    Machine.run_invariant (fun _ _ _ h he ht => h.step he ht) hwrap hrun (starting_of_init hinit)
  obtain ⟨-, ⟨name, numThreads, hpool⟩, -⟩ := hinit
  refine ⟨?_, fun l => ?_, fun hpos => ?_⟩
  · rw [h.listens]
    cases t.starter <;> simp [Starter.listensOf]
  · cases l with
    | some i => exact (h.staged i).atMost.trans (by cases cb <;> simp)
    | none => exact h.base ▸ t.starter.baseOf_le _ cb
  · have hdone : t.starter = .done := by
      rw [h.listens] at hpos
      cases hs : t.starter <;> rw [hs] at hpos <;> first | rfl | cases hpos
    have hfull := h.pool
    rw [hdone] at hfull
    have hstarted : t.pool.toEventLoopThreadPool
        = .started none ((List.range s.pool.numThreads_.toNat).map some) := by
      rw [hfull, hpool]
      exact ThreadPool.startedPool_eq none name numThreads cb some
    refine ⟨hfull, hstarted, fun i hi => ?_, ?_⟩
    · have hloops : t.pool.loops_ = (List.range s.pool.numThreads_.toNat).map some :=
        congrArg EventLoopThreadPool.loops_ hstarted
      rw [hloops] at hi
      obtain ⟨k, hk, hki⟩ := List.mem_map.mp hi
      cases hki
      have hstage := h.stage i
      rw [hdone, Starter.stageOf, if_pos (List.mem_range.mp hk)] at hstage
      have hopened := (h.staged i).returned hstage
      exact ⟨hopened, (h.staged i).called hopened⟩
    · rw [h.base, hdone, Starter.baseOf]

/-- A server before its first `start`. -/
def new (nameArg : Text) (numThreads : Int) (tid : Nat → Tid) : StartUp F Tid where
  started_ := 0
  pool := (ThreadPool.new none nameArg).setThreadNum numThreads
  starter := .idle
  thread := fun i => .new (tid i)
  called := fun _ => 0
  queued := 0
  listening := 0

instance (s : StartUp F Tid) : (e : StartEvent F Tid) → Decidable (s.NoWrap e)
  | .start _ => inferInstanceAs (Decidable (_ ≠ _))
  | .newThread | .startLoopReturns | .poolStarted | .runInLoop | .listen | .callback _
  | .thread _ _ => instDecidableTrue

/-- Two threads call `start` before the thread of the pool has made its loop. -/
def startsTwice : List (StartEvent Nat Nat) :=
  [.start 5, .newThread, .start 6, .thread 0 .construct, .callback 0, .thread 0 .publish,
    .startLoopReturns, .poolStarted, .runInLoop, .listen]

/-- The server listens, with one loop. -/
theorem server_starts_once_twice :
    ∃ t : StartUp Nat Nat, t.listening = 1 ∧
      t.pool.toEventLoopThreadPool = .started none [some 0] ∧ t.called (some 0) ≤ 1 := by
  have hend : ((startMachine Nat 0 (· + 10) true).run (new ['s'] 1 (· + 10)) startsTwice).any
      fun t => decide (t.listening = 1) := by
    decide +kernel
  obtain ⟨t, hrun, ht⟩ := (Option.any_eq_true _ _).mp hend
  have hlistening := of_decide_eq_true ht
  have hinit : (startMachine Nat 0 (· + 10) true).init (new ['s'] 1 (· + 10)) :=
    ⟨rfl, ⟨['s'], 1, rfl⟩, rfl, fun _ => rfl, fun _ => rfl, rfl, rfl⟩
  obtain ⟨-, hcalled, hready⟩ := server_starts_once hinit (by decide +kernel) hrun
  exact ⟨t, hlistening, (hready (by omega)).2.1, hcalled _⟩

end StartUp

end Mymuduo
