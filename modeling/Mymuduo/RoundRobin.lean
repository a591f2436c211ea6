/-
Mymuduo/RoundRobin.lean

How `EventLoopThreadPool` deals connections out to its loops.

`dealt xs k` is the purpose, for a list of anything: the first `k` items of the endless
repetition of `xs`.  If the items differ, none is dealt two times more often than another
(`count_dealt_le`).  The pool's cursor `next_` counts modulo the number of loops, so the
loops handed out are dealt from `loops_`, or are all `baseLoop_` if `start` made no
loops.

`ThreadPool` has the members that `start` works on.  The loop of the `i`-th thread is
`startLoop i`; these are objects on the stacks of threads that all run, so they differ.
-/
import Mathlib.Data.Int.CardIntervalMod
import Mymuduo.ConnectionTable

namespace Mymuduo

open Transition

/-! ### Dealing in turn -/

section Dealing

variable {α : Type*}

/-- The first `k` items of the endless repetition of `xs`. -/
def dealt (xs : List α) (k : Nat) : List α :=
  (List.range k).filterMap fun i => xs[i % xs.length]?

variable [DecidableEq α] {xs : List α} {x y : α}

/-- An item is dealt once for each turn that is its own. -/
theorem count_dealt (xs : List α) (k : Nat) (x : α) :
    (dealt xs k).count x = k.count fun i => xs[i % xs.length]? = some x := by
  induction k with
  | zero => rfl
  | succ k ih =>
      rw [dealt, List.range_succ, List.filterMap_append, List.count_append, Nat.count_succ, ← ih]
      congr 1
      cases hz : xs[k % xs.length]? with
      | none => simp [hz]
      | some z => simp [hz, List.count_singleton]

/-- The turns of the item at place `j`. -/
theorem count_dealt_getElem (hxs : xs.Nodup) (k : Nat) {j : Nat} (hj : j < xs.length) :
    (dealt xs k).count xs[j] = k / xs.length + if j < k % xs.length then 1 else 0 := by
  have hpos : 0 < xs.length := Nat.zero_lt_of_lt hj
  have hturn : ∀ i, xs[i % xs.length]? = some xs[j] ↔ i ≡ j [MOD xs.length] := by
    intro i
    have hi : i % xs.length < xs.length := Nat.mod_lt _ hpos
    rw [List.getElem?_eq_getElem hi, Option.some.injEq, hxs.getElem_inj_iff, Nat.ModEq,
      Nat.mod_eq_of_lt hj]
  have hcount := Nat.count_modEq_card k hpos j
  rw [Nat.mod_eq_of_lt hj] at hcount
  rw [count_dealt, ← hcount]
  simp only [hturn]

/-- **Dealing in turn is fair.**  Of different items, none is dealt more than once more
often than another. -/
theorem count_dealt_le (hxs : xs.Nodup) (k : Nat) (hx : x ∈ xs) (hy : y ∈ xs) :
    (dealt xs k).count x ≤ (dealt xs k).count y + 1 := by
  obtain ⟨i, hi, rfl⟩ := List.getElem_of_mem hx
  obtain ⟨j, hj, rfl⟩ := List.getElem_of_mem hy
  rw [count_dealt_getElem hxs k hi, count_dealt_getElem hxs k hj]
  split <;> split <;> omega

end Dealing

variable {Loop : Type*}

/-! ### The cursor -/

namespace EventLoopThreadPool

/-- The pool after `k` calls of `getNextLoop`. -/
def after (p : EventLoopThreadPool Loop) : Nat → EventLoopThreadPool Loop
  | 0 => p
  | k + 1 => (p.after k).getNextLoop.2

/-- The loop that the `i`-th call (from 0) hands out. -/
def call (p : EventLoopThreadPool Loop) (i : Nat) : Loop := (p.after i).getNextLoop.1

/-- The loops that the first `k` calls hand out. -/
def handedOut (p : EventLoopThreadPool Loop) (k : Nat) : List Loop := (List.range k).map p.call

variable {p : EventLoopThreadPool Loop}

theorem eq_started {base : Loop} {loops : List Loop} (hloops : p.loops_ = loops)
    (hbase : p.baseLoop_ = base) (hnext : p.next_ = 0) : p = .started base loops := by
  obtain ⟨_, _, _⟩ := p
  subst hloops hbase hnext
  rfl

theorem after_base (k : Nat) : (p.after k).baseLoop_ = p.baseLoop_ := by
  induction k with
  | zero => rfl
  | succ k ih => exact (getNextLoop_base _).trans ih

theorem after_loops (k : Nat) : (p.after k).loops_ = p.loops_ := by
  induction k with
  | zero => rfl
  | succ k ih => exact (getNextLoop_loops _).trans ih

theorem after_getNextLoop (k : Nat) : p.getNextLoop.2.after k = p.after (k + 1) := by
  induction k with
  | zero => rfl
  | succ k ih =>
      rw [after, ih]
      rfl

theorem handedOut_succ (k : Nat) :
    p.handedOut (k + 1) = p.getNextLoop.1 :: p.getNextLoop.2.handedOut k := by
  have hcall : ∀ i, p.getNextLoop.2.call i = p.call (i + 1) := by
    intro i
    rw [call, after_getNextLoop, call]
  rw [handedOut, List.range_succ_eq_map, List.map_cons, List.map_map, handedOut]
  congr 1
  exact List.map_congr_left fun i _ => (hcall i).symm

/-- A call moves the cursor by one place, around the end. -/
theorem getNextLoop_next (hne : p.loops_ ≠ []) {k : Nat} (h : p.next_ = k % p.loops_.length) :
    p.getNextLoop.2.next_ = (k + 1) % p.loops_.length := by
  have hpos := List.length_pos_iff.mpr hne
  have hlt : k % p.loops_.length < p.loops_.length := Nat.mod_lt _ hpos
  rw [getNextLoop, if_neg (by simpa using hne)]
  show (if p.loops_.length ≤ p.next_ + 1 then 0 else p.next_ + 1) = _
  rw [h, ← Nat.mod_add_mod]
  split
  · rename_i hend
    rw [show k % p.loops_.length + 1 = p.loops_.length by omega, Nat.mod_self]
  · rename_i hin
    rw [Nat.mod_eq_of_lt (not_le.mp hin)]

/-- The cursor counts the calls modulo the number of loops. -/
theorem after_next (hne : p.loops_ ≠ []) (h0 : p.next_ = 0) (k : Nat) :
    (p.after k).next_ = k % p.loops_.length := by
  induction k with
  | zero => rw [Nat.zero_mod, after, h0]
  | succ k ih =>
      have hsame := after_loops (p := p) k
      have hstep := getNextLoop_next (p := p.after k) (by rwa [hsame]) (by rwa [hsame])
      rw [after, hstep, hsame]

theorem getElem?_call (hne : p.loops_ ≠ []) (h0 : p.next_ = 0) (i : Nat) :
    p.loops_[i % p.loops_.length]? = some (p.call i) := by
  have hlt : i % p.loops_.length < p.loops_.length :=
    Nat.mod_lt _ (List.length_pos_iff.mpr hne)
  have hsome : (p.after i).loops_.isEmpty = false := by
    rw [after_loops]
    simpa using hne
  rw [call, getNextLoop, hsome, if_neg Bool.false_ne_true, after_loops, after_next hne h0,
    List.getD_eq_getElem?_getD, List.getElem?_eq_getElem hlt]
  rfl

theorem call_of_nil (hnil : p.loops_ = []) (i : Nat) : p.call i = p.baseLoop_ := by
  rw [call, getNextLoop, after_loops, hnil]
  exact after_base i

/-- The loops are dealt in turn. -/
theorem handedOut_eq_dealt (hne : p.loops_ ≠ []) (h0 : p.next_ = 0) (k : Nat) :
    p.handedOut k = dealt p.loops_ k := by
  rw [handedOut, dealt, ← List.filterMap_eq_map]
  exact List.filterMap_congr fun i _ => (getElem?_call hne h0 i).symm

end EventLoopThreadPool

/-! ### The threads -/

/-- An `EventLoopThread` of the pool: its name, and whether it was given a callback. -/
structure PoolThread where
  name : Text
  callback_ : Bool
  deriving DecidableEq, Repr

/-- `EventLoopThreadPool` with all of its members. -/
structure ThreadPool (Loop : Type*) extends EventLoopThreadPool Loop where
  name_ : Text
  started_ : Bool
  numThreads_ : Int
  threads_ : List PoolThread

namespace ThreadPool

/-- `EventLoopThreadPool::EventLoopThreadPool`. -/
def new (baseLoop : Loop) (nameArg : Text) : ThreadPool Loop where
  baseLoop_ := baseLoop
  name_ := nameArg
  started_ := false
  numThreads_ := 0
  next_ := 0
  threads_ := []
  loops_ := []

def setThreadNum (p : ThreadPool Loop) (numThreads : Int) : ThreadPool Loop :=
  { p with numThreads_ := numThreads }

/-- The body of the `for` loop of `start`. -/
def startThread (cb : Bool) (startLoop : Nat → Loop) (p : ThreadPool Loop) (i : Nat) :
    ThreadPool Loop :=
  let buf := snprintf (p.name_.length + 32) (p.name_ ++ formatInt i)
  { p with threads_ := p.threads_ ++ [⟨buf, cb⟩], loops_ := p.loops_ ++ [startLoop i] }

/-- `start`, and the loop on which it calls `cb` itself. -/
def start (p : ThreadPool Loop) (cb : Bool) (startLoop : Nat → Loop) :
    ThreadPool Loop × Option Loop :=
  let p := { p with started_ := true }
  let p := (List.range p.numThreads_.toNat).foldl (startThread cb startLoop) p
  (p, if p.numThreads_ = 0 ∧ cb then some p.baseLoop_ else none)

variable {p : ThreadPool Loop} {cb : Bool} {startLoop : Nat → Loop}

theorem foldl_startThread (is : List Nat) :
    (is.foldl (startThread cb startLoop) p).loops_ = p.loops_ ++ is.map startLoop ∧
      (is.foldl (startThread cb startLoop) p).baseLoop_ = p.baseLoop_ ∧
      (is.foldl (startThread cb startLoop) p).next_ = p.next_ := by
  induction is generalizing p with
  | nil => exact ⟨(List.append_nil _).symm, rfl, rfl⟩
  | cons i is ih =>
      obtain ⟨hloops, hbase, hnext⟩ := ih (p := startThread cb startLoop p i)
      refine ⟨?_, hbase, hnext⟩
      rw [List.foldl_cons, hloops]
      simp [startThread]

/-- `start` makes one loop for each thread and leaves the cursor alone. -/
theorem start_spec (p : ThreadPool Loop) (cb : Bool) (startLoop : Nat → Loop) :
    (p.start cb startLoop).1.loops_
        = p.loops_ ++ (List.range p.numThreads_.toNat).map startLoop ∧
      (p.start cb startLoop).1.baseLoop_ = p.baseLoop_ ∧
      (p.start cb startLoop).1.next_ = p.next_ :=
  foldl_startThread _

/-- A pool of `numThreads` threads that has been started once, as the server sees it. -/
def startedPool (baseLoop : Loop) (nameArg : Text) (numThreads : Int) (cb : Bool)
    (startLoop : Nat → Loop) : EventLoopThreadPool Loop :=
  (((new baseLoop nameArg).setThreadNum numThreads).start cb startLoop).1.toEventLoopThreadPool

theorem startedPool_eq (baseLoop : Loop) (nameArg : Text) (numThreads : Int) (cb : Bool)
    (startLoop : Nat → Loop) :
    startedPool baseLoop nameArg numThreads cb startLoop
      = .started baseLoop ((List.range numThreads.toNat).map startLoop) := by
  obtain ⟨hloops, hbase, hnext⟩ :=
    start_spec ((new baseLoop nameArg).setThreadNum numThreads) cb startLoop
  exact EventLoopThreadPool.eq_started hloops hbase hnext

end ThreadPool

/-! ### The server -/

namespace ConnectionTable

/-- The loops that the connections of a history are given to, in the order of their
accepts. -/
def ioLoops (s : ConnectionTable Loop) : List TableEvent → List Loop
  | [] => []
  | .newConnection :: es =>
      let (ioLoop, _, _) := s.server.newConnection s.accepted.length
      ioLoop :: (s.next .newConnection).elim [] fun t => t.ioLoops es
  | .removeConnectionInLoop conn :: es =>
      (s.next (.removeConnectionInLoop conn)).elim [] fun t => t.ioLoops es

/-- Removals do not touch the pool. -/
theorem ioLoops_eq_handedOut {s t : ConnectionTable Loop} {es : List TableEvent}
    (hrun : (tableMachine Loop).run s es = some t) :
    s.ioLoops es = s.server.threadPool_.handedOut (es.count .newConnection) := by
  induction es generalizing s with
  | nil => rfl
  | cons e es ih =>
      obtain ⟨u, hu, hrest⟩ := Machine.run_cons_some.mp hrun
      have hu' : s.next e = some u := hu
      cases e with
      | newConnection =>
          rw [List.count_cons_self, EventLoopThreadPool.handedOut_succ, ioLoops, hu',
            Option.elim_some, ih hrest]
          obtain rfl := Option.some.inj hu'
          rfl
      | removeConnectionInLoop conn =>
          rw [List.count_cons_of_ne (by simp), ioLoops, hu', Option.elim_some, ih hrest]
          have hpool : u.server.threadPool_ = s.server.threadPool_ := by
            rw [next] at hu'
            split at hu'
            · obtain rfl := Option.some.inj hu'
              rfl
            · cases hu'
          rw [hpool]

end ConnectionTable

/-- **Connections are dealt out in turn.**  After one `start` with any number of threads,
the cursor is inside `loops_` at every call of `getNextLoop`, the `i`-th call returns the
`i`-th loop around, or the base loop if there are no others, and in every history of
accepts and removals no loop of the pool is given two connections more than another. -/
theorem round_robin [DecidableEq Loop] (baseLoop : Loop) (nameArg : Text) (numThreads : Int)
    (cb : Bool) (startLoop : Nat ↪ Loop) (pool : EventLoopThreadPool Loop)
    (hpool : pool = ThreadPool.startedPool baseLoop nameArg numThreads cb startLoop) :
    pool.loops_.length = numThreads.toNat ∧
    (∀ i, (pool.after i).loops_ ≠ [] → (pool.after i).next_ < (pool.after i).loops_.length) ∧
    (∀ i, if 0 < numThreads then pool.loops_[i % numThreads.toNat]? = some (pool.call i)
      else pool.call i = baseLoop) ∧
    ∀ (s t : ConnectionTable Loop) (es : List TableEvent), s.server.threadPool_ = pool →
      (tableMachine Loop).run s es = some t → ∀ l₁ ∈ pool.loops_, ∀ l₂ ∈ pool.loops_,
        (s.ioLoops es).count l₁ ≤ (s.ioLoops es).count l₂ + 1 := by
  rw [ThreadPool.startedPool_eq] at hpool
  have hloops : pool.loops_ = (List.range numThreads.toNat).map startLoop := by rw [hpool]; rfl
  have hbase : pool.baseLoop_ = baseLoop := by rw [hpool]; rfl
  have hnext : pool.next_ = 0 := by rw [hpool]; rfl
  have hlength : pool.loops_.length = numThreads.toNat := by simp [hloops]
  refine ⟨hlength, fun i hne => ?_, fun i => ?_, ?_⟩
  · rw [EventLoopThreadPool.after_loops] at hne ⊢
    rw [EventLoopThreadPool.after_next hne hnext]
    exact Nat.mod_lt _ (List.length_pos_iff.mpr hne)
  · split
    · have hne : pool.loops_ ≠ [] := List.ne_nil_of_length_pos (by omega)
      rw [← hlength]
      exact EventLoopThreadPool.getElem?_call hne hnext i
    · have hnil : pool.loops_ = [] := List.eq_nil_of_length_eq_zero (by omega)
      rw [EventLoopThreadPool.call_of_nil hnil, hbase]
  · intro s t es hs hrun l₁ h₁ l₂ h₂
    have hnodup : pool.loops_.Nodup := by
      rw [hloops]
      exact List.nodup_range.map startLoop.injective
    rw [ConnectionTable.ioLoops_eq_handedOut hrun, hs,
      EventLoopThreadPool.handedOut_eq_dealt (List.ne_nil_of_mem h₁) hnext]
    exact count_dealt_le hnodup _ h₁ h₂

/-- Three loops, numbered after their threads, and four accepts with a removal between:
the fourth connection goes to the first loop again. -/
theorem round_robin_three :
    ∃ t, (tableMachine Nat).run
        ⟨TcpServer.new [] ⟨(10, 0, 0, 1), 80⟩ (ThreadPool.startedPool 9 [] 3 true id), [], []⟩
        [.newConnection, .newConnection, .removeConnectionInLoop 0, .newConnection,
          .newConnection] = some t ∧
      (ThreadPool.startedPool 9 [] 3 true id).call 3 = 0 := by
  obtain ⟨-, -, hcall, -⟩ :=
    round_robin 9 [] 3 true (Function.Embedding.refl Nat) _ rfl
  have hthird := hcall 3
  rw [if_pos (by decide)] at hthird
  exact ⟨_, rfl, (Option.some.inj hthird).symm⟩

end Mymuduo
