/-
Mymuduo/Assignment.lean

Which descriptor, loop and name a connection has.

`newConnection` takes the loop of a connection from the pool, its name from the counter
and its descriptor from the acceptor.  From then on the connection is worked on by its
own loop, by the base loop and by any thread that has a pointer, while more connections
come and others go.  What a run has accepted is recorded in its connections
(`descriptors`, `homes`): each step adds to the records at most a new connection and
changes no entry, so they are what came in, in order (`connections_assigned`).

The loops are dealt out in turn (RoundRobin.lean), hence at any time no loop of
the pool has been given two connections more than another.
-/
import Mymuduo.Ledger
import Mymuduo.RoundRobin
import Mymuduo.Teardown

namespace Mymuduo

open Transition

/-- One call more hands out one loop more. -/
theorem EventLoopThreadPool.handedOut_concat {Loop : Type*} (p : EventLoopThreadPool Loop)
    (k : Nat) : p.handedOut (k + 1) = p.handedOut k ++ [p.call k] := by
  rw [handedOut, List.range_succ, List.map_append, List.map_singleton]
  rfl

namespace ServerSystem

variable {ι α : Type*}

/-! ### Records -/

/-- The descriptors of all connections there have been, in the order of their accepts. -/
def descriptors (s : ServerSystem ι α) : List Int :=
  (List.range s.count).map fun c => (s.channel c).fd_

/-- The loops of all connections there have been. -/
def homes (s : ServerSystem ι α) : List ι := (List.range s.count).map fun c => (s.conn c).home

/-- The descriptor that a step accepts. -/
def accepted : ServerEvent ι α → List Int
  | .accept sockfd _ _ _ => [sockfd]
  | _ => []

variable [DecidableEq ι] [DecidableEq α] {s t : ServerSystem ι α} {e : ServerEvent ι α}

/-- A step accepts a connection or leaves their number and the pool as they are. -/
theorem accepts_of_moves (hm : s.Moves e t) :
    (∃ sockfd wc hw mark, e = .accept sockfd wc hw mark ∧ t = s.accept sockfd wc hw mark) ∨
      accepted e = [] ∧ t.count = s.count ∧
        t.server.threadPool_ = s.server.threadPool_ := by
  cases hm with
  | accept sockfd wc hw mark hphase htodo => exact .inl ⟨sockfd, wc, hw, mark, rfl, rfl⟩
  | task l env k rest hidle htodo hk =>
      cases k with
      | closeCallback c =>
          refine .inr ⟨rfl, ?_, ?_⟩
          · rw [runTask, runInLoop_count]
            rfl
          · rw [runTask, runInLoop_server]
            rfl
      | _ => exact .inr ⟨rfl, rfl, rfl⟩
  | destroyEntry c hidle hhead hcount htable =>
      refine .inr ⟨rfl, ?_, ?_⟩
      · rw [runInLoop_count]
      · rw [runInLoop_server]
        rfl
  | _ => exact .inr ⟨rfl, rfl, rfl⟩

theorem accept_count (s : ServerSystem ι α) (sockfd : Int) (wc hw : Bool) (mark : Nat) :
    (s.accept sockfd wc hw mark).count = s.count + 1 := by
  rw [accept, runInLoop_count]
  rfl

/-- The records of a step: those there were, and that of the new connection. -/
theorem descriptors_of_moves (hm : s.Moves e t) :
    t.descriptors = s.descriptors ++ accepted e := by
  have hold : (List.range s.count).map (fun c => (t.channel c).fd_) = s.descriptors :=
    List.map_congr_left fun c hc => fd_of_moves hm (List.mem_range.mp hc)
  rcases accepts_of_moves hm with ⟨sockfd, wc, hw, mark, rfl, rfl⟩ | ⟨hnone, hcount, -⟩
  · obtain ⟨p, htcp⟩ := accept_tcp s sockfd wc hw mark
    have hnew : ((s.accept sockfd wc hw mark).channel s.count).fd_ = sockfd := by
      rw [channel, htcp]
      rfl
    rw [descriptors, accept_count, List.range_succ, List.map_append, hold, List.map_singleton, hnew]
    rfl
  · rw [descriptors, hcount, hold, hnone, List.append_nil]

/-- A new connection gets the loop that the pool hands out next. -/
theorem accept_dealt (s : ServerSystem ι α) (sockfd : Int) (wc hw : Bool) (mark : Nat) :
    ((s.accept sockfd wc hw mark).conn s.count).home = s.server.threadPool_.getNextLoop.1 ∧
      (s.accept sockfd wc hw mark).server.threadPool_ = s.server.threadPool_.getNextLoop.2 := by
  constructor
  · rw [accept, runInLoop_conn]
    show (Function.update s.conn s.count _ s.count).home = _
    rw [Function.update_self]
    rfl
  · rw [accept, runInLoop_server]
    rfl

/-- The pool `p` has handed out a loop for every connection, and each has its own. -/
structure Dealt (p : EventLoopThreadPool ι) (s : ServerSystem ι α) : Prop where
  pool : s.server.threadPool_ = p.after s.count
  homes : s.homes = p.handedOut s.count

theorem Dealt.step {p : EventLoopThreadPool ι} (h : Dealt p s) (hm : s.Moves e t) :
    Dealt p t := by
  have hold : (List.range s.count).map (fun c => (t.conn c).home) = s.homes :=
    List.map_congr_left fun c hc => (settled_of_moves hm).home c (List.mem_range.mp hc)
  rcases accepts_of_moves hm with ⟨sockfd, wc, hw, mark, rfl, rfl⟩ | ⟨-, hcount, hpool⟩
  · obtain ⟨hnew, hnext⟩ := s.accept_dealt sockfd wc hw mark
    constructor
    · rw [accept_count, hnext, h.pool, EventLoopThreadPool.after]
    · rw [ServerSystem.homes, accept_count, List.range_succ, List.map_append, hold, h.homes,
        List.map_singleton, hnew, h.pool, EventLoopThreadPool.handedOut_concat,
        EventLoopThreadPool.call]
  · exact ⟨by rw [hpool, hcount, h.pool], by rw [ServerSystem.homes, hcount, hold, h.homes]⟩

/-- **Connections are assigned once and for all.**  After any run of the server, the
connections it has had are those it accepted, in order: each still has the descriptor of
its accept, the loop that the pool handed out for it and the name with its number.  If
the pool has just been started, none of its loops has been given two connections more
than another. -/
theorem connections_assigned {es : List (ServerEvent ι α)} (hinit : (serverMachine ι α).init s)
    (hrun : (serverMachine ι α).run s es = some t) :
    t.descriptors = (serverMachine ι α).gather (fun _ e => accepted e) s es ∧
    t.homes = s.server.threadPool_.handedOut t.count ∧
    (∀ c < t.count, (t.conn c).name
      = connName t.server.name_ t.server.ipPort_ (BitVec.ofNat 32 (c + 1))) ∧
    (s.server.threadPool_.next_ = 0 → s.server.threadPool_.loops_.Nodup →
      ∀ l₁ ∈ s.server.threadPool_.loops_, ∀ l₂ ∈ s.server.threadPool_.loops_,
        t.homes.count l₁ ≤ t.homes.count l₂ + 1) := by
  have hcount : s.count = 0 := hinit.2.2.1
  have hnone : s.descriptors = [] := by rw [descriptors, hcount]; rfl
  have hfresh : Dealt s.server.threadPool_ s := by
    refine ⟨?_, ?_⟩
    · rw [hcount, EventLoopThreadPool.after]
    · rw [ServerSystem.homes, hcount]
      rfl
  have hnamed : t.Named :=
    Machine.run_invariant' (fun s e t h ht => h.step (moves_of_next ht)) hrun (named_of_init hinit)
  have hdealt : Dealt s.server.threadPool_ t :=
    Machine.run_invariant' (fun s e t h ht => h.step (moves_of_next ht)) hrun hfresh
  refine ⟨?_, hdealt.homes, hnamed.names, fun hnext hnodup l₁ h₁ l₂ h₂ => ?_⟩
  · have hgrown : t.descriptors
        = s.descriptors ++ (serverMachine ι α).gather (fun _ e => accepted e) s es :=
      Machine.recorded (fun s e t h => descriptors_of_moves (moves_of_next h)) hrun
    rw [hgrown, hnone, List.nil_append]
  · rw [hdealt.homes, EventLoopThreadPool.handedOut_eq_dealt (List.ne_nil_of_mem h₁) hnext]
    exact count_dealt_le hnodup _ h₁ h₂

/-- Three connections, two loops: the third has the loop of the first. -/
theorem connections_assigned_three :
    ∃ t : ServerSystem Nat Unit, t.descriptors = [7, 8, 9] ∧ t.homes = [1, 2, 1] ∧
      t.homes.count 1 ≤ t.homes.count 2 + 1 := by
  have hend : ((serverMachine Nat Unit).run
      (start ['s'] ⟨(127, 0, 0, 1), 80⟩ (.started 0 [1, 2]))
      (ServerEvent.turns 0 [.enterLoop, .testQuit, .poll false] ++
        [.accept 7 false false 0, .accept 8 false false 0, .accept 9 false false 0])).any
      fun t => decide (t.count = 3) := by
    decide +kernel
  obtain ⟨t, hrun, ht⟩ := (Option.any_eq_true _ _).mp hend
  obtain ⟨hdescriptors, hhomes, -, hfair⟩ := connections_assigned (init_start ..) hrun
  refine ⟨t, hdescriptors, ?_, hfair rfl (by decide) 1 (by decide) 2 (by decide)⟩
  rw [hhomes, of_decide_eq_true ht]
  rfl

end ServerSystem

end Mymuduo
