/-
Mymuduo/Work.lean

How much a server has still to do.

Left to themselves, the threads of a server go on with what they have: the loops go round,
run their functors and tasks, and handle the active channels; and a call that is under
way goes on to its end (`Settling`).  Each of these steps costs at least one unit of the
`work` that is there, although functors queue functors and wake up other loops: what
a task, a functor or a call is worth covers all that it leads to, with the rounds
of the loops that are woken up for it.

A loop whose eventfd is readable or whose queue is not empty is `due` for a round.  Its
`epoll_wait` returns at once or after `kPollTimeMs`, and without new events reports at most
the eventfd.
-/
import Mathlib.Algebra.BigOperators.Group.Finset.Piecewise
import Mathlib.Data.Fintype.Sum
import Mymuduo.Delivery

namespace Mymuduo

open Transition

/-! ### Sums over threads -/

/-- An update changes a sum at its one place. -/
theorem sum_update_add {ι β : Type*} [Fintype ι] [DecidableEq ι] (f : ι → β) (g : β → Nat)
    (i : ι) (b : β) : ∑ j, g (Function.update f i b j) + g (f i) = ∑ j, g (f j) + g b := by
  simp only [Function.apply_update fun _ => g]
  rw [Finset.sum_update_of_mem (Finset.mem_univ i),
    Finset.sum_eq_sum_sdiff_singleton_add (Finset.mem_univ i) fun j => g (f j)]
  omega

/-- The threads of a server, when there are finitely many. -/
instance {ι α : Type*} [Fintype ι] [Fintype α] : Fintype (Thread ι α) :=
  Fintype.ofEquiv (ι ⊕ α)
    { toFun := Sum.elim Thread.loop Thread.app
      invFun := fun
        | .loop l => .inl l
        | .app a => .inr a
      left_inv := by rintro (l | a) <;> rfl
      right_inv := by rintro (l | a) <;> rfl }

/-! ### Loops -/

/-- A wakeup that is still to come. -/
def Activity.work : Activity → Nat
  | .pushed _ | .quitStored => 7
  | _ => 0

namespace EventLoop

variable {F Tid : Type*}

/-- There is something for the loop to go round for. -/
def due (l : EventLoop F Tid) : Bool := decide (l.wakeupFd_ ≠ 0) || !l.pendingFunctors_.isEmpty

/-- The steps of a loop that nobody has told to quit, and for which there are no new
events. -/
def Goes (l : EventLoop F Tid) : LoopStep → Prop
  | .testQuit => l.quit_ = false
  | .poll wakeupActive => wakeupActive = decide (l.wakeupFd_ ≠ 0) ∧ l.due = true
  | _ => True

instance (l : EventLoop F Tid) (e : LoopStep) : Decidable (l.Goes e) := by
  cases e <;> unfold Goes <;> infer_instance

/-- The steps to the next `epoll_wait`, and those from there to the one after it if it will
not block. -/
def round (l : EventLoop F Tid) : Nat :=
  match l.pc with
  | .poll => if l.due then 6 else 0
  | .handlers true => 5
  -- the swap takes the queue, but not what has been written to the eventfd since
  | .handlers false => 4 + if l.wakeupFd_ = 0 then 0 else 6
  | .swap => 3 + if l.wakeupFd_ = 0 then 0 else 6
  | .batch _ | .functor _ _ | .outside => 2 + if l.due then 6 else 0
  | .test => 1 + if l.due then 6 else 0

/-- What is left to the loop when its functors cost `cost`. -/
def work [Fintype Tid] (cost : F → Nat) (l : EventLoop F Tid) : Nat :=
  l.round + (l.waiting.map cost).sum + (if l.running.isSome then 1 else 0) +
    ∑ t, (l.activity t).work

variable {l l' : EventLoop F Tid} {cost : F → Nat}

/-- Whatever comes to the queue or the eventfd, it is good for one round. -/
theorem round_le_of_pc (hpc : l'.pc = l.pc) : l'.round ≤ l.round + 6 := by
  unfold round
  rw [hpc]
  split <;> grind

variable [DecidableEq Tid] [Fintype Tid]

/-- A step of the loop thread costs one unit, unless it starts a functor. -/
theorem work_of_step {e : LoopStep} (hstep : Step l (.loop e) l') (hgoes : l.Goes e)
    (hne : e ≠ .startFunctor) : l'.work cost < l.work cost := by
  cases hstep with
  | leave hidle hpc hq => exact absurd (hq.symm.trans hgoes) (by simp)
  -- the steps of a round
  | enterLoop hidle hpc =>
      simp [work, round, waiting, pending, rest, running, LoopPc.rest, due, hpc]
  | goOn hidle hpc hq =>
      simp [work, round, waiting, pending, rest, running, LoopPc.rest, due, hpc]
  | poll b hidle hpc hready =>
      obtain ⟨rfl, hdue⟩ := hgoes
      by_cases hfd : l.wakeupFd_ = 0 <;>
        simp [work, round, waiting, pending, rest, running, LoopPc.rest, hpc, hdue, hfd]
  | handleRead hidle hpc =>
      simp [work, round, waiting, pending, rest, running, LoopPc.rest, hpc]
  | handlersDone hidle hpc =>
      simp [work, round, waiting, pending, rest, running, LoopPc.rest, hpc]
  | swapFunctors hidle hpc =>
      simp [work, round, waiting, pending, rest, running, LoopPc.rest, due, hpc]
  | batchDone hidle hpc =>
      simp [work, round, waiting, pending, rest, running, LoopPc.rest, due, hpc]
  -- the round stands still while a functor runs
  | functorDone q rest hidle hpc =>
      simp [work, round, waiting, pending, EventLoop.rest, running, LoopPc.rest, due, hpc]
  | startFunctor q rest hidle hpc => exact absurd rfl hne

/-- A functor that has been started is worth its end. -/
theorem work_of_start (hstep : Step l (.loop .startFunctor) l') :
    ∃ f, l'.running = some f ∧ l'.work cost + cost f = l.work cost + 1 := by
  cases hstep with
  | startFunctor q rest hidle hpc =>
      refine ⟨q.functor, rfl, ?_⟩
      simp [work, round, waiting, pending, EventLoop.rest, running, LoopPc.rest, due, hpc]
      omega

/-- A call that queues one functor makes a round necessary, and nothing else. -/
theorem work_post (l : EventLoop F Tid) (t : Tid) (f : F) :
    (l.post t f).work cost ≤ l.work cost + cost f + 6 := by
  have hround := round_le_of_pc (l.post_pc t f)
  have hact : (l.post t f).activity = l.activity := by
    unfold post
    dsimp only
    split <;> rfl
  rw [work, work, waiting, post_pending, post_rest, post_running, hact, waiting]
  simp only [List.map_append, List.sum_append, List.map_cons, List.map_nil, List.sum_singleton]
  omega

theorem work_posts (l : EventLoop F Tid) (t : Tid) (fs : List F) :
    (l.posts t fs).work cost ≤ l.work cost + (fs.map fun f => cost f + 6).sum := by
  induction fs generalizing l with
  | nil => simp
  | cons f fs ih =>
      have hfirst : (l.post t f).work cost ≤ l.work cost + cost f + 6 := l.work_post t f
      have hlater := ih (l.post t f)
      rw [posts_cons, List.map_cons, List.sum_cons]
      omega

/-- A wakeup, too, makes a round necessary; the call that owed it is at its end. -/
theorem work_of_wakeup {t : Tid} (hstep : Step l (.call t .wakeup) l') :
    l'.work cost < l.work cost := by
  have hended : ∀ a : Activity, a.work = 7 → l.activity t = a → l'.pc = l.pc →
      l'.pendingFunctors_ = l.pendingFunctors_ →
      l'.activity = Function.update l.activity t .idle → l'.work cost < l.work cost := by
    rintro a ha hat hpc hpending hact
    have hround := round_le_of_pc hpc
    have hsum := sum_update_add l.activity Activity.work t .idle
    rw [hat, ha, show Activity.idle.work = 0 from rfl] at hsum
    rw [work, work, waiting, waiting, pending, pending, rest, rest, running, running, hpc, hpending,
      hact]
    omega
  cases hstep with
  | push _ f _ hc huser hidle => simp at hc
  | wakeupPushed _ n huser hact => exact hended _ rfl hact rfl rfl rfl
  | wakeupQuit _ huser hact => exact hended _ rfl hact rfl rfl rfl

end EventLoop

/-! ### Tasks, functors and calls -/

/-- What a member function leads to: itself, the callbacks it queues, and what the thread
does after it. -/
def Member.work : Member → Nat
  | .connectEstablished | .removeChannel | .shutdownInLoop | .handleError | .finishWrite => 1
  | .markDestroyed => 2
  | .sendInLoop _ => 17
  | .handleWrite => 10
  | .handleClose | .handleRead => 23

/-- What a task leads to, over all loops. -/
def Task.work : Task → Nat
  | .call m _ => m.work
  | .guard _ | .scope _ | .destructor => 1
  | .testDestroyed _ => 3
  | .queueDestroyed _ => 12
  | .erase _ => 13
  | .closeCallback _ => 22

def tasksWork (ks : List Task) : Nat := (ks.map Task.work).sum

/-- Its start, its tasks, and its end. -/
def ServerFunctor.work (f : ServerFunctor) : Nat := 2 + tasksWork f.tasks

/-- What is left of a call of `send` or `shutdown`. -/
def Calling.work : Calling → Nat
  | .idle => 0
  | .sendFound _ _ => 26
  | .shutdownFound _ => 11
  | .shutdownStored _ => 10

@[simp] theorem tasksWork_nil : tasksWork [] = 0 := rfl

@[simp] theorem tasksWork_cons (k : Task) (ks : List Task) :
    tasksWork (k :: ks) = k.work + tasksWork ks := rfl

@[simp] theorem tasksWork_append (ks ks' : List Task) :
    tasksWork (ks ++ ks') = tasksWork ks + tasksWork ks' := by
  simp [tasksWork]

/-- The handlers for one active channel. -/
theorem eventTasks_work (conn : Nat) (tied : Bool) (revents : Mask) :
    tasksWork (eventTasks conn tied revents) ≤ 58 := by
  have hif : ∀ (p : Prop) [Decidable p] (k : Task), tasksWork (if p then [k] else []) ≤ k.work := by
    intro p _ k
    split <;> simp
  have hclose := hif (hasAny revents EPOLLHUP ∧ !hasAny revents EPOLLIN) (.call .handleClose conn)
  have herror := hif (hasAny revents EPOLLERR) (.call .handleError conn)
  have hread := hif (hasAny revents (EPOLLIN ||| EPOLLPRI)) (.call .handleRead conn)
  have hwrite := hif (hasAny revents EPOLLOUT) (.call .handleWrite conn)
  have hguard := hif tied (.guard conn)
  simp only [eventTasks, tasksWork_append]
  simp only [Task.work, Member.work] at hclose herror hread hwrite hguard
  omega

namespace TcpConnection

variable {c c' c'' : TcpConnection} {m n : Nat}

/-- Between the two, at most `n` callbacks have been queued. -/
def Queues (n : Nat) (c c' : TcpConnection) : Prop :=
  ∃ es, c'.trace = c.trace ++ es ∧ (queuedCallbacks es).length ≤ n

theorem Queues.trans (h : Queues m c c') (h' : Queues n c' c'') : Queues (m + n) c c'' := by
  obtain ⟨es, htrace, hes⟩ := h
  obtain ⟨fs, htrace', hfs⟩ := h'
  refine ⟨es ++ fs, by rw [htrace', htrace, List.append_assoc], ?_⟩
  rw [queuedCallbacks_append, List.length_append]
  omega

theorem Queues.le (h : Queues n c c') : (queuedCallbacks (added c c')).length ≤ n := by
  obtain ⟨es, htrace, hes⟩ := h
  rwa [added_of_trace_eq htrace]

theorem queues_tryWrite (c : TcpConnection) (data : List Byte) (w : WriteResult) :
    Queues 1 c (c.tryWrite data w).conn := by
  have htried := tryWrite_cases c data w
  generalize write w data = call at htried
  generalize c.tryWrite data w = a at htried
  cases htried with
  | queued hbusy => exact ⟨[], by simp, by simp [queuedCallbacks]⟩
  | completed hidle hret hall hcb =>
      exact ⟨[.write call.taken, .queueInLoop .writeComplete], by simp, by simp [queuedCallbacks]⟩
  | took hidle hret hrest => exact ⟨[.write call.taken], rfl, by simp [queuedCallbacks]⟩
  | failed hoff hidle hneg hlog =>
      exact ⟨[.write call.taken, .logError .directWrite], by simp, by simp [queuedCallbacks]⟩
  | blocked hidle hneg hblock => exact ⟨[.write call.taken], rfl, by simp [queuedCallbacks]⟩

theorem queues_queueRest (a : Attempt) (data : List Byte) : Queues 1 a.conn (queueRest a data) := by
  unfold queueRest
  dsimp only
  split
  · split
    · refine ⟨[.queueInLoop (.highWaterMark (a.conn.outputBuffer_.readableBytes + a.remaining))],
        ?_, le_rfl⟩
      split <;> rfl
    · refine ⟨[], ?_, Nat.zero_le _⟩
      split <;> simp
  · exact ⟨[], by simp, Nat.zero_le _⟩

theorem queues_sendInLoop (c : TcpConnection) (data : List Byte) (w : WriteResult) :
    Queues 2 c (c.sendInLoop data w) := by
  have hcalled : Queues 0 c (c.emit (.sendInLoop data)) := ⟨[.sendInLoop data], rfl, le_rfl⟩
  unfold sendInLoop
  dsimp only
  split
  · exact ⟨[.sendInLoop data, .logError .giveUpWriting], by simp, Nat.zero_le _⟩
  · exact (hcalled.trans (queues_tryWrite _ data w)).trans (queues_queueRest _ data)

theorem queues_writeOut (c : TcpConnection) (w : WriteResult) : Queues 1 c (c.writeOut w).1 := by
  have hwrote := writeOut_cases c w
  generalize c.writeOut w = r at hwrote
  generalize write w c.outputBuffer_.readable = call at hwrote
  cases hwrote with
  | idle hoff => exact ⟨[.logError .noMoreWriting], rfl, by simp [queuedCallbacks]⟩
  | nothing hon hret => exact ⟨[.write call.taken], rfl, by simp [queuedCallbacks]⟩
  | partly hon hret hrest =>
      exact ⟨[.write call.taken, .logError .handleWrite], by simp, by simp [queuedCallbacks]⟩
  | drained hon hret hall hcb => exact ⟨[.write call.taken], rfl, by simp [queuedCallbacks]⟩
  | completed hon hret hall hcb =>
      exact ⟨[.write call.taken, .queueInLoop .writeComplete], by simp, by simp [queuedCallbacks]⟩

theorem queues_shutdownInLoop (c : TcpConnection) : Queues 0 c c.shutdownInLoop := by
  unfold shutdownInLoop
  split
  · exact ⟨[.shutdownWrite], rfl, le_rfl⟩
  · exact ⟨[], by simp, le_rfl⟩

theorem queues_handleClose (c : TcpConnection) (env : Env) :
    Queues 0 c (c.handleClose env.withoutUser) :=
  ⟨_, handleClose_withoutUser c env, le_rfl⟩

theorem queues_handleRead (c : TcpConnection) (env : Env) :
    Queues 0 c (c.handleRead env.withoutUser) := by
  rcases c.handleRead_withoutUser env with ⟨-, heq⟩ | ⟨-, heq⟩ | ⟨-, heq⟩ <;> rw [heq]
  · exact ⟨[.messageCallback _], rfl, le_rfl⟩
  · exact queues_handleClose (c.filled env) env
  · exact ⟨_, (c.filled env).readError_trace _, le_rfl⟩

end TcpConnection

namespace Member

/-- How many callbacks a member function can queue. -/
def callbacks : Member → Nat
  | .sendInLoop _ => 2
  | .handleWrite => 1
  | _ => 0

open TcpConnection in
theorem queues_run (m : Member) (env : TaskEnv) (c : TcpConnection) :
    Queues m.callbacks c (m.run env c) := by
  cases m with
  | connectEstablished => exact ⟨[.connectionCallback true], rfl, le_rfl⟩
  | markDestroyed => exact ⟨[.connectionCallback false], rfl, le_rfl⟩
  | removeChannel => exact ⟨[.connectDestroyed], rfl, le_rfl⟩
  | sendInLoop len => exact queues_sendInLoop c _ env.write
  | shutdownInLoop => exact queues_shutdownInLoop c
  | handleClose => exact queues_handleClose c env.toEnv
  | handleError => exact ⟨[.handleError 0], rfl, le_rfl⟩
  | handleRead => exact queues_handleRead c env.toEnv
  | handleWrite => exact queues_writeOut c env.write
  | finishWrite =>
      show Queues 0 c c.finishWrite
      unfold TcpConnection.finishWrite
      split
      · exact queues_shutdownInLoop c
      · exact ⟨[], by simp, le_rfl⟩

/-- A member function is worth more than the callbacks it queues and the tasks it leaves. -/
theorem work_next (m : Member) (env : TaskEnv) (conn : Nat) (c : TcpConnection) :
    8 * m.callbacks + tasksWork (m.next env conn c) < m.work := by
  cases m with
  | handleRead =>
      rw [Member.next]
      split <;> simp [callbacks, work, Task.work]
  | handleWrite =>
      rw [Member.next]
      split <;> simp [callbacks, work, Task.work]
  | _ => simp [callbacks, work, Member.next, Task.work]

end Member

namespace ServerSystem

variable {ι α : Type*} [DecidableEq ι] [DecidableEq α] [Fintype ι] [Fintype α]

/-- What the threads of the server have still to do. -/
def work (s : ServerSystem ι α) : Nat :=
  ∑ l, (s.loops l).work ServerFunctor.work + ∑ l, tasksWork (s.todo l) +
    ∑ l, 59 * (s.active l).length + ∑ th, (s.calling th).work

variable (s : ServerSystem ι α) (l : ι) (th : Thread ι α)

omit [DecidableEq α] in
theorem work_setLoop (x : EventLoop ServerFunctor (Thread ι α)) :
    (s.setLoop l x).work + (s.loops l).work ServerFunctor.work
      = s.work + x.work ServerFunctor.work := by
  have hsum := sum_update_add s.loops (EventLoop.work ServerFunctor.work) l x
  simp only [work, setLoop]
  omega

omit [DecidableEq α] in
theorem work_setTodo (ks : List Task) :
    (s.setTodo l ks).work + tasksWork (s.todo l) = s.work + tasksWork ks := by
  have hsum := sum_update_add s.todo tasksWork l ks
  simp only [work, setTodo]
  omega

omit [DecidableEq α] in
theorem work_setActive (cs : List (ChannelPtr × Mask)) :
    (s.setActive l cs).work + 59 * (s.active l).length = s.work + 59 * cs.length := by
  have hsum := sum_update_add s.active (59 * ·.length) l cs
  simp only [work, setActive]
  omega

theorem work_setCalling (k : Calling) :
    (s.setCalling th k).work + (s.calling th).work = s.work + k.work := by
  have hsum := sum_update_add s.calling Calling.work th k
  simp only [work, setCalling]
  omega

theorem work_posts (fs : List ServerFunctor) :
    (s.setLoop l ((s.loops l).posts th fs)).work ≤ s.work + (fs.map fun f => f.work + 6).sum := by
  have hset := s.work_setLoop l ((s.loops l).posts th fs)
  have hposts : ((s.loops l).posts th fs).work ServerFunctor.work
      ≤ (s.loops l).work ServerFunctor.work + (fs.map fun f => f.work + 6).sum :=
    (s.loops l).work_posts th fs
  omega

theorem work_post (f : ServerFunctor) : (s.post l th f).work ≤ s.work + f.work + 6 := by
  have hposts : (s.post l th f).work ≤ s.work + (f.work + 6 + 0) := s.work_posts l th [f]
  omega

theorem work_runInLoop (f : ServerFunctor) :
    (s.runInLoop l th f).work ≤ s.work + f.work + 6 := by
  unfold runInLoop
  split
  · have hset := s.work_setTodo l (f.tasks ++ f.scope ++ s.todo l)
    have hscope : tasksWork f.scope ≤ 1 := by
      unfold ServerFunctor.scope
      split <;> simp [Task.work]
    simp only [tasksWork_append] at hset
    rw [ServerFunctor.work]
    omega
  · exact s.work_post l th f

/-- Running a function on a connection costs what the callbacks it queues are worth. -/
theorem work_runConn {c n : Nat} {f : TcpConnection → TcpConnection}
    (hf : (s.tcp c).Queues n (f (s.tcp c))) : (s.runConn th c f).work ≤ s.work + 8 * n := by
  let callbacks := queuedCallbacks (added (s.tcp c) (f (s.tcp c)))
  have hposts : (s.runConn th c f).work
      ≤ s.work + ((callbacks.map (ServerFunctor.callback c)).map fun f => f.work + 6).sum :=
    ((s.setTcp c (f (s.tcp c))).setPoller (s.conn c).home (f (s.tcp c)).poller_).work_posts
      (s.conn c).home th (callbacks.map (ServerFunctor.callback c))
  have hsum : ((callbacks.map (ServerFunctor.callback c)).map fun f => f.work + 6).sum
      = 8 * callbacks.length := by
    rw [List.map_map, show ((fun f => f.work + 6) ∘ ServerFunctor.callback c) = fun _ => 8 from rfl,
      List.map_const', List.sum_replicate, smul_eq_mul, Nat.mul_comm]
  have hle : callbacks.length ≤ n := hf.le
  omega

/-! ### Steps that do work -/

/-- The steps that the threads take by themselves, without new events, connections or
calls. -/
def Settling (s : ServerSystem ι α) : ServerEvent ι α → Prop
  | .loop l e ready => (s.loops l).Goes e ∧ ready = []
  | .dispatch _ | .task _ _ | .proceed _ _ => True
  | .call _ _ c => c = .wakeup
  | _ => False

variable {s} {t : ServerSystem ι α} {e : ServerEvent ι α}

/-- What is worth more than what its task leaves is worth a step. -/
theorem work_runTask (env : TaskEnv) {k : Task} (hk : k ≠ .destructor) :
    (s.runTask l env k).work < s.work + k.work := by
  cases k with
  | call m c =>
      have hrun := s.work_runConn (.loop l) (f := m.run env) (m.queues_run env (s.tcp c))
      have hnext := m.work_next env c (s.tcp c)
      have hset := (s.runConn (.loop l) c (m.run env)).work_setTodo l
        (m.next env c (s.tcp c) ++ s.todo l)
      rw [tasksWork_append] at hset
      show ((s.runConn (.loop l) c (m.run env)).setTodo l _).work < s.work + m.work
      have htodo : (s.runConn (.loop l) c (m.run env)).todo l = s.todo l := rfl
      rw [htodo] at hset
      omega
  | erase c =>
      let s' := { s with server := s.server.erase (s.conn c).name }
      have hset : (s'.setTodo l (.queueDestroyed c :: s.todo l)).work + tasksWork (s.todo l)
          = s.work + (12 + tasksWork (s.todo l)) := s'.work_setTodo l (.queueDestroyed c :: s.todo l)
      have hk : (Task.erase c).work = 13 := rfl
      show (s'.setTodo l (.queueDestroyed c :: s.todo l)).work < _
      omega
  | queueDestroyed c =>
      have hpost := s.work_post (s.conn c).home (.loop l) (.connectDestroyed c)
      have hworth : (ServerFunctor.connectDestroyed c).work = 5 := rfl
      have hk : (Task.queueDestroyed c).work = 12 := rfl
      rw [runTask]
      omega
  | testDestroyed c =>
      let m : Member := if (s.tcp c).state_ = .kConnected then .markDestroyed else .removeChannel
      have hm : m.work ≤ 2 := by
        simp only [m]
        split <;> decide
      have hset := s.work_setTodo l (.call m c :: s.todo l)
      have hk : (Task.testDestroyed c).work = 3 := rfl
      rw [tasksWork_cons, Task.work] at hset
      show (s.setTodo l (.call m c :: s.todo l)).work < _
      omega
  | closeCallback c =>
      have hpost := s.work_runInLoop s.base (.loop l) (.removeConnectionInLoop c)
      have hworth : (ServerFunctor.removeConnectionInLoop c).work = 15 := rfl
      have hk : (Task.closeCallback c).work = 22 := rfl
      rw [runTask]
      omega
  | guard c => exact Nat.lt_succ_self _
  | scope c => exact Nat.lt_succ_self _
  | destructor => exact absurd rfl hk

/-- A step of a loop hands to its thread no more than the loop has been worth. -/
theorem work_lt_of_loop {le : LoopStep} {x : EventLoop ServerFunctor (Thread ι α)}
    (hgoes : (s.loops l).Goes le) (htodo : s.todo l = [])
    (hactive : le = .handleRead ∨ s.active l = [])
    (hx : (s.loops l).next (.loop le) = some x) :
    (((s.setLoop l x).setActive l (s.activeAfter l le [])).setTodo l (startedTasks le x)).work
      < s.work := by
  have hstep := EventLoop.step_of_next hx
  have hloop := s.work_setLoop l x
  have hsame : s.activeAfter l le [] = s.active l := by
    unfold activeAfter
    split
    · rename_i hfills
      rcases hactive with rfl | hnil
      · cases hfills
      · exact hnil.symm
    · rfl
  have hset : ((s.setLoop l x).setActive l (s.active l)).work + 59 * (s.active l).length
      = (s.setLoop l x).work + 59 * (s.active l).length :=
    (s.setLoop l x).work_setActive l (s.active l)
  have hdone : (((s.setLoop l x).setActive l (s.active l)).setTodo l (startedTasks le x)).work
        + tasksWork (s.todo l)
      = ((s.setLoop l x).setActive l (s.active l)).work + tasksWork (startedTasks le x) :=
    ((s.setLoop l x).setActive l (s.active l)).work_setTodo l (startedTasks le x)
  rw [htodo, tasksWork_nil] at hdone
  rw [hsame]
  by_cases hstart : le = .startFunctor
  · subst hstart
    obtain ⟨f, hrunning, hworth⟩ : ∃ f, x.running = some f ∧
        x.work ServerFunctor.work + f.work = (s.loops l).work ServerFunctor.work + 1 :=
      EventLoop.work_of_start hstep
    have htasks : startedTasks .startFunctor x = f.tasks := by
      rw [startedTasks, hrunning]
      rfl
    rw [ServerFunctor.work, ← htasks] at hworth
    omega
  · have hless : x.work ServerFunctor.work < (s.loops l).work ServerFunctor.work :=
      EventLoop.work_of_step hstep hgoes hstart
    have hnothing : startedTasks le x = [] := by
      cases le <;> first | rfl | exact absurd rfl hstart
    rw [hnothing, tasksWork_nil] at hdone
    rw [hnothing]
    omega

/-- **Every step does some of the work.** -/
theorem work_lt_of_moves (hsettling : s.Settling e) (hm : s.Moves e t) : t.work < s.work := by
  cases hm with
  | loop l e ready x hidle htodo hactive hx =>
      obtain ⟨hgoes, rfl⟩ := hsettling
      exact work_lt_of_loop l hgoes htodo hactive hx
  | dispatch l c revents rest hidle htodo hactive =>
      let u := s.runConn (.loop l) c (·.setRevents revents)
      have hquiet : (s.tcp c).Queues 0 ((s.tcp c).setRevents revents) :=
        ⟨[], (List.append_nil _).symm, le_rfl⟩
      have hrun : u.work ≤ s.work + 8 * 0 := s.work_runConn (.loop l) hquiet
      have hset := u.work_setActive l rest
      have hhad : u.active l = (c, revents) :: rest := hactive
      let ks := eventTasks c (s.conn c).tcp.channel_.tied_ revents
      have htasks : (s.dispatch l c revents rest).work + tasksWork (s.todo l)
          = (u.setActive l rest).work + tasksWork ks := (u.setActive l rest).work_setTodo l ks
      have hworth : tasksWork ks ≤ 58 := eventTasks_work ..
      rw [htodo, tasksWork_nil] at htasks
      rw [hhad, List.length_cons] at hset
      omega
  | task l env k rest hidle htodo hk =>
      have hset := s.work_setTodo l rest
      have hrun := (s.setTodo l rest).work_runTask l env hk
      rw [htodo, tasksWork_cons] at hset
      omega
  | sendHere th w c data hcall hin =>
      have hset := s.work_setCalling th .idle
      have hrun := (s.setCalling th .idle).work_runConn th (f := (·.sendInLoop data w))
        (TcpConnection.queues_sendInLoop (s.tcp c) data w)
      rw [hcall] at hset
      simp only [Calling.work] at hset
      omega
  | sendThere th w c data hcall hout =>
      have hset := s.work_setCalling th .idle
      have hpost := (s.setCalling th .idle).work_post (s.conn c).home th (.sendInLoop c data.length)
      have hworth : (ServerFunctor.sendInLoop c data.length).work = 19 := rfl
      rw [hcall] at hset
      simp only [Calling.work] at hset
      omega
  | store th w c hcall =>
      let u := s.setTcp c ((s.conn c).tcp.setState .kDisconnecting)
      have hset := u.work_setCalling th (.shutdownStored c)
      have hsame : u.work = s.work := rfl
      rw [show u.calling th = .shutdownFound c from hcall] at hset
      simp only [Calling.work] at hset
      show (u.setCalling th (.shutdownStored c)).work < s.work
      omega
  | shutdownHere th w c hcall hin =>
      have hset := s.work_setCalling th .idle
      have hrun := (s.setCalling th .idle).work_runConn th (f := TcpConnection.shutdownInLoop)
        (TcpConnection.queues_shutdownInLoop (s.tcp c))
      rw [hcall] at hset
      simp only [Calling.work] at hset
      omega
  | shutdownThere th w c hcall hout =>
      have hset := s.work_setCalling th .idle
      have hpost := (s.setCalling th .idle).work_post (s.conn c).home th (.shutdownInLoop c)
      have hworth : (ServerFunctor.shutdownInLoop c).work = 3 := rfl
      rw [hcall] at hset
      simp only [Calling.work] at hset
      omega
  | call l th c x hc hx =>
      obtain rfl : c = .wakeup := hsettling
      have hset := s.work_setLoop l x
      have hstep := EventLoop.step_of_next hx
      have hwoken : x.work ServerFunctor.work < (s.loops l).work ServerFunctor.work :=
        EventLoop.work_of_wakeup hstep
      omega
  | _ => exact hsettling.elim

end ServerSystem

end Mymuduo
