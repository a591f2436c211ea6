/-
Mymuduo/ServerSystem.lean

A `TcpServer`, its base loop, the loops of its pool, and the threads of the
application.

There is one thread for each loop and any number of others.  A loop thread goes
round its event loop; what it does for one handler or functor is a list of tasks
(`todo`), each of them as much as runs without a look at what another thread may
have written in between.  The member functions of `TcpConnection` run as in
TcpConnection.lean, on the poller of the connection's loop; user code in their
callbacks is left out there and is made of steps of its own, between two tasks.

Connections are numbered in the order of their accepts, and the number of a
connection is also the address of its channel.  Who has a `TcpConnectionPtr` is
spread over the state: `connections_`, the functors that have bound one, the
frames on the stack of a loop thread (`Task.owns`), and the pointers that user
code keeps (`users`).  The functors of `send` and `shutdown` bind `this`.

`accept` hands the descriptor to `newConnection`; what runs before the start of
the server is not modelled.  A push and the wakeup it owes are one step.
-/
import Mymuduo.FunctorCustody
import Mymuduo.ReadDispatch
import Mymuduo.StateOrder
import Mymuduo.TcpServer

namespace Mymuduo

open Transition

/-! ### Threads and functors -/

/-- The thread of a loop, or another one. -/
inductive Thread (ι α : Type*)
  | loop (l : ι)
  | app (a : α)
  deriving DecidableEq, Repr

/-- What is handed to `runInLoop` and `queueInLoop`: the functors of the server,
those of `send` and `shutdown`, the user callbacks, and what the application
queues for itself. -/
inductive ServerFunctor
  | connectEstablished (conn : Nat)
  | removeConnectionInLoop (conn : Nat)
  | connectDestroyed (conn : Nat)
  | sendInLoop (conn : Nat) (len : Nat)
  | shutdownInLoop (conn : Nat)
  | callback (conn : Nat) (cb : QueuedCallback)
  | other
  deriving DecidableEq, Repr

/-- The member functions of a connection that work on its buffers or its
channel. -/
inductive Member
  | connectEstablished
  | markDestroyed
  | removeChannel
  | sendInLoop (len : Nat)
  | shutdownInLoop
  | handleClose
  | handleError
  | handleRead
  | handleWrite
  | finishWrite
  deriving DecidableEq, Repr

/-- What a loop thread has to do next: run a member function, the statements of
`removeConnectionInLoop`, the test of `state_` in `connectDestroyed`, the call of
`closeCallback_`, the end of `handleEvent` and with it of its guard, the end of
another scope with a pointer, or the rest of `~TcpServer`. -/
inductive Task
  | call (m : Member) (conn : Nat)
  | erase (conn : Nat)
  | queueDestroyed (conn : Nat)
  | testDestroyed (conn : Nat)
  | closeCallback (conn : Nat)
  | guard (conn : Nat)
  | scope (conn : Nat)
  | destructor
  deriving DecidableEq, Repr

namespace ServerFunctor

/-- The connection whose `TcpConnectionPtr` the functor has bound. -/
def pointer : ServerFunctor → Option Nat
  | .connectEstablished c | .removeConnectionInLoop c | .connectDestroyed c | .callback c _ =>
      some c
  -- `std::bind(&TcpConnection::sendInLoop, this, ..)` does not own the connection
  | .sendInLoop _ _ | .shutdownInLoop _ | .other => none

/-- What running the functor begins with. -/
def tasks : ServerFunctor → List Task
  | .connectEstablished c => [.call .connectEstablished c]
  | .removeConnectionInLoop c => [.erase c]
  | .connectDestroyed c => [.testDestroyed c]
  | .sendInLoop c len => [.call (.sendInLoop len) c]
  | .shutdownInLoop c => [.call .shutdownInLoop c]
  | .callback _ _ | .other => []

/-- The parameter of `runInLoop`, which lives until the call returns. -/
def scope (f : ServerFunctor) : List Task :=
  match f.pointer with
  | some c => [.scope c]
  | none => []

end ServerFunctor

namespace Task

/-- The connection whose `TcpConnectionPtr` is in the frame of the task: in the
functor it belongs to, in `connPtr` of `handleClose`, in `guard` of
`handleEvent`, or in another local. -/
def owns : Task → Option Nat
  | .call .connectEstablished c | .call .markDestroyed c | .call .removeChannel c => some c
  | .erase c | .queueDestroyed c | .testDestroyed c => some c
  | .closeCallback c | .guard c | .scope c => some c
  | .call _ _ | .destructor => none

end Task

/-! ### States -/

/-- What a task meets: the kernel's answers, and what is found where the pointer
of a queued `sendInLoop` points to. -/
structure TaskEnv extends Env where
  found : Nat → Byte

/-- A connection object with its loop. -/
structure Connection (ι : Type*) where
  home : ι
  name : Text
  tcp : TcpConnection

inductive ServerPhase
  | running
  | tearing
  | destroyed
  deriving DecidableEq, Repr

/-- Where a thread is inside `send` or `shutdown`. -/
inductive Calling
  | idle
  | sendFound (conn : Nat) (data : List Byte)
  | shutdownFound (conn : Nat)
  | shutdownStored (conn : Nat)
  deriving DecidableEq, Repr

structure ServerSystem (ι α : Type*) where
  server : TcpServer Nat ι
  phase : ServerPhase
  count : Nat
  conn : Nat → Connection ι
  loops : ι → EventLoop ServerFunctor (Thread ι α)
  poller : ι → EPollPoller
  active : ι → List (ChannelPtr × Mask)
  todo : ι → List Task
  users : List (Thread ι α × Nat)
  calling : Thread ι α → Calling

/-- The steps: of a loop (`ready` is what `epoll_wait` returns), the next active
channel, the next task, an accept; a call of `send` or `shutdown` and its further
steps; a copy and a release of a pointer by user code, `retrieve` on the input
buffer in a callback, other calls on a loop; and the destructor of the server,
entry by entry. -/
inductive ServerEvent (ι α : Type*)
  | loop (l : ι) (e : LoopStep) (ready : List (Int × Mask))
  | dispatch (l : ι)
  | task (l : ι) (env : TaskEnv)
  | accept (sockfd : Int) (writeComplete highWaterMarkSet : Bool) (highWaterMark : Nat)
  | send (t : Thread ι α) (conn : Nat) (data : List Byte)
  | shutdown (t : Thread ι α) (conn : Nat)
  | proceed (t : Thread ι α) (w : WriteResult)
  | copy (src t : Thread ι α) (conn : Nat)
  | release (t : Thread ι α) (conn : Nat)
  | retrieve (l : ι) (conn : Nat) (len : Nat)
  | call (l : ι) (t : Thread ι α) (c : Call ServerFunctor)
  | destroy
  | destroyEntry (conn : Nat)
  | destroyed

/-- A call that queues nothing of the server. -/
def Call.isForeign : Call ServerFunctor → Bool
  | .queueInLoop .other | .quit | .storeQuit | .wakeup => true
  | _ => false

/-! ### What the tasks run -/

/-- The member function, in the words of TcpConnection.lean. -/
def Member.run (env : TaskEnv) : Member → TcpConnection → TcpConnection
  | .connectEstablished, c => c.connectEstablished []
  | .markDestroyed, c => c.markDestroyed
  | .removeChannel, c => c.removeChannel
  | .sendInLoop len, c => c.sendInLoop ((List.range len).map env.found) env.write
  | .shutdownInLoop, c => c.shutdownInLoop
  | .handleClose, c => c.handleClose env.withoutUser
  | .handleError, c => c.handleError 0
  | .handleRead, c => c.handleRead env.withoutUser
  | .handleWrite, c => (c.writeOut env.write).1
  | .finishWrite, c => c.finishWrite

/-- What the thread does after the member function, which ran on `c`. -/
def Member.next (env : TaskEnv) (conn : Nat) (c : TcpConnection) : Member → List Task
  | .markDestroyed => [.call .removeChannel conn]
  | .handleClose => [.closeCallback conn]
  -- zero bytes: `handleRead` has called `handleClose`
  | .handleRead => if readResult c env.toEnv = 0 then [.closeCallback conn] else []
  | .handleWrite => if (c.writeOut env.write).2 then [.call .finishWrite conn] else []
  | _ => []

/-- `Channel::handleEvent`: the handlers for the mask, under the guard. -/
def eventTasks (conn : Nat) (tied : Bool) (revents : Mask) : List Task :=
  (if hasAny revents EPOLLHUP ∧ !hasAny revents EPOLLIN then [.call .handleClose conn] else []) ++
  (if hasAny revents EPOLLERR then [.call .handleError conn] else []) ++
  (if hasAny revents (EPOLLIN ||| EPOLLPRI) then [.call .handleRead conn] else []) ++
  (if hasAny revents EPOLLOUT then [.call .handleWrite conn] else []) ++
  if tied then [.guard conn] else []

/-- What a member function can leave to do. -/
theorem Member.next_cases {m : Member} {env : TaskEnv} {conn : Nat} {c : TcpConnection} {k : Task}
    (hk : k ∈ m.next env conn c) :
    (m = .markDestroyed ∧ k = .call .removeChannel conn) ∨
      ((m = .handleClose ∨ m = .handleRead) ∧ k = .closeCallback conn) ∨
      (m = .handleWrite ∧ k = .call .finishWrite conn) := by
  cases m with
  | markDestroyed => exact .inl ⟨rfl, List.mem_singleton.mp hk⟩
  | handleClose => exact .inr (.inl ⟨.inl rfl, List.mem_singleton.mp hk⟩)
  | handleRead =>
      rw [Member.next, List.mem_ite_nil_right] at hk
      exact .inr (.inl ⟨.inr rfl, List.mem_singleton.mp hk.2⟩)
  | handleWrite =>
      rw [Member.next, List.mem_ite_nil_right] at hk
      exact .inr (.inr ⟨rfl, List.mem_singleton.mp hk.2⟩)
  | _ => cases hk

/-- What an event can give to do: a handler, or the end of the guard. -/
theorem eventTasks_cases {conn : Nat} {tied : Bool} {revents : Mask} {k : Task}
    (hk : k ∈ eventTasks conn tied revents) :
    (∃ m, (m = .handleClose ∨ m = .handleError ∨ m = .handleRead ∨ m = .handleWrite) ∧
      k = .call m conn) ∨ k = .guard conn := by
  simp only [eventTasks, List.mem_append, List.mem_ite_nil_right, List.mem_singleton] at hk
  rcases hk with (((⟨-, rfl⟩ | ⟨-, rfl⟩) | ⟨-, rfl⟩) | ⟨-, rfl⟩) | ⟨-, rfl⟩
  · exact .inl ⟨_, .inl rfl, rfl⟩
  · exact .inl ⟨_, .inr (.inl rfl), rfl⟩
  · exact .inl ⟨_, .inr (.inr (.inl rfl)), rfl⟩
  · exact .inl ⟨_, .inr (.inr (.inr rfl)), rfl⟩
  · exact .inr rfl

/-- `Channel::set_revents` of the connection's channel. -/
def TcpConnection.setRevents (c : TcpConnection) (revents : Mask) : TcpConnection :=
  { c with channel_ := { c.channel_ with revents_ := revents } }

/-- The callbacks among the effects of a member function. -/
def queuedCallbacks (es : List Effect) : List QueuedCallback :=
  es.filterMap fun
    | .queueInLoop cb => some cb
    | _ => none

/-- The loop thread is inside the `for` over `activeChannels_`. -/
def LoopPc.inHandlers {F : Type*} : LoopPc F → Bool
  | .handlers _ => true
  | _ => false

/-- The poller fills `activeChannels_`. -/
def LoopStep.fills : LoopStep → Bool
  | .poll _ => true
  | _ => false

/-- What a step of the loop gives the thread to do. -/
def startedTasks {Tid : Type*} (e : LoopStep) (l : EventLoop ServerFunctor Tid) : List Task :=
  match e with
  | .startFunctor => (l.running.map ServerFunctor.tasks).getD []
  | _ => []

namespace ServerSystem

variable {ι α : Type*} [DecidableEq ι] [DecidableEq α]

/-! ### Pieces of steps -/

def base (s : ServerSystem ι α) : ι := s.server.threadPool_.baseLoop_

/-- The connection as its loop thread sees it. -/
def tcp (s : ServerSystem ι α) (c : Nat) : TcpConnection :=
  { (s.conn c).tcp with poller_ := s.poller (s.conn c).home }

/-- `connections_` has the connection, under its name. -/
def InTable (s : ServerSystem ι α) (c : Nat) : Prop :=
  s.server.connections_ (s.conn c).name = some c

instance (s : ServerSystem ι α) (c : Nat) : Decidable (s.InTable c) :=
  inferInstanceAs (Decidable (_ = _))

/-- Some `TcpConnectionPtr` to the connection exists: in `connections_`, in a
functor, in a frame of a loop thread, or with user code.  The last one to go
closes the descriptor and frees the connection. -/
def Held (s : ServerSystem ι α) (c : Nat) : Prop :=
  s.InTable c ∨ (∃ l, ∃ f ∈ (s.loops l).functors, f.pointer = some c) ∨
    (∃ l, ∃ k ∈ s.todo l, k.owns = some c) ∨ ∃ t, (t, c) ∈ s.users

omit [DecidableEq ι] [DecidableEq α] in
theorem held_iff {s : ServerSystem ι α} {c : Nat} :
    s.Held c ↔ s.InTable c ∨ (∃ l, ∃ f ∈ (s.loops l).functors, f.pointer = some c) ∨
      (∃ l, ∃ k ∈ s.todo l, k.owns = some c) ∨ ∃ p ∈ s.users, p.2 = c := by
  simp [Held]

instance [Fintype ι] (s : ServerSystem ι α) (c : Nat) : Decidable (s.Held c) :=
  decidable_of_iff' _ held_iff

def setLoop (s : ServerSystem ι α) (l : ι) (x : EventLoop ServerFunctor (Thread ι α)) :
    ServerSystem ι α :=
  { s with loops := Function.update s.loops l x }

def setPoller (s : ServerSystem ι α) (l : ι) (p : EPollPoller) : ServerSystem ι α :=
  { s with poller := Function.update s.poller l p }

def setTodo (s : ServerSystem ι α) (l : ι) (ks : List Task) : ServerSystem ι α :=
  { s with todo := Function.update s.todo l ks }

def setActive (s : ServerSystem ι α) (l : ι) (cs : List (ChannelPtr × Mask)) :
    ServerSystem ι α :=
  { s with active := Function.update s.active l cs }

def setCalling (s : ServerSystem ι α) (t : Thread ι α) (k : Calling) : ServerSystem ι α :=
  { s with calling := Function.update s.calling t k }

def setTcp (s : ServerSystem ι α) (c : Nat) (k : TcpConnection) : ServerSystem ι α :=
  { s with conn := Function.update s.conn c ⟨(s.conn c).home, (s.conn c).name, k⟩ }

/-- Thread `t` queues a functor in loop `l`. -/
def post (s : ServerSystem ι α) (l : ι) (t : Thread ι α) (f : ServerFunctor) :
    ServerSystem ι α :=
  s.setLoop l ((s.loops l).post t f)

/-- Thread `t` runs `f` on the connection; the callbacks that `f` hands to
`loop_->queueInLoop` go into the queue. -/
def runConn (s : ServerSystem ι α) (t : Thread ι α) (c : Nat)
    (f : TcpConnection → TcpConnection) : ServerSystem ι α :=
  let home := (s.conn c).home
  let k := f (s.tcp c)
  let callbacks := (queuedCallbacks (added (s.tcp c) k)).map (ServerFunctor.callback c)
  ((s.setTcp c k).setPoller home k.poller_).setLoop home ((s.loops home).posts t callbacks)

/-- `EventLoop::runInLoop` of loop `l` by thread `t`. -/
def runInLoop (s : ServerSystem ι α) (l : ι) (t : Thread ι α) (f : ServerFunctor) :
    ServerSystem ι α :=
  if (s.loops l).isInLoopThread t then s.setTodo l (f.tasks ++ f.scope ++ s.todo l)
  else s.post l t f

/-- Thread `t` may call `send` and `shutdown`: it is in no call, and on a loop
thread user code is running. -/
def mayCall (s : ServerSystem ι α) (t : Thread ι α) : Bool :=
  decide (s.calling t = .idle) &&
    match t with
    | .loop l => (s.loops l).pc.userCode
    | .app _ => true

section RunInLoop

variable (s : ServerSystem ι α) (l : ι) (t : Thread ι α) (f : ServerFunctor)

@[simp] theorem runInLoop_server : (s.runInLoop l t f).server = s.server := by
  unfold runInLoop
  split <;> rfl

@[simp] theorem runInLoop_count : (s.runInLoop l t f).count = s.count := by
  unfold runInLoop
  split <;> rfl

@[simp] theorem runInLoop_conn : (s.runInLoop l t f).conn = s.conn := by
  unfold runInLoop
  split <;> rfl

@[simp] theorem runInLoop_poller : (s.runInLoop l t f).poller = s.poller := by
  unfold runInLoop
  split <;> rfl

@[simp] theorem runInLoop_active : (s.runInLoop l t f).active = s.active := by
  unfold runInLoop
  split <;> rfl

@[simp] theorem runInLoop_users : (s.runInLoop l t f).users = s.users := by
  unfold runInLoop
  split <;> rfl

@[simp] theorem runInLoop_calling : (s.runInLoop l t f).calling = s.calling := by
  unfold runInLoop
  split <;> rfl

end RunInLoop

/-- A callback of the connection is running in thread `t`, with the pointer as
its argument. -/
def argument (s : ServerSystem ι α) (t : Thread ι α) (c : Nat) : Bool :=
  match t with
  | .loop l =>
      decide (((s.loops l).running.bind ServerFunctor.pointer) = some c) ||
        (s.todo l).any fun k => k.owns = some c
  | .app _ => false

/-- Run the task `k` of loop `l`, which has been taken off the list. -/
def runTask (s : ServerSystem ι α) (l : ι) (env : TaskEnv) : Task → ServerSystem ι α
  | .call m c =>
      (s.runConn (.loop l) c (m.run env)).setTodo l (m.next env c (s.tcp c) ++ s.todo l)
  | .erase c =>
      { s with server := s.server.erase (s.conn c).name }.setTodo l
        (.queueDestroyed c :: s.todo l)
  | .queueDestroyed c => s.post (s.conn c).home (.loop l) (.connectDestroyed c)
  | .testDestroyed c =>
      s.setTodo l
        (.call (if (s.tcp c).state_ = .kConnected then .markDestroyed else .removeChannel) c
          :: s.todo l)
  -- `TcpServer::removeConnection`
  | .closeCallback c => s.runInLoop s.base (.loop l) (.removeConnectionInLoop c)
  | .guard _ | .scope _ | .destructor => s

/-- `activeChannels_` after the step `e`: `fillActiveChannels` follows the
pointers that the kernel returns with its events. -/
def activeAfter (s : ServerSystem ι α) (l : ι) (e : LoopStep) (ready : List (Int × Mask)) :
    List (ChannelPtr × Mask) :=
  if e.fills then ready.filterMap fun r => ((s.poller l).epollSet r.1).map fun p => (p.2, r.2)
  else s.active l

/-- One step of loop `l`.  Its thread goes on when the handler or functor is at
its end, and leaves the handlers when all active channels have been handled. -/
def loopNext (s : ServerSystem ι α) (l : ι) (e : LoopStep) (ready : List (Int × Mask)) :
    Option (ServerSystem ι α) :=
  if s.calling (.loop l) = .idle ∧ s.todo l = [] ∧ (e = .handleRead ∨ s.active l = []) then
    ((s.loops l).next (.loop e)).map fun x =>
      ((s.setLoop l x).setActive l (s.activeAfter l e ready)).setTodo l (startedTasks e x)
  else none

/-- `set_revents` and the start of `Channel::handleEvent` for the next active
channel. -/
def dispatch (s : ServerSystem ι α) (l : ι) (c : ChannelPtr) (revents : Mask)
    (rest : List (ChannelPtr × Mask)) : ServerSystem ι α :=
  ((s.runConn (.loop l) c (·.setRevents revents)).setActive l rest).setTodo l
    (eventTasks c (s.conn c).tcp.channel_.tied_ revents)

/-- `newConnection` up to its last statement: the connection object, and its
entry in `connections_`. -/
def construct (s : ServerSystem ι α) (sockfd : Int) (writeComplete highWaterMarkSet : Bool)
    (highWaterMark : Nat) : ServerSystem ι α :=
  let (ioLoop, connName, server) := s.server.newConnection s.count
  let tcp := TcpConnection.new s.count sockfd writeComplete highWaterMarkSet highWaterMark
    (s.poller ioLoop)
  { s with
    server := server
    count := s.count + 1
    conn := Function.update s.conn s.count ⟨ioLoop, connName, tcp⟩ }

/-- `newConnection` in the base loop. -/
def accept (s : ServerSystem ι α) (sockfd : Int) (writeComplete highWaterMarkSet : Bool)
    (highWaterMark : Nat) : ServerSystem ι α :=
  let s' := s.construct sockfd writeComplete highWaterMarkSet highWaterMark
  s'.runInLoop (s'.conn s.count).home (.loop s.base) (.connectEstablished s.count)

/-- The next step of the call that thread `t` is in. -/
def proceedNext (s : ServerSystem ι α) (t : Thread ι α) (w : WriteResult) :
    Option (ServerSystem ι α) :=
  match s.calling t with
  | .idle => none
  | .sendFound c data =>
      let s := s.setCalling t .idle
      if (s.loops (s.conn c).home).isInLoopThread t then
        some (s.runConn t c (·.sendInLoop data w))
      else some (s.post (s.conn c).home t (.sendInLoop c data.length))
  | .shutdownFound c =>
      some ((s.setTcp c ((s.conn c).tcp.setState .kDisconnecting)).setCalling t
        (.shutdownStored c))
  | .shutdownStored c =>
      let s := s.setCalling t .idle
      if (s.loops (s.conn c).home).isInLoopThread t then
        some (s.runConn t c TcpConnection.shutdownInLoop)
      else some (s.post (s.conn c).home t (.shutdownInLoop c))

/-! ### Steps -/

def next (s : ServerSystem ι α) : ServerEvent ι α → Option (ServerSystem ι α)
  | .loop l e ready => s.loopNext l e ready
  | .dispatch l =>
      if s.calling (.loop l) = .idle ∧ s.todo l = [] ∧ (s.loops l).pc.inHandlers = true then
        match s.active l with
        | [] => none
        | (c, revents) :: rest => some (s.dispatch l c revents rest)
      else none
  | .task l env =>
      match s.todo l with
      | [] => none
      | k :: rest =>
          if s.calling (.loop l) = .idle ∧ k ≠ .destructor then
            some ((s.setTodo l rest).runTask l env k)
          else none
  | .accept sockfd writeComplete highWaterMarkSet highWaterMark =>
      if s.phase = .running ∧ s.calling (.loop s.base) = .idle ∧ s.todo s.base = [] ∧
          (s.loops s.base).pc.inHandlers = true then
        some (s.accept sockfd writeComplete highWaterMarkSet highWaterMark)
      else none
  | .send t c data =>
      if s.mayCall t = true ∧ (t, c) ∈ s.users then
        some (s.setCalling t
          (if (s.tcp c).state_ = .kConnected then .sendFound c data else .idle))
      else none
  | .shutdown t c =>
      if s.mayCall t = true ∧ (t, c) ∈ s.users then
        some (s.setCalling t
          (if (s.tcp c).state_ = .kConnected then .shutdownFound c else .idle))
      else none
  | .proceed t w => s.proceedNext t w
  | .copy src t c =>
      if (src, c) ∈ s.users ∨ s.argument src c = true then
        some { s with users := (t, c) :: s.users }
      else none
  | .release t c =>
      if s.calling t = .idle ∧ (t, c) ∈ s.users then
        some { s with users := s.users.erase (t, c) }
      else none
  | .retrieve l c len =>
      -- the buffer is passed to `messageCallback_`, under the guard of the event
      if s.calling (.loop l) = .idle ∧ .guard c ∈ s.todo l then
        some (s.runConn (.loop l) c (·.userCall (.retrieve len)))
      else none
  | .call l t c =>
      if c.isForeign = true then ((s.loops l).next (.call t c)).map (s.setLoop l) else none
  | .destroy =>
      if s.phase = .running ∧ s.mayCall (.loop s.base) = true then
        some ({ s with phase := .tearing }.setTodo s.base (.destructor :: s.todo s.base))
      else none
  | .destroyEntry c =>
      -- `conn` is a local, so `item.second` is reset before the call
      if s.calling (.loop s.base) = .idle ∧ (s.todo s.base).head? = some .destructor ∧
          c < s.count ∧ s.InTable c then
        some ({ s with server := s.server.erase (s.conn c).name }.runInLoop (s.conn c).home
          (.loop s.base) (.connectDestroyed c))
      else none
  | .destroyed =>
      -- the members go after the body; the pool joins its threads
      if s.calling (.loop s.base) = .idle ∧ (s.todo s.base).head? = some .destructor ∧
          (∀ c < s.count, ¬ s.InTable c) ∧
          (∀ l ∈ s.server.threadPool_.loops_, (s.loops l).pc = .outside) then
        some ({ s with phase := .destroyed }.setTodo s.base (s.todo s.base).tail)
      else none

end ServerSystem

/-- The runs of a server that has been started, from before its first
connection. -/
def serverMachine (ι α : Type*) [DecidableEq ι] [DecidableEq α] :
    Machine (ServerSystem ι α) (ServerEvent ι α) where
  init s := (∃ name addr pool, s.server = TcpServer.new name addr pool) ∧
    s.phase = .running ∧ s.count = 0 ∧ (∀ l, s.loops l = EventLoop.new (.loop l)) ∧
    (∀ l, s.poller l = EPollPoller.new) ∧ (∀ l, s.active l = []) ∧ (∀ l, s.todo l = []) ∧
    s.users = [] ∧ ∀ t, s.calling t = .idle
  next := ServerSystem.next

/-- The state in which a server is started. -/
def ServerSystem.start {ι α : Type*} (nameArg : Text) (listenAddr : InetAddress)
    (pool : EventLoopThreadPool ι) : ServerSystem ι α where
  server := TcpServer.new nameArg listenAddr pool
  phase := .running
  count := 0
  conn := fun _ => ⟨pool.baseLoop_, [], TcpConnection.new 0 0 false false 0 EPollPoller.new⟩
  loops := fun l => EventLoop.new (.loop l)
  poller := fun _ => EPollPoller.new
  active := fun _ => []
  todo := fun _ => []
  users := []
  calling := fun _ => .idle

theorem ServerSystem.init_start {ι α : Type*} [DecidableEq ι] [DecidableEq α] (nameArg : Text)
    (listenAddr : InetAddress) (pool : EventLoopThreadPool ι) :
    (serverMachine ι α).init (start nameArg listenAddr pool) :=
  ⟨⟨nameArg, listenAddr, pool, rfl⟩, rfl, rfl, fun _ => rfl, fun _ => rfl, fun _ => rfl,
    fun _ => rfl, rfl, fun _ => rfl⟩

/-- Steps of loop `l` for which `epoll_wait` reports no connection. -/
def ServerEvent.turns {ι α : Type*} (l : ι) (es : List LoopStep) : List (ServerEvent ι α) :=
  es.map fun e => .loop l e []

/-- A task during which the kernel and the user do nothing. -/
def quietTask : TaskEnv := ⟨⟨.deliver [], id, .accept 0, [], []⟩, fun _ => 0⟩

/-- A connection is accepted and established, and its sub-loop runs `handleClose`:
the notification is in the queue of the base loop. -/
def ServerSystem.peerCloses : List (ServerEvent Bool Unit) :=
  List.flatten
    [ServerEvent.turns false [.enterLoop, .testQuit, .poll false], [.accept 7 false false 0],
      ServerEvent.turns true [.enterLoop, .testQuit, .poll true, .handleRead, .handlersDone,
        .swapFunctors, .startFunctor],
      [.task true quietTask],
      ServerEvent.turns true [.functorDone, .batchDone, .testQuit],
      [.loop true (.poll false) [(7, EPOLLHUP)], .dispatch true, .task true quietTask,
        .task true quietTask, .task true quietTask]]

/-! ### What one step does -/

namespace ServerSystem

variable {ι α : Type*} [DecidableEq ι] [DecidableEq α]

/-- The steps, each with what it needs and what it leaves. -/
inductive Moves (s : ServerSystem ι α) : ServerEvent ι α → ServerSystem ι α → Prop
  | loop (l : ι) (e : LoopStep) (ready : List (Int × Mask))
      (x : EventLoop ServerFunctor (Thread ι α)) (hidle : s.calling (.loop l) = .idle)
      (htodo : s.todo l = []) (hactive : e = .handleRead ∨ s.active l = [])
      (hx : (s.loops l).next (.loop e) = some x) :
      Moves s (.loop l e ready)
        (((s.setLoop l x).setActive l (s.activeAfter l e ready)).setTodo l (startedTasks e x))
  | dispatch (l : ι) (c : ChannelPtr) (revents : Mask) (rest : List (ChannelPtr × Mask))
      (hidle : s.calling (.loop l) = .idle) (htodo : s.todo l = [])
      (hactive : s.active l = (c, revents) :: rest) :
      Moves s (.dispatch l) (s.dispatch l c revents rest)
  | task (l : ι) (env : TaskEnv) (k : Task) (rest : List Task)
      (hidle : s.calling (.loop l) = .idle) (htodo : s.todo l = k :: rest)
      (hk : k ≠ .destructor) : Moves s (.task l env) ((s.setTodo l rest).runTask l env k)
  | accept (sockfd : Int) (wc hw : Bool) (mark : Nat) (hphase : s.phase = .running)
      (htodo : s.todo s.base = []) :
      Moves s (.accept sockfd wc hw mark) (s.accept sockfd wc hw mark)
  | send (t : Thread ι α) (c : Nat) (data : List Byte) (hidle : s.calling t = .idle)
      (huser : (t, c) ∈ s.users) :
      Moves s (.send t c data) (s.setCalling t
        (if (s.tcp c).state_ = .kConnected then .sendFound c data else .idle))
  | shutdown (t : Thread ι α) (c : Nat) (hidle : s.calling t = .idle)
      (huser : (t, c) ∈ s.users) :
      Moves s (.shutdown t c) (s.setCalling t
        (if (s.tcp c).state_ = .kConnected then .shutdownFound c else .idle))
  | sendHere (t : Thread ι α) (w : WriteResult) (c : Nat) (data : List Byte)
      (hcall : s.calling t = .sendFound c data)
      (hin : (s.loops (s.conn c).home).isInLoopThread t = true) :
      Moves s (.proceed t w) ((s.setCalling t .idle).runConn t c (·.sendInLoop data w))
  | sendThere (t : Thread ι α) (w : WriteResult) (c : Nat) (data : List Byte)
      (hcall : s.calling t = .sendFound c data)
      (hout : (s.loops (s.conn c).home).isInLoopThread t = false) :
      Moves s (.proceed t w)
        ((s.setCalling t .idle).post (s.conn c).home t (.sendInLoop c data.length))
  | store (t : Thread ι α) (w : WriteResult) (c : Nat)
      (hcall : s.calling t = .shutdownFound c) :
      Moves s (.proceed t w) ((s.setTcp c ((s.conn c).tcp.setState .kDisconnecting)).setCalling t
        (.shutdownStored c))
  | shutdownHere (t : Thread ι α) (w : WriteResult) (c : Nat)
      (hcall : s.calling t = .shutdownStored c)
      (hin : (s.loops (s.conn c).home).isInLoopThread t = true) :
      Moves s (.proceed t w) ((s.setCalling t .idle).runConn t c TcpConnection.shutdownInLoop)
  | shutdownThere (t : Thread ι α) (w : WriteResult) (c : Nat)
      (hcall : s.calling t = .shutdownStored c)
      (hout : (s.loops (s.conn c).home).isInLoopThread t = false) :
      Moves s (.proceed t w)
        ((s.setCalling t .idle).post (s.conn c).home t (.shutdownInLoop c))
  | copy (src t : Thread ι α) (c : Nat)
      (hsrc : (src, c) ∈ s.users ∨ s.argument src c = true) :
      Moves s (.copy src t c) { s with users := (t, c) :: s.users }
  | release (t : Thread ι α) (c : Nat) (hidle : s.calling t = .idle)
      (huser : (t, c) ∈ s.users) :
      Moves s (.release t c) { s with users := s.users.erase (t, c) }
  | retrieve (l : ι) (c : Nat) (len : Nat) (hidle : s.calling (.loop l) = .idle)
      (hguard : .guard c ∈ s.todo l) :
      Moves s (.retrieve l c len) (s.runConn (.loop l) c (·.userCall (.retrieve len)))
  | call (l : ι) (t : Thread ι α) (c : Call ServerFunctor)
      (x : EventLoop ServerFunctor (Thread ι α)) (hc : c.isForeign = true)
      (hx : (s.loops l).next (.call t c) = some x) : Moves s (.call l t c) (s.setLoop l x)
  | destroy (hphase : s.phase = .running) :
      Moves s .destroy
        ({ s with phase := .tearing }.setTodo s.base (.destructor :: s.todo s.base))
  | destroyEntry (c : Nat) (hidle : s.calling (.loop s.base) = .idle)
      (hhead : (s.todo s.base).head? = some .destructor) (hcount : c < s.count)
      (htable : s.InTable c) :
      Moves s (.destroyEntry c)
        ({ s with server := s.server.erase (s.conn c).name }.runInLoop (s.conn c).home
          (.loop s.base) (.connectDestroyed c))
  | destroyed (hhead : (s.todo s.base).head? = some .destructor) :
      Moves s .destroyed ({ s with phase := .destroyed }.setTodo s.base (s.todo s.base).tail)

variable {s t : ServerSystem ι α} {e : ServerEvent ι α}

omit [DecidableEq ι] [DecidableEq α] in
theorem mayCall_idle {th : Thread ι α} (h : s.mayCall th = true) : s.calling th = .idle :=
  of_decide_eq_true (Bool.and_eq_true_iff.mp h).1

theorem moves_proceed {th : Thread ι α} {w : WriteResult} (h : s.proceedNext th w = some t) :
    s.Moves (.proceed th w) t := by
  unfold proceedNext at h
  split at h
  · cases h
  · rename_i c data hcall
    dsimp only at h
    split at h
    · rename_i hin
      obtain rfl := Option.some.inj h
      exact .sendHere th w c data hcall hin
    · rename_i hout
      obtain rfl := Option.some.inj h
      exact .sendThere th w c data hcall (Bool.eq_false_of_not_eq_true hout)
  · rename_i c hcall
    obtain rfl := Option.some.inj h
    exact .store th w c hcall
  · rename_i c hcall
    dsimp only at h
    split at h
    · rename_i hin
      obtain rfl := Option.some.inj h
      exact .shutdownHere th w c hcall hin
    · rename_i hout
      obtain rfl := Option.some.inj h
      exact .shutdownThere th w c hcall (Bool.eq_false_of_not_eq_true hout)

theorem moves_of_next (h : (serverMachine ι α).next s e = some t) : s.Moves e t := by
  cases e with
  | loop l e ready =>
      obtain ⟨⟨hidle, htodo, hactive⟩, h⟩ := Option.ite_none_right_eq_some.mp h
      obtain ⟨x, hx, rfl⟩ := Option.map_eq_some_iff.mp h
      exact .loop l e ready x hidle htodo hactive hx
  | dispatch l =>
      obtain ⟨⟨hidle, htodo, -⟩, h⟩ := Option.ite_none_right_eq_some.mp h
      split at h
      · cases h
      · rename_i c revents rest hactive
        obtain rfl := Option.some.inj h
        exact .dispatch l c revents rest hidle htodo hactive
  | task l env =>
      simp only [serverMachine, next] at h
      split at h
      · cases h
      · rename_i k rest htodo
        obtain ⟨⟨hidle, hk⟩, h⟩ := Option.ite_none_right_eq_some.mp h
        obtain rfl := Option.some.inj h
        exact .task l env k rest hidle htodo hk
  | accept sockfd wc hw mark =>
      obtain ⟨⟨hphase, -, htodo, -⟩, h⟩ := Option.ite_none_right_eq_some.mp h
      obtain rfl := Option.some.inj h
      exact .accept sockfd wc hw mark hphase htodo
  | send th c data =>
      obtain ⟨⟨hmay, huser⟩, h⟩ := Option.ite_none_right_eq_some.mp h
      obtain rfl := Option.some.inj h
      exact .send th c data (mayCall_idle hmay) huser
  | shutdown th c =>
      obtain ⟨⟨hmay, huser⟩, h⟩ := Option.ite_none_right_eq_some.mp h
      obtain rfl := Option.some.inj h
      exact .shutdown th c (mayCall_idle hmay) huser
  | proceed th w => exact moves_proceed h
  | copy src th c =>
      obtain ⟨hsrc, h⟩ := Option.ite_none_right_eq_some.mp h
      obtain rfl := Option.some.inj h
      exact .copy src th c hsrc
  | release th c =>
      obtain ⟨⟨hidle, huser⟩, h⟩ := Option.ite_none_right_eq_some.mp h
      obtain rfl := Option.some.inj h
      exact .release th c hidle huser
  | retrieve l c len =>
      obtain ⟨⟨hidle, hguard⟩, h⟩ := Option.ite_none_right_eq_some.mp h
      obtain rfl := Option.some.inj h
      exact .retrieve l c len hidle hguard
  | call l th c =>
      obtain ⟨hc, h⟩ := Option.ite_none_right_eq_some.mp h
      obtain ⟨x, hx, rfl⟩ := Option.map_eq_some_iff.mp h
      exact .call l th c x hc hx
  | destroy =>
      obtain ⟨⟨hphase, -⟩, h⟩ := Option.ite_none_right_eq_some.mp h
      obtain rfl := Option.some.inj h
      exact .destroy hphase
  | destroyEntry c =>
      obtain ⟨⟨hidle, hhead, hcount, htable⟩, h⟩ := Option.ite_none_right_eq_some.mp h
      obtain rfl := Option.some.inj h
      exact .destroyEntry c hidle hhead hcount htable
  | destroyed =>
      obtain ⟨⟨-, hhead, -, -⟩, h⟩ := Option.ite_none_right_eq_some.mp h
      obtain rfl := Option.some.inj h
      exact .destroyed hhead

end ServerSystem

end Mymuduo
