/-
Mymuduo/TcpServer.lean

The members of `TcpServer` (TcpServer.h, TcpServer.cc) that the base loop works
on, and `EventLoopThreadPool` (EventLoopThreadPool.h, EventLoopThreadPool.cc).

Connections and loops are of any types: what a `TcpConnectionPtr` and an
`EventLoop*` stand for is up to the systems built over this.
-/
import Mymuduo.ConnectionName
import Mathlib.Logic.Function.Basic

namespace Mymuduo

variable {Conn Loop : Type*}

/-! ### The pool -/

structure EventLoopThreadPool (Loop : Type*) where
  baseLoop_ : Loop
  loops_ : List Loop
  next_ : Nat
  deriving DecidableEq, Repr

namespace EventLoopThreadPool

/-- A pool that has started its threads. -/
def started (base : Loop) (loops : List Loop) : EventLoopThreadPool Loop where
  baseLoop_ := base
  loops_ := loops
  next_ := 0

def getNextLoop (p : EventLoopThreadPool Loop) : Loop × EventLoopThreadPool Loop :=
  if p.loops_.isEmpty then (p.baseLoop_, p)
  else
    (p.loops_.getD p.next_ p.baseLoop_,
      { p with next_ := if p.loops_.length ≤ p.next_ + 1 then 0 else p.next_ + 1 })

/-- The loop handed out is the base loop or one of the pool. -/
theorem getNextLoop_mem (p : EventLoopThreadPool Loop) :
    p.getNextLoop.1 = p.baseLoop_ ∨ p.getNextLoop.1 ∈ p.loops_ := by
  unfold getNextLoop
  split
  · exact .inl rfl
  · dsimp only
    rw [List.getD_eq_getElem?_getD]
    cases h : p.loops_[p.next_]? with
    | none => exact .inl rfl
    | some l => exact .inr (List.mem_of_getElem? h)

@[simp] theorem getNextLoop_base (p : EventLoopThreadPool Loop) :
    p.getNextLoop.2.baseLoop_ = p.baseLoop_ := by
  unfold getNextLoop
  split <;> rfl

@[simp] theorem getNextLoop_loops (p : EventLoopThreadPool Loop) :
    p.getNextLoop.2.loops_ = p.loops_ := by
  unfold getNextLoop
  split <;> rfl

end EventLoopThreadPool

/-! ### The server -/

structure TcpServer (Conn Loop : Type*) where
  name_ : Text
  ipPort_ : Text
  nextConnId_ : BitVec 32
  connections_ : Text → Option Conn
  threadPool_ : EventLoopThreadPool Loop

namespace TcpServer

/-- `TcpServer::TcpServer`, with its pool started. -/
def new (nameArg : Text) (listenAddr : InetAddress) (pool : EventLoopThreadPool Loop) :
    TcpServer Conn Loop where
  name_ := nameArg
  ipPort_ := listenAddr.toIpPort
  nextConnId_ := 1
  connections_ := fun _ => none
  threadPool_ := pool

/-- The name of the next connection. -/
def connName (s : TcpServer Conn Loop) : Text :=
  Mymuduo.connName s.name_ s.ipPort_ s.nextConnId_

/-- `newConnection` for the connection object `conn`: the loop it is given to,
its name, and the server after `connections_[connName] = conn`. -/
def newConnection (s : TcpServer Conn Loop) (conn : Conn) :
    Loop × Text × TcpServer Conn Loop :=
  let (ioLoop, pool) := s.threadPool_.getNextLoop
  let connName := s.connName
  (ioLoop, connName,
    { s with
      threadPool_ := pool
      nextConnId_ := s.nextConnId_ + 1
      connections_ := Function.update s.connections_ connName (some conn) })

/-- `connections_.erase(conn->name())` in `removeConnectionInLoop`. -/
def erase (s : TcpServer Conn Loop) (connName : Text) : TcpServer Conn Loop :=
  { s with connections_ := Function.update s.connections_ connName none }

end TcpServer

end Mymuduo
