/-
Mymuduo/ConnectionStep.lean

What a step of the server makes of one connection, as its loop thread sees it.

`touches_of_moves`: a step leaves the connection alone, though others may work on the
poller of its loop, or is one of the functions of TcpConnection.lean.  With it, what
holds of a single connection carries over to the connections of a server.
-/
import Mymuduo.Footprint

namespace Mymuduo

open Transition

/-! ### Handlers without user code -/

namespace TcpConnection

/-- The connection after `inputBuffer_.readFd`. -/
def filled (c : TcpConnection) (env : Env) : TcpConnection :=
  { c with inputBuffer_ := (c.inputBuffer_.readFd env.readv 0).1 }

/-- The three ways of `handleRead`. -/
theorem handleRead_ways (c : TcpConnection) (env : Env) :
    (0 < readResult c env ∧ c.handleRead env
      = ((c.filled env).emit (.messageCallback (c.filled env).inputBuffer_.readable)).userCalls
          env.onMessage) ∨
    (readResult c env = 0 ∧ c.handleRead env = (c.filled env).handleClose env) ∨
    (readResult c env < 0 ∧ c.handleRead env
      = ((c.filled env).emit (.logError .handleRead)).handleError
          (c.inputBuffer_.readFd env.readv 0).2.1) := by
  have hn : (c.inputBuffer_.readFd env.readv 0).2.2.getD
      (env.indeterminate (readv env.readv c.inputBuffer_.iovRoom).ret) = readResult c env := by
    rw [ValidBuffer.readFd_ret]
    rfl
  unfold handleRead
  dsimp only
  rw [hn]
  split
  · rename_i hpos
    exact .inl ⟨hpos, rfl⟩
  · rename_i hpos
    split
    · rename_i hzero
      exact .inr (.inl ⟨hzero, rfl⟩)
    · rename_i hzero
      exact .inr (.inr ⟨by omega, rfl⟩)

/-- The three ways when no user code runs in the callbacks. -/
theorem handleRead_withoutUser (c : TcpConnection) (env : Env) :
    (0 < readResult c env ∧ c.handleRead env.withoutUser
      = (c.filled env).emit (.messageCallback (c.filled env).inputBuffer_.readable)) ∨
    (readResult c env = 0 ∧
      c.handleRead env.withoutUser = (c.filled env).handleClose env.withoutUser) ∨
    (readResult c env < 0 ∧ c.handleRead env.withoutUser
      = ((c.filled env).emit (.logError .handleRead)).handleError
          (c.inputBuffer_.readFd env.readv 0).2.1) :=
  handleRead_ways c env.withoutUser

theorem handleClose_withoutUser (c : TcpConnection) (env : Env) :
    (c.handleClose env.withoutUser).trace
      = c.trace ++ [.handleClose, .connectionCallback false, .closeCallback] := by
  simp [handleClose, Env.withoutUser, userCalls, connected]

theorem readError_trace (c : TcpConnection) (errno : Errno) :
    ((c.emit (.logError .handleRead)).handleError errno).trace
      = c.trace ++ [.logError .handleRead, .handleError errno] := by
  simp [handleError]

theorem sends_finishWrite (c : TcpConnection) : Sends c c.finishWrite := by
  unfold finishWrite
  split
  · exact sends_shutdownInLoop c
  · exact .refl c

end TcpConnection

/-- Member functions only add to the trace. -/
theorem Member.run_grows (m : Member) (env : TaskEnv) (c : TcpConnection) :
    c.trace <+: (m.run env c).trace := by
  cases m with
  | connectEstablished => exact ⟨[Effect.connectionCallback true], rfl⟩
  | markDestroyed => exact ⟨[Effect.connectionCallback false], rfl⟩
  | removeChannel => exact ⟨[Effect.connectDestroyed], rfl⟩
  | sendInLoop len => exact (TcpConnection.sends_sendInLoop c _ _).grows
  | shutdownInLoop => exact (TcpConnection.sends_shutdownInLoop c).grows
  | handleClose => exact ⟨_, (c.handleClose_withoutUser env.toEnv).symm⟩
  | handleError => exact ⟨[Effect.handleError 0], rfl⟩
  | handleRead =>
      show c.trace <+: (c.handleRead env.toEnv.withoutUser).trace
      rcases c.handleRead_withoutUser env.toEnv with ⟨-, heq⟩ | ⟨-, heq⟩ | ⟨-, heq⟩ <;> rw [heq]
      · exact ⟨[Effect.messageCallback _], rfl⟩
      · exact ⟨_, ((c.filled env.toEnv).handleClose_withoutUser env.toEnv).symm⟩
      · exact ⟨_, ((c.filled env.toEnv).readError_trace _).symm⟩
  | handleWrite => exact (TcpConnection.sends_writeOut c env.write).grows
  | finishWrite => exact c.sends_finishWrite.grows

namespace ServerSystem

open TcpConnection

variable {ι α : Type*} [DecidableEq ι] [DecidableEq α]

omit [DecidableEq ι] [DecidableEq α] in
theorem tcp_setTcp (s : ServerSystem ι α) (c : Nat) (k : TcpConnection) :
    (s.setTcp c k).tcp c = { k with poller_ := s.poller (s.conn c).home } := by
  rw [tcp, setTcp_tcp, setTcp_home]
  rfl

/-- The step runs a member function on `c`, or user code at its input buffer. -/
def Concerns (s : ServerSystem ι α) (c : Nat) : ServerEvent ι α → Prop
  | .task l _ => ∃ m, (s.todo l).head? = some (.call m c)
  | .retrieve _ d _ => d = c
  | _ => False

/-- What a step makes of connection `c`. -/
inductive Touches (s : ServerSystem ι α) (c : Nat) : ServerEvent ι α → TcpConnection → Prop
  | aside (e : ServerEvent ι α) (p : EPollPoller) (hnot : ¬ s.Concerns c e) :
      Touches s c e { s.tcp c with poller_ := p }
  | event (l : ι) (revents : Mask) (rest : List (ChannelPtr × Mask))
      (hactive : s.active l = (c, revents) :: rest) :
      Touches s c (.dispatch l) ((s.tcp c).setRevents revents)
  | member (l : ι) (env : TaskEnv) (m : Member) (rest : List Task)
      (htodo : s.todo l = .call m c :: rest) : Touches s c (.task l env) (m.run env (s.tcp c))
  | sent (th : Thread ι α) (w : WriteResult) (data : List Byte)
      (hcall : s.calling th = .sendFound c data) :
      Touches s c (.proceed th w) ((s.tcp c).sendInLoop data w)
  | stored (th : Thread ι α) (w : WriteResult) (hcall : s.calling th = .shutdownFound c) :
      Touches s c (.proceed th w) ((s.tcp c).setState .kDisconnecting)
  | shut (th : Thread ι α) (w : WriteResult) (hcall : s.calling th = .shutdownStored c) :
      Touches s c (.proceed th w) (s.tcp c).shutdownInLoop
  | retrieved (l : ι) (len : Nat) (hguard : .guard c ∈ s.todo l) :
      Touches s c (.retrieve l c len) ((s.tcp c).userCall (.retrieve len))

variable {s t : ServerSystem ι α} {e : ServerEvent ι α} {c : Nat}

omit [DecidableEq ι] [DecidableEq α] in
theorem Touches.of_conn (hnot : ¬ s.Concerns c e) (h : t.conn c = s.conn c) :
    s.Touches c e (t.tcp c) := by
  rw [tcp, h]
  exact .aside e _ hnot

/-- A function that runs on a connection touches that one and no other. -/
theorem touches_runConn (th : Thread ι α) {d : Nat} {f : TcpConnection → TcpConnection}
    (hnot : c ≠ d → ¬ s.Concerns c e) (hf : s.Touches d e (f (s.tcp d))) :
    s.Touches c e ((s.runConn th d f).tcp c) := by
  by_cases hcd : c = d
  · subst hcd
    rwa [runConn_tcp]
  · exact .of_conn (hnot hcd) (runConn_conn_ne s th d f hcd)

theorem touches_of_moves (hm : s.Moves e t) (hc : c < s.count) : s.Touches c e (t.tcp c) := by
  cases hm with
  | dispatch l d revents rest hidle htodo hactive =>
      have h : s.Touches d (.dispatch l) ((s.tcp d).setRevents revents) :=
        .event l revents rest hactive
      exact touches_runConn (.loop l) (f := (·.setRevents revents)) (fun _ => id) h
  | task l env k rest hidle htodo hk =>
      cases k with
      | call m d =>
          have h : s.Touches d (.task l env) (m.run env (s.tcp d)) := .member l env m rest htodo
          refine touches_runConn (.loop l) (fun hcd hconcerns => hcd ?_) h
          obtain ⟨m', hhead⟩ := hconcerns
          rw [htodo, List.head?_cons] at hhead
          cases hhead
          rfl
      | closeCallback d =>
          refine .of_conn ?_ (congrFun (runInLoop_conn ..) c)
          rintro ⟨m', hhead⟩
          rw [htodo] at hhead
          cases hhead
      | _ =>
          refine .of_conn ?_ rfl
          rintro ⟨m', hhead⟩
          rw [htodo] at hhead
          cases hhead
  | accept sockfd wc hw mark hphase htodo =>
      refine .of_conn id ?_
      rw [accept, runInLoop_conn]
      exact Function.update_of_ne (Nat.ne_of_lt hc) _ _
  | sendHere th w d data hcall hin =>
      have h : s.Touches d (.proceed th w) ((s.tcp d).sendInLoop data w) := .sent th w data hcall
      exact touches_runConn th (f := (·.sendInLoop data w)) (fun _ => id) h
  | store th w d hcall =>
      by_cases hcd : c = d
      · subst hcd
        show s.Touches c _ ((s.setTcp c ((s.conn c).tcp.setState .kDisconnecting)).tcp c)
        rw [tcp_setTcp]
        exact .stored th w hcall
      · exact .of_conn id (setTcp_conn_ne s hcd _)
  | shutdownHere th w d hcall hin =>
      have h : s.Touches d (.proceed th w) (s.tcp d).shutdownInLoop := .shut th w hcall
      exact touches_runConn th (f := shutdownInLoop) (fun _ => id) h
  | retrieve l d len hidle hguard =>
      have h : s.Touches d (.retrieve l d len) ((s.tcp d).userCall (.retrieve len)) :=
        .retrieved l len hguard
      exact touches_runConn (.loop l) (f := (·.userCall (.retrieve len)))
        (fun hcd hd => hcd hd.symm) h
  | destroyEntry d hidle hhead hcount htable =>
      exact .of_conn id (congrFun (runInLoop_conn ..) c)
  | _ => exact .of_conn id rfl

end ServerSystem

end Mymuduo
