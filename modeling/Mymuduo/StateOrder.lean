/-
Mymuduo/StateOrder.lean

The order of the values of `state_`.

The loop thread writes `state_` in `connectEstablished`, `handleClose` and
`connectDestroyed`; `shutdown`, on any thread, loads it and stores kDisconnecting
if it found kConnected.  Between the load and the store the other threads may
act, so `lifeMachine` has a step for each.  User code is such a caller too: a
handler is a step without user code, and what a callback calls are further steps,
with the loop thread in the middle of nothing else.

`connectDestroyed` is cut at its test of `state_` and before `channel_->remove()`,
where its callback may have called `shutdown` (`connectDestroyed_eq`).
-/
import Mymuduo.Transition
import Mymuduo.Established

namespace Mymuduo

open Transition TcpConnection

/-- The order in which a connection goes through its states. -/
def StateE.rank : StateE → Nat
  | .kConnecting => 0
  | .kConnected => 1
  | .kDisconnecting => 2
  | .kDisconnected => 3

theorem StateE.rank_le (s : StateE) : s.rank ≤ StateE.rank .kDisconnected := by
  cases s <;> decide

/-- The same event with user code that calls nothing. -/
def Env.withoutUser (env : Env) : Env := { env with onConnection := [], onMessage := [] }

/-! ### What the functions do to `state_` -/

namespace TcpConnection

/-- `handleClose` has run. -/
def Closed (c : TcpConnection) : Prop := .handleClose ∈ c.trace

instance (c : TcpConnection) : Decidable c.Closed :=
  inferInstanceAs (Decidable (_ ∈ c.trace))

/-- The state is as it was, and `handleClose` has not run. -/
structure SameState (c c' : TcpConnection) : Prop where
  state : c'.state_ = c.state_
  closed : c'.Closed ↔ c.Closed

variable {c c' c'' : TcpConnection}

theorem SameState.refl (c : TcpConnection) : c.SameState c := ⟨rfl, Iff.rfl⟩

theorem SameState.trans (h : c.SameState c') (h' : c'.SameState c'') : c.SameState c'' :=
  ⟨h'.state.trans h.state, h'.closed.trans h.closed⟩

/-- The traces differ by effects other than `handleClose`. -/
theorem SameState.of_trace {es : List Effect} (hs : c'.state_ = c.state_)
    (ht : c'.trace = c.trace ++ es) (hes : .handleClose ∉ es) : c.SameState c' := by
  refine ⟨hs, ?_⟩
  rw [Closed, Closed, ht, List.mem_append, or_iff_left hes]

theorem sameState_emit {e : Effect} (he : e ≠ .handleClose) : c.SameState (c.emit e) :=
  .of_trace rfl rfl (by simpa using he.symm)

theorem sameState_tryWrite (c : TcpConnection) (data : List Byte) (w : WriteResult) :
    c.SameState (c.tryWrite data w).conn := by
  have htried := tryWrite_cases c data w
  generalize c.tryWrite data w = a at htried
  generalize write w data = call at htried
  have hwrite : c.SameState (c.emit (.write call.taken)) := sameState_emit nofun
  cases htried with
  | queued hbusy => exact .refl c
  | completed hidle hret hall hcb => exact hwrite.trans (sameState_emit nofun)
  | took hidle hret hrest => exact hwrite
  | failed hoff hidle hneg hlog => exact hwrite.trans (sameState_emit nofun)
  | blocked hidle hneg hblock => exact hwrite

theorem sameState_queueRest (a : Attempt) (data : List Byte) :
    a.conn.SameState (queueRest a data) := by
  obtain ⟨es, htrace, hout, -⟩ := queueRest_trace a data
  refine .of_trace (queueRest_state a data) htrace fun hmem => ?_
  cases hout _ hmem

theorem sameState_sendInLoop (c : TcpConnection) (data : List Byte) (w : WriteResult) :
    c.SameState (c.sendInLoop data w) := by
  unfold sendInLoop
  dsimp only
  have hsend : c.SameState (c.emit (.sendInLoop data)) := sameState_emit nofun
  split
  · exact hsend.trans (sameState_emit nofun)
  · exact hsend.trans ((sameState_tryWrite _ data w).trans (sameState_queueRest _ data))

theorem sameState_shutdownInLoop (c : TcpConnection) : c.SameState c.shutdownInLoop := by
  unfold shutdownInLoop
  split
  · exact sameState_emit nofun
  · exact .refl c

theorem sameState_finishWrite (c : TcpConnection) : c.SameState c.finishWrite := by
  unfold finishWrite
  split
  · exact sameState_shutdownInLoop c
  · exact .refl c

theorem sameState_writeOut (c : TcpConnection) (w : WriteResult) :
    c.SameState (c.writeOut w).1 := by
  have hwrote := writeOut_cases c w
  generalize c.writeOut w = r at hwrote
  generalize write w c.outputBuffer_.readable = call at hwrote
  have hwrite : c.SameState (c.emit (.write call.taken)) := sameState_emit nofun
  cases hwrote with
  | idle hoff => exact sameState_emit nofun
  | nothing hon hret => exact hwrite
  | partly hon hret hrest => exact ⟨hwrite.state, by simp [Closed]⟩
  | drained hon hret hall hcb => exact ⟨hwrite.state, hwrite.closed⟩
  | completed hon hret hall hcb => exact ⟨hwrite.state, by simp [Closed]⟩

theorem sameState_handleWrite (c : TcpConnection) (w : WriteResult) :
    c.SameState (c.handleWrite w) := by
  have h := sameState_writeOut c w
  unfold handleWrite
  dsimp only
  split
  · exact h.trans (sameState_finishWrite _)
  · exact h

theorem handleClose_state (c : TcpConnection) (env : Env) :
    (c.handleClose env.withoutUser).state_ = .kDisconnected := rfl

/-- A read leaves the state alone or closes the connection. -/
theorem handleRead_state (c : TcpConnection) (env : Env) :
    c.SameState (c.handleRead env.withoutUser) ∨
      (c.handleRead env.withoutUser).state_ = .kDisconnected := by
  unfold handleRead
  dsimp only
  split
  · exact .inl ⟨rfl, by simp [Closed, Env.withoutUser, userCalls]⟩
  · split
    · exact .inr (handleClose_state _ env)
    · exact .inl ⟨rfl, by simp [Closed, handleError]⟩

theorem sendInLoop_of_disconnected (hs : c.state_ = .kDisconnected) (data : List Byte)
    (w : WriteResult) :
    c.sendInLoop data w = (c.emit (.sendInLoop data)).emit (.logError .giveUpWriting) := by
  simp [sendInLoop, hs]

end TcpConnection

/-! ### The threads -/

/-- How far the loop thread has got with the connection. -/
inductive LifePhase
  | fresh
  | up
  -- in `connectDestroyed`, after the test of `state_`
  | tested (connected : Bool)
  -- in `connectDestroyed`, before `channel_->remove()`
  | removing
  | gone
  deriving DecidableEq, Repr

/-- A connection, the progress of the loop thread, and the threads in `shutdown`
that have found kConnected and not stored yet. -/
structure Lifecycle (Tid : Type*) where
  conn : TcpConnection
  phase : LifePhase
  found : Tid → Bool

inductive LifeEvent (Tid : Type*)
  | connectEstablished
  | handleClose (env : Env)
  | handleRead (env : Env)
  | handleWrite (w : WriteResult)
  | sendInLoop (data : List Byte) (w : WriteResult)
  | shutdownInLoop
  | destroyTest
  | destroyStore
  | removeChannel
  | shutdownLoad (t : Tid)
  | shutdownStore (t : Tid)

namespace Lifecycle

variable {Tid : Type*} [DecidableEq Tid]

/-- The loop thread takes a step, unless it is inside `shutdown`. -/
def onLoop (loopTid : Tid) (s : Lifecycle Tid) (ready : Bool) (conn : TcpConnection)
    (phase : LifePhase) : Option (Lifecycle Tid) :=
  if s.found loopTid = false ∧ ready = true then some { s with conn := conn, phase := phase }
  else none

/-- Functors of the connection may run. -/
def runsFunctors (s : Lifecycle Tid) : Bool := s.phase = .up || s.phase = .gone

def next (loopTid : Tid) (s : Lifecycle Tid) : LifeEvent Tid → Option (Lifecycle Tid)
  | .connectEstablished =>
      s.onLoop loopTid (s.phase = .fresh) (s.conn.connectEstablished []) .up
  | .handleClose env =>
      s.onLoop loopTid (s.phase = .up) (s.conn.handleClose env.withoutUser) .up
  | .handleRead env =>
      s.onLoop loopTid (s.phase = .up) (s.conn.handleRead env.withoutUser) .up
  | .handleWrite w => s.onLoop loopTid (s.phase = .up) (s.conn.handleWrite w) .up
  | .sendInLoop data w => s.onLoop loopTid s.runsFunctors (s.conn.sendInLoop data w) s.phase
  | .shutdownInLoop => s.onLoop loopTid s.runsFunctors s.conn.shutdownInLoop s.phase
  | .destroyTest =>
      s.onLoop loopTid s.runsFunctors s.conn (.tested (s.conn.state_ = .kConnected))
  | .destroyStore =>
      match s.phase with
      | .tested connected =>
          s.onLoop loopTid true (if connected then s.conn.markDestroyed else s.conn) .removing
      | _ => none
  | .removeChannel => s.onLoop loopTid (s.phase = .removing) s.conn.removeChannel .gone
  | .shutdownLoad t =>
      if s.found t = false then
        some { s with found := Function.update s.found t (s.conn.state_ = .kConnected) }
      else none
  | .shutdownStore t =>
      if s.found t = true then
        some { s with conn := s.conn.setState .kDisconnecting
                      found := Function.update s.found t false }
      else none

end Lifecycle

/-- The life of one connection of the loop thread `loopTid`. -/
def lifeMachine {Tid : Type*} [DecidableEq Tid] (loopTid : Tid) :
    Machine (Lifecycle Tid) (LifeEvent Tid) where
  init s := s.phase = .fresh ∧ s.conn.state_ = .kConnecting ∧ s.conn.trace = [] ∧
    ∀ t, s.found t = false
  next := Lifecycle.next loopTid

namespace Lifecycle

variable {Tid : Type*} [DecidableEq Tid] {loopTid : Tid} {s t : Lifecycle Tid}
variable {e : LifeEvent Tid}

omit [DecidableEq Tid] in
theorem onLoop_eq_some {ready : Bool} {conn : TcpConnection} {phase : LifePhase} :
    s.onLoop loopTid ready conn phase = some t ↔
      (s.found loopTid = false ∧ ready = true) ∧ { s with conn := conn, phase := phase } = t := by
  simp [onLoop]

/-- What a step can do to the state, the phase and the callers. -/
inductive Moves (s : Lifecycle Tid) : LifeEvent Tid → Lifecycle Tid → Prop
  | establish (hfresh : s.phase = .fresh) :
      Moves s .connectEstablished { s with conn := s.conn.connectEstablished [], phase := .up }
  | keep (e : LifeEvent Tid) (c : TcpConnection) (p : LifePhase) (hc : s.conn.SameState c)
      (hs : s.phase ≠ .fresh) (hp : p ≠ .fresh)
      (hsend : ∀ data w, e = .sendInLoop data w → c = s.conn.sendInLoop data w)
      (he : ∀ t, e ≠ .shutdownStore t) : Moves s e { s with conn := c, phase := p }
  | close (e : LifeEvent Tid) (c : TcpConnection) (p : LifePhase)
      (hc : c.state_ = .kDisconnected) (hp : p ≠ .fresh)
      (hsend : ∀ data w, e ≠ .sendInLoop data w)
      (he : ∀ t, e ≠ .shutdownStore t) : Moves s e { s with conn := c, phase := p }
  | load (t : Tid) :
      Moves s (.shutdownLoad t)
        { s with found := Function.update s.found t (s.conn.state_ = .kConnected) }
  | store (t : Tid) (hfound : s.found t = true) :
      Moves s (.shutdownStore t)
        { s with conn := s.conn.setState .kDisconnecting
                 found := Function.update s.found t false }

theorem moves_of_next (h : (lifeMachine loopTid).next s e = some t) : s.Moves e t := by
  cases e with
  | connectEstablished =>
      obtain ⟨⟨-, hp⟩, rfl⟩ := onLoop_eq_some.mp h
      exact .establish (by simpa using hp)
  | handleClose env =>
      obtain ⟨-, rfl⟩ := onLoop_eq_some.mp h
      exact .close _ _ _ (handleClose_state _ _) nofun nofun nofun
  | handleRead env =>
      obtain ⟨⟨-, hp⟩, rfl⟩ := onLoop_eq_some.mp h
      rcases handleRead_state s.conn env with hsame | hclosed
      · exact .keep _ _ _ hsame (by simp_all) nofun nofun nofun
      · exact .close _ _ _ hclosed nofun nofun nofun
  | handleWrite w =>
      obtain ⟨⟨-, hp⟩, rfl⟩ := onLoop_eq_some.mp h
      exact .keep _ _ _ (sameState_handleWrite _ w) (by simp_all) nofun nofun nofun
  | sendInLoop data w =>
      obtain ⟨⟨-, hp⟩, rfl⟩ := onLoop_eq_some.mp h
      have hne : s.phase ≠ .fresh := by
        rintro hfresh
        simp [runsFunctors, hfresh] at hp
      refine .keep _ _ _ (sameState_sendInLoop _ data w) hne hne ?_ nofun
      rintro data' w' he
      cases he
      rfl
  | shutdownInLoop =>
      obtain ⟨⟨-, hp⟩, rfl⟩ := onLoop_eq_some.mp h
      have hne : s.phase ≠ .fresh := by
        rintro hfresh
        simp [runsFunctors, hfresh] at hp
      exact .keep _ _ _ (sameState_shutdownInLoop _) hne hne nofun nofun
  | destroyTest =>
      obtain ⟨⟨-, hp⟩, rfl⟩ := onLoop_eq_some.mp h
      have hne : s.phase ≠ .fresh := by
        rintro hfresh
        simp [runsFunctors, hfresh] at hp
      exact .keep _ _ _ (.refl _) hne nofun nofun nofun
  | destroyStore =>
      simp only [lifeMachine, next] at h
      split at h
      · rename_i connected hphase
        obtain ⟨-, rfl⟩ := onLoop_eq_some.mp h
        cases connected with
        | true => exact .close _ _ _ rfl nofun nofun nofun
        | false => exact .keep _ _ _ (.refl _) (by simp [hphase]) nofun nofun nofun
      · cases h
  | removeChannel =>
      obtain ⟨⟨-, hp⟩, rfl⟩ := onLoop_eq_some.mp h
      refine .keep _ _ _ ?_ (by simp_all) nofun nofun nofun
      exact ⟨rfl, by simp [Closed, TcpConnection.removeChannel]⟩
  | shutdownLoad t =>
      simp only [lifeMachine, next] at h
      split at h
      · obtain rfl := Option.some.inj h
        exact .load t
      · cases h
  | shutdownStore t =>
      simp only [lifeMachine, next] at h
      split at h
      · rename_i hfound
        obtain rfl := Option.some.inj h
        exact .store t hfound
      · cases h

/-! ### Forward only -/

/-- What a step should do: move `state_` forward or leave it, for good once it is
kDisconnected; and a `sendInLoop` after `handleClose` gives up. -/
structure Forward (s : Lifecycle Tid) (e : LifeEvent Tid) (t : Lifecycle Tid) : Prop where
  rank : s.conn.state_.rank ≤ t.conn.state_.rank
  final : s.conn.state_ = .kDisconnected → t.conn.state_ = .kDisconnected
  givesUp : ∀ data w, e = .sendInLoop data w → s.conn.Closed →
    t.conn = (s.conn.emit (.sendInLoop data)).emit (.logError .giveUpWriting)

/-- No `shutdown` stores kDisconnecting over kDisconnected. -/
def StoresInOrder (s : Lifecycle Tid) : LifeEvent Tid → Prop
  | .shutdownStore _ => s.conn.state_ ≠ .kDisconnected
  | _ => True

instance (s : Lifecycle Tid) (e : LifeEvent Tid) : Decidable (s.StoresInOrder e) := by
  unfold StoresInOrder
  split <;> infer_instance

/-- What holds as long as the stores come in order. -/
structure Aged (s : Lifecycle Tid) : Prop where
  fresh : s.phase = .fresh ↔ s.conn.state_ = .kConnecting
  found : ∀ t, s.found t = true → s.phase ≠ .fresh
  closed : s.conn.Closed → s.conn.state_ = .kDisconnected

theorem Aged.next (h : s.Aged) (he : s.StoresInOrder e) (hm : s.Moves e t) : t.Aged := by
  cases hm with
  | establish hfresh =>
      refine ⟨by simp [connectEstablished, userCalls], fun _ _ => nofun, fun hclosed => ?_⟩
      -- a fresh connection has not been closed
      have hold : s.conn.Closed := by simpa [Closed, connectEstablished, userCalls] using hclosed
      exact absurd (h.closed hold) (by simp [h.fresh.mp hfresh])
  | keep _ c p hc hs hp _ _ =>
      refine ⟨?_, fun _ _ => hp, fun hclosed => ?_⟩
      · rw [hc.state, ← h.fresh]
        exact iff_of_false hp hs
      · rw [hc.state]
        exact h.closed (hc.closed.mp hclosed)
  | close _ c p hc hp _ _ =>
      exact ⟨by simp [hc, hp], fun _ _ => hp, fun _ => hc⟩
  | load t' =>
      refine ⟨h.fresh, fun t ht => ?_, h.closed⟩
      by_cases heq : t = t'
      · subst heq
        have hconn : s.conn.state_ = .kConnected := by simpa using ht
        exact fun hfresh => by simp [h.fresh.mp hfresh] at hconn
      · exact h.found t (by simpa [Function.update_of_ne heq] using ht)
  | store t' hfound =>
      have hne := h.found t' hfound
      refine ⟨by simp [hne], fun _ _ => hne, fun hclosed => ?_⟩
      exact absurd (h.closed hclosed) he

/-- In the states that ordered stores lead to, the order of a store decides
whether the step moves forward. -/
theorem Aged.forward_iff (h : s.Aged) (hm : s.Moves e t) :
    s.Forward e t ↔ s.StoresInOrder e := by
  constructor
  · intro hf
    cases e with
    | shutdownStore t' =>
        intro hstate
        cases hm with
        | keep _ _ _ _ _ _ _ he => exact he t' rfl
        | close _ _ _ _ _ _ he => exact he t' rfl
        | store => cases hf.final hstate
    | _ => trivial
  · intro he
    cases hm with
    | establish hfresh =>
        have hstate := h.fresh.mp hfresh
        exact ⟨by simp [hstate, StateE.rank], by simp [hstate], nofun⟩
    | keep _ c p hc hs hp hsend _ =>
        refine ⟨by rw [hc.state], fun hd => by rw [hc.state, hd], ?_⟩
        intro data w heq hclosed
        rw [hsend data w heq, sendInLoop_of_disconnected (h.closed hclosed)]
    | close _ c p hc hp hsend _ =>
        refine ⟨?_, fun _ => hc, fun data w heq => absurd heq (hsend data w)⟩
        rw [hc]
        exact StateE.rank_le _
    | load t' => exact ⟨le_rfl, id, nofun⟩
    | store t' hfound =>
        refine ⟨?_, fun hd => absurd hd he, nofun⟩
        have hne : s.conn.state_ ≠ .kDisconnected := he
        show s.conn.state_.rank ≤ 2
        cases hs : s.conn.state_ <;> simp_all [StateE.rank]

end Lifecycle

variable {Tid : Type*} [DecidableEq Tid] {loopTid : Tid} {s t : Lifecycle Tid}

/-- **The state goes forward only, as long as `shutdown` stores in order.**
Every step of a run moves `state_` forward, keeps kDisconnected, and lets a
`sendInLoop` after `handleClose` give up, exactly when no `shutdown` stores
kDisconnecting while `state_` is kDisconnected. -/
theorem state_forward_iff_storesInOrder {es : List (LifeEvent Tid)}
    (hinit : (lifeMachine loopTid).init s) (hrun : (lifeMachine loopTid).run s es = some t) :
    (lifeMachine loopTid).Every Lifecycle.Forward s es ↔
      (lifeMachine loopTid).Along Lifecycle.StoresInOrder s es := by
  refine Machine.every_iff_along (I := Lifecycle.Aged) (A := fun _ _ => True) ?_ ?_
    (Machine.along_of_forall fun _ _ _ => trivial) hrun ?_
  · exact fun s e t hs _ ht => hs.forward_iff (Lifecycle.moves_of_next ht)
  · exact fun s e t hs _ he ht => hs.next he (Lifecycle.moves_of_next ht)
  · obtain ⟨hphase, hstate, htrace, hfound⟩ := hinit
    exact ⟨by simp [hphase, hstate], by simp [hfound], by simp [TcpConnection.Closed, htrace]⟩

/-- A new connection of a loop with nothing else. -/
def Lifecycle.start (Tid : Type*) : Lifecycle Tid where
  conn := TcpConnection.new 100 7 true false 0 EPollPoller.new
  phase := .fresh
  found := fun _ => false

theorem Lifecycle.init_start : (lifeMachine loopTid).init (Lifecycle.start Tid) :=
  ⟨rfl, rfl, rfl, fun _ => rfl⟩

/-- A `shutdown` on another thread that stores before the peer closes, and a
`sendInLoop` that comes after the close. -/
theorem state_forward_iff_storesInOrder_close :
    (lifeMachine false).Every Lifecycle.Forward (Lifecycle.start Bool)
      [.connectEstablished, .shutdownLoad true, .shutdownStore true,
        .handleClose ⟨.deliver [], id, .accept 0, [], []⟩, .sendInLoop [1, 2] (.accept 1),
        .destroyTest, .destroyStore, .removeChannel] :=
  (state_forward_iff_storesInOrder Lifecycle.init_start rfl).mpr (by decide +kernel)

/-- The events of a `shutdown` that loads `state_` before the peer closes and
stores after it, with a `sendInLoop` queued before. -/
def lateStore : List (LifeEvent Bool) :=
  [.connectEstablished, .shutdownLoad true,
    .handleClose ⟨.deliver [], id, .accept 0, [], []⟩, .shutdownStore true,
    .sendInLoop [1, 2] (.accept 1)]

/-- The late store undoes kDisconnected, and the `sendInLoop` behind it writes
and registers the channel again. -/
theorem lateStore_goes_back :
    ∃ s t u, (lifeMachine false).run (Lifecycle.start Bool) (lateStore.take 3) = some s ∧
      s.conn.state_ = .kDisconnected ∧ s.conn.Closed ∧
      s.conn.poller_.epollSet s.conn.channel_.fd_ = none ∧
      (lifeMachine false).run (Lifecycle.start Bool) (lateStore.take 4) = some t ∧
      t.conn.state_ = .kDisconnecting ∧
      (lifeMachine false).run (Lifecycle.start Bool) lateStore = some u ∧
      .write [1] ∈ u.conn.trace ∧
      u.conn.poller_.epollSet u.conn.channel_.fd_ = some (kWriteEvent, u.conn.channel_.self) := by
  refine ⟨_, _, _, rfl, rfl, ?_, ?_, rfl, rfl, rfl, ?_, ?_⟩ <;> decide +kernel

end Mymuduo
