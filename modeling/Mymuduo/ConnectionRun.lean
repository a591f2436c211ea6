/-
Mymuduo/ConnectionRun.lean

A connection in the hands of its loop thread, from `connectEstablished` on.

`connMachine` takes one label per thing the loop thread does to the connection:
an event of the kernel, a queued `sendInLoop` or `shutdownInLoop`, a call from
user code, `connectDestroyed`; `setDisconnecting` is the store that a `shutdown`
on another thread does, `otherChannels` what the other connections of the loop
do to the poller.  The kernel reports an event only for a registered fd.

A connection is *open* until `handleClose` or `connectDestroyed` has run.  The
work on an open connection is made of a few moves, and every function is shown
to advance the connection: its trace grows, and if it is still open then moves
brought it there.  An invariant of open connections is therefore proved move by
move, and `run_advances` carries it over whole runs.
-/
import Mymuduo.Transition
import Mymuduo.Established

namespace Mymuduo

open Transition

/-! ### Kernel answers within bounds -/

section Meets

variable (ok : WriteResult → Prop)

/-- The direct write of the call, if it makes one, is answered within `ok`. -/
def UserCall.Meets : UserCall → Prop
  | .send _ w => ok w
  | _ => True

/-- The direct writes of the event's user calls are answered within `ok`.  Those
of `onConnection` come when the connection is no longer open. -/
def Env.Meets (env : Env) : Prop := ∀ u ∈ env.onMessage, u.Meets ok

end Meets

namespace TcpConnection

variable {c : TcpConnection}

/-! ### Moves of an open connection -/

/-- The moves of which the work on an open connection is made.  `ok` bounds what
the kernel may answer to a direct write. -/
inductive Move (ok : WriteResult → Prop) : TcpConnection → TcpConnection → Prop
  | emit (c : TcpConnection) (e : Effect) (he : e.isNeutral = true) : Move ok c (c.emit e)
  | revents (c : TcpConnection) (m : Mask) :
      Move ok c { c with channel_ := { c.channel_ with revents_ := m } }
  | input (c : TcpConnection) (b : ValidBuffer) : Move ok c { c with inputBuffer_ := b }
  | poller (c : TcpConnection) (p : EPollPoller)
      (hp : p.epollSet c.channel_.fd_ = c.poller_.epollSet c.channel_.fd_) :
      Move ok c { c with poller_ := p }
  | disconnecting (c : TcpConnection) : Move ok c (c.setState .kDisconnecting)
  | sendInLoop (c : TcpConnection) (data : List Byte) (w : WriteResult) (hw : ok w) :
      Move ok c (c.sendInLoop data w)
  | writeOut (c : TcpConnection) (w : WriteResult) : Move ok c (c.writeOut w).1

abbrev Moves (ok : WriteResult → Prop) : TcpConnection → TcpConnection → Prop :=
  Relation.ReflTransGen (Move ok)

variable {ok : WriteResult → Prop} {c' c'' : TcpConnection}

theorem Established.move (h : Established c) (hm : Move ok c c') : Established c' := by
  cases hm with
  | emit e he => exact h.emit e
  | revents m => exact ⟨h.alive, ⟨h.registered.index, h.registered.kernel⟩, h.mask⟩
  | input b => exact h.congr rfl rfl rfl rfl
  | poller p hp => exact ⟨h.alive, ⟨h.registered.index, hp.trans h.registered.kernel⟩, h.mask⟩
  | disconnecting => exact ⟨Or.inr rfl, h.registered, h.mask⟩
  | sendInLoop data w hw => exact (sendInLoop_spec h data w).1
  | writeOut w => exact (writeOut_spec h w).1

/-- Moves keep the connection established. -/
theorem Established.moves (h : Established c) (hm : Moves ok c c') : Established c' := by
  induction hm with
  | refl => exact h
  | tail _ hstep ih => exact ih.move hstep

theorem Move.sameSettings (h : Move ok c c') : SameSettings c c' := by
  cases h with
  | sendInLoop data w hw => exact sameSettings_sendInLoop c data w
  | writeOut w => exact sameSettings_writeOut c w
  | _ => exact ⟨rfl, rfl, rfl⟩

theorem Moves.sameSettings (h : Moves ok c c') : SameSettings c c' := by
  induction h with
  | refl => exact .refl c
  | tail _ hstep ih => exact ih.trans hstep.sameSettings

/-! ### The trace only grows -/

/-- `c'` has the trace of `c` and some effects of sending after it. -/
def Sends (c c' : TcpConnection) : Prop :=
  ∃ es, c'.trace = c.trace ++ es ∧ ∀ e ∈ es, e.isSending = true

theorem Sends.refl (c : TcpConnection) : Sends c c := ⟨[], by simp, by simp⟩

theorem Sends.trans (h : Sends c c') (h' : Sends c' c'') : Sends c c'' := by
  obtain ⟨es, hes, hall⟩ := h
  obtain ⟨fs, hfs, hall'⟩ := h'
  refine ⟨es ++ fs, by rw [hfs, hes, List.append_assoc], fun e he => ?_⟩
  exact (List.mem_append.mp he).elim (hall e) (hall' e)

theorem Sends.emit (h : Sends c c') {e : Effect} (he : e.isSending = true) :
    Sends c (c'.emit e) :=
  h.trans ⟨[e], rfl, by simpa using he⟩

/-- What is not in the trace does not matter. -/
theorem Sends.of_trace_eq (h : Sends c c') (ht : c''.trace = c'.trace) : Sends c c'' := by
  obtain ⟨es, hes, hall⟩ := h
  exact ⟨es, ht.trans hes, hall⟩

theorem Sends.grows (h : Sends c c') : c.trace <+: c'.trace := by
  obtain ⟨es, hes, -⟩ := h
  exact ⟨es, hes.symm⟩

/-- `sendInLoop` says that it was called, and then writes and queues. -/
theorem sendInLoop_trace (c : TcpConnection) (data : List Byte) (w : WriteResult) :
    ∃ es, (c.sendInLoop data w).trace = c.trace ++ .sendInLoop data :: es ∧
      ∀ e ∈ es, e.isOutput = true := by
  unfold sendInLoop
  dsimp only
  split
  · exact ⟨[.logError .giveUpWriting], by simp, by simp [Effect.isOutput]⟩
  · obtain ⟨⟨es, hconn, hout, -⟩, -, -, -⟩ := tryWrite_spec (c.emit (.sendInLoop data)) data w
    obtain ⟨fs, htrace, hout', -⟩ := queueRest_trace ((c.emit (.sendInLoop data)).tryWrite data w) data
    refine ⟨es ++ fs, by rw [htrace, hconn]; simp, fun e he => ?_⟩
    exact (List.mem_append.mp he).elim (hout e) (hout' e)

theorem sent_sendInLoop (c : TcpConnection) (data : List Byte) (w : WriteResult) :
    sent (c.sendInLoop data w).trace = sent c.trace ++ [data] := by
  obtain ⟨es, htrace, hout⟩ := sendInLoop_trace c data w
  rw [htrace, sent_append]
  show sent c.trace ++ data :: sent es = _
  rw [sent_of_isOutput hout]

theorem sends_sendInLoop (c : TcpConnection) (data : List Byte) (w : WriteResult) :
    Sends c (c.sendInLoop data w) := by
  obtain ⟨es, htrace, hout⟩ := sendInLoop_trace c data w
  refine ⟨_, htrace, fun e he => ?_⟩
  rcases List.mem_cons.mp he with rfl | he
  · rfl
  · exact Effect.isSending_of_isOutput (hout e he)

theorem writeOut_trace (c : TcpConnection) (w : WriteResult) :
    ∃ es, (c.writeOut w).1.trace = c.trace ++ es ∧ ∀ e ∈ es, e.isOutput = true := by
  have hwrote := writeOut_cases c w
  generalize c.writeOut w = r at hwrote
  generalize write w c.outputBuffer_.readable = call at hwrote
  cases hwrote with
  | idle hoff => exact ⟨[.logError .noMoreWriting], rfl, by simp [Effect.isOutput]⟩
  | nothing hon hret => exact ⟨[.write call.taken], rfl, by simp [Effect.isOutput]⟩
  | partly hon hret hrest =>
      exact ⟨[.write call.taken, .logError .handleWrite], by simp, by simp [Effect.isOutput]⟩
  | drained hon hret hall hcb => exact ⟨[.write call.taken], rfl, by simp [Effect.isOutput]⟩
  | completed hon hret hall hcb =>
      exact ⟨[.write call.taken, .queueInLoop .writeComplete], by simp,
        by simp [Effect.isOutput]⟩

theorem sent_writeOut (c : TcpConnection) (w : WriteResult) :
    sent (c.writeOut w).1.trace = sent c.trace := by
  obtain ⟨es, htrace, hout⟩ := writeOut_trace c w
  rw [htrace, sent_append, sent_of_isOutput hout, List.append_nil]

theorem sends_writeOut (c : TcpConnection) (w : WriteResult) : Sends c (c.writeOut w).1 := by
  obtain ⟨es, htrace, hout⟩ := writeOut_trace c w
  exact ⟨es, htrace, fun e he => Effect.isSending_of_isOutput (hout e he)⟩

theorem sent_shutdownInLoop (c : TcpConnection) :
    sent c.shutdownInLoop.trace = sent c.trace := by
  unfold shutdownInLoop
  split
  · simp [sent, Effect.message]
  · rfl

theorem sends_shutdownInLoop (c : TcpConnection) : Sends c c.shutdownInLoop := by
  unfold shutdownInLoop
  split
  · exact (Sends.refl c).emit rfl
  · exact Sends.refl c

theorem sends_handleWrite (c : TcpConnection) (w : WriteResult) : Sends c (c.handleWrite w) := by
  have hout := sends_writeOut c w
  unfold handleWrite finishWrite
  dsimp only
  split
  · split
    · exact hout.trans (sends_shutdownInLoop _)
    · exact hout
  · exact hout

theorem sends_userCall (c : TcpConnection) (u : UserCall) : Sends c (c.userCall u) := by
  cases u with
  | send data w =>
      show Sends c (c.send data w)
      unfold TcpConnection.send
      split
      · exact sends_sendInLoop c data w
      · exact Sends.refl c
  | shutdown =>
      show Sends c c.shutdown
      unfold TcpConnection.shutdown
      split
      · exact sends_shutdownInLoop (c.setState .kDisconnecting)
      · exact Sends.refl c
  | retrieve len => exact (Sends.refl c).of_trace_eq rfl

/-- User code on the loop thread only sends and shuts down. -/
theorem sends_userCalls (c : TcpConnection) (us : List UserCall) :
    Sends c (c.userCalls us) := by
  induction us generalizing c with
  | nil => exact Sends.refl c
  | cons u us ih => exact (sends_userCall c u).trans (ih _)

theorem Move.grows (h : Move ok c c') : c.trace <+: c'.trace := by
  cases h with
  | emit e he => exact List.prefix_append _ _
  | revents m => exact List.prefix_rfl
  | input b => exact List.prefix_rfl
  | poller p hp => exact List.prefix_rfl
  | disconnecting => exact List.prefix_rfl
  | sendInLoop data w hw => exact (sends_sendInLoop c data w).grows
  | writeOut w => exact (sends_writeOut c w).grows

theorem Moves.grows (h : Moves ok c c') : c.trace <+: c'.trace := by
  induction h with
  | refl => exact List.prefix_rfl
  | tail _ hstep ih => exact ih.trans hstep.grows

theorem Open.earlier (h : Open c') (hp : c.trace <+: c'.trace) : Open c :=
  fun e he => h e (hp.subset he)

/-- The trace has grown, and if the connection is still open then it got here by
moves. -/
def Advances (ok : WriteResult → Prop) (c c' : TcpConnection) : Prop :=
  c.trace <+: c'.trace ∧ (Open c' → Moves ok c c')

theorem Moves.advances (h : Moves ok c c') : Advances ok c c' := ⟨h.grows, fun _ => h⟩

theorem Move.advances (h : Move ok c c') : Advances ok c c' :=
  Moves.advances (Relation.ReflTransGen.single h)

theorem Advances.refl (c : TcpConnection) : Advances ok c c :=
  ⟨List.prefix_rfl, fun _ => Relation.ReflTransGen.refl⟩

theorem Advances.trans (h : Advances ok c c') (h' : Advances ok c' c'') :
    Advances ok c c'' :=
  ⟨h.1.trans h'.1, fun ho => (h.2 (Open.earlier ho h'.1)).trans (h'.2 ho)⟩

/-- An optional step. -/
theorem Advances.ite {b : Prop} {inst : Decidable b} (h : Advances ok c c') :
    Advances ok c (if b then c' else c) := by
  split
  · exact h
  · exact Advances.refl c

/-! ### Every function advances the connection -/

theorem moves_shutdownInLoop (c : TcpConnection) : Moves ok c c.shutdownInLoop := by
  unfold shutdownInLoop
  split
  · exact Relation.ReflTransGen.single (Move.emit c _ rfl)
  · exact Relation.ReflTransGen.refl

theorem moves_userCall (c : TcpConnection) {u : UserCall} (hu : u.Meets ok) :
    Moves ok c (c.userCall u) := by
  cases u with
  | send data w =>
      show Moves ok c (c.send data w)
      unfold TcpConnection.send
      split
      · exact Relation.ReflTransGen.single (Move.sendInLoop c data w hu)
      · exact Relation.ReflTransGen.refl
  | shutdown =>
      show Moves ok c c.shutdown
      unfold TcpConnection.shutdown
      split
      · exact (moves_shutdownInLoop _).head (Move.disconnecting c)
      · exact Relation.ReflTransGen.refl
  | retrieve len => exact Relation.ReflTransGen.single (Move.input c _)

theorem moves_userCalls {us : List UserCall} (c : TcpConnection)
    (hus : ∀ u ∈ us, u.Meets ok) : Moves ok c (c.userCalls us) := by
  induction us generalizing c with
  | nil => exact Relation.ReflTransGen.refl
  | cons u us ih =>
      have hu := moves_userCall c (hus u List.mem_cons_self)
      exact hu.trans (ih _ fun v hv => hus v (List.mem_cons_of_mem u hv))

/-- A connection whose trace has grown past a closing effect is not open. -/
theorem Advances.of_closed {e : Effect} (he : e.isClose = true)
    (hp : c.trace <+: c'.trace) (hmem : e ∈ c'.trace) : Advances ok c c' :=
  ⟨hp, fun ho => absurd (ho e hmem) (by simp [he])⟩

theorem advances_connectDestroyed (c : TcpConnection) (us : List UserCall) :
    Advances ok c (c.connectDestroyed us) := by
  refine Advances.of_closed (e := .connectDestroyed) rfl ?_ (by simp [connectDestroyed])
  unfold connectDestroyed
  dsimp only
  -- user code and the poller only add to the trace
  rw [emit_trace, withChannel_trace]
  refine List.IsPrefix.trans ?_ (List.prefix_append _ _)
  split
  · refine List.IsPrefix.trans ?_ (sends_userCalls _ us).grows
    simp
  · exact List.prefix_rfl

/-- `handleClose` is entered once the trace says so, and the trace only grows
after that. -/
theorem handleClose_grows (c : TcpConnection) (env : Env) :
    c.trace ++ [.handleClose] <+: (c.handleClose env).trace := by
  unfold handleClose
  dsimp only
  rw [emit_trace]
  refine List.IsPrefix.trans ?_ (List.prefix_append _ _)
  refine List.IsPrefix.trans ?_ (sends_userCalls _ env.onConnection).grows
  simp

theorem advances_handleClose (c : TcpConnection) (env : Env) :
    Advances ok c (c.handleClose env) := by
  have hp := handleClose_grows c env
  apply Advances.of_closed (e := .handleClose) rfl ((List.prefix_append _ _).trans hp)
  exact hp.subset (by simp)

theorem moves_handleError (c : TcpConnection) (errno : Errno) :
    Moves ok c (c.handleError errno) :=
  Relation.ReflTransGen.single (Move.emit c _ rfl)

theorem advances_handleRead (c : TcpConnection) {env : Env} (henv : env.Meets ok) :
    Advances ok c (c.handleRead env) := by
  have hread : Advances ok c { c with inputBuffer_ := (c.inputBuffer_.readFd env.readv 0).1 } :=
    Move.advances (Move.input c _)
  unfold handleRead
  dsimp only
  split
  · refine hread.trans (Moves.advances ?_)
    exact (moves_userCalls _ henv).head (Move.emit _ _ rfl)
  · split
    · exact hread.trans (advances_handleClose _ env)
    · refine hread.trans (Moves.advances ?_)
      exact (moves_handleError _ _).head (Move.emit _ _ rfl)

theorem moves_handleWrite (c : TcpConnection) (w : WriteResult) :
    Moves ok c (c.handleWrite w) := by
  have hout : Moves ok c (c.writeOut w).1 := Relation.ReflTransGen.single (Move.writeOut c w)
  unfold handleWrite
  dsimp only
  split
  · unfold finishWrite
    split
    · exact hout.trans (moves_shutdownInLoop _)
    · exact hout
  · exact hout

theorem advances_handleEventWithGuard (c : TcpConnection) {env : Env}
    (henv : env.Meets ok) : Advances ok c (c.handleEventWithGuard env) := by
  unfold handleEventWithGuard
  extract_lets revents c₁ c₂ c₃
  have h₁ : Advances ok c c₁ := Advances.ite (advances_handleClose c env)
  have h₂ : Advances ok c₁ c₂ := Advances.ite (moves_handleError c₁ 0).advances
  have h₃ : Advances ok c₂ c₃ := Advances.ite (advances_handleRead c₂ henv)
  exact h₁.trans (h₂.trans (h₃.trans (Advances.ite (moves_handleWrite c₃ env.write).advances)))

theorem advances_handleEvent (c : TcpConnection) (revents : Mask) {env : Env}
    (henv : env.Meets ok) : Advances ok c (c.handleEvent revents env) :=
  (Move.advances (Move.revents c revents)).trans (advances_handleEventWithGuard _ henv)

end TcpConnection

/-! ### The machine -/

/-- What happens to a connection, or to its poller through other channels, on the
loop thread. -/
inductive ConnEvent
  | handleEvent (revents : Mask) (env : Env)
  | otherChannels (p : EPollPoller)
  | sendInLoop (data : List Byte) (w : WriteResult)
  | shutdownInLoop
  | setDisconnecting
  | user (u : UserCall)
  | connectDestroyed (us : List UserCall)

def ConnEvent.Meets (ok : WriteResult → Prop) : ConnEvent → Prop
  | .handleEvent _ env => env.Meets ok
  | .sendInLoop _ w => ok w
  | .user u => u.Meets ok
  | _ => True

theorem UserCall.meets_true (u : UserCall) : u.Meets fun _ => True := by cases u <;> trivial

theorem ConnEvent.meets_true (e : ConnEvent) : e.Meets fun _ => True := by
  cases e with
  | handleEvent revents env =>
      exact fun u _ => u.meets_true
  | user u => exact u.meets_true
  | _ => trivial

def connNext (c : TcpConnection) : ConnEvent → Option TcpConnection
  | .handleEvent revents env =>
      if c.poller_.watches c.channel_.fd_ then some (c.handleEvent revents env) else none
  | .otherChannels p =>
      if p.epollSet c.channel_.fd_ = c.poller_.epollSet c.channel_.fd_ then
        some { c with poller_ := p }
      else none
  | .sendInLoop data w => some (c.sendInLoop data w)
  | .shutdownInLoop => some c.shutdownInLoop
  | .setDisconnecting => some (c.setState .kDisconnecting)
  | .user u => some (c.userCall u)
  | .connectDestroyed us => some (c.connectDestroyed us)

/-- A connection that `connectEstablished` has just established, on a poller that
does not know its fd yet. -/
def JustEstablished (ok : WriteResult → Prop) (c : TcpConnection) : Prop :=
  ∃ self fd writeComplete highWaterMarkSet highWaterMark p us,
    p.epollSet fd = none ∧ (∀ u ∈ us, u.Meets ok) ∧
      c = (TcpConnection.new self fd writeComplete highWaterMarkSet highWaterMark
        p).connectEstablished us

/-- Runs of a connection whose direct writes are answered within `ok`. -/
def connMachine (ok : WriteResult → Prop) : Machine TcpConnection ConnEvent where
  init := JustEstablished ok
  next := connNext

/-- A connection on fd 7 of a new poller: where the concrete runs start. -/
def firstConnection : TcpConnection :=
  (TcpConnection.new 1 7 true true 4 EPollPoller.new).connectEstablished []

/-- An event without bytes to read and without user code. -/
def quietEnv (w : WriteResult) : Env where
  readv := .fail EWOULDBLOCK
  indeterminate := id
  write := w
  onConnection := []
  onMessage := []

variable {ok : WriteResult → Prop} {c c' : TcpConnection} {e : ConnEvent}

open TcpConnection

theorem justEstablished_firstConnection : JustEstablished ok firstConnection :=
  ⟨1, 7, true, true, 4, EPollPoller.new, [], rfl, by simp, rfl⟩

/-- One step of the loop thread. -/
theorem advances_next (he : e.Meets ok) (h : connNext c e = some c') :
    Advances ok c c' := by
  cases e with
  | handleEvent revents env =>
      simp only [connNext, Option.ite_none_right_eq_some, Option.some.injEq] at h
      obtain ⟨-, rfl⟩ := h
      exact advances_handleEvent c revents he
  | otherChannels p =>
      simp only [connNext, Option.ite_none_right_eq_some, Option.some.injEq] at h
      obtain ⟨hp, rfl⟩ := h
      exact Move.advances (Move.poller c p hp)
  | sendInLoop data w =>
      obtain rfl := Option.some.inj h
      exact Move.advances (Move.sendInLoop c data w he)
  | shutdownInLoop =>
      obtain rfl := Option.some.inj h
      exact (moves_shutdownInLoop c).advances
  | setDisconnecting =>
      obtain rfl := Option.some.inj h
      exact Move.advances (Move.disconnecting c)
  | user u =>
      obtain rfl := Option.some.inj h
      exact (moves_userCall c he).advances
  | connectDestroyed us =>
      obtain rfl := Option.some.inj h
      exact advances_connectDestroyed c us

/-- A connection that has just announced itself: nothing was sent yet. -/
structure Fresh (c : TcpConnection) : Prop where
  established : Established c
  connected : c.state_ = .kConnected
  trace : c.trace = [.connectionCallback true]
  output : c.outputBuffer_.readable = []

/-- `connectEstablished` announces the connection. -/
theorem fresh_connectEstablished {self : ChannelPtr} {fd : Int} {wc hw : Bool} {mark : Nat}
    {p : EPollPoller} (hp : p.epollSet fd = none) :
    Fresh ((TcpConnection.new self fd wc hw mark p).connectEstablished []) := by
  unfold connectEstablished
  extract_lets c₁ src c₂ c₃
  show Fresh (c₃.emit (.connectionCallback c₃.connected))
  have hfree : Channel.Unregistered
      { c₂.channel_ with events_ := c₂.channel_.events_ ||| kReadEvent } c₂.poller_ :=
    ⟨Index.noConfusion, hp⟩
  have hnil : c₃.outputBuffer_.readable = [] := ValidBuffer.readable_new _
  refine ⟨⟨Or.inl rfl, hfree.registered, ?_⟩, rfl, rfl, hnil⟩
  show (Channel.enableReading c₂.channel_ c₂.poller_).1.events_
    = interest c₃.outputBuffer_.readable
  rw [hnil, Channel.enableReading, Channel.update_events]
  show (0 : Mask) ||| kReadEvent = interest []
  decide

/-- After that it runs user code. -/
theorem JustEstablished.fresh (h : JustEstablished ok c) :
    ∃ c₀, Fresh c₀ ∧ Moves ok c₀ c ∧ Sends c₀ c := by
  obtain ⟨self, fd, wc, hw, mark, p, us, hp, hus, rfl⟩ := h
  exact ⟨_, fresh_connectEstablished hp, moves_userCalls _ hus, sends_userCalls _ us⟩

/-- A run advances the connection from every earlier state. -/
theorem run_advances_from {c₀ : TcpConnection} {es : List ConnEvent} (h : Moves ok c₀ c)
    (hes : ∀ e ∈ es, e.Meets ok) (hrun : (connMachine ok).run c es = some c') :
    Advances ok c₀ c' := by
  refine Machine.run_invariant (I := Advances ok c₀) (P := fun _ e => e.Meets ok) ?_
    (Machine.along_of_forall fun _ e he => hes e he) hrun h.advances
  exact fun s e t hs he ht => hs.trans (advances_next he ht)

/-- **Runs of a connection.**  A run starts when the connection announces itself
and advances from there. -/
theorem run_advances {es : List ConnEvent} (hinit : JustEstablished ok c)
    (hes : ∀ e ∈ es, e.Meets ok) (hrun : (connMachine ok).run c es = some c') :
    ∃ c₀, Fresh c₀ ∧ Advances ok c₀ c' := by
  obtain ⟨c₀, hfresh, hmoves, -⟩ := hinit.fresh
  exact ⟨c₀, hfresh, run_advances_from hmoves hes hrun⟩

end Mymuduo
