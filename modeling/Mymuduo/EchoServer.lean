/-
Mymuduo/EchoServer.lean

The echo server of example/testserver.cc on one connection.

`onMessage` takes everything out of the input buffer, sends it back and shuts the
connection down; `onConnection` only logs.  The call of `shutdown` makes the first
message the only one that is answered: it leaves the state kDisconnecting, in which
`send` and `shutdown` do nothing.

An event of `echoMachine` is an event of `connMachine` whose user code is that of the
server.  A connection it serves is listening, or replying to its first message, or has
its reply behind it and the FIN after that; each handler takes one of the three to one
of the three, or closes the connection, and what the trace says then is all it will
ever say.
-/
import Mymuduo.OutputPath
import Mymuduo.CallbackProtocol
import Mymuduo.ConnectionStep

namespace Mymuduo

open Transition TcpConnection

/-! ### The server -/

namespace EchoServer

/-- `EchoServer::onMessage`, on an input buffer that holds `input`; `w` answers the
direct write of its `send`. -/
def onMessage (input : List Byte) (w : WriteResult) : List UserCall :=
  [.retrieve input.length, .send input w, .shutdown]

/-- What the kernel does during one event. -/
structure Kernel where
  readv : ReadvResult
  indeterminate : Int → Int
  direct : WriteResult
  write : WriteResult

/-- The user code of an event: `onMessage` finds what `readFd` left in the buffer. -/
def env (c : TcpConnection) (k : Kernel) : Env where
  readv := k.readv
  indeterminate := k.indeterminate
  write := k.write
  onConnection := []
  onMessage := onMessage (c.inputBuffer_.readFd k.readv 0).1.readable k.direct

end EchoServer

inductive EchoEvent
  | handleEvent (revents : Mask) (k : EchoServer.Kernel)
  | otherChannels (p : EPollPoller)
  | connectDestroyed

/-- The event of the connection. -/
def EchoEvent.toConn (c : TcpConnection) : EchoEvent → ConnEvent
  | .handleEvent revents k => .handleEvent revents (EchoServer.env c k)
  | .otherChannels p => .otherChannels p
  | .connectDestroyed => .connectDestroyed []

/-- The direct write of the event is answered within `ok`. -/
def EchoEvent.Meets (ok : WriteResult → Prop) : EchoEvent → Prop
  | .handleEvent _ k => ok k.direct
  | _ => True

/-- Runs of a connection of the echo server, from `connectEstablished` on. -/
def echoMachine : Machine TcpConnection EchoEvent where
  init c := ∃ self fd writeComplete highWaterMarkSet highWaterMark p,
    p.epollSet fd = none ∧
      c = (TcpConnection.new self fd writeComplete highWaterMarkSet highWaterMark
        p).connectEstablished []
  next c e := connNext c (e.toConn c)

/-! ### What a trace says -/

/-- The input that a message callback was shown. -/
def Effect.input : Effect → Option (List Byte)
  | .messageCallback input => some input
  | _ => none

/-- The messages a connection was shown, in order. -/
def messages (es : List Effect) : List (List Byte) := es.filterMap Effect.input

/-- The effects that neither write nor send nor shut down. -/
def Effect.isMute : Effect → Bool
  | .write _ | .sendInLoop _ | .shutdownWrite => false
  | _ => true

variable {es fs : List Effect} {m : List Byte}

@[simp] theorem messages_append (es fs : List Effect) :
    messages (es ++ fs) = messages es ++ messages fs := List.filterMap_append

theorem messages_of_isOutput (hes : ∀ e ∈ es, e.isOutput = true) : messages es = [] := by
  apply List.filterMap_eq_nil_iff.mpr
  intro e he
  have := hes e he
  cases e <;> simp_all [Effect.isOutput, Effect.input]

theorem not_fin_of_isOutput (hes : ∀ e ∈ es, e.isOutput = true) : .shutdownWrite ∉ es := by
  intro hmem
  have := hes _ hmem
  cases this

theorem written_of_isMute (hes : ∀ e ∈ es, e.isMute = true) : written es = [] := by
  apply List.flatMap_eq_nil_iff.mpr
  intro e he
  have := hes e he
  cases e <;> simp_all [Effect.isMute, Effect.bytes]

theorem sent_of_isMute (hes : ∀ e ∈ es, e.isMute = true) : sent es = [] := by
  apply List.filterMap_eq_nil_iff.mpr
  intro e he
  have := hes e he
  cases e <;> simp_all [Effect.isMute, Effect.message]

theorem not_fin_of_isMute (hes : ∀ e ∈ es, e.isMute = true) : .shutdownWrite ∉ es := by
  intro hmem
  have := hes _ hmem
  cases this

/-- The FIN has gone out, once, right behind the bytes `m`. -/
def FinBehind (m : List Byte) (es : List Effect) : Prop :=
  ∃ xs ys, es = xs ++ .shutdownWrite :: ys ∧ .shutdownWrite ∉ xs ++ ys ∧
    written xs = m ∧ written ys = []

theorem FinBehind.mem (h : FinBehind m es) : .shutdownWrite ∈ es := by
  obtain ⟨xs, ys, rfl, -⟩ := h
  simp

theorem FinBehind.mute (h : FinBehind m es) (hfs : ∀ e ∈ fs, e.isMute = true) :
    FinBehind m (es ++ fs) := by
  obtain ⟨xs, ys, rfl, hnot, hxs, hys⟩ := h
  refine ⟨xs, ys ++ fs, by simp, ?_, hxs, ?_⟩
  · rw [← List.append_assoc, List.mem_append]
    exact fun hmem => hmem.elim hnot (not_fin_of_isMute hfs)
  · rw [written_append, hys, written_of_isMute hfs]
    rfl

/-- What the peer of an echo server gets: nothing but its first message, and a FIN only
behind all of it. -/
structure Replied (es : List Effect) : Prop where
  once : sent es = [] ∨ sent es = (messages es).take 1
  reply : written es <+: (messages es).headD []
  fin : .shutdownWrite ∉ es ∨ messages es ≠ [] ∧ FinBehind ((messages es).headD []) es

/-- A trace that says no more keeps its reply, whatever else is received. -/
theorem Replied.mute (h : Replied es) (hfs : ∀ e ∈ fs, e.isMute = true) :
    Replied (es ++ fs) := by
  obtain ⟨honce, hreply, hfin⟩ := h
  have hsent : sent (es ++ fs) = sent es := by
    rw [sent_append, sent_of_isMute hfs, List.append_nil]
  have hwritten : written (es ++ fs) = written es := by
    rw [written_append, written_of_isMute hfs, List.append_nil]
  have hnofin : .shutdownWrite ∉ es → .shutdownWrite ∉ es ++ fs := fun hnot hmem =>
    (List.mem_append.mp hmem).elim hnot (not_fin_of_isMute hfs)
  rcases hheard : messages es with _ | ⟨m, ms⟩
  · -- nothing was heard, so nothing was said
    rw [hheard] at honce hreply hfin
    have hnil : written es = [] := List.prefix_nil.mp hreply
    have hunsent : sent es = [] := honce.elim id id
    refine ⟨.inl (hsent.trans hunsent), ?_, .inl (hnofin (hfin.resolve_right fun h => h.1 rfl))⟩
    rw [hwritten, hnil]
    exact List.nil_prefix
  · have hmessages : messages (es ++ fs) = m :: (ms ++ messages fs) := by
      rw [messages_append, hheard]
      rfl
    rw [hheard] at honce hreply hfin
    refine ⟨?_, ?_, ?_⟩ <;> rw [hmessages]
    · rw [hsent]
      exact honce
    · rw [hwritten]
      exact hreply
    · rcases hfin with hnot | ⟨-, hbehind⟩
      · exact .inl (hnofin hnot)
      · exact .inr ⟨List.cons_ne_nil _ _, hbehind.mute hfs⟩

/-! ### Connections in service -/

variable {c c' : TcpConnection} {k : EchoServer.Kernel}

/-- Where an open connection of the echo server stands. -/
inductive Phase (c : TcpConnection) : Prop
  | listening (hstate : c.state_ = .kConnected) (hheard : messages c.trace = [])
      (hsent : sent c.trace = []) (hfin : .shutdownWrite ∉ c.trace)
  | replying (m : List Byte) (hstate : c.state_ = .kDisconnecting)
      (hheard : (messages c.trace).head? = some m) (hsent : sent c.trace = [m])
      (hrest : c.outputBuffer_.readable ≠ []) (hfin : .shutdownWrite ∉ c.trace)
  | finished (m : List Byte) (hstate : c.state_ = .kDisconnecting)
      (hheard : (messages c.trace).head? = some m) (hsent : sent c.trace = [m])
      (hrest : c.outputBuffer_.readable = []) (hfin : FinBehind m c.trace)

structure Serving (c : TcpConnection) : Prop where
  streamed : Streamed c
  isOpen : Open c
  phase : Phase c

/-- Closed by `handleClose`: there may be events, but nothing is sent or written. -/
structure Shut (c : TcpConnection) : Prop where
  state : c.state_ ≠ .kConnected
  closed : ¬ Open c
  replied : Replied c.trace
  off : c.channel_.isWriting = false

/-- Closed by `connectDestroyed`: there are no events. -/
structure Gone (c : TcpConnection) : Prop where
  state : c.state_ ≠ .kConnected
  closed : ¬ Open c
  replied : Replied c.trace
  unregistered : c.channel_.Unregistered c.poller_

theorem headD_of_head {l : List (List Byte)} (h : l.head? = some m) : l.headD [] = m := by
  rw [List.headD_eq_head?_getD, h]
  rfl

theorem ne_nil_of_head {l : List (List Byte)} (h : l.head? = some m) : l ≠ [] := by
  rintro rfl
  cases h

theorem take_one_of_head {l : List (List Byte)} (h : l.head? = some m) : l.take 1 = [m] := by
  obtain ⟨ms, rfl⟩ := List.head?_eq_some_iff.mp h
  rfl

/-- The bytes taken and those left are the first message. -/
theorem Serving.stream (h : Serving c) :
    written c.trace ++ c.outputBuffer_.readable = (messages c.trace).headD [] := by
  rw [h.streamed.stream]
  cases h.phase with
  | listening hstate hheard hsent hfin => rw [hheard, hsent]; rfl
  | replying m hstate hheard hsent hrest hfin =>
      rw [headD_of_head hheard, hsent, List.flatten_singleton]
  | finished m hstate hheard hsent hrest hfin =>
      rw [headD_of_head hheard, hsent, List.flatten_singleton]

theorem Serving.replied (h : Serving c) : Replied c.trace := by
  have hreply : written c.trace <+: (messages c.trace).headD [] := ⟨_, h.stream⟩
  cases h.phase with
  | listening hstate hheard hsent hfin => exact ⟨.inl hsent, hreply, .inl hfin⟩
  | replying m hstate hheard hsent hrest hfin =>
      exact ⟨.inr (by rw [hsent, take_one_of_head hheard]), hreply, .inl hfin⟩
  | finished m hstate hheard hsent hrest hfin =>
      refine ⟨.inr (by rw [hsent, take_one_of_head hheard]), hreply,
        .inr ⟨ne_nil_of_head hheard, ?_⟩⟩
      rw [headD_of_head hheard]
      exact hfin

/-- The FIN has gone out exactly when a message was heard and nothing of it is left. -/
theorem Serving.fin_iff (h : Serving c) : .shutdownWrite ∈ c.trace ↔
    messages c.trace ≠ [] ∧ c.outputBuffer_.readable = [] := by
  cases h.phase with
  | listening hstate hheard hsent hfin => simp [hfin, hheard]
  | replying m hstate hheard hsent hrest hfin => simp [hfin, hrest]
  | finished m hstate hheard hsent hrest hfin =>
      simp [hfin.mem, ne_nil_of_head hheard, hrest]

/-- What happens beside the reply.  New messages matter only to a connection that
listens. -/
theorem Serving.mute (h : Serving c) (hstreamed : Streamed c') (hstate : c'.state_ = c.state_)
    (houtput : c'.outputBuffer_ = c.outputBuffer_) (ht : c'.trace = c.trace ++ fs)
    (hfs : ∀ e ∈ fs, e.isMute = true) (hopen : ∀ e ∈ fs, e.isClose = false)
    (hheard : c.state_ = .kConnected → messages fs = []) : Serving c' := by
  have hsent : sent c'.trace = sent c.trace := by
    rw [ht, sent_append, sent_of_isMute hfs, List.append_nil]
  have hhead {m} (hm : (messages c.trace).head? = some m) :
      (messages c'.trace).head? = some m := by
    rw [ht, messages_append, List.head?_append, hm]
    rfl
  have hnofin (hnot : .shutdownWrite ∉ c.trace) : .shutdownWrite ∉ c'.trace := by
    rw [ht, List.mem_append]
    exact fun hmem => hmem.elim hnot (not_fin_of_isMute hfs)
  refine ⟨hstreamed, ?_, ?_⟩
  · intro e he
    rw [ht] at he
    exact (List.mem_append.mp he).elim (h.isOpen e) (hopen e)
  · cases h.phase with
    | listening hs hm hunsent hfin =>
        refine .listening (hstate.trans hs) ?_ (hsent.trans hunsent) (hnofin hfin)
        rw [ht, messages_append, hm, hheard hs]
        rfl
    | replying m hs hm hreply hrest hfin =>
        exact .replying m (hstate.trans hs) (hhead hm) (hsent.trans hreply)
          (by rw [houtput]; exact hrest) (hnofin hfin)
    | finished m hs hm hreply hrest hfin =>
        refine .finished m (hstate.trans hs) (hhead hm) (hsent.trans hreply)
          (by rw [houtput]; exact hrest) ?_
        rw [ht]
        exact hfin.mute hfs

theorem Serving.emit (h : Serving c) (e : Effect) (he : e.isNeutral = true)
    (hmute : e.isMute = true) (hheard : c.state_ = .kConnected → messages [e] = []) :
    Serving (c.emit e) := by
  have hmove : Move Benign c (c.emit e) := .emit c e he
  refine h.mute (h.streamed.move (fun _ hw => hw) hmove) rfl rfl rfl (by simpa using hmute) ?_
    hheard
  intro e' he'
  obtain rfl := List.mem_singleton.mp he'
  cases e' <;> simp_all [Effect.isNeutral, Effect.isClose]

/-- `shutdownInLoop` behind the reply: the FIN goes out now or stays due. -/
theorem serving_shutdownInLoop (hstreamed : Streamed c) (hopen : Open c)
    (hstate : c.state_ = .kDisconnecting) (hheard : (messages c.trace).head? = some m)
    (hsent : sent c.trace = [m]) (hfin : .shutdownWrite ∉ c.trace) :
    Serving c.shutdownInLoop := by
  have hmove : Move Benign c (c.emit .shutdownWrite) := .emit c _ rfl
  rcases shutdownInLoop_spec hstreamed.established with ⟨hnil, heq⟩ | ⟨hne, heq⟩ <;> rw [heq]
  · refine ⟨hstreamed.move (fun _ hw => hw) hmove, ?_, ?_⟩
    · intro e he
      rcases List.mem_append.mp he with he | he
      · exact hopen e he
      · obtain rfl := List.mem_singleton.mp he
        rfl
    · refine .finished m hstate ?_ ?_ hnil ⟨c.trace, [], rfl, by simpa using hfin, ?_, rfl⟩
      · rw [emit_trace, messages_append, List.head?_append, hheard]
        rfl
      · rw [emit_trace, sent_append, hsent]
        rfl
      · have hstream := hstreamed.stream
        rwa [hnil, List.append_nil, hsent, List.flatten_singleton] at hstream
  · exact ⟨hstreamed, hopen, .replying m hstate hheard hsent hne hfin⟩

/-! ### Handlers -/

theorem Serving.handleError (h : Serving c) (errno : Errno) : Serving (c.handleError errno) :=
  h.emit _ rfl rfl fun _ => rfl

theorem handleClose_ends (hreplied : Replied c.trace) {env : Env} (hnone : env.onConnection = []) :
    Shut (c.handleClose env) := by
  have hsame : c.handleClose env = c.handleClose env.withoutUser := by
    unfold TcpConnection.handleClose
    rw [hnone]
    rfl
  rw [hsame]
  have ht := c.handleClose_withoutUser env
  refine ⟨StateE.noConfusion, ?_, ?_, ?_⟩
  · intro hopen
    have := hopen .handleClose (by simp [ht])
    cases this
  · rw [ht]
    exact hreplied.mute (by simp [Effect.isMute])
  · show hasAny (c.channel_.disableAll c.poller_).1.events_ kWriteEvent = false
    rw [Channel.disableAll, Channel.update_events]
    show hasAny kNoneEvent kWriteEvent = false
    decide

/-- A write that leaves something behind leaves the write interest on. -/
theorem writeOut_rest (hne : c.outputBuffer_.readable ≠ []) {w : WriteResult}
    (hnot : (c.writeOut w).2 = false) :
    (c.writeOut w).1.outputBuffer_.readable ≠ [] := by
  have hwrote := writeOut_cases c w
  generalize c.writeOut w = r at hwrote hnot
  generalize write w c.outputBuffer_.readable = call at hwrote
  cases hwrote with
  | idle hoff => exact hne
  | nothing hon hret => exact hne
  | partly hon hret hrest => exact hrest
  | drained hon hret hall hcb => cases hnot
  | completed hon hret hall hcb => cases hnot

/-- With nothing to write, `handleWrite` only logs. -/
theorem handleWrite_idle (h : Established c) (hnil : c.outputBuffer_.readable = [])
    (w : WriteResult) : c.handleWrite w = c.emit (.logError .noMoreWriting) := by
  have hoff := h.not_isWriting.mpr hnil
  simp [TcpConnection.handleWrite, writeOut, hoff]

theorem Serving.handleWrite (h : Serving c) (w : WriteResult) : Serving (c.handleWrite w) := by
  have hest := h.streamed.established
  have hidle (hnil : c.outputBuffer_.readable = []) : Serving (c.handleWrite w) := by
    rw [handleWrite_idle hest hnil]
    exact h.emit _ rfl rfl fun _ => rfl
  cases h.phase with
  | listening hstate hheard hsent hfin =>
      have hstream := h.stream
      rw [hheard] at hstream
      exact hidle (List.append_eq_nil_iff.mp hstream).2
  | finished m hstate hheard hsent hrest hfin => exact hidle hrest
  | replying m hstate hheard hsent hrest hfin =>
      have hstreamed := h.streamed.writeOut w
      obtain ⟨-, hkept, ⟨es, ht, hout, -⟩, hdrained⟩ := writeOut_spec hest w
      have hopen : Open (c.writeOut w).1 := by
        intro e he
        rw [ht] at he
        rcases List.mem_append.mp he with he | he
        · exact h.isOpen e he
        · have := hout e he
          cases e <;> simp_all [Effect.isOutput, Effect.isClose]
      have hheard' : (messages (c.writeOut w).1.trace).head? = some m := by
        rw [ht, messages_append, messages_of_isOutput hout, List.append_nil, hheard]
      have hsent' : sent (c.writeOut w).1.trace = [m] := (sent_writeOut c w).trans hsent
      have hfin' : .shutdownWrite ∉ (c.writeOut w).1.trace := by
        rw [ht, List.mem_append]
        exact fun hmem => hmem.elim hfin (not_fin_of_isOutput hout)
      unfold TcpConnection.handleWrite
      dsimp only
      split
      · unfold finishWrite
        rw [if_pos (hkept.trans hstate)]
        exact serving_shutdownInLoop hstreamed hopen (hkept.trans hstate) hheard' hsent' hfin'
      · rename_i hnot
        exact ⟨hstreamed, hopen, .replying m (hkept.trans hstate) hheard' hsent'
          (writeOut_rest hrest (Bool.eq_false_iff.mpr hnot)) hfin'⟩

/-- The user code of `onMessage` on a connection that is not connected. -/
theorem onMessage_ignored (hs : c.state_ ≠ .kConnected) (input : List Byte) (w : WriteResult) :
    c.userCalls (EchoServer.onMessage input w) = c.userCall (.retrieve input.length) := by
  show ((c.userCall (.retrieve input.length)).send input w).shutdown = _
  have hs' : (c.userCall (.retrieve input.length)).state_ ≠ .kConnected := hs
  rw [TcpConnection.send, if_neg hs', TcpConnection.shutdown, if_neg hs']

/-- The user code of `onMessage` on a connected one. -/
theorem onMessage_answers (hs : c.state_ = .kConnected) (input : List Byte) (w : WriteResult)
    (hkept : ((c.userCall (.retrieve input.length)).sendInLoop input w).state_ = .kConnected) :
    c.userCalls (EchoServer.onMessage input w)
      = (((c.userCall (.retrieve input.length)).sendInLoop input w).setState
          .kDisconnecting).shutdownInLoop := by
  show ((c.userCall (.retrieve input.length)).send input w).shutdown = _
  have hs' : (c.userCall (.retrieve input.length)).state_ = .kConnected := hs
  rw [TcpConnection.send, if_pos hs', TcpConnection.shutdown, if_pos hkept]

theorem Serving.input (h : Serving c) (b : ValidBuffer) : Serving { c with inputBuffer_ := b } := by
  have hmove : Move Benign c { c with inputBuffer_ := b } := .input c b
  exact h.mute (h.streamed.move (fun _ hw => hw) hmove) rfl rfl (List.append_nil _).symm (by simp)
    (by simp) fun _ => rfl

/-- The first message is answered. -/
theorem Serving.answer (h : Serving c) (hs : c.state_ = .kConnected) (input : List Byte)
    {w : WriteResult} (hw : Benign w) :
    Serving ((c.emit (.messageCallback input)).userCalls (EchoServer.onMessage input w)) := by
  have hcase : messages c.trace = [] ∧ sent c.trace = [] ∧ .shutdownWrite ∉ c.trace := by
    cases h.phase with
    | listening hstate hheard hsent hfin => exact ⟨hheard, hsent, hfin⟩
    | replying m hstate => rw [hs] at hstate; cases hstate
    | finished m hstate => rw [hs] at hstate; cases hstate
  obtain ⟨hheard, hsent, hfin⟩ := hcase
  -- the message is shown and taken
  let c₂ := (c.emit (.messageCallback input)).userCall (.retrieve input.length)
  have hmoves : Moves Benign c c₂ :=
    (Relation.ReflTransGen.single (Move.emit c (.messageCallback input) rfl)).tail
      (Move.input _ _)
  have hstreamed : Streamed c₂ := h.streamed.moves (fun _ hw => hw) hmoves
  have ht₂ : c₂.trace = c.trace ++ [.messageCallback input] := rfl
  -- it is sent back
  obtain ⟨-, hkept, es, ht, hout, -⟩ := sendInLoop_spec hstreamed.established input w
  have hsend := hstreamed.sendInLoop input hw
  have hs₁ : (c.emit (.messageCallback input)).state_ = .kConnected := hs
  rw [onMessage_answers hs₁ input w (hkept.trans hs₁)]
  -- and the connection is shut down
  have hdown : Move Benign (c₂.sendInLoop input w)
      ((c₂.sendInLoop input w).setState .kDisconnecting) := .disconnecting _
  refine serving_shutdownInLoop (hsend.move (fun _ hw => hw) hdown) ?_ rfl (m := input) ?_ ?_ ?_
  · intro e he
    rw [setState_trace, ht, ht₂] at he
    simp only [List.mem_append, List.mem_cons, List.not_mem_nil, or_false] at he
    rcases he with (he | rfl) | rfl | he
    · exact h.isOpen e he
    · rfl
    · rfl
    · have := hout e he
      cases e <;> simp_all [Effect.isOutput, Effect.isClose]
  · rw [setState_trace, ht, ht₂, messages_append, messages_append, hheard]
    rfl
  · rw [setState_trace, sent_sendInLoop, ht₂, sent_append, hsent]
    rfl
  · rw [setState_trace, ht, ht₂]
    simp [hfin, not_fin_of_isOutput hout]

theorem Serving.handleRead (h : Serving c) (hw : Benign k.direct) :
    Serving (c.handleRead (EchoServer.env c k)) ∨ Shut (c.handleRead (EchoServer.env c k)) := by
  have hfilled : Serving (c.filled (EchoServer.env c k)) := h.input _
  rcases handleRead_ways c (EchoServer.env c k) with ⟨-, heq⟩ | ⟨-, heq⟩ | ⟨-, heq⟩ <;> rw [heq]
  · left
    generalize hinput : (c.filled (EchoServer.env c k)).inputBuffer_.readable = input
    have huser : (EchoServer.env c k).onMessage = EchoServer.onMessage input k.direct := by
      rw [← hinput]
      rfl
    rw [huser]
    by_cases hs : c.state_ = .kConnected
    · exact hfilled.answer hs input hw
    · -- a message behind the first one is dropped
      have hshown : Serving ((c.filled (EchoServer.env c k)).emit (.messageCallback input)) :=
        hfilled.emit _ rfl rfl fun hs' => absurd hs' hs
      have hs₁ : ((c.filled (EchoServer.env c k)).emit (.messageCallback input)).state_
          ≠ .kConnected := hs
      rw [onMessage_ignored hs₁]
      exact hshown.input _
  · exact .inr (handleClose_ends hfilled.replied rfl)
  · exact .inl ((hfilled.emit _ rfl rfl fun _ => rfl).handleError _)

/-! ### Closed connections -/

theorem not_open_of_grows (h : ¬ Open c) (ht : c'.trace = c.trace ++ fs) : ¬ Open c' :=
  fun hopen => h (Open.earlier hopen ⟨fs, ht.symm⟩)

theorem Shut.mute (h : Shut c) (hstate : c'.state_ = c.state_) (hchannel : c'.channel_ = c.channel_)
    (ht : c'.trace = c.trace ++ fs) (hfs : ∀ e ∈ fs, e.isMute = true) : Shut c' := by
  refine ⟨?_, not_open_of_grows h.closed ht, ?_, ?_⟩
  · rw [hstate]
    exact h.state
  · rw [ht]
    exact h.replied.mute hfs
  · rw [hchannel]
    exact h.off

theorem Shut.emit (h : Shut c) {e : Effect} (he : e.isMute = true) : Shut (c.emit e) :=
  h.mute rfl rfl rfl (by simpa using he)

theorem Shut.input (h : Shut c) (b : ValidBuffer) : Shut { c with inputBuffer_ := b } :=
  h.mute rfl rfl (List.append_nil _).symm (by simp)

theorem Shut.handleRead (h : Shut c) :
    Shut (c.handleRead (EchoServer.env c k)) := by
  have hfilled : Shut (c.filled (EchoServer.env c k)) := h.input _
  rcases handleRead_ways c (EchoServer.env c k) with ⟨-, heq⟩ | ⟨-, heq⟩ | ⟨-, heq⟩ <;> rw [heq]
  · have hshown := hfilled.emit (e := .messageCallback
      (c.filled (EchoServer.env c k)).inputBuffer_.readable) rfl
    have huser : (EchoServer.env c k).onMessage = EchoServer.onMessage
        (c.filled (EchoServer.env c k)).inputBuffer_.readable k.direct := rfl
    rw [huser, onMessage_ignored hshown.state]
    exact hshown.input _
  · exact handleClose_ends hfilled.replied rfl
  · exact (hfilled.emit rfl).emit rfl

theorem Shut.handleWrite (h : Shut c) (w : WriteResult) : Shut (c.handleWrite w) := by
  have hlog : c.handleWrite w = c.emit (.logError .noMoreWriting) := by
    simp [TcpConnection.handleWrite, writeOut, h.off]
  rw [hlog]
  exact h.emit rfl

/-! ### Events -/

theorem env_congr (h : c'.inputBuffer_ = c.inputBuffer_) :
    EchoServer.env c' k = EchoServer.env c k := by
  unfold EchoServer.env
  rw [h]

/-- Any mask on a connection that is in service or closed. -/
theorem served_handleEventWithGuard (h : Serving c ∨ Shut c) (hw : Benign k.direct) :
    Serving (c.handleEventWithGuard (EchoServer.env c k)) ∨
      Shut (c.handleEventWithGuard (EchoServer.env c k)) := by
  unfold TcpConnection.handleEventWithGuard
  extract_lets revents c₁ c₂ c₃
  have hreplied : Replied c.trace := h.elim Serving.replied Shut.replied
  have h₁ : (Serving c₁ ∨ Shut c₁) ∧ c₁.inputBuffer_ = c.inputBuffer_ := by
    by_cases hhup : hasAny revents EPOLLHUP ∧ !hasAny revents EPOLLIN
    · rw [show c₁ = c.handleClose (EchoServer.env c k) from if_pos hhup]
      exact ⟨.inr (handleClose_ends hreplied rfl), rfl⟩
    · rw [show c₁ = c from if_neg hhup]
      exact ⟨h, rfl⟩
  have h₂ : (Serving c₂ ∨ Shut c₂) ∧ c₂.inputBuffer_ = c.inputBuffer_ := by
    by_cases herr : hasAny revents EPOLLERR
    · rw [show c₂ = c₁.handleError 0 from if_pos herr]
      exact ⟨h₁.1.imp (·.handleError 0) (·.emit rfl), h₁.2⟩
    · rw [show c₂ = c₁ from if_neg herr]
      exact h₁
  have h₃ : Serving c₃ ∨ Shut c₃ := by
    by_cases hin : hasAny revents (EPOLLIN ||| EPOLLPRI)
    · -- the buffer is still the one that `env` looked at
      rw [show c₃ = c₂.handleRead (EchoServer.env c k) from if_pos hin, ← env_congr h₂.2]
      exact h₂.1.elim (·.handleRead hw) fun h => .inr h.handleRead
    · rw [show c₃ = c₂ from if_neg hin]
      exact h₂.1
  split
  · exact h₃.imp (·.handleWrite _) (·.handleWrite _)
  · exact h₃

/-! ### Destruction -/

theorem Channel.Unregistered.removed {ch : Channel} {p : EPollPoller} (h : ch.Unregistered p) :
    (ch.remove p).1.Unregistered (ch.remove p).2 := by
  refine ⟨Index.noConfusion, ?_⟩
  show (EPollPoller.removeChannel p ch).1.epollSet ch.fd_ = none
  rw [EPollPoller.removeChannel]
  dsimp only
  rw [if_neg h.index]
  exact h.kernel

theorem Channel.Registered.removed {ch : Channel} {p : EPollPoller} (h : ch.Registered p) :
    (ch.remove p).1.Unregistered (ch.remove p).2 := by
  refine ⟨Index.noConfusion, ?_⟩
  show (EPollPoller.removeChannel p ch).1.epollSet ch.fd_ = none
  simp [EPollPoller.removeChannel, h.index, EPollPoller.update, epoll_ctl, h.kernel]

theorem not_open_of_removeChannel (c : TcpConnection) : ¬ Open c.removeChannel := by
  intro hopen
  have := hopen .connectDestroyed (by simp [removeChannel])
  cases this

theorem Gone.removeChannel (h : Gone c) : Gone c.removeChannel :=
  ⟨h.state, not_open_of_removeChannel c, h.replied.mute (by simp [Effect.isMute]),
    h.unregistered.removed⟩

theorem Shut.removeChannel (h : Shut c) : Shut c.removeChannel :=
  ⟨h.state, not_open_of_removeChannel c, h.replied.mute (by simp [Effect.isMute]), h.off⟩

theorem Serving.connectDestroyed (h : Serving c) : Gone (c.connectDestroyed []) := by
  rw [connectDestroyed_eq]
  have hregistered := h.streamed.established.registered
  split
  · refine ⟨StateE.noConfusion, not_open_of_removeChannel _, ?_, hregistered.deleted.removed⟩
    have hdown : Replied (c.trace ++ [.connectionCallback false]) :=
      h.replied.mute (by simp [Effect.isMute])
    exact hdown.mute (by simp [Effect.isMute])
  · rename_i hs
    exact ⟨hs, not_open_of_removeChannel _, h.replied.mute (by simp [Effect.isMute]),
      hregistered.removed⟩

/-! ### Runs -/

/-- A connection of the echo server, in service or closed. -/
inductive Echoing (c : TcpConnection) : Prop
  | serving (h : Serving c)
  | shut (h : Shut c)
  | gone (h : Gone c)

theorem Echoing.of_served (h : Serving c ∨ Shut c) : Echoing c := h.elim .serving .shut

theorem Echoing.replied (h : Echoing c) : Replied c.trace := by
  cases h with
  | serving h => exact h.replied
  | shut h => exact h.replied
  | gone h => exact h.replied

theorem Echoing.serving_of_open (h : Echoing c) (hopen : Open c) : Serving c := by
  cases h with
  | serving h => exact h
  | shut h => exact absurd hopen h.closed
  | gone h => exact absurd hopen h.closed

theorem echoing_of_init (hinit : echoMachine.init c) : Echoing c := by
  obtain ⟨self, fd, wc, hw, mark, p, hp, rfl⟩ := hinit
  have hfresh : Fresh ((TcpConnection.new self fd wc hw mark p).connectEstablished []) :=
    fresh_connectEstablished hp
  refine .serving ⟨hfresh.streamed, ?_, .listening hfresh.connected ?_ ?_ ?_⟩
  · intro e he
    rw [hfresh.trace, List.mem_singleton] at he
    subst he
    rfl
  all_goals rw [hfresh.trace]
  · rfl
  · rfl
  · simp

/-- One event. -/
theorem Echoing.next {e : EchoEvent} (h : Echoing c) (he : e.Meets Benign)
    (hnext : echoMachine.next c e = some c') : Echoing c' := by
  cases e with
  | handleEvent revents k =>
      obtain ⟨hwatched, ht⟩ := Option.ite_none_right_eq_some.mp hnext
      cases ht
      have hstored : Serving c ∨ Shut c →
          Serving { c with channel_ := { c.channel_ with revents_ := revents } } ∨
            Shut { c with channel_ := { c.channel_ with revents_ := revents } } := by
        rintro (h | h)
        · have hmove : Move Benign c
              { c with channel_ := { c.channel_ with revents_ := revents } } := .revents c revents
          exact .inl (h.mute (h.streamed.move (fun _ hw => hw) hmove) rfl rfl
            (List.append_nil _).symm (by simp) (by simp) fun _ => rfl)
        · exact .inr ⟨h.state, h.closed, h.replied, h.off⟩
      cases h with
      | serving h => exact .of_served (served_handleEventWithGuard (hstored (.inl h)) he)
      | shut h => exact .of_served (served_handleEventWithGuard (hstored (.inr h)) he)
      | gone h =>
          -- the kernel reports only what it watches
          rw [EPollPoller.watches, h.unregistered.kernel] at hwatched
          cases hwatched
  | otherChannels p =>
      obtain ⟨hp, ht⟩ := Option.ite_none_right_eq_some.mp hnext
      cases ht
      cases h with
      | serving h =>
          have hmove : Move Benign c { c with poller_ := p } := .poller c p hp
          exact .serving (h.mute (h.streamed.move (fun _ hw => hw) hmove) rfl rfl
            (List.append_nil _).symm (by simp) (by simp) fun _ => rfl)
      | shut h => exact .shut ⟨h.state, h.closed, h.replied, h.off⟩
      | gone h =>
          exact .gone ⟨h.state, h.closed, h.replied, h.unregistered.index,
            hp.trans h.unregistered.kernel⟩
  | connectDestroyed =>
      obtain rfl := Option.some.inj hnext
      cases h with
      | serving h => exact .gone h.connectDestroyed
      | shut h =>
          show Echoing (c.connectDestroyed [])
          rw [connectDestroyed_eq, if_neg h.state]
          exact .shut h.removeChannel
      | gone h =>
          show Echoing (c.connectDestroyed [])
          rw [connectDestroyed_eq, if_neg h.state]
          exact .gone h.removeChannel

/-- **The echo server answers once.**  In every run in which no failed direct write finds
EPIPE or ECONNRESET in `errno` after its log line, whatever the peer sends and however it
is split, what went into the socket is a prefix of the first message, only that message
was sent, and a FIN stands behind all of its bytes, if there is one.  While the connection
is open, the bytes still to come are in the output buffer, and the FIN has gone out exactly
when a message was heard and the buffer is empty. -/
theorem echo_replies_once {es : List EchoEvent} (hinit : echoMachine.init c)
    (hes : ∀ e ∈ es, e.Meets Benign) (hrun : echoMachine.run c es = some c') :
    Replied c'.trace ∧ (Open c' →
      written c'.trace ++ c'.outputBuffer_.readable = (messages c'.trace).headD [] ∧
      (.shutdownWrite ∈ c'.trace ↔
        messages c'.trace ≠ [] ∧ c'.outputBuffer_.readable = [])) := by
  have hechoing : Echoing c' := Machine.run_invariant (P := fun _ e => e.Meets Benign)
    (fun _ _ _ h he hnext => h.next he hnext)
    (Machine.along_of_forall fun _ e he => hes e he) hrun (echoing_of_init hinit)
  refine ⟨hechoing.replied, fun hopen => ?_⟩
  have hserving := hechoing.serving_of_open hopen
  exact ⟨hserving.stream, hserving.fin_iff⟩

/-- The kernel takes one byte of the answer at once and the other two at a writable
event, which finds two more messages. -/
def threeMessages : List EchoEvent :=
  [.handleEvent EPOLLIN ⟨.deliver [1, 2, 3], id, .accept 1, .accept 0⟩,
    .handleEvent EPOLLIN ⟨.deliver [4], id, .accept 1, .accept 0⟩,
    .handleEvent (EPOLLIN ||| EPOLLOUT) ⟨.deliver [5], id, .accept 1, .accept 2⟩]

theorem echo_replies_once_messages :
    ∃ c, echoMachine.run firstConnection threeMessages = some c ∧ Replied c.trace ∧
      messages c.trace = [[1, 2, 3], [4], [5]] ∧ .shutdownWrite ∈ c.trace := by
  have hend : (echoMachine.run firstConnection threeMessages).any fun c =>
      decide (messages c.trace = [[1, 2, 3], [4], [5]] ∧ .shutdownWrite ∈ c.trace) := by
    decide +kernel
  obtain ⟨c, hrun, hc⟩ := (Option.any_eq_true _ _).mp hend
  obtain ⟨hmessages, hfin⟩ := of_decide_eq_true hc
  have hinit : echoMachine.init firstConnection :=
    ⟨1, 7, true, true, 4, EPollPoller.new, rfl, rfl⟩
  have hbenign : ∀ e ∈ threeMessages, e.Meets Benign := by
    simp [threeMessages, EchoEvent.Meets, Benign, WriteResult.Fault]
  exact ⟨c, hrun, (echo_replies_once hinit hbenign hrun).1, hmessages, hfin⟩

end Mymuduo
