/-
Mymuduo/CallbackProtocol.lean

The order of the user callbacks: UP, then messages, then DOWN.

A run goes through two phases.  While the connection is open the callbacks so
far are UP and messages (`Up`); after the first `handleClose`, or after
`connectDestroyed` on a connected connection, DOWN has been delivered and the
channel is out of the poller (`Down`).  Two steps leave this scheme:

* an event with EPOLLHUP and EPOLLPRI but without EPOLLIN goes through
  `handleClose` and then on to `handleRead`, which delivers a message or a second
  DOWN unless the read fails;
* `connectDestroyed` delivers DOWN only in state kConnected, so a connection that
  user code has shut down and that is then destroyed with its server never
  delivers DOWN.

`callback_protocol_iff` says that these are all.
-/
import Mathlib.Data.List.TakeWhile
import Mymuduo.ReadDispatch

namespace Mymuduo

open Transition TcpConnection

variable {c c' t : TcpConnection} {env : Env} {es fs : List Effect}

/-! ### Callbacks -/

inductive Callback
  | up
  | message
  | down
  deriving DecidableEq, Repr

/-- The user callback an effect is. -/
def Effect.callback : Effect → Option Callback
  | .connectionCallback true => some .up
  | .connectionCallback false => some .down
  | .messageCallback _ => some .message
  | _ => none

def callbacks (es : List Effect) : List Callback := es.filterMap Effect.callback

/-- UP, any number of messages, DOWN. -/
def Complete (cs : List Callback) : Prop := ∃ n, cs = .up :: List.replicate n .message ++ [.down]

/-- A prefix of such a sequence. -/
def Protocol (cs : List Callback) : Prop :=
  ∃ n, cs <+: .up :: List.replicate n .message ++ [.down]

/-- The effects before the first `connectDestroyed` returned. -/
def beforeDestroyed (es : List Effect) : List Effect := es.takeWhile (· ≠ .connectDestroyed)

/-- The protocol of the user callbacks. -/
structure CallbackProtocol (c : TcpConnection) : Prop where
  order : Protocol (callbacks c.trace)
  ended : .connectDestroyed ∈ c.trace → Complete (callbacks (beforeDestroyed c.trace))

@[simp] theorem callbacks_append (es fs : List Effect) :
    callbacks (es ++ fs) = callbacks es ++ callbacks fs := List.filterMap_append

theorem callbacks_of_isSending (hes : ∀ e ∈ es, e.isSending = true) : callbacks es = [] := by
  apply List.filterMap_eq_nil_iff.mpr
  intro e he
  have := hes e he
  cases e <;> simp_all [Effect.isSending, Effect.callback]

theorem Complete.protocol {cs : List Callback} (h : Complete cs) : Protocol cs := by
  obtain ⟨n, rfl⟩ := h
  exact ⟨n, List.prefix_rfl⟩

/-- Nothing comes after DOWN. -/
theorem not_protocol_after_down (cs : List Callback) {d : Callback} {ds : List Callback} :
    ¬ Protocol (cs ++ .down :: d :: ds) := by
  rintro ⟨n, rest, h⟩
  -- the last callback of the full sequence is its only DOWN
  have hinit := congrArg List.dropLast h
  rw [List.dropLast_concat, List.append_assoc,
    List.dropLast_append_of_ne_nil (by simp)] at hinit
  have hmem : Callback.down ∈ Callback.up :: List.replicate n .message := by
    rw [← hinit]
    simp
  simp at hmem

theorem beforeDestroyed_of_mem (h : .connectDestroyed ∈ es) :
    beforeDestroyed (es ++ fs) = beforeDestroyed es := by
  rw [beforeDestroyed, List.takeWhile_append, if_neg]
  · rfl
  · intro hlen
    have hall := List.takeWhile_eq_self_iff.mp
      ((List.takeWhile_prefix (p := (· ≠ Effect.connectDestroyed))).eq_of_length hlen)
    simpa using hall _ h

theorem ne_of_not_mem (h : .connectDestroyed ∉ es) :
    ∀ e ∈ es, decide (e ≠ .connectDestroyed) = true :=
  fun _ he => decide_eq_true fun heq => h (heq ▸ he)

theorem beforeDestroyed_of_not_mem (h : .connectDestroyed ∉ es) : beforeDestroyed es = es :=
  List.takeWhile_eq_self_iff.mpr (ne_of_not_mem h)

theorem beforeDestroyed_concat :
    beforeDestroyed (es ++ [.connectDestroyed]) = beforeDestroyed es := by
  by_cases h : .connectDestroyed ∈ es
  · exact beforeDestroyed_of_mem h
  · rw [beforeDestroyed, List.takeWhile_append_of_pos (ne_of_not_mem h),
      beforeDestroyed_of_not_mem h]
    simp

/-- What breaks the protocol once breaks it for good. -/
theorem CallbackProtocol.earlier (h : CallbackProtocol c') (hp : c.trace <+: c'.trace) :
    CallbackProtocol c := by
  obtain ⟨es, hes⟩ := hp
  obtain ⟨⟨n, hn⟩, hended⟩ := h
  refine ⟨⟨n, ?_⟩, fun hmem => ?_⟩
  · rw [← hes, callbacks_append] at hn
    exact (List.prefix_append _ _).trans hn
  -- what came before the first `connectDestroyed` has not changed
  · rw [← beforeDestroyed_of_mem hmem, hes]
    exact hended (hes ▸ List.mem_append_left es hmem)

/-! ### The two phases -/

/-- The connection is open and its callbacks so far are UP and messages. -/
structure Up (c : TcpConnection) : Prop where
  established : Established c
  isOpen : Open c
  calls : ∃ n, callbacks c.trace = .up :: List.replicate n .message

/-- Disconnected and out of the poller. -/
structure Detached (c : TcpConnection) : Prop where
  state : c.state_ = .kDisconnected
  mask : c.channel_.events_ = kNoneEvent
  unregistered : c.channel_.Unregistered c.poller_

/-- DOWN has been delivered, and before the first `connectDestroyed` returned. -/
structure Down (c : TcpConnection) : Prop where
  detached : Detached c
  calls : Complete (callbacks c.trace)
  ended : Complete (callbacks (beforeDestroyed c.trace))

theorem not_destroyed_of_isOpen (h : Open c) : .connectDestroyed ∉ c.trace :=
  fun hmem => by simpa [Effect.isClose] using h _ hmem

theorem Up.protocol (h : Up c) : CallbackProtocol c := by
  obtain ⟨n, hn⟩ := h.calls
  refine ⟨⟨n, hn ▸ List.prefix_append _ _⟩, fun hmem => ?_⟩
  exact absurd hmem (not_destroyed_of_isOpen h.isOpen)

theorem Down.protocol (h : Down c) : CallbackProtocol c :=
  ⟨h.calls.protocol, fun _ => h.ended⟩

/-- An open connection that advances and stays open, with messages at most. -/
theorem Up.advance (h : Up c) (hadv : Advances (fun _ => True) c c')
    (ht : c'.trace = c.trace ++ es) (hopen : ∀ e ∈ es, e.isClose = false) {k : Nat}
    (hcb : callbacks es = List.replicate k .message) : Up c' := by
  have hopen' : Open c' := by
    intro e he
    rw [ht] at he
    exact (List.mem_append.mp he).elim (h.isOpen e) (hopen e)
  obtain ⟨n, hn⟩ := h.calls
  refine ⟨h.established.moves (hadv.2 hopen'), hopen', n + k, ?_⟩
  rw [ht, callbacks_append, hn, hcb, List.cons_append, List.replicate_append_replicate]

/-- Sending keeps an open connection open. -/
theorem Up.sends (h : Up c) (hadv : Advances (fun _ => True) c c') (hs : Sends c c') : Up c' := by
  obtain ⟨es, ht, hes⟩ := hs
  refine h.advance hadv ht (fun e he => ?_) (k := 0) (callbacks_of_isSending hes)
  have := hes e he
  cases e <;> simp_all [Effect.isSending, Effect.isClose]

/-- The step that delivers DOWN. -/
theorem Up.close (h : Up c) (hd : Detached c') (ht : c'.trace = c.trace ++ es)
    (hcb : callbacks es = [.down]) (hnd : .connectDestroyed ∉ es) : Down c' := by
  obtain ⟨n, hn⟩ := h.calls
  have hcomplete : Complete (callbacks c'.trace) :=
    ⟨n, by rw [ht, callbacks_append, hn, hcb]⟩
  refine ⟨hd, hcomplete, ?_⟩
  rwa [beforeDestroyed_of_not_mem]
  rw [ht]
  simpa [hnd] using not_destroyed_of_isOpen h.isOpen

/-- Steps after DOWN that add no callback. -/
theorem Down.extend (h : Down c) (hd : Detached c') (ht : c'.trace = c.trace ++ es)
    (hcb : callbacks es = []) (hnd : .connectDestroyed ∉ es) : Down c' := by
  have hcomplete : Complete (callbacks c'.trace) := by
    rw [ht, callbacks_append, hcb, List.append_nil]
    exact h.calls
  refine ⟨hd, hcomplete, ?_⟩
  by_cases hmem : .connectDestroyed ∈ c.trace
  · rw [ht, beforeDestroyed_of_mem hmem]
    exact h.ended
  · rwa [beforeDestroyed_of_not_mem]
    rw [ht]
    simpa [hnd] using hmem

theorem Down.sends (h : Down c) (hd : Detached c') (hs : Sends c c') : Down c' := by
  obtain ⟨es, ht, hes⟩ := hs
  exact h.extend hd ht (callbacks_of_isSending hes) (not_mem_of_isSending hes rfl)

/-! ### Detached connections -/

theorem Detached.isWriting (h : Detached c) : c.channel_.isWriting = false := by
  rw [Channel.isWriting, h.mask]
  rfl

theorem Detached.congr (h : Detached c) (hs : c'.state_ = c.state_)
    (hc : c'.channel_ = c.channel_) (hp : c'.poller_ = c.poller_) : Detached c' := by
  obtain ⟨hst, hm, hu⟩ := h
  exact ⟨hs.trans hst, by rw [hc]; exact hm, by rw [hc, hp]; exact hu⟩

theorem Detached.emit (h : Detached c) (e : Effect) : Detached (c.emit e) :=
  h.congr rfl rfl rfl

theorem Detached.sendInLoop (h : Detached c) (data : List Byte) (w : WriteResult) :
    Detached (c.sendInLoop data w) := by
  unfold TcpConnection.sendInLoop
  rw [if_pos (show (c.emit (.sendInLoop data)).state_ = .kDisconnected from h.state)]
  exact h.congr rfl rfl rfl

theorem Detached.shutdownInLoop (h : Detached c) : Detached c.shutdownInLoop := by
  unfold TcpConnection.shutdownInLoop
  rw [if_pos (by simp [h.isWriting])]
  exact h.emit _

theorem Detached.userCall (h : Detached c) (u : UserCall) : Detached (c.userCall u) := by
  have hne : c.state_ ≠ .kConnected := by rw [h.state]; decide
  cases u with
  | send data w => simpa only [TcpConnection.userCall, TcpConnection.send, if_neg hne] using h
  | shutdown => simpa only [TcpConnection.userCall, TcpConnection.shutdown, if_neg hne] using h
  | retrieve len => exact h.congr rfl rfl rfl

theorem Detached.userCalls (h : Detached c) (us : List UserCall) :
    Detached (c.userCalls us) := by
  induction us generalizing c with
  | nil => exact h
  | cons u us ih => exact ih (h.userCall u)

theorem Detached.handleWrite (h : Detached c) (w : WriteResult) :
    Detached (c.handleWrite w) := by
  unfold TcpConnection.handleWrite writeOut
  rw [if_neg (by simp [h.isWriting])]
  exact h.emit _

/-- Disabling all events of an established connection takes it out of the
poller. -/
theorem TcpConnection.Established.detach (h : Established c) :
    Detached ((c.setState .kDisconnected).withChannel (c.channel_.disableAll c.poller_)) where
  state := rfl
  mask := Channel.update_events _ _
  unregistered := h.registered.deleted

theorem TcpConnection.Established.handleClose (h : Established c) (env : Env) :
    Detached (c.handleClose env) := by
  have hd := (h.emit .handleClose).detach
  exact ((hd.emit _).userCalls env.onConnection).emit .closeCallback

/-! ### The handlers in the two phases -/

theorem callbacks_handleClose (hes : ∀ e ∈ es, e.isSending = true) :
    callbacks (.handleClose :: .connectionCallback false :: es ++ [.closeCallback]) = [.down] := by
  rw [callbacks_append, show callbacks (.handleClose :: .connectionCallback false :: es)
    = .down :: callbacks es from rfl, callbacks_of_isSending hes]
  rfl

theorem Up.handleClose (h : Up c) (env : Env) : Down (c.handleClose env) := by
  obtain ⟨es, ht, hes⟩ := handleClose_trace c env
  apply h.close (h.established.handleClose env) ht (callbacks_handleClose hes)
  simp [not_mem_of_isSending hes (e := .connectDestroyed) rfl]

theorem Up.handleError (h : Up c) (errno : Errno) : Up (c.handleError errno) :=
  h.advance (moves_handleError c errno).advances rfl (by simp [Effect.isClose]) (k := 0) rfl

theorem Down.handleError (h : Down c) (errno : Errno) : Down (c.handleError errno) :=
  h.extend (h.detached.emit _) rfl rfl (by simp)

theorem Up.handleWrite (h : Up c) (w : WriteResult) : Up (c.handleWrite w) :=
  h.sends (moves_handleWrite c w).advances (sends_handleWrite c w)

theorem Down.handleWrite (h : Down c) (w : WriteResult) : Down (c.handleWrite w) :=
  h.sends (h.detached.handleWrite w) (sends_handleWrite c w)

theorem Up.handleRead (h : Up c) (env : Env) : Up (c.handleRead env) ∨ Down (c.handleRead env) := by
  have hadv : Advances (fun _ => True) c (c.handleRead env) :=
    advances_handleRead c fun u _ => u.meets_true
  rcases handleRead_dispatch c env with
    ⟨-, input, es, ht, hes⟩ | ⟨hn, -⟩ | ⟨-, ht⟩
  · refine Or.inl (h.advance hadv ht ?_ (k := 1) ?_)
    · intro e he
      rcases List.mem_cons.mp he with rfl | he
      · rfl
      · have := hes e he
        cases e <;> simp_all [Effect.isSending, Effect.isClose]
    · show Callback.message :: callbacks es = _
      rw [callbacks_of_isSending hes]
      rfl
  · apply Or.inr
    unfold TcpConnection.handleRead
    dsimp only
    rw [ValidBuffer.readFd_ret, Option.getD_none]
    change env.indeterminate _ = 0 at hn
    rw [if_neg (by omega), if_pos hn]
    have h₁ : Up { c with inputBuffer_ := (c.inputBuffer_.readFd env.readv 0).1 } :=
      h.sends (Move.input c _).advances (Sends.refl c)
    exact h₁.handleClose env
  · exact Or.inl (h.advance hadv ht (by simp [Effect.isClose]) (k := 0) rfl)

theorem Down.handleRead (h : Down c) (hn : readResult c env < 0) : Down (c.handleRead env) := by
  rcases handleRead_dispatch c env with ⟨hpos, -⟩ | ⟨hzero, -⟩ | ⟨-, ht⟩
  · omega
  · omega
  · refine h.extend ?_ ht rfl (by simp)
    unfold TcpConnection.handleRead
    dsimp only
    rw [ValidBuffer.readFd_ret, Option.getD_none]
    change env.indeterminate _ < 0 at hn
    rw [if_neg (by omega), if_neg (by omega)]
    exact h.detached.congr rfl rfl rfl

/-- A read that delivers bytes or the end of the stream, after DOWN. -/
theorem Down.broken_by_read (h : Down c) (hn : 0 ≤ readResult c env)
    (hs : Sends (c.handleRead env) c') : ¬ CallbackProtocol c' := by
  obtain ⟨n, hcalls⟩ := h.calls
  obtain ⟨fs, htfs, hfs⟩ := hs
  intro hprotocol
  have horder := hprotocol.order
  rw [htfs, callbacks_append, callbacks_of_isSending hfs, List.append_nil] at horder
  rcases handleRead_dispatch c env with
    ⟨-, input, es, ht, hes⟩ | ⟨-, es, ht, hes⟩ | ⟨hneg, -⟩
  · rw [ht, callbacks_append, hcalls, List.append_assoc] at horder
    exact not_protocol_after_down _ horder
  · rw [ht, callbacks_append, callbacks_handleClose hes, hcalls, List.append_assoc] at horder
    exact not_protocol_after_down _ horder
  · omega

/-! ### Destruction -/

theorem Down.connectDestroyed (h : Down c) (us : List UserCall) :
    Down (c.connectDestroyed us) := by
  have hne : c.state_ ≠ .kConnected := by rw [h.detached.state]; decide
  have hunreg := h.detached.unregistered
  have hc : c.connectDestroyed us
      = (c.withChannel (c.channel_.remove c.poller_)).emit .connectDestroyed := by
    unfold TcpConnection.connectDestroyed
    rw [if_neg hne]
  rw [hc]
  refine ⟨⟨h.detached.state, ?_, ?_⟩, ?_, ?_⟩
  · exact h.detached.mask
  · refine ⟨Index.noConfusion, ?_⟩
    show (EPollPoller.removeChannel c.poller_ c.channel_).1.epollSet c.channel_.fd_ = none
    rw [EPollPoller.removeChannel]
    dsimp only
    rw [if_neg hunreg.index]
    exact hunreg.kernel
  · rw [emit_trace, callbacks_append, show callbacks [.connectDestroyed] = [] from rfl,
      List.append_nil]
    exact h.calls
  · rw [emit_trace, beforeDestroyed_concat]
    exact h.ended

/-- On a connected connection, `connectDestroyed` delivers DOWN itself. -/
theorem Up.connectDestroyed (h : Up c) (hs : c.state_ = .kConnected) (us : List UserCall) :
    Down (c.connectDestroyed us) := by
  have hd := h.established.detach
  generalize hc₁ : (c.setState .kDisconnected).withChannel (c.channel_.disableAll c.poller_)
    = c₁ at hd
  have ht₁ : c₁.trace = c.trace := by rw [← hc₁]; rfl
  obtain ⟨es, ht, hes⟩ := sends_userCalls (c₁.emit (.connectionCallback c₁.connected)) us
  have hdown : Down ((c₁.emit (.connectionCallback c₁.connected)).userCalls us) := by
    have hlong : ((c₁.emit (.connectionCallback c₁.connected)).userCalls us).trace
        = c.trace ++ .connectionCallback false :: es := by
      rw [ht, emit_trace, ht₁, show c₁.connected = false by rw [← hc₁]; rfl]
      simp
    refine h.close ((hd.emit _).userCalls us) hlong ?_ ?_
    · show Callback.down :: callbacks es = [.down]
      rw [callbacks_of_isSending hes]
    · simpa using not_mem_of_isSending hes rfl
  have hc : c.connectDestroyed us
      = ((c₁.emit (.connectionCallback c₁.connected)).userCalls us).connectDestroyed us := by
    have hne : ((c₁.emit (.connectionCallback c₁.connected)).userCalls us).state_
        ≠ .kConnected := by
      rw [hdown.detached.state]; decide
    conv_rhs => unfold TcpConnection.connectDestroyed
    rw [if_neg hne]
    unfold TcpConnection.connectDestroyed
    rw [if_pos hs, ← hc₁]
    rfl
  rw [hc]
  exact hdown.connectDestroyed us

/-- On a connection that was shut down, it does not. -/
theorem Up.broken_by_connectDestroyed (h : Up c) (hs : c.state_ = .kDisconnecting)
    (us : List UserCall) : ¬ CallbackProtocol (c.connectDestroyed us) := by
  intro hprotocol
  have ht : (c.connectDestroyed us).trace = c.trace ++ [.connectDestroyed] := by
    unfold TcpConnection.connectDestroyed
    rw [if_neg (by rw [hs]; decide)]
    rfl
  obtain ⟨n, hn⟩ := h.calls
  have hended := hprotocol.ended (by rw [ht]; simp)
  rw [ht, beforeDestroyed_concat, beforeDestroyed_of_not_mem (not_destroyed_of_isOpen h.isOpen),
    hn] at hended
  obtain ⟨m, hm⟩ := hended
  have hdown : Callback.down ∈ Callback.up :: List.replicate n .message := by
    rw [hm]
    simp
  simp at hdown

/-! ### One event -/

/-- The event takes the path through `handleClose` into a `handleRead` that does not
fail. -/
def ReadsAfterClose (revents : Mask) (env : Env) : Prop :=
  (hasAny revents EPOLLHUP = true ∧ hasAny revents EPOLLIN = false) ∧
    hasAny revents EPOLLPRI = true ∧ env.readv.delivers = true

instance (revents : Mask) (env : Env) : Decidable (ReadsAfterClose revents env) := by
  unfold ReadsAfterClose
  infer_instance

theorem Up.handleEventWithGuard (h : Up c) (hid : env.indeterminate = id)
    (hgood : ¬ ReadsAfterClose c.channel_.revents_ env) :
    Up (c.handleEventWithGuard env) ∨ Down (c.handleEventWithGuard env) := by
  unfold TcpConnection.handleEventWithGuard
  extract_lets revents c₁ c₂ c₃
  by_cases hhup : hasAny revents EPOLLHUP ∧ !hasAny revents EPOLLIN
  · -- the connection closes first, and only a failing read may follow
    have h₁ : Down c₁ := by
      rw [show c₁ = c.handleClose env from if_pos hhup]
      exact h.handleClose env
    have h₂ : Down c₂ := by
      by_cases herr : hasAny revents EPOLLERR
      · rw [show c₂ = c₁.handleError 0 from if_pos herr]
        exact h₁.handleError 0
      · rwa [show c₂ = c₁ from if_neg herr]
    have h₃ : Down c₃ := by
      by_cases hin : hasAny revents (EPOLLIN ||| EPOLLPRI)
      · rw [show c₃ = c₂.handleRead env from if_pos hin]
        apply h₂.handleRead
        rw [readResult, hid, id_eq, readv_ret_neg_iff]
        by_contra hdelivers
        refine hgood ⟨⟨hhup.1, by simpa using hhup.2⟩, ?_, by simpa using hdelivers⟩
        exact ((hasAny_or _ _ _).mp hin).resolve_left (by simpa using hhup.2)
      · rwa [show c₃ = c₂ from if_neg hin]
    right
    split
    · exact h₃.handleWrite env.write
    · exact h₃
  · -- the connection is still up when the read comes
    have h₂ : Up c₂ := by
      have h₁ : c₁ = c := if_neg hhup
      by_cases herr : hasAny revents EPOLLERR
      · rw [show c₂ = c₁.handleError 0 from if_pos herr, h₁]
        exact h.handleError 0
      · rwa [show c₂ = c₁ from if_neg herr, h₁]
    have h₃ : Up c₃ ∨ Down c₃ := by
      by_cases hin : hasAny revents (EPOLLIN ||| EPOLLPRI)
      · rw [show c₃ = c₂.handleRead env from if_pos hin]
        exact h₂.handleRead env
      · rw [show c₃ = c₂ from if_neg hin]
        exact Or.inl h₂
    split
    · exact h₃.imp (·.handleWrite env.write) (·.handleWrite env.write)
    · exact h₃

/-- The path through `handleClose` into `handleRead` breaks the protocol. -/
theorem Up.broken_by_event (h : Up c) (hid : env.indeterminate = id)
    (hbad : ReadsAfterClose c.channel_.revents_ env) :
    ¬ CallbackProtocol (c.handleEventWithGuard env) := by
  obtain ⟨⟨hhup, hnin⟩, hpri, hdelivers⟩ := hbad
  unfold TcpConnection.handleEventWithGuard
  extract_lets revents c₁ c₂ c₃
  have h₁ : Down c₁ := by
    rw [show c₁ = c.handleClose env from if_pos ⟨hhup, by simpa using hnin⟩]
    exact h.handleClose env
  have h₂ : Down c₂ := by
    by_cases herr : hasAny revents EPOLLERR
    · rw [show c₂ = c₁.handleError 0 from if_pos herr]
      exact h₁.handleError 0
    · rwa [show c₂ = c₁ from if_neg herr]
  have h₃ : c₃ = c₂.handleRead env := if_pos ((hasAny_or _ _ _).mpr (Or.inr hpri))
  have hnonneg : 0 ≤ readResult c₂ env := by
    have := (readv_ret_neg_iff env.readv c₂.inputBuffer_.iovRoom).not
    rw [readResult, hid, id_eq]
    simpa [hdelivers] using this
  apply h₂.broken_by_read hnonneg
  rw [← h₃]
  split
  · exact sends_handleWrite c₃ env.write
  · exact Sends.refl c₃

/-! ### Runs -/

/-- Runs as the protocol speaks about them: `readFd` is taken to return what
`::readv` returned, and a `shutdown` finds the connection connected. -/
def Assumed (c : TcpConnection) : ConnEvent → Prop
  | .handleEvent _ env => env.indeterminate = id
  | .setDisconnecting => c.state_ = .kConnected
  | _ => True

/-- The steps that keep to the protocol. -/
def Orderly (c : TcpConnection) : ConnEvent → Prop
  | .handleEvent revents env => ¬ ReadsAfterClose revents env
  | .connectDestroyed _ => .connectDestroyed ∉ c.trace → c.state_ ≠ .kDisconnecting
  | _ => True

instance (c : TcpConnection) (e : ConnEvent) : Decidable (Orderly c e) := by
  cases e <;> unfold Orderly <;> infer_instance

/-- An orderly step of an open connection. -/
theorem Up.next {e : ConnEvent} (h : Up c) (hA : Assumed c e) (hP : Orderly c e)
    (hnext : connNext c e = some t) : Up t ∨ Down t := by
  have hadv : Advances (fun _ => True) c t := advances_next e.meets_true hnext
  cases e with
  | handleEvent revents env =>
      simp only [connNext, Option.ite_none_right_eq_some, Option.some.injEq] at hnext
      obtain ⟨-, rfl⟩ := hnext
      have h₀ := h.sends (Move.advances (Move.revents c revents)) (Sends.refl c)
      exact h₀.handleEventWithGuard hA hP
  | otherChannels p =>
      simp only [connNext, Option.ite_none_right_eq_some, Option.some.injEq] at hnext
      obtain ⟨-, rfl⟩ := hnext
      exact Or.inl (h.sends hadv (Sends.refl c))
  | sendInLoop data w =>
      obtain rfl := Option.some.inj hnext
      exact Or.inl (h.sends hadv (sends_sendInLoop c data w))
  | shutdownInLoop =>
      obtain rfl := Option.some.inj hnext
      exact Or.inl (h.sends hadv (sends_shutdownInLoop c))
  | setDisconnecting =>
      obtain rfl := Option.some.inj hnext
      exact Or.inl (h.sends hadv (Sends.refl c))
  | user u =>
      obtain rfl := Option.some.inj hnext
      exact Or.inl (h.sends hadv (sends_userCall c u))
  | connectDestroyed us =>
      obtain rfl := Option.some.inj hnext
      have hne := hP (not_destroyed_of_isOpen h.isOpen)
      exact Or.inr (h.connectDestroyed (h.established.alive.resolve_right hne) us)

/-- After DOWN the kernel reports no event, and every other step keeps the
phase. -/
theorem Down.next {e : ConnEvent} (h : Down c) (hA : Assumed c e)
    (hnext : connNext c e = some t) : Down t := by
  have hd := h.detached
  cases e with
  | handleEvent revents env =>
      simp [connNext, EPollPoller.watches, hd.unregistered.kernel] at hnext
  | otherChannels p =>
      simp only [connNext, Option.ite_none_right_eq_some, Option.some.injEq] at hnext
      obtain ⟨hp, rfl⟩ := hnext
      refine h.sends ⟨hd.state, hd.mask, hd.unregistered.index, ?_⟩ (Sends.refl c)
      exact hp.trans hd.unregistered.kernel
  | sendInLoop data w =>
      obtain rfl := Option.some.inj hnext
      exact h.sends (hd.sendInLoop data w) (sends_sendInLoop c data w)
  | shutdownInLoop =>
      obtain rfl := Option.some.inj hnext
      exact h.sends hd.shutdownInLoop (sends_shutdownInLoop c)
  | setDisconnecting => exact absurd hd.state (by rw [hA]; decide)
  | user u =>
      obtain rfl := Option.some.inj hnext
      exact h.sends (hd.userCall u) (sends_userCall c u)
  | connectDestroyed us =>
      obtain rfl := Option.some.inj hnext
      exact h.connectDestroyed us

/-- A step that is not orderly breaks the protocol. -/
theorem broken_of_not_orderly {e : ConnEvent} (h : Up c ∨ Down c) (hA : Assumed c e)
    (hP : ¬ Orderly c e) (hnext : connNext c e = some t) : ¬ CallbackProtocol t := by
  cases e with
  | handleEvent revents env =>
      rcases h with h | h
      · simp only [connNext, Option.ite_none_right_eq_some, Option.some.injEq] at hnext
        obtain ⟨-, rfl⟩ := hnext
        have h₀ := h.sends (Move.advances (Move.revents c revents)) (Sends.refl c)
        exact h₀.broken_by_event hA (not_not.mp hP)
      · simp [connNext, EPollPoller.watches, h.detached.unregistered.kernel] at hnext
  | connectDestroyed us =>
      obtain rfl := Option.some.inj hnext
      obtain ⟨-, hs⟩ := Classical.not_imp.mp hP
      rcases h with h | h
      · exact h.broken_by_connectDestroyed (not_not.mp hs) us
      · exact absurd h.detached.state (by rw [not_not.mp hs]; decide)
  | _ => exact absurd trivial hP

/-- A connection that was just established is up. -/
theorem JustEstablished.up (h : JustEstablished (fun _ => True) c) : Up c := by
  obtain ⟨c₀, hfresh, hmoves, hsends⟩ := h.fresh
  refine Up.sends ⟨hfresh.established, ?_, 0, ?_⟩ hmoves.advances hsends
  · rw [Open, hfresh.trace]
    simp [Effect.isClose]
  · rw [hfresh.trace]
    rfl

/-- The protocol of the user callbacks is broken. -/
def Broken (c : TcpConnection) : Prop := ¬ CallbackProtocol c

/-- **The callback protocol, exactly.**  A run keeps the protocol of the user
callbacks if and only if all its steps are orderly: no event takes the path
through `handleClose` into a `handleRead` that does not fail, and the first
`connectDestroyed` does not find the connection shutting down. -/
theorem callback_protocol_iff {es : List ConnEvent} (hinit : JustEstablished (fun _ => True) c)
    (hassumed : (connMachine fun _ => True).Along Assumed c es)
    (hrun : (connMachine fun _ => True).run c es = some t) :
    CallbackProtocol t ↔ (connMachine fun _ => True).Along Orderly c es := by
  have hexact : ¬ Broken t ↔ (connMachine fun _ => True).Along Orderly c es := by
    refine Machine.not_bad_iff_along (I := fun c => Up c ∨ Down c) ?_ ?_ ?_ ?_ hassumed hrun
      (Or.inl hinit.up)
    · intro s e t hs hA hP hnext
      exact hs.elim (·.next hA hP hnext) fun h => Or.inr (h.next hA hnext)
    · intro s e t hs hA hP hnext
      exact broken_of_not_orderly hs hA hP hnext
    · intro s e t hbad _ hnext hgood
      have hadv : Advances (fun _ => True) s t := advances_next e.meets_true hnext
      exact hbad (hgood.earlier hadv.1)
    · intro s hs hbad
      exact hbad (hs.elim Up.protocol Down.protocol)
  rw [← hexact, Broken, not_not]

/-! ### Concrete runs -/

/-- An event whose read ends in `r`, which is what the caller finds. -/
def readEnv (r : ReadvResult) (onMessage : List UserCall) : Env where
  readv := r
  indeterminate := id
  write := .accept 0
  onConnection := []
  onMessage := onMessage

/-- A message, the end of the stream, and the removal of the connection. -/
def messageThenEnd : List ConnEvent :=
  [.handleEvent EPOLLIN (readEnv (.deliver [65]) []),
    .handleEvent EPOLLIN (readEnv (.deliver []) []), .connectDestroyed []]

theorem callback_protocol_iff_message_then_end :
    ∃ t, (connMachine fun _ => True).run firstConnection messageThenEnd = some t ∧
      CallbackProtocol t := by
  have hrun : ((connMachine fun _ => True).run firstConnection messageThenEnd).isSome := by
    decide +kernel
  refine ⟨_, (Option.some_get hrun).symm, ?_⟩
  refine (callback_protocol_iff justEstablished_firstConnection ?_
    (Option.some_get hrun).symm).mpr (by decide +kernel)
  exact ⟨rfl, fun _ _ => ⟨rfl, fun _ _ => ⟨trivial, fun _ _ => trivial⟩⟩⟩

/-- The message callback shuts the connection down, and the server destroys it
before the peer closes. -/
def shutdownThenDestroyed : List ConnEvent :=
  [.handleEvent EPOLLIN (readEnv (.deliver [65]) [.shutdown]), .connectDestroyed []]

/-- The peer hangs up with urgent data pending, and the read finds the end of the
stream. -/
def hangupThenRead : List ConnEvent :=
  [.handleEvent (EPOLLHUP ||| EPOLLPRI) (readEnv (.deliver []) [])]

/-- No DOWN in the first run, two in the second. -/
theorem callback_protocol_broken :
    (∃ t, (connMachine fun _ => True).run firstConnection shutdownThenDestroyed = some t ∧
      callbacks (beforeDestroyed t.trace) = [.up, .message] ∧ ¬ CallbackProtocol t) ∧
    ∃ t, (connMachine fun _ => True).run firstConnection hangupThenRead = some t ∧
      callbacks t.trace = [.up, .down, .down] ∧ ¬ CallbackProtocol t := by
  constructor
  · have hrun : ((connMachine fun _ => True).run firstConnection
        shutdownThenDestroyed).isSome := by decide +kernel
    have hcalls : callbacks (beforeDestroyed (Option.get _ hrun).trace) = [.up, .message] := by
      decide +kernel +revert
    have hmem : .connectDestroyed ∈ (Option.get _ hrun).trace := by decide +kernel +revert
    refine ⟨_, (Option.some_get hrun).symm, hcalls, fun h => ?_⟩
    obtain ⟨n, hn⟩ := h.ended hmem
    have hdown : Callback.down ∈ [Callback.up, .message] := by
      rw [← hcalls, hn]
      simp
    simp at hdown
  · have hrun : ((connMachine fun _ => True).run firstConnection hangupThenRead).isSome := by
      decide +kernel
    have hcalls : callbacks (Option.get _ hrun).trace = [.up, .down, .down] := by
      decide +kernel +revert
    refine ⟨_, (Option.some_get hrun).symm, hcalls, fun h => ?_⟩
    have horder := h.order
    rw [hcalls] at horder
    exact not_protocol_after_down [.up] horder

end Mymuduo
