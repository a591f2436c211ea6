/-
Mymuduo/Established.lean

Established connections, and what each function of the output path does to one.

A connection is established while it is alive, registered at its poller, and
has write interest exactly when its output buffer holds bytes.  Each function
has one lemma: what it leaves is established again, and here is the account of
the bytes that went to the kernel and of those that stayed.  The lemmas speak
about the effects a call adds to the trace, of which `written` and `sent` keep
the part that matters for the stream.
-/
import Mymuduo.TcpConnection

namespace Mymuduo

/-- The failures after which `sendInLoop` drops the data: it logs them, and then finds
EPIPE or ECONNRESET in `errno`. -/
def WriteResult.Fault : WriteResult → Prop
  | .accept _ => False
  | .fail e logged => e ≠ EWOULDBLOCK ∧ (logged = EPIPE ∨ logged = ECONNRESET)

instance : (w : WriteResult) → Decidable w.Fault
  | .accept _ => instDecidableFalse
  | .fail _ _ => inferInstanceAs (Decidable (_ ∧ _))

/-! ### Reading a trace -/

namespace Effect

/-- The bytes an effect put into the socket. -/
def bytes : Effect → List Byte
  | .write bs => bs
  | _ => []

/-- The data of a `sendInLoop` call. -/
def message : Effect → Option (List Byte)
  | .sendInLoop data => some data
  | _ => none

/-- The effects of writing: nothing that user code or the peer sees as an
event. -/
def isOutput : Effect → Bool
  | .write _ | .queueInLoop _ | .logError _ => true
  | _ => false

/-- The effects of sending and shutting down: no callback, and no end of the open
phase. -/
def isSending : Effect → Bool
  | .sendInLoop _ | .write _ | .queueInLoop _ | .logError _ | .shutdownWrite => true
  | _ => false

/-- The effects of an open connection outside its output path. -/
def isNeutral : Effect → Bool
  | .shutdownWrite | .messageCallback _ | .handleError _ | .logError _ => true
  | _ => false

/-- The effects that end a connection's open phase. -/
def isClose : Effect → Bool
  | .handleClose | .connectDestroyed => true
  | _ => false

end Effect

/-- The bytes the kernel has accepted. -/
def written (es : List Effect) : List Byte := es.flatMap Effect.bytes

/-- The data of the `sendInLoop` calls, in call order. -/
def sent (es : List Effect) : List (List Byte) := es.filterMap Effect.message

/-- Neither `handleClose` nor `connectDestroyed` has run. -/
def Open (c : TcpConnection) : Prop := ∀ e ∈ c.trace, e.isClose = false

instance (c : TcpConnection) : Decidable (Open c) :=
  inferInstanceAs (Decidable (∀ e ∈ c.trace, e.isClose = false))

@[simp] theorem written_nil : written [] = [] := rfl

@[simp] theorem written_cons (e : Effect) (es : List Effect) :
    written (e :: es) = e.bytes ++ written es := List.flatMap_cons

@[simp] theorem written_append (es fs : List Effect) :
    written (es ++ fs) = written es ++ written fs := List.flatMap_append

@[simp] theorem sent_append (es fs : List Effect) :
    sent (es ++ fs) = sent es ++ sent fs := List.filterMap_append

/-- Writing effects are no calls of `sendInLoop`. -/
theorem sent_of_isOutput {es : List Effect} (h : ∀ e ∈ es, e.isOutput = true) :
    sent es = [] := by
  apply List.filterMap_eq_nil_iff.mpr
  intro e he
  have := h e he
  cases e <;> simp_all [Effect.isOutput, Effect.message]

theorem Effect.isSending_of_isOutput {e : Effect} (h : e.isOutput = true) :
    e.isSending = true := by
  cases e <;> simp_all [Effect.isOutput, Effect.isSending]

namespace TcpConnection

variable {c : TcpConnection}

/-! ### Fields of the small updates -/

@[simp] theorem emit_trace (e : Effect) : (c.emit e).trace = c.trace ++ [e] := rfl
@[simp] theorem emit_state (e : Effect) : (c.emit e).state_ = c.state_ := rfl
@[simp] theorem emit_channel (e : Effect) : (c.emit e).channel_ = c.channel_ := rfl
@[simp] theorem emit_poller (e : Effect) : (c.emit e).poller_ = c.poller_ := rfl
@[simp] theorem emit_output (e : Effect) : (c.emit e).outputBuffer_ = c.outputBuffer_ := rfl
@[simp] theorem emit_input (e : Effect) : (c.emit e).inputBuffer_ = c.inputBuffer_ := rfl

@[simp] theorem withChannel_trace (r : Channel × EPollPoller) :
    (c.withChannel r).trace = c.trace := rfl
@[simp] theorem withChannel_state (r : Channel × EPollPoller) :
    (c.withChannel r).state_ = c.state_ := rfl
@[simp] theorem withChannel_channel (r : Channel × EPollPoller) :
    (c.withChannel r).channel_ = r.1 := rfl
@[simp] theorem withChannel_poller (r : Channel × EPollPoller) :
    (c.withChannel r).poller_ = r.2 := rfl
@[simp] theorem withChannel_output (r : Channel × EPollPoller) :
    (c.withChannel r).outputBuffer_ = c.outputBuffer_ := rfl
@[simp] theorem withChannel_input (r : Channel × EPollPoller) :
    (c.withChannel r).inputBuffer_ = c.inputBuffer_ := rfl

@[simp] theorem setState_trace (s : StateE) : (c.setState s).trace = c.trace := rfl
@[simp] theorem setState_state (s : StateE) : (c.setState s).state_ = s := rfl
@[simp] theorem setState_channel (s : StateE) : (c.setState s).channel_ = c.channel_ := rfl
@[simp] theorem setState_poller (s : StateE) : (c.setState s).poller_ = c.poller_ := rfl
@[simp] theorem setState_output (s : StateE) :
    (c.setState s).outputBuffer_ = c.outputBuffer_ := rfl

/-! ### Established connections -/

/-- The mask that goes with an output backlog. -/
def interest (backlog : List Byte) : Mask :=
  if backlog = [] then kReadEvent else kReadEvent ||| kWriteEvent

/-- What holds between two steps of an open connection. -/
structure Established (c : TcpConnection) : Prop where
  alive : c.state_ = .kConnected ∨ c.state_ = .kDisconnecting
  registered : c.channel_.Registered c.poller_
  mask : c.channel_.events_ = interest c.outputBuffer_.readable

theorem Established.isWriting (h : Established c) :
    c.channel_.isWriting = true ↔ c.outputBuffer_.readable ≠ [] := by
  rw [Channel.isWriting, h.mask, interest]
  split
  · rename_i hnil
    simp only [hnil, ne_eq, not_true_eq_false, iff_false]
    decide
  · rename_i hne
    simp only [ne_eq, hne, not_false_eq_true, iff_true]
    decide

theorem Established.not_isWriting (h : Established c) :
    c.channel_.isWriting = false ↔ c.outputBuffer_.readable = [] := by
  have := h.isWriting
  cases hw : c.channel_.isWriting <;> simp_all

/-- Only five members matter. -/
theorem Established.congr {c' : TcpConnection} (h : Established c)
    (hs : c'.state_ = c.state_) (hc : c'.channel_ = c.channel_) (hp : c'.poller_ = c.poller_)
    (ho : c'.outputBuffer_ = c.outputBuffer_) : Established c' := by
  obtain ⟨ha, hr, hm⟩ := h
  exact ⟨hs ▸ ha, by rw [hc, hp]; exact hr, by rw [hc, ho]; exact hm⟩

theorem Established.emit (h : Established c) (e : Effect) : Established (c.emit e) :=
  h.congr rfl rfl rfl rfl

/-! ### What the two writes can do -/

/-- The outcomes of the direct write of `sendInLoop`, if it is made. -/
inductive Tried (c : TcpConnection) (data : List Byte) (call : WriteCall) : Attempt → Prop
  | queued (hbusy : c.channel_.isWriting = true ∨ c.outputBuffer_.readable ≠ []) :
      Tried c data call ⟨c, 0, data.length, false⟩
  | completed (hidle : c.outputBuffer_.readable = []) (hret : 0 ≤ call.ret)
      (hall : data.length - call.ret.toNat = 0) (hcb : c.writeCompeleteCallback_ = true) :
      Tried c data call ⟨(c.emit (.write call.taken)).emit (.queueInLoop .writeComplete),
        call.ret.toNat, data.length - call.ret.toNat, false⟩
  | took (hidle : c.outputBuffer_.readable = []) (hret : 0 ≤ call.ret)
      (hrest : data.length - call.ret.toNat = 0 → c.writeCompeleteCallback_ = false) :
      Tried c data call ⟨c.emit (.write call.taken), call.ret.toNat,
        data.length - call.ret.toNat, false⟩
  | failed (hoff : c.channel_.isWriting = false) (hidle : c.outputBuffer_.readable = [])
      (hneg : call.ret < 0) (hlog : call.errno ≠ EWOULDBLOCK) :
      Tried c data call ⟨(c.emit (.write call.taken)).emit (.logError .directWrite), 0,
        data.length, decide (call.errnoLogged = EPIPE ∨ call.errnoLogged = ECONNRESET)⟩
  | blocked (hidle : c.outputBuffer_.readable = []) (hneg : call.ret < 0)
      (hblock : call.errno = EWOULDBLOCK) :
      Tried c data call ⟨c.emit (.write call.taken), 0, data.length, false⟩

theorem tryWrite_cases (c : TcpConnection) (data : List Byte) (w : WriteResult) :
    Tried c data (write w data) (c.tryWrite data w) := by
  unfold tryWrite
  generalize write w data = call
  split
  · rename_i hdirect
    have hidle : c.outputBuffer_.readable = [] :=
      c.outputBuffer_.readableBytes_eq_zero.mp hdirect.2
    dsimp only
    split
    · rename_i hret
      split
      · rename_i hall
        exact .completed hidle hret hall.1 hall.2
      · rename_i hrest
        exact .took hidle hret fun hall => Bool.eq_false_iff.mpr fun hcb => hrest ⟨hall, hcb⟩
    · rename_i hneg
      split
      · rename_i hlog
        exact .failed (by simpa using hdirect.1) hidle (not_le.mp hneg) hlog
      · rename_i hblock
        exact .blocked hidle (not_le.mp hneg) (not_not.mp hblock)
  · rename_i hbusy
    apply Tried.queued
    by_contra hidle
    obtain ⟨hoff, hnil⟩ := not_or.mp hidle
    exact hbusy ⟨by simpa using hoff, c.outputBuffer_.readableBytes_eq_zero.mpr (not_not.mp hnil)⟩

/-- The connection after a write that has taken the front of the backlog. -/
def afterWrite (c : TcpConnection) (call : WriteCall) : TcpConnection :=
  { c.emit (.write call.taken) with
    outputBuffer_ := c.outputBuffer_.retrieve call.ret.toNat }

@[simp] theorem afterWrite_trace (call : WriteCall) :
    (c.afterWrite call).trace = c.trace ++ [.write call.taken] := rfl
@[simp] theorem afterWrite_output (call : WriteCall) :
    (c.afterWrite call).outputBuffer_ = c.outputBuffer_.retrieve call.ret.toNat := rfl

/-- The outcomes of the first half of `handleWrite`. -/
inductive WroteOut (c : TcpConnection) (call : WriteCall) : TcpConnection × Bool → Prop
  | idle (hoff : c.channel_.isWriting = false) :
      WroteOut c call (c.emit (.logError .noMoreWriting), false)
  | nothing (hon : c.channel_.isWriting = true) (hret : call.ret ≤ 0) :
      WroteOut c call (c.emit (.write call.taken), false)
  | partly (hon : c.channel_.isWriting = true) (hret : 0 < call.ret)
      (hrest : (c.outputBuffer_.retrieve call.ret.toNat).readable ≠ []) :
      WroteOut c call ((c.afterWrite call).emit (.logError .handleWrite), false)
  | drained (hon : c.channel_.isWriting = true) (hret : 0 < call.ret)
      (hall : (c.outputBuffer_.retrieve call.ret.toNat).readable = [])
      (hcb : c.writeCompeleteCallback_ = false) :
      WroteOut c call
        ((c.afterWrite call).withChannel (c.channel_.disableWriting c.poller_), true)
  | completed (hon : c.channel_.isWriting = true) (hret : 0 < call.ret)
      (hall : (c.outputBuffer_.retrieve call.ret.toNat).readable = [])
      (hcb : c.writeCompeleteCallback_ = true) :
      WroteOut c call (((c.afterWrite call).withChannel
        (c.channel_.disableWriting c.poller_)).emit (.queueInLoop .writeComplete), true)

theorem writeOut_cases (c : TcpConnection) (w : WriteResult) :
    WroteOut c (write w c.outputBuffer_.readable) (c.writeOut w) := by
  unfold writeOut Buffer.writeFd
  generalize write w c.outputBuffer_.readable = call
  have hzero_iff := (c.outputBuffer_.retrieve call.ret.toNat).readableBytes_eq_zero
  split
  · rename_i hon
    dsimp only
    split
    · rename_i hret
      split
      · rename_i hzero
        have hall := hzero_iff.mp hzero
        split
        · rename_i hcb
          exact .completed hon hret hall hcb
        · rename_i hcb
          exact .drained hon hret hall (Bool.eq_false_iff.mpr hcb)
      · rename_i hrest
        exact .partly hon hret fun hnil => hrest (hzero_iff.mpr hnil)
    · rename_i hret
      exact .nothing hon (not_lt.mp hret)
  · rename_i hoff
    exact .idle (Bool.eq_false_iff.mpr hoff)

/-! ### `sendInLoop` -/

/-- `sendInLoop` gives its block up: the direct write fails, and the connection is taken
for lost. -/
def GivesUp (c : TcpConnection) (w : WriteResult) : Prop :=
  c.state_ ≠ .kDisconnected ∧ c.channel_.isWriting = false ∧
    c.outputBuffer_.readableBytes = 0 ∧ w.Fault

instance (c : TcpConnection) (w : WriteResult) : Decidable (c.GivesUp w) :=
  inferInstanceAs (Decidable (_ ∧ _))

/-- What `sendInLoop` keeps of its block, to be written now or later. -/
def kept (c : TcpConnection) (data : List Byte) (w : WriteResult) : List Byte :=
  if c.GivesUp w then [] else data

theorem kept_of_not_fault {data : List Byte} {w : WriteResult} (hw : ¬ w.Fault) :
    c.kept data w = data :=
  if_neg fun h => hw h.2.2.2

/-- What `tryWrite` leaves: nothing but effects of writing, and locals that
account for the bytes. -/
structure Attempted (c : TcpConnection) (data : List Byte) (w : WriteResult)
    (a : Attempt) : Prop where
  conn : ∃ es, a.conn = { c with trace := c.trace ++ es } ∧
    (∀ e ∈ es, e.isOutput = true) ∧ written es = data.take a.nwrote
  remaining : a.remaining = data.length - a.nwrote
  direct : a.nwrote ≠ 0 → c.outputBuffer_.readable = []
  lost : a.faultError = true → a.nwrote = 0
  fault : a.faultError = true ↔
    c.channel_.isWriting = false ∧ c.outputBuffer_.readable = [] ∧ w.Fault

theorem tryWrite_spec (c : TcpConnection) (data : List Byte) (w : WriteResult) :
    Attempted c data w (c.tryWrite data w) := by
  have hcases := write_cases w data
  have htried := tryWrite_cases c data w
  generalize hcall : write w data = call at hcases htried
  -- what a call took is what it returned
  have htook : 0 ≤ call.ret → call.taken = data.take call.ret.toNat := by
    intro hret
    rcases hcases with ⟨hlen, htaken⟩ | ⟨hneg, -, -⟩
    · rw [hlen, Int.toNat_natCast]
      exact htaken
    · omega
  have hnone : call.ret < 0 → call.taken = [] ∧ w = .fail call.errno call.errnoLogged := by
    intro hneg
    rcases hcases with ⟨hlen, -⟩ | ⟨-, htaken, hfail⟩
    · omega
    · exact ⟨htaken, hfail⟩
  have hfine : 0 ≤ call.ret → ¬ w.Fault := by
    intro hret hfault
    cases hw : w with
    | accept n => exact (hw ▸ hfault : WriteResult.Fault (.accept n))
    | fail e logged =>
        have hneg : (write w data).ret = -1 := by rw [hw]; rfl
        rw [hcall] at hneg
        omega
  generalize c.tryWrite data w = a at htried
  cases htried with
  | queued hbusy =>
      refine ⟨⟨[], by simp, by simp, by simp⟩, rfl, by simp, by simp,
        iff_of_false Bool.false_ne_true ?_⟩
      rintro ⟨hoff, hidle, -⟩
      rcases hbusy with hon | hne
      · exact absurd (hoff.symm.trans hon) Bool.false_ne_true
      · exact hne hidle
  | completed hidle hret hall hcb =>
      refine ⟨⟨[.write call.taken, .queueInLoop .writeComplete], by simp [emit],
        by simp [Effect.isOutput], ?_⟩, rfl, fun _ => hidle, by simp,
        iff_of_false Bool.false_ne_true fun h => hfine hret h.2.2⟩
      simpa [Effect.bytes] using htook hret
  | took hidle hret hrest =>
      refine ⟨⟨[.write call.taken], rfl, by simp [Effect.isOutput], ?_⟩, rfl, fun _ => hidle, by simp,
        iff_of_false Bool.false_ne_true fun h => hfine hret h.2.2⟩
      simpa [Effect.bytes] using htook hret
  | failed hoff hidle hneg hlog =>
      obtain ⟨htaken, hfail⟩ := hnone hneg
      refine ⟨⟨[.write call.taken, .logError .directWrite], by simp [emit],
        by simp [Effect.isOutput], by simp [Effect.bytes, htaken]⟩, rfl, by simp, by simp, ?_⟩
      rw [hfail]
      exact decide_eq_true_iff.trans ⟨fun h => ⟨hoff, hidle, hlog, h⟩, fun h => h.2.2.2⟩
  | blocked hidle hneg hblock =>
      obtain ⟨htaken, hfail⟩ := hnone hneg
      refine ⟨⟨[.write call.taken], rfl, by simp [Effect.isOutput],
        by simp [Effect.bytes, htaken]⟩, rfl, by simp, by simp,
        iff_of_false Bool.false_ne_true ?_⟩
      rw [hfail]
      exact fun h => h.2.2.1 hblock

/-- A block added to the output buffer, with write interest switched on if it
was off. -/
theorem Established.append (h : Established c) {rest : List Byte} (hrest : rest ≠ [])
    (c' : TcpConnection) (hc' : c' = { c with outputBuffer_ := c.outputBuffer_.append rest }) :
    Established (if !c'.channel_.isWriting then
      c'.withChannel (c'.channel_.enablewriting c'.poller_) else c') := by
  subst hc'
  have hread : (c.outputBuffer_.append rest).readable ≠ [] := by
    simp [hrest]
  have hmask : interest (c.outputBuffer_.append rest).readable = kReadEvent ||| kWriteEvent :=
    if_neg hread
  split
  · -- nothing was queued, so only read interest was on
    rename_i hoff
    have hevents : c.channel_.events_ = kReadEvent := by
      rw [h.mask, h.not_isWriting.mp (by simpa using hoff)]
      rfl
    refine ⟨h.alive, h.registered.modified (by rw [hevents]; decide), ?_⟩
    simp only [withChannel_channel, withChannel_output, hmask, Channel.enablewriting,
      Channel.update_events, hevents]
  · rename_i hon
    refine ⟨h.alive, h.registered, ?_⟩
    have hne := h.isWriting.mp (by simpa using hon)
    rw [h.mask, hmask, interest, if_neg hne]

/-- `queueRest` adds at most the high-water callback to the trace. -/
theorem queueRest_marks (a : Attempt) (data : List Byte) :
    ∃ es, (queueRest a data).trace = a.conn.trace ++ es ∧
      ∀ e ∈ es, ∃ len, e = .queueInLoop (.highWaterMark len) := by
  unfold queueRest
  dsimp only
  split
  · split
    · refine ⟨[.queueInLoop (.highWaterMark (a.conn.outputBuffer_.readableBytes + a.remaining))],
        ?_, by simp⟩
      split <;> rfl
    · refine ⟨[], ?_, by simp⟩
      split <;> simp
  · exact ⟨[], by simp, by simp⟩

theorem queueRest_trace (a : Attempt) (data : List Byte) :
    ∃ es, (queueRest a data).trace = a.conn.trace ++ es ∧ (∀ e ∈ es, e.isOutput = true) ∧
      written es = [] := by
  obtain ⟨es, htrace, hes⟩ := queueRest_marks a data
  refine ⟨es, htrace, fun e he => ?_, List.flatMap_eq_nil_iff.mpr fun e he => ?_⟩
  · obtain ⟨len, rfl⟩ := hes e he
    rfl
  · obtain ⟨len, rfl⟩ := hes e he
    rfl

/-- Nothing is left of the block. -/
theorem queueRest_done {a : Attempt} (h : a.remaining = 0) (data : List Byte) :
    queueRest a data = a.conn := by
  unfold queueRest
  rw [if_neg (by simp [h])]

theorem queueRest_state (a : Attempt) (data : List Byte) :
    (queueRest a data).state_ = a.conn.state_ := by
  unfold queueRest
  dsimp only
  split
  · split <;> split <;> rfl
  · rfl

/-- What is left of the block goes behind the backlog. -/
theorem queueRest_readable (a : Attempt) (data : List Byte) :
    (queueRest a data).outputBuffer_.readable = a.conn.outputBuffer_.readable ++
      if a.faultError then [] else (data.drop a.nwrote).take a.remaining := by
  unfold queueRest
  dsimp only
  split
  · rename_i hqueue
    have hfault : a.faultError = false := by simpa using hqueue.1
    rw [hfault]
    split <;> split <;> simp
  · rename_i hnone
    cases hfault : a.faultError with
    | true => simp
    | false =>
        have hzero : a.remaining = 0 := by
          by_contra hpos
          exact hnone ⟨by simp [hfault], Nat.pos_of_ne_zero hpos⟩
        simp [hzero]

theorem Established.queueRest {a : Attempt} (h : Established a.conn) {data : List Byte}
    (hrest : 0 < a.remaining → (data.drop a.nwrote).take a.remaining ≠ []) :
    Established (queueRest a data) := by
  unfold TcpConnection.queueRest
  dsimp only
  split
  · rename_i hqueue
    -- the high-water callback only adds an effect
    split
    · exact (h.emit _).append (hrest hqueue.2) _ rfl
    · exact h.append (hrest hqueue.2) _ rfl
  · exact h

/-- The rest of an attempt is what the kernel has not taken. -/
theorem Attempted.rest {data : List Byte} {w : WriteResult} {a : Attempt}
    (ha : Attempted c data w a) : (data.drop a.nwrote).take a.remaining = data.drop a.nwrote := by
  apply List.take_of_length_le
  rw [List.length_drop, ha.remaining]

/-- What `queueRest` makes of an attempt: the bytes that were not taken are
queued behind those that already were. -/
theorem queueRest_spec (h : Established c) {data : List Byte} {w : WriteResult} {a : Attempt}
    (ha : Attempted c data w a) :
    Established (queueRest a data) ∧ (queueRest a data).state_ = c.state_ ∧
      ∃ es, (queueRest a data).trace = c.trace ++ es ∧ (∀ e ∈ es, e.isOutput = true) ∧
        written es ++ (queueRest a data).outputBuffer_.readable
          = c.outputBuffer_.readable ++ if a.faultError then [] else data := by
  obtain ⟨es, hconn, hout, hwritten⟩ := ha.conn
  obtain ⟨fs, htrace, hout', hwritten'⟩ := queueRest_trace a data
  refine ⟨?_, ?_, es ++ fs, ?_, ?_, ?_⟩
  · apply Established.queueRest
    · rw [hconn]
      exact h.congr rfl rfl rfl rfl
    · intro hpos hnil
      rw [ha.rest, List.drop_eq_nil_iff] at hnil
      have := ha.remaining
      omega
  · rw [queueRest_state, hconn]
  · rw [htrace, hconn, List.append_assoc]
  · intro e he
    exact (List.mem_append.mp he).elim (hout e) (hout' e)
  · rw [queueRest_readable, hconn, written_append, hwritten, hwritten', List.append_nil]
    cases hfault : a.faultError with
    | true =>
        -- a write that fails takes nothing
        rw [(ha.lost hfault)]
        rfl
    | false =>
        show data.take a.nwrote ++ (c.outputBuffer_.readable
          ++ (data.drop a.nwrote).take a.remaining) = c.outputBuffer_.readable ++ data
        rw [ha.rest]
        -- the kernel took something directly only if nothing was queued
        by_cases hzero : a.nwrote = 0
        · rw [hzero]
          rfl
        · rw [ha.direct hzero, List.nil_append, List.nil_append, List.take_append_drop]

/-- `sendInLoop` on an established connection.  What it keeps of the data goes behind
everything kept before. -/
theorem sendInLoop_spec (h : Established c) (data : List Byte) (w : WriteResult) :
    Established (c.sendInLoop data w) ∧ (c.sendInLoop data w).state_ = c.state_ ∧
      ∃ es, (c.sendInLoop data w).trace = c.trace ++ .sendInLoop data :: es ∧
        (∀ e ∈ es, e.isOutput = true) ∧
        written es ++ (c.sendInLoop data w).outputBuffer_.readable
          = c.outputBuffer_.readable ++ c.kept data w := by
  have hne : (c.emit (.sendInLoop data)).state_ ≠ .kDisconnected := by
    rcases h.alive with hs | hs <;> simp [hs]
  have ha := tryWrite_spec (c.emit (.sendInLoop data)) data w
  obtain ⟨hest, hstate, es, htrace, hout, hstream⟩ := queueRest_spec (h.emit _) ha
  rw [sendInLoop, if_neg hne]
  refine ⟨hest, hstate, es, by rw [htrace]; simp, hout, hstream.trans (congrArg _ ?_)⟩
  refine if_congr (ha.fault.trans ?_) rfl rfl
  have hzero := c.outputBuffer_.readableBytes_eq_zero
  exact ⟨fun h => ⟨hne, h.1, hzero.mpr h.2.1, h.2.2⟩,
    fun h => ⟨h.2.1, hzero.mp h.2.2.1, h.2.2.2⟩⟩

/-! ### `handleWrite` and `shutdownInLoop` -/

/-- A part of the backlog leaves, and the interest stays. -/
theorem Established.retrieve (h : Established c) (hon : c.channel_.isWriting = true) {n : Nat}
    (hne : (c.outputBuffer_.retrieve n).readable ≠ []) :
    Established { c with outputBuffer_ := c.outputBuffer_.retrieve n } := by
  refine ⟨h.alive, h.registered, ?_⟩
  show c.channel_.events_ = interest (c.outputBuffer_.retrieve n).readable
  rw [h.mask, interest, interest, if_neg (h.isWriting.mp hon), if_neg hne]

/-- All of the backlog leaves, and write interest goes off. -/
theorem Established.drain (h : Established c) (hon : c.channel_.isWriting = true) {n : Nat}
    (hnil : (c.outputBuffer_.retrieve n).readable = []) :
    Established ({ c with outputBuffer_ := c.outputBuffer_.retrieve n }.withChannel
      (c.channel_.disableWriting c.poller_)) := by
  have hevents : c.channel_.events_ = kReadEvent ||| kWriteEvent := by
    rw [h.mask, interest, if_neg (h.isWriting.mp hon)]
  have hoff : (kReadEvent ||| kWriteEvent) &&& ~~~kWriteEvent = kReadEvent := by decide
  refine ⟨h.alive, h.registered.modified (by rw [hevents]; decide), ?_⟩
  show (c.channel_.disableWriting c.poller_).1.events_ =
    interest (c.outputBuffer_.retrieve n).readable
  rw [hnil, Channel.disableWriting, Channel.update_events, hevents, hoff]
  rfl

/-- The first half of `handleWrite` on an established connection: what the
kernel takes leaves the front of the output buffer. -/
theorem writeOut_spec (h : Established c) (w : WriteResult) :
    Established (c.writeOut w).1 ∧ (c.writeOut w).1.state_ = c.state_ ∧
      (∃ es, (c.writeOut w).1.trace = c.trace ++ es ∧ (∀ e ∈ es, e.isOutput = true) ∧
        written es ++ (c.writeOut w).1.outputBuffer_.readable = c.outputBuffer_.readable) ∧
      ((c.writeOut w).2 = true → (c.writeOut w).1.outputBuffer_.readable = []) := by
  have hsplit := write_taken_append_drop w c.outputBuffer_.readable
  have hnone : ¬ 0 < (write w c.outputBuffer_.readable).ret →
      (write w c.outputBuffer_.readable).taken = [] := write_taken_eq_nil
  have hwrote := writeOut_cases c w
  generalize write w c.outputBuffer_.readable = call at hsplit hnone hwrote
  rw [← ValidBuffer.readable_retrieve] at hsplit
  have hwrite : Established (c.emit (.write call.taken)) := h.emit _
  generalize c.writeOut w = r at hwrote ⊢
  cases hwrote with
  | idle hoff =>
      exact ⟨h.emit _, rfl, ⟨[.logError .noMoreWriting], rfl, by simp [Effect.isOutput],
        by simp [Effect.bytes]⟩, nofun⟩
  | nothing hon hret =>
      exact ⟨hwrite, rfl, ⟨[.write call.taken], rfl, by simp [Effect.isOutput],
        by simp [Effect.bytes, hnone (not_lt.mpr hret)]⟩, nofun⟩
  | partly hon hret hrest =>
      -- the rest stays, and so does the interest
      refine ⟨(hwrite.retrieve hon hrest).emit _, rfl,
        ⟨[.write call.taken, .logError .handleWrite], by simp,
          by simp [Effect.isOutput], ?_⟩, nofun⟩
      simpa [Effect.bytes] using hsplit
  | drained hon hret hall hcb =>
      -- write interest goes off
      refine ⟨hwrite.drain hon hall, rfl, ⟨[.write call.taken], rfl, by simp [Effect.isOutput], ?_⟩,
        fun _ => hall⟩
      simpa [Effect.bytes] using hsplit
  | completed hon hret hall hcb =>
      refine ⟨(hwrite.drain hon hall).emit _, rfl,
        ⟨[.write call.taken, .queueInLoop .writeComplete], by simp,
          by simp [Effect.isOutput], ?_⟩, fun _ => hall⟩
      simpa [Effect.bytes] using hsplit

/-- `shutdownInLoop` sends the FIN only when nothing is queued. -/
theorem shutdownInLoop_spec (h : Established c) :
    (c.outputBuffer_.readable = [] ∧ c.shutdownInLoop = c.emit .shutdownWrite) ∨
      (c.outputBuffer_.readable ≠ [] ∧ c.shutdownInLoop = c) := by
  unfold shutdownInLoop
  by_cases hon : c.channel_.isWriting = true
  · exact Or.inr ⟨h.isWriting.mp hon, by simp [hon]⟩
  · have hoff : c.channel_.isWriting = false := by simpa using hon
    exact Or.inl ⟨h.not_isWriting.mp hoff, by simp [hoff]⟩

/-! ### Settings -/

/-- The members that are set before the connection is established stay as they are. -/
structure SameSettings (c c' : TcpConnection) : Prop where
  writeComplete : c'.writeCompeleteCallback_ = c.writeCompeleteCallback_
  highWaterMarkCallback : c'.highWaterMarkCallback_ = c.highWaterMarkCallback_
  highWaterMark : c'.highWaterMark_ = c.highWaterMark_

theorem SameSettings.refl (c : TcpConnection) : SameSettings c c := ⟨rfl, rfl, rfl⟩

theorem SameSettings.trans {c' c'' : TcpConnection} (h : SameSettings c c')
    (h' : SameSettings c' c'') : SameSettings c c'' :=
  ⟨h'.writeComplete.trans h.writeComplete,
    h'.highWaterMarkCallback.trans h.highWaterMarkCallback,
    h'.highWaterMark.trans h.highWaterMark⟩

theorem sameSettings_tryWrite (c : TcpConnection) (data : List Byte) (w : WriteResult) :
    SameSettings c (c.tryWrite data w).conn := by
  have htried := tryWrite_cases c data w
  generalize c.tryWrite data w = a at htried
  cases htried with
  | _ => exact ⟨rfl, rfl, rfl⟩

theorem sameSettings_queueRest (a : Attempt) (data : List Byte) :
    SameSettings a.conn (queueRest a data) := by
  unfold queueRest
  dsimp only
  split
  · split <;> split <;> exact ⟨rfl, rfl, rfl⟩
  · exact .refl _

theorem sameSettings_sendInLoop (c : TcpConnection) (data : List Byte) (w : WriteResult) :
    SameSettings c (c.sendInLoop data w) := by
  have hemit : SameSettings c (c.emit (.sendInLoop data)) := ⟨rfl, rfl, rfl⟩
  unfold sendInLoop
  dsimp only
  split
  · exact ⟨rfl, rfl, rfl⟩
  · exact hemit.trans ((sameSettings_tryWrite _ data w).trans (sameSettings_queueRest _ data))

theorem sameSettings_writeOut (c : TcpConnection) (w : WriteResult) :
    SameSettings c (c.writeOut w).1 := by
  have hwrote := writeOut_cases c w
  generalize c.writeOut w = r at hwrote
  cases hwrote with
  | _ => exact ⟨rfl, rfl, rfl⟩

theorem sameSettings_handleWrite (c : TcpConnection) (w : WriteResult) :
    SameSettings c (c.handleWrite w) := by
  have hout := sameSettings_writeOut c w
  unfold handleWrite finishWrite shutdownInLoop
  dsimp only
  split
  · split
    · split
      · exact hout.trans ⟨rfl, rfl, rfl⟩
      · exact hout
    · exact hout
  · exact hout

end TcpConnection

end Mymuduo
