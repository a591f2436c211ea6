/-
Mymuduo/TcpConnection.lean

`TcpConnection` (TcpConnection.h, TcpConnection.cc) on its loop thread.

A connection value holds the members the loop thread works on, the poller of its
loop (`poller_`), and `trace`, the effects of the calls so far in order: what
went through `::write`, what was handed to `loop_->queueInLoop`, the user
callbacks, `socket_->shutdownWrite()`, the log lines of the error paths.  What
the kernel and the user callbacks do is an argument (`WriteResult`, `Env`).

The functions follow the source statement by statement.  `handleWrite` and
`sendInLoop` are cut into named halves, since other threads may act between
them: `handleWrite` loads `state_` after its write, and `shutdown` stores
`state_` before `shutdownInLoop` runs.

The connection is alive while its functions run; in `Channel::handleEvent` the
lock on `tie_` therefore succeeds.
-/
import Mymuduo.Buffer
import Mymuduo.EPollPoller

namespace Mymuduo

/-- `TcpConnection::StateE`. -/
inductive StateE
  | kDisconnected
  | kConnecting
  | kConnected
  | kDisconnecting
  deriving DecidableEq, Repr

/-- The callbacks a connection hands to `loop_->queueInLoop`. -/
inductive QueuedCallback
  | writeComplete
  | highWaterMark (len : Nat)
  deriving DecidableEq, Repr

/-- The places that log an error. -/
inductive LogSite
  | giveUpWriting
  | directWrite
  | handleRead
  | handleWrite
  | noMoreWriting
  deriving DecidableEq, Repr

/-- What a connection does to the outside, and the calls that matter for its
history. -/
inductive Effect
  | sendInLoop (data : List Byte)
  | write (bytes : List Byte)
  | shutdownWrite
  | queueInLoop (cb : QueuedCallback)
  | connectionCallback (connected : Bool)
  | messageCallback (input : List Byte)
  | handleClose
  | closeCallback
  | connectDestroyed
  | handleError (errno : Errno)
  | logError (site : LogSite)
  deriving DecidableEq, Repr

structure TcpConnection where
  state_ : StateE
  channel_ : Channel
  writeCompeleteCallback_ : Bool
  highWaterMarkCallback_ : Bool
  highWaterMark_ : Nat
  inputBuffer_ : ValidBuffer
  outputBuffer_ : ValidBuffer
  poller_ : EPollPoller
  trace : List Effect

/-- A call that user code makes on the connection, or on the input buffer it was
given, on the loop thread. -/
inductive UserCall
  | send (data : List Byte) (w : WriteResult)
  | shutdown
  | retrieve (len : Nat)
  deriving DecidableEq, Repr

/-- What the kernel and the user callbacks do during one event.  `indeterminate`
is the value the caller of `readFd` finds when `readFd` returns none; what
`::readv` returned before may decide it. -/
structure Env where
  readv : ReadvResult
  indeterminate : Int → Int
  write : WriteResult
  onConnection : List UserCall
  onMessage : List UserCall

namespace TcpConnection

/-- `TcpConnection::TcpConnection` and the setters called before
`connectEstablished`. -/
def new (self : ChannelPtr) (fd : Int) (writeComplete highWaterMarkSet : Bool)
    (highWaterMark : Nat) (p : EPollPoller) : TcpConnection where
  state_ := .kConnecting
  channel_ := Channel.new self fd
  writeCompeleteCallback_ := writeComplete
  highWaterMarkCallback_ := highWaterMarkSet
  highWaterMark_ := highWaterMark
  inputBuffer_ := ValidBuffer.new kInitialSize
  outputBuffer_ := ValidBuffer.new kInitialSize
  poller_ := p
  trace := []

def connected (c : TcpConnection) : Bool := c.state_ == .kConnected

def setState (c : TcpConnection) (s : StateE) : TcpConnection := { c with state_ := s }

def emit (c : TcpConnection) (e : Effect) : TcpConnection := { c with trace := c.trace ++ [e] }

/-- The channel and the poller after an interest operation. -/
def withChannel (c : TcpConnection) (r : Channel × EPollPoller) : TcpConnection :=
  { c with channel_ := r.1, poller_ := r.2 }

/-! ### Sending -/

/-- The locals of `sendInLoop` after its direct write. -/
structure Attempt where
  conn : TcpConnection
  nwrote : Nat
  remaining : Nat
  faultError : Bool

/-- The first half of `sendInLoop`: `::write` at once if nothing is queued. -/
def tryWrite (c : TcpConnection) (data : List Byte) (w : WriteResult) : Attempt :=
  if !c.channel_.isWriting ∧ c.outputBuffer_.readableBytes = 0 then
    let call := write w data
    let c := c.emit (.write call.taken)
    if 0 ≤ call.ret then
      let nwrote := call.ret.toNat
      let remaining := data.length - nwrote
      let c := if remaining = 0 ∧ c.writeCompeleteCallback_ then
          c.emit (.queueInLoop .writeComplete)
        else c
      { conn := c, nwrote := nwrote, remaining := remaining, faultError := false }
    else if call.errno ≠ EWOULDBLOCK then
      -- `errno` is read again behind the log line, which may have set it
      { conn := c.emit (.logError .directWrite), nwrote := 0, remaining := data.length,
        faultError := call.errnoLogged = EPIPE ∨ call.errnoLogged = ECONNRESET }
    -- a full socket buffer is no error: the whole block is left
    else { conn := c, nwrote := 0, remaining := data.length, faultError := false }
  else { conn := c, nwrote := 0, remaining := data.length, faultError := false }

/-- The second half of `sendInLoop`: queue what the direct write left. -/
def queueRest (a : Attempt) (data : List Byte) : TcpConnection :=
  let c := a.conn
  if !a.faultError ∧ 0 < a.remaining then
    let oldLen := c.outputBuffer_.readableBytes
    -- the callback is due when the mark is crossed, not at every block above it
    let c := if c.highWaterMark_ ≤ oldLen + a.remaining ∧ oldLen < c.highWaterMark_ ∧
        c.highWaterMarkCallback_ then
        c.emit (.queueInLoop (.highWaterMark (oldLen + a.remaining)))
      else c
    let c := { c with
      outputBuffer_ := c.outputBuffer_.append ((data.drop a.nwrote).take a.remaining) }
    if !c.channel_.isWriting then c.withChannel (c.channel_.enablewriting c.poller_) else c
  else c

def sendInLoop (c : TcpConnection) (data : List Byte) (w : WriteResult) : TcpConnection :=
  let c := c.emit (.sendInLoop data)
  if c.state_ = .kDisconnected then c.emit (.logError .giveUpWriting)
  else queueRest (c.tryWrite data w) data

def shutdownInLoop (c : TcpConnection) : TcpConnection :=
  if !c.channel_.isWriting then c.emit .shutdownWrite else c

/-- `send` on the loop thread. -/
def send (c : TcpConnection) (data : List Byte) (w : WriteResult) : TcpConnection :=
  if c.state_ = .kConnected then c.sendInLoop data w else c

/-- `shutdown` on the loop thread. -/
def shutdown (c : TcpConnection) : TcpConnection :=
  if c.state_ = .kConnected then (c.setState .kDisconnecting).shutdownInLoop else c

/-! ### User code on the loop thread -/

def userCall (c : TcpConnection) : UserCall → TcpConnection
  | .send data w => c.send data w
  | .shutdown => c.shutdown
  | .retrieve len => { c with inputBuffer_ := c.inputBuffer_.retrieve len }

def userCalls (c : TcpConnection) (us : List UserCall) : TcpConnection := us.foldl userCall c

/-! ### Establishing and destroying -/

def connectEstablished (c : TcpConnection) (us : List UserCall) : TcpConnection :=
  let c := c.setState .kConnected
  let c := { c with channel_ := { c.channel_ with tied_ := true } }
  let c := c.withChannel (c.channel_.enableReading c.poller_)
  (c.emit (.connectionCallback c.connected)).userCalls us

def connectDestroyed (c : TcpConnection) (us : List UserCall) : TcpConnection :=
  let c := if c.state_ = .kConnected then
      let c := c.setState .kDisconnected
      let c := c.withChannel (c.channel_.disableAll c.poller_)
      (c.emit (.connectionCallback c.connected)).userCalls us
    else c
  let c := c.withChannel (c.channel_.remove c.poller_)
  c.emit .connectDestroyed

/-- The body of the `if` of `connectDestroyed`, up to the calls of user code. -/
def markDestroyed (c : TcpConnection) : TcpConnection :=
  let c := c.setState .kDisconnected
  let c := c.withChannel (c.channel_.disableAll c.poller_)
  c.emit (.connectionCallback c.connected)

/-- The last statement of `connectDestroyed`. -/
def removeChannel (c : TcpConnection) : TcpConnection :=
  (c.withChannel (c.channel_.remove c.poller_)).emit .connectDestroyed

theorem connectDestroyed_eq (c : TcpConnection) (us : List UserCall) :
    c.connectDestroyed us =
      (if c.state_ = .kConnected then c.markDestroyed.userCalls us else c).removeChannel := rfl

/-! ### Event handlers -/

def handleError (c : TcpConnection) (errno : Errno) : TcpConnection :=
  c.emit (.handleError errno)

def handleClose (c : TcpConnection) (env : Env) : TcpConnection :=
  let c := c.emit .handleClose
  let c := c.setState .kDisconnected
  let c := c.withChannel (c.channel_.disableAll c.poller_)
  let c := (c.emit (.connectionCallback c.connected)).userCalls env.onConnection
  c.emit .closeCallback

def handleRead (c : TcpConnection) (env : Env) : TcpConnection :=
  let (input, savedErrno, ret) := c.inputBuffer_.readFd env.readv 0
  -- `readFd` returns nothing, so `n` is whatever the caller finds
  let n := ret.getD (env.indeterminate (readv env.readv c.inputBuffer_.iovRoom).ret)
  let c := { c with inputBuffer_ := input }
  if 0 < n then (c.emit (.messageCallback input.readable)).userCalls env.onMessage
  else if n = 0 then c.handleClose env
  else (c.emit (.logError .handleRead)).handleError savedErrno

/-- The first half of `handleWrite`, and whether it emptied the output buffer. -/
def writeOut (c : TcpConnection) (w : WriteResult) : TcpConnection × Bool :=
  if c.channel_.isWriting then
    let (call, _) := c.outputBuffer_.writeFd w 0
    let c := c.emit (.write call.taken)
    if 0 < call.ret then
      let c := { c with outputBuffer_ := c.outputBuffer_.retrieve call.ret.toNat }
      if c.outputBuffer_.readableBytes = 0 then
        let c := c.withChannel (c.channel_.disableWriting c.poller_)
        let c := if c.writeCompeleteCallback_ then c.emit (.queueInLoop .writeComplete) else c
        (c, true)
      -- the source logs a partial write as an error and waits for the next event
      else (c.emit (.logError .handleWrite), false)
    -- a failed write is not reported here
    else (c, false)
  else (c.emit (.logError .noMoreWriting), false)

/-- The second half of `handleWrite`, once the output buffer is empty. -/
def finishWrite (c : TcpConnection) : TcpConnection :=
  if c.state_ = .kDisconnecting then c.shutdownInLoop else c

def handleWrite (c : TcpConnection) (w : WriteResult) : TcpConnection :=
  let (c, drained) := c.writeOut w
  if drained then c.finishWrite else c

/-- `Channel::handleEventWithGuard` with the callbacks of a connection. -/
def handleEventWithGuard (c : TcpConnection) (env : Env) : TcpConnection :=
  let revents := c.channel_.revents_
  -- no branch returns: one mask may run several handlers
  let c := if hasAny revents EPOLLHUP ∧ !hasAny revents EPOLLIN then c.handleClose env else c
  let c := if hasAny revents EPOLLERR then c.handleError 0 else c
  let c := if hasAny revents (EPOLLIN ||| EPOLLPRI) then c.handleRead env else c
  if hasAny revents EPOLLOUT then c.handleWrite env.write else c

/-- `fillActiveChannels` stores the events, `Channel::handleEvent` dispatches
them. -/
def handleEvent (c : TcpConnection) (revents : Mask) (env : Env) : TcpConnection :=
  { c with channel_ := { c.channel_ with revents_ := revents } }.handleEventWithGuard env

end TcpConnection

end Mymuduo
