/-
Mymuduo/Acceptor.lean

The acceptor of a server on its base loop (Acceptor.cc, `Socket::accept`).

Connections that have completed wait in a queue of the kernel.  The listening descriptor
is ready as long as there are some; a report of it leads to one `accept4`, which takes
the first of them, so the others are left to the polls after that.  Nothing is lost when
`accept4` fails for want of descriptors: the queue stays as it is and is reported again.
That a failed `accept4` leaves the queue alone, unless the connection in front was aborted,
is assumed of the kernel, as accept(2) documents it.

`arrivals_accounted`: what has arrived has been handed to `newConnectionCallback_`, or
closed, or was aborted by its peer, or still waits, in the order of the arrivals.
`accepted_in_time` bounds the number of polls that a connection waits for.
-/
import Mymuduo.EventList
import Mymuduo.AddressText

namespace Mymuduo

open Transition

/-! ### accept4 -/

def EMFILE : Errno := 24
def ECONNABORTED : Errno := 103

/-- The kernel's answer to an `accept4` that finds a connection: a descriptor, or the
error, and what a log line after it leaves in `errno`. -/
inductive AcceptResult
  | accept (connfd : Nat)
  | fail (errno logged : Errno)
  deriving DecidableEq, Repr

def AcceptResult.errnoLogged : AcceptResult → Errno
  | .accept _ => EWOULDBLOCK
  | .fail _ logged => logged

/-- What `accept4` returns, the address it fills in, and the queue it leaves. -/
structure AcceptCall where
  ret : Int
  errno : Errno
  errnoLogged : Errno
  addr : InetAddress
  queue : List InetAddress

/-- `::accept4(sockfd, &addr, &len, SOCK_NONBLOCK)` with `addr` set to zero before.  The
kernel's part is what accept(2) documents: the first connection is taken, an aborted one
is given up, and other errors leave the queue as it is. -/
def accept4 (r : AcceptResult) : List InetAddress → AcceptCall
  | [] => ⟨-1, EWOULDBLOCK, r.errnoLogged, ⟨(0, 0, 0, 0), 0⟩, []⟩
  | peer :: rest =>
      match r with
      | .accept connfd => ⟨connfd, 0, 0, peer, rest⟩
      | .fail errno logged => ⟨-1, errno, logged, ⟨(0, 0, 0, 0), 0⟩,
          if errno = ECONNABORTED then rest else peer :: rest⟩

/-- `Socket::accept(InetAddress *peeraddr)`. -/
def Socket.accept (call : AcceptCall) (peeraddr : InetAddress) : Int × InetAddress :=
  (call.ret, if 0 ≤ call.ret then call.addr else peeraddr)

/-! ### Acceptor -/

/-- What the acceptor does to the outside. -/
inductive AcceptEffect
  | newConnection (connfd : Int) (peer : InetAddress)
  | close (connfd : Int)
  | logError (errno : Errno)
  | logLimit
  deriving DecidableEq, Repr

structure Acceptor where
  acceptChannel_ : Channel
  newConnectionCallback_ : Bool
  listening_ : Bool
  trace : List AcceptEffect

namespace Acceptor

/-- `Acceptor::Acceptor`, on the descriptor of `createNonblocking`. -/
def new (self : ChannelPtr) (sockfd : Int) : Acceptor where
  acceptChannel_ := Channel.new self sockfd
  newConnectionCallback_ := false
  listening_ := false
  trace := []

def emit (a : Acceptor) (e : AcceptEffect) : Acceptor := { a with trace := a.trace ++ [e] }

def handleRead (a : Acceptor) (call : AcceptCall) : Acceptor :=
  let (connfd, peerAddr) := Socket.accept call (InetAddress.new 0 "127.0.0.1".toList)
  if 0 ≤ connfd then
    if a.newConnectionCallback_ then a.emit (.newConnection connfd peerAddr)
    else a.emit (.close connfd)
  else
    let a := a.emit (.logError call.errno)
    -- `errno` is read again, after the log line
    if call.errnoLogged = EMFILE then a.emit .logLimit else a

/-- `Channel::handleEventWithGuard`; the acceptor sets the read callback only. -/
def handleEvent (a : Acceptor) (revents : Mask) (call : AcceptCall) : Acceptor :=
  if hasAny revents (EPOLLIN ||| EPOLLPRI) then a.handleRead call else a

end Acceptor

/-! ### The base loop -/

/-- What the base loop does next for the acceptor: the last statement of `listen`, or
the event that the last poll has reported. -/
inductive BaseTask
  | idle
  | enableReading
  | handleEvent (revents : Mask)
  deriving DecidableEq, Repr

/-- The acceptor, the poller it is registered with, and the connections that wait in the
kernel; `closed` once `~Acceptor` has run. -/
structure AcceptLoop where
  polling : Polling
  acceptor : Acceptor
  queue : List InetAddress
  todo : BaseTask
  closed : Bool

/-- The interest operations are those of the other channels of the loop. -/
inductive AcceptEvent
  | setNewConnectionCallback
  | listen
  | enableReading
  | turn (env : WaitEnv)
  | handleEvent (r : AcceptResult)
  | destroy
  | connect (peer : InetAddress)
  | updateChannel (c : Channel)
  | removeChannel (c : Channel)
  | wake (fd : Int)

/-- A descriptor that becomes ready while it is watched goes to the end of the list. -/
def Polling.wake (p : Polling) (fd : Int) : Polling :=
  if p.poller.watches fd = true ∧ fd ∉ p.ready then { p with ready := p.ready ++ [fd] } else p

namespace AcceptLoop

def listenfd (s : AcceptLoop) : Int := s.acceptor.acceptChannel_.fd_

/-- A listening descriptor is readable while connections wait. -/
def waitEnv (s : AcceptLoop) (env : WaitEnv) : WaitEnv :=
  { env with state := Function.update env.state s.listenfd (if s.queue = [] then 0 else EPOLLIN) }

def turn (s : AcceptLoop) (env : WaitEnv) : AcceptLoop :=
  { s with
    polling := s.polling.turn (s.waitEnv env)
    todo := match (s.polling.reported (s.waitEnv env)).lookup s.listenfd with
      | some ev => .handleEvent ev.events
      | none => .idle }

/-- `acceptChannel_.enableReading()`; with connections in the queue the descriptor is
ready at once. -/
def enableReading (s : AcceptLoop) : AcceptLoop :=
  let (ch, poller) := s.acceptor.acceptChannel_.enableReading s.polling.poller
  let polling := s.polling.setPoller poller
  { s with
    polling := if s.queue = [] then polling else polling.wake s.listenfd
    acceptor := { s.acceptor with acceptChannel_ := ch }
    todo := .idle }

/-- `Acceptor::~Acceptor`, with that of `acceptSocket_`. -/
def destroy (s : AcceptLoop) : AcceptLoop :=
  let (ch, poller) := s.acceptor.acceptChannel_.disableAll s.polling.poller
  let (ch, poller) := ch.remove poller
  { s with
    polling := s.polling.setPoller poller
    acceptor := { s.acceptor with acceptChannel_ := ch }
    queue := []
    closed := true }

end AcceptLoop

/-- Runs of a base loop with an acceptor, from its construction on. -/
def acceptMachine : Machine AcceptLoop AcceptEvent where
  init s := ∃ self sockfd, s = ⟨Polling.new, Acceptor.new self sockfd, [], .idle, false⟩
  next s
    | .setNewConnectionCallback =>
        some { s with acceptor := { s.acceptor with newConnectionCallback_ := true } }
    | .listen =>
        if s.todo = .idle ∧ s.closed = false then
          some { s with acceptor := { s.acceptor with listening_ := true }
                        todo := .enableReading }
        else none
    | .enableReading => if s.todo = .enableReading then some s.enableReading else none
    | .turn env =>
        if s.todo = .idle then
          -- after the destructor there is nothing to report to
          some (if s.closed then { s with polling := s.polling.turn env } else s.turn env)
        else none
    | .handleEvent r =>
        match s.todo with
        | .handleEvent revents =>
            let call := accept4 r s.queue
            some { s with acceptor := s.acceptor.handleEvent revents call
                          queue := if hasAny revents (EPOLLIN ||| EPOLLPRI) then call.queue
                            else s.queue
                          todo := .idle }
        | _ => none
    | .destroy => if s.todo = .idle ∧ s.closed = false then some s.destroy else none
    | .connect peer =>
        if s.acceptor.listening_ = true ∧ s.closed = false then
          some { s with polling := s.polling.wake s.listenfd, queue := s.queue ++ [peer] }
        else none
    | .updateChannel c =>
        if s.closed = true ∨ c.fd_ ≠ s.listenfd then
          some { s with polling := s.polling.setPoller (s.polling.poller.updateChannel c).1 }
        else none
    | .removeChannel c =>
        if s.closed = true ∨ c.fd_ ≠ s.listenfd then
          some { s with polling := s.polling.setPoller (s.polling.poller.removeChannel c).1 }
        else none
    | .wake fd =>
        if s.closed = true ∨ fd ≠ s.listenfd then some { s with polling := s.polling.wake fd }
        else none

theorem Channel.update_fd (c : Channel) (p : EPollPoller) : (c.update p).1.fd_ = c.fd_ := by
  unfold update EPollPoller.updateChannel
  dsimp only
  split
  · rfl
  · split <;> rfl

/-! ### The ready list -/

namespace Polling

variable {p : Polling} {fd fd' : Int}

@[simp] theorem wake_poller (p : Polling) (fd : Int) : (p.wake fd).poller = p.poller := by
  unfold wake
  split <;> rfl

theorem Listed.wake (h : p.Listed) (fd : Int) : (p.wake fd).Listed := by
  unfold Polling.wake
  split
  · rename_i hnew
    exact h.step (e := .wake fd) trivial (if_pos hnew)
  · exact h

theorem wake_of_mem (h : fd ∈ p.ready) : p.wake fd = p :=
  if_neg fun hnew => hnew.2 h

theorem mem_wake (h : p.poller.watches fd = true) : fd ∈ (p.wake fd).ready := by
  by_cases hmem : fd ∈ p.ready
  · rwa [wake_of_mem hmem]
  · rw [Polling.wake, if_pos ⟨h, hmem⟩]
    exact List.mem_append_right _ (List.mem_singleton_self fd)

/-- What wakes goes behind. -/
theorem wake_idxOf (h : fd ∈ p.ready) (fd' : Int) :
    fd ∈ (p.wake fd').ready ∧ (p.wake fd').ready.idxOf fd = p.ready.idxOf fd := by
  unfold Polling.wake
  split
  · exact ⟨List.mem_append_left _ h, List.idxOf_append_of_mem h⟩
  · exact ⟨h, rfl⟩

/-- A poll makes nothing ready. -/
theorem Listed.length_turn_le (h : p.Listed) (env : WaitEnv) :
    (p.turn env).ready.length ≤ p.ready.length := by
  rcases (h.polled env).ready with ⟨-, hsame, -⟩ | ⟨-, rest, hready, hscan⟩
  · rw [hsame]
  · have hle := (scan_sublist (report p.poller.epollSet env.state) p.events_.length
      p.ready).length_le
    rw [hscan] at hle
    rw [hready]
    simp only [List.length_append, List.length_map] at hle ⊢
    omega

theorem Listed.reported (h : p.Listed) {env : WaitEnv} {ev : EpollEvent}
    (hev : (fd, ev) ∈ p.reported env) :
    env.error = none ∧ report p.poller.epollSet env.state fd = some ev := by
  rcases (h.polled env).ready with ⟨-, -, hnone⟩ | ⟨henv, rest, -, hscan⟩
  · rw [hnone] at hev
    cases hev
  · have hmem : (fd, ev) ∈ (scan (report p.poller.epollSet env.state) p.events_.length
        p.ready).1 := by
      rw [hscan]
      exact hev
    exact ⟨henv, (report_of_scan hmem).2⟩

/-- A poll keeps a descriptor that is ready, in front of its old place if it leaves it
behind. -/
theorem Listed.turn_idxOf (h : p.Listed) {env : WaitEnv} (hfd : fd ∈ p.ready)
    (hready : (report p.poller.epollSet env.state fd).isSome = true) :
    fd ∈ (p.turn env).ready ∧ (fd ∉ (p.reported env).map Prod.fst →
      kInitEventListSize * (p.polls (.turn env)).length + (p.turn env).ready.idxOf fd
        ≤ p.ready.idxOf fd) := by
  by_cases hreported : fd ∈ (p.reported env).map Prod.fst
  · refine ⟨?_, fun hnot => absurd hreported hnot⟩
    rcases (h.polled env).ready with ⟨-, -, hnone⟩ | ⟨-, rest, hrest, -⟩
    · rw [hnone] at hreported
      cases hreported
    · rw [hrest]
      exact List.mem_append_right _ hreported
  · have hwaits := h.waits (e := .turn env) hfd (fun _ => hready) hreported rfl
    exact ⟨hwaits.1, fun _ => hwaits.2⟩

end Polling

/-! ### Arrivals and departures -/

/-- What became of a connection. -/
inductive Outcome
  | handed (connfd : Int)
  | closed (connfd : Int)
  | aborted
  | reset
  deriving DecidableEq, Repr

/-- The connections a trace says were handed to `newConnectionCallback_`. -/
def AcceptEffect.handed : AcceptEffect → Option (Int × InetAddress)
  | .newConnection connfd peer => some (connfd, peer)
  | _ => none

/-- The descriptors it says were closed. -/
def AcceptEffect.closed : AcceptEffect → Option Int
  | .close connfd => some connfd
  | _ => none

def Outcome.handedAs (peer : InetAddress) : Outcome → Option (Int × InetAddress)
  | .handed connfd => some (connfd, peer)
  | _ => none

def Outcome.closedAs : Outcome → Option Int
  | .closed connfd => some connfd
  | _ => none

namespace AcceptLoop

variable {s t u q r : AcceptLoop} {e : AcceptEvent} {es es' : List AcceptEvent}

/-- The connection that completes. -/
def arrived (_ : AcceptLoop) : AcceptEvent → List InetAddress
  | .connect peer => [peer]
  | _ => []

/-- What becomes of the connection in front, if there is one. -/
def answered (a : Acceptor) (r : AcceptResult) : List InetAddress → List (InetAddress × Outcome)
  | [] => []
  | peer :: _ =>
      match r with
      | .accept connfd =>
          [(peer, if a.newConnectionCallback_ then .handed connfd else .closed connfd)]
      | .fail errno _ => if errno = ECONNABORTED then [(peer, .aborted)] else []

/-- The connections that leave the queue, and what becomes of them. -/
def settled (s : AcceptLoop) : AcceptEvent → List (InetAddress × Outcome)
  | .handleEvent r =>
      match s.todo with
      | .handleEvent revents =>
          if hasAny revents (EPOLLIN ||| EPOLLPRI) then answered s.acceptor r s.queue else []
      | _ => []
  | .destroy => s.queue.map fun peer => (peer, .reset)
  | _ => []

/-- One `accept4` and what `handleRead` makes of it. -/
theorem handleRead_spec (a : Acceptor) (r : AcceptResult) (queue : List InetAddress) :
    queue = (answered a r queue).map Prod.fst ++ (accept4 r queue).queue ∧
      (a.handleRead (accept4 r queue)).trace.filterMap AcceptEffect.handed
        = a.trace.filterMap AcceptEffect.handed
          ++ (answered a r queue).filterMap (fun p => p.2.handedAs p.1) ∧
      (a.handleRead (accept4 r queue)).trace.filterMap AcceptEffect.closed
        = a.trace.filterMap AcceptEffect.closed
          ++ (answered a r queue).filterMap (fun p => p.2.closedAs) := by
  -- an error is logged, and logged again if it is the limit
  have hlogs : ∀ call : AcceptCall, call.ret = -1 →
      (a.handleRead call).trace.filterMap AcceptEffect.handed
        = a.trace.filterMap AcceptEffect.handed ∧
      (a.handleRead call).trace.filterMap AcceptEffect.closed
        = a.trace.filterMap AcceptEffect.closed := by
    intro call hret
    unfold Acceptor.handleRead Socket.accept
    dsimp only
    rw [hret, if_neg (by decide)]
    split <;> simp [Acceptor.emit, AcceptEffect.handed, AcceptEffect.closed]
  cases queue with
  | nil =>
      obtain ⟨hhanded, hclosed⟩ := hlogs (accept4 r []) rfl
      exact ⟨rfl, by rw [hhanded]; simp [answered], by rw [hclosed]; simp [answered]⟩
  | cons peer rest =>
      cases r with
      | accept connfd =>
          have hnonneg : (0 : Int) ≤ connfd := Int.natCast_nonneg connfd
          unfold Acceptor.handleRead Socket.accept
          cases hcb : a.newConnectionCallback_ <;>
            simp [accept4, answered, hcb, hnonneg, Acceptor.emit, AcceptEffect.handed,
              AcceptEffect.closed, Outcome.handedAs, Outcome.closedAs]
      | fail errno logged =>
          obtain ⟨hhanded, hclosed⟩ := hlogs (accept4 (.fail errno logged) (peer :: rest)) rfl
          rw [hhanded, hclosed]
          unfold accept4 answered
          dsimp only
          split <;> simp [Outcome.handedAs, Outcome.closedAs]

/-- What leaves the queue in a step, what comes to it, and what the trace says of it. -/
structure Accounted (s : AcceptLoop) (e : AcceptEvent) (t : AcceptLoop) : Prop where
  queue : s.queue ++ s.arrived e = (s.settled e).map Prod.fst ++ t.queue
  handed : t.acceptor.trace.filterMap AcceptEffect.handed
    = s.acceptor.trace.filterMap AcceptEffect.handed
      ++ (s.settled e).filterMap fun p => p.2.handedAs p.1
  closed : t.acceptor.trace.filterMap AcceptEffect.closed
    = s.acceptor.trace.filterMap AcceptEffect.closed
      ++ (s.settled e).filterMap fun p => p.2.closedAs

/-- A step that leaves the queue and the trace alone. -/
theorem Accounted.aside (harrived : s.arrived e = []) (hsettled : s.settled e = [])
    (hqueue : t.queue = s.queue) (htrace : t.acceptor.trace = s.acceptor.trace) :
    s.Accounted e t := by
  refine ⟨?_, ?_, ?_⟩ <;> rw [hsettled]
  · rw [harrived, hqueue]
    simp
  · rw [htrace]
    simp
  · rw [htrace]
    simp

theorem accounted (ht : acceptMachine.next s e = some t) : s.Accounted e t := by
  cases e with
  | setNewConnectionCallback => cases ht; exact .aside rfl rfl rfl rfl
  | listen =>
      obtain ⟨-, ht⟩ := Option.ite_none_right_eq_some.mp ht
      cases ht
      exact .aside rfl rfl rfl rfl
  | enableReading =>
      obtain ⟨-, ht⟩ := Option.ite_none_right_eq_some.mp ht
      cases ht
      exact .aside rfl rfl rfl rfl
  | turn env =>
      obtain ⟨-, ht⟩ := Option.ite_none_right_eq_some.mp ht
      cases ht
      refine .aside rfl rfl ?_ ?_ <;> split <;> rfl
  | handleEvent r =>
      cases htodo : s.todo with
      | handleEvent revents =>
          simp only [acceptMachine, htodo, Option.some.injEq] at ht
          subst ht
          have hsettled : s.settled (.handleEvent r)
              = if hasAny revents (EPOLLIN ||| EPOLLPRI) then answered s.acceptor r s.queue
                else [] := by
            rw [settled, htodo]
          by_cases hin : hasAny revents (EPOLLIN ||| EPOLLPRI) = true
          · obtain ⟨hqueue, hhanded, hclosed⟩ := handleRead_spec s.acceptor r s.queue
            rw [if_pos hin] at hsettled
            refine ⟨?_, ?_, ?_⟩ <;> rw [hsettled]
            · have hnone : s.arrived (.handleEvent r) = [] := rfl
              rw [if_pos hin, hnone, List.append_nil]
              exact hqueue
            · rw [Acceptor.handleEvent, if_pos hin]
              exact hhanded
            · rw [Acceptor.handleEvent, if_pos hin]
              exact hclosed
          · rw [if_neg hin] at hsettled
            exact .aside rfl hsettled (if_neg hin) (by rw [Acceptor.handleEvent, if_neg hin])
      | idle => simp [acceptMachine, htodo] at ht
      | enableReading => simp [acceptMachine, htodo] at ht
  | destroy =>
      obtain ⟨-, ht⟩ := Option.ite_none_right_eq_some.mp ht
      cases ht
      refine ⟨?_, ?_, ?_⟩
      · simp [settled, arrived, destroy, Function.comp_def]
      · simp [settled, destroy, Outcome.handedAs, List.filterMap_map]
      · simp [settled, destroy, Outcome.closedAs, List.filterMap_map]
  | connect peer =>
      obtain ⟨-, ht⟩ := Option.ite_none_right_eq_some.mp ht
      cases ht
      exact ⟨rfl, (List.append_nil _).symm, (List.append_nil _).symm⟩
  | updateChannel c =>
      obtain ⟨-, ht⟩ := Option.ite_none_right_eq_some.mp ht
      cases ht
      exact .aside rfl rfl rfl rfl
  | removeChannel c =>
      obtain ⟨-, ht⟩ := Option.ite_none_right_eq_some.mp ht
      cases ht
      exact .aside rfl rfl rfl rfl
  | wake fd =>
      obtain ⟨-, ht⟩ := Option.ite_none_right_eq_some.mp ht
      cases ht
      exact .aside rfl rfl rfl rfl

/-- **Every arrival is accounted for.**  In every run, the connections that have completed
are those that have left the queue and those that still wait, in the order of their
arrivals; those that have left were handed to `newConnectionCallback_` or closed as the
acceptor's own trace says, each with the descriptor that `accept4` gave it, were aborted
by their peers, or were reset by the destructor. -/
theorem arrivals_accounted (hinit : acceptMachine.init s) (hrun : acceptMachine.run s es = some t) :
    acceptMachine.gather arrived s es
        = (acceptMachine.gather settled s es).map Prod.fst ++ t.queue ∧
      t.acceptor.trace.filterMap AcceptEffect.handed
        = (acceptMachine.gather settled s es).filterMap (fun p => p.2.handedAs p.1) ∧
      t.acceptor.trace.filterMap AcceptEffect.closed
        = (acceptMachine.gather settled s es).filterMap fun p => p.2.closedAs := by
  have hqueue : s.queue ++ acceptMachine.gather arrived s es
      = acceptMachine.gather (fun s e => (s.settled e).map Prod.fst) s es ++ t.queue :=
    Machine.conserved' (I := fun _ => True) (fun _ _ _ _ _ => trivial)
      (fun _ _ _ _ ht => (accounted ht).queue) hrun trivial
  have hhanded := Machine.recorded (fun _ _ _ ht => (accounted ht).handed) hrun
  have hclosed := Machine.recorded (fun _ _ _ ht => (accounted ht).closed) hrun
  obtain ⟨self, sockfd, rfl⟩ := hinit
  refine ⟨?_, ?_, ?_⟩
  · rw [Machine.gather_hom rfl fun _ _ => List.map_append]
    exact hqueue
  · rw [Machine.gather_hom rfl fun _ _ => List.filterMap_append]
    exact hhanded
  · rw [Machine.gather_hom rfl fun _ _ => List.filterMap_append]
    exact hclosed

/-- The limit of descriptors is met, then the peer in front gives up. -/
def crowded : List AcceptEvent :=
  [.setNewConnectionCallback, .listen, .enableReading, .connect ⟨(10, 0, 0, 1), 1000⟩,
    .connect ⟨(10, 0, 0, 2), 1000⟩, .turn ⟨none, fun _ => 0⟩,
    .handleEvent (.fail EMFILE EMFILE), .turn ⟨none, fun _ => 0⟩,
    .handleEvent (.fail ECONNABORTED ECONNABORTED), .turn ⟨none, fun _ => 0⟩,
    .handleEvent (.accept 7)]

theorem arrivals_accounted_crowded :
    ∃ t : AcceptLoop, t.acceptor.trace = [.logError EMFILE, .logLimit, .logError ECONNABORTED,
        .newConnection 7 ⟨(10, 0, 0, 2), 1000⟩] ∧
      t.acceptor.trace.filterMap AcceptEffect.handed
        = (acceptMachine.gather settled ⟨Polling.new, Acceptor.new 1 3, [], .idle, false⟩
            crowded).filterMap fun p => p.2.handedAs p.1 := by
  have hend : (acceptMachine.run ⟨Polling.new, Acceptor.new 1 3, [], .idle, false⟩
      crowded).any fun t => decide (t.acceptor.trace = [.logError EMFILE, .logLimit,
        .logError ECONNABORTED, .newConnection 7 ⟨(10, 0, 0, 2), 1000⟩]) := by
    decide +kernel
  obtain ⟨t, hrun, ht⟩ := (Option.any_eq_true _ _).mp hend
  exact ⟨t, of_decide_eq_true ht, (arrivals_accounted ⟨1, 3, rfl⟩ hrun).2.1⟩

/-! ### The listening descriptor -/

/-- The acceptor's channel is registered for reading, or not at all; a connection that
waits keeps the descriptor ready; and what was reported can be accepted. -/
structure Accepting (s : AcceptLoop) : Prop where
  listed : s.polling.Listed
  channel : s.closed = false →
    s.acceptor.acceptChannel_.Unregistered s.polling.poller ∧
      s.acceptor.acceptChannel_.events_ = kNoneEvent ∨
    s.acceptor.acceptChannel_.Registered s.polling.poller ∧
      s.acceptor.acceptChannel_.events_ = kReadEvent
  ready : s.closed = false → s.queue ≠ [] → s.polling.poller.watches s.listenfd = true →
    s.listenfd ∈ s.polling.ready
  busy : s.todo ≠ .idle → s.closed = false
  reported : ∀ revents, s.todo = .handleEvent revents →
    s.queue ≠ [] ∧ hasAny revents (EPOLLIN ||| EPOLLPRI) = true

/-- Registered for reading. -/
structure Watched (s : AcceptLoop) : Prop where
  opened : s.closed = false
  registered : s.acceptor.acceptChannel_.Registered s.polling.poller
  mask : s.acceptor.acceptChannel_.events_ = kReadEvent

theorem Accepting.watched (h : s.Accepting) (hopen : s.closed = false)
    (hwatches : s.polling.poller.watches s.listenfd = true) : s.Watched := by
  rcases h.channel hopen with ⟨hun, -⟩ | ⟨hreg, hmask⟩
  · rw [EPollPoller.watches, listenfd, hun.kernel] at hwatches
    cases hwatches
  · exact ⟨hopen, hreg, hmask⟩

theorem Watched.watches (h : s.Watched) : s.polling.poller.watches s.listenfd = true := by
  rw [EPollPoller.watches, listenfd, h.registered.kernel]
  rfl

/-- The kernel reports a listening descriptor exactly while connections wait. -/
theorem Watched.report (h : s.Watched) (env : WaitEnv) :
    report s.polling.poller.epollSet (s.waitEnv env).state s.listenfd
      = if s.queue = [] then none else some ⟨EPOLLIN, s.acceptor.acceptChannel_.self⟩ := by
  have hset : s.polling.poller.epollSet s.listenfd
      = some (kReadEvent, s.acceptor.acceptChannel_.self) := by
    rw [listenfd, h.registered.kernel, h.mask]
  have hstate : (s.waitEnv env).state s.listenfd = if s.queue = [] then 0 else EPOLLIN :=
    Function.update_self _ _ _
  rw [Mymuduo.report, hset, Option.bind_some, hstate]
  by_cases hq : s.queue = []
  · simp [hq]
  · have hmask : EPOLLIN &&& (kReadEvent ||| EPOLLERR ||| EPOLLHUP) = EPOLLIN := by decide
    have hne : EPOLLIN ≠ 0 := by decide
    rw [if_neg hq, if_neg hq]
    dsimp only
    rw [hmask, if_neg hne]

/-- What the poll reports to the acceptor. -/
theorem Accepting.report_of_lookup (h : s.Accepting) (hopen : s.closed = false) {env : WaitEnv}
    {ev : EpollEvent} (hev : (s.polling.reported (s.waitEnv env)).lookup s.listenfd = some ev) :
    s.queue ≠ [] ∧ ev.events = EPOLLIN := by
  have hmem : (s.listenfd, ev) ∈ s.polling.reported (s.waitEnv env) := by
    obtain ⟨l₁, l₂, hl, -⟩ := List.lookup_eq_some_iff.mp hev
    rw [hl]
    simp
  obtain ⟨-, hreport⟩ := h.listed.reported hmem
  obtain ⟨interest, hset⟩ := watched_of_report hreport
  have hwatches : s.polling.poller.watches s.listenfd = true := by
    rw [EPollPoller.watches, hset]
    rfl
  rw [(h.watched hopen hwatches).report] at hreport
  obtain ⟨hq, heq⟩ := Option.ite_none_left_eq_some.mp hreport
  cases heq
  exact ⟨hq, rfl⟩

theorem accepting_of_init (hinit : acceptMachine.init s) : s.Accepting := by
  obtain ⟨self, sockfd, rfl⟩ := hinit
  refine ⟨Polling.listed_new, fun _ => .inl ⟨⟨Index.noConfusion, rfl⟩, rfl⟩, ?_, ?_, ?_⟩
  · intro _ hne
    exact absurd rfl hne
  · intro hbusy
    exact absurd rfl hbusy
  · intro revents htodo
    cases htodo

/-- A poll and what it leaves the loop to do. -/
theorem Accepting.turn (h : s.Accepting) (hopen : s.closed = false)
    (hfew : s.polling.ready.length < 2 ^ 30) (env : WaitEnv) : (s.turn env).Accepting := by
  have hp := h.listed.polled (s.waitEnv env)
  have hpoller : (s.turn env).polling.poller = s.polling.poller := hp.poller
  refine ⟨h.listed.turn hfew _, ?_, ?_, fun _ => hopen, ?_⟩
  · intro _
    rw [hpoller]
    exact h.channel hopen
  · intro _ hq hwatches
    change s.queue ≠ [] at hq
    rw [hpoller] at hwatches
    have hready := h.ready hopen hq hwatches
    have hreport := (h.watched hopen hwatches).report env
    rw [if_neg hq] at hreport
    exact (h.listed.turn_idxOf hready (by rw [hreport]; rfl)).1
  · intro revents htodo
    simp only [AcceptLoop.turn] at htodo
    split at htodo
    · rename_i ev hev
      obtain ⟨hq, hev⟩ := h.report_of_lookup hopen hev
      cases htodo
      rw [hev]
      exact ⟨hq, by decide⟩
    · cases htodo

/-- Another interest list that has the listening descriptor as it was. -/
theorem Accepting.setPoller (h : s.Accepting) {poller : EPollPoller}
    (hkeep : s.closed = false → poller.epollSet s.listenfd = s.polling.poller.epollSet s.listenfd) :
    Accepting { s with polling := s.polling.setPoller poller } := by
  refine ⟨h.listed.setPoller poller, ?_, ?_, h.busy, h.reported⟩
  · intro hopen
    have hsame := hkeep hopen
    rcases h.channel hopen with ⟨hun, hmask⟩ | ⟨hreg, hmask⟩
    · exact .inl ⟨⟨hun.index, hsame.trans hun.kernel⟩, hmask⟩
    · exact .inr ⟨⟨hreg.index, hsame.trans hreg.kernel⟩, hmask⟩
  · intro hopen hq hwatches
    have hsame := hkeep hopen
    have hwatches' : s.polling.poller.watches s.listenfd = true := by
      rw [EPollPoller.watches, ← hsame]
      exact hwatches
    exact (h.listed.setPoller_idxOf (h.ready hopen hq hwatches') hsame).1

theorem Accepting.wake (h : s.Accepting) (fd : Int) :
    Accepting { s with polling := s.polling.wake fd } := by
  refine ⟨h.listed.wake fd, ?_, ?_, h.busy, h.reported⟩
  · intro hopen
    rw [Polling.wake_poller]
    exact h.channel hopen
  · intro hopen hq hwatches
    rw [Polling.wake_poller] at hwatches
    exact (Polling.wake_idxOf (h.ready hopen hq hwatches) fd).1

theorem handleEvent_channel (a : Acceptor) (revents : Mask) (call : AcceptCall) :
    (a.handleEvent revents call).acceptChannel_ = a.acceptChannel_ ∧
      (a.handleEvent revents call).newConnectionCallback_ = a.newConnectionCallback_ := by
  unfold Acceptor.handleEvent Acceptor.handleRead
  dsimp only
  split
  · split <;> split <;> exact ⟨rfl, rfl⟩
  · exact ⟨rfl, rfl⟩

theorem Accepting.handleEvent (h : s.Accepting) (revents : Mask) (r : AcceptResult)
    (hopen : s.closed = false) :
    Accepting { s with acceptor := s.acceptor.handleEvent revents (accept4 r s.queue)
                       queue := if hasAny revents (EPOLLIN ||| EPOLLPRI) then
                           (accept4 r s.queue).queue
                         else s.queue
                       todo := .idle } := by
  have hchannel := (handleEvent_channel s.acceptor revents (accept4 r s.queue)).1
  refine ⟨h.listed, ?_, ?_, fun _ => hopen, fun _ htodo => by cases htodo⟩
  · intro _
    rw [hchannel]
    exact h.channel hopen
  · intro _ hq hwatches
    rw [listenfd, hchannel] at hwatches ⊢
    refine h.ready hopen ?_ hwatches
    rintro hnil
    refine hq ?_
    dsimp only
    rw [hnil]
    exact ite_self _

/-- The first call registers the channel; the others tell the kernel nothing new. -/
theorem Accepting.enableReading (h : s.Accepting) (hopen : s.closed = false) :
    s.enableReading.Accepting ∧ s.enableReading.Watched := by
  have hmask : s.acceptor.acceptChannel_.events_ ||| kReadEvent = kReadEvent := by
    rcases h.channel hopen with ⟨-, hm⟩ | ⟨-, hm⟩ <;> rw [hm] <;> decide
  have hregistered :
      (s.acceptor.acceptChannel_.enableReading s.polling.poller).1.Registered
        (s.acceptor.acceptChannel_.enableReading s.polling.poller).2 := by
    unfold Channel.enableReading
    rw [hmask]
    rcases h.channel hopen with ⟨hun, -⟩ | ⟨hreg, -⟩
    · exact Channel.Unregistered.registered ⟨hun.index, hun.kernel⟩
    · exact hreg.modified (by decide)
  have hevents : (s.acceptor.acceptChannel_.enableReading s.polling.poller).1.events_
      = kReadEvent := by
    rw [Channel.enableReading, Channel.update_events]
    exact hmask
  have hfd : s.enableReading.listenfd = s.listenfd := Channel.update_fd _ _
  have hpoller : s.enableReading.polling.poller
      = (s.acceptor.acceptChannel_.enableReading s.polling.poller).2 := by
    unfold AcceptLoop.enableReading
    dsimp only
    split
    · rfl
    · rw [Polling.wake_poller]
      rfl
  have hwatched : s.enableReading.Watched := ⟨hopen, hpoller ▸ hregistered, hevents⟩
  have hlisted := h.listed.setPoller (s.acceptor.acceptChannel_.enableReading s.polling.poller).2
  refine ⟨⟨?_, fun _ => .inr ⟨hwatched.registered, hevents⟩, ?_, fun _ => hopen,
    fun _ htodo => by cases htodo⟩, hwatched⟩
  · unfold AcceptLoop.enableReading
    dsimp only
    split
    · exact hlisted
    · exact hlisted.wake _
  · intro _ hq hwatches
    change s.queue ≠ [] at hq
    rw [hpoller, hfd] at hwatches
    rw [hfd]
    unfold AcceptLoop.enableReading
    dsimp only
    rw [if_neg hq]
    exact Polling.mem_wake hwatches

/-- The descriptors that are ready stay few enough for the vector of events. -/
def Few (s : AcceptLoop) : AcceptEvent → Prop
  | .turn _ => s.polling.ready.length < 2 ^ 30
  | _ => True

theorem Accepting.step (h : s.Accepting) (hfew : s.Few e) (ht : acceptMachine.next s e = some t) :
    t.Accepting := by
  cases e with
  | setNewConnectionCallback =>
      cases ht
      exact ⟨h.listed, h.channel, h.ready, h.busy, h.reported⟩
  | listen =>
      obtain ⟨⟨-, hopen⟩, ht⟩ := Option.ite_none_right_eq_some.mp ht
      cases ht
      exact ⟨h.listed, h.channel, h.ready, fun _ => hopen, fun _ htodo => by cases htodo⟩
  | enableReading =>
      obtain ⟨htodo, ht⟩ := Option.ite_none_right_eq_some.mp ht
      cases ht
      exact (h.enableReading (h.busy (by simp [htodo]))).1
  | turn env =>
      obtain ⟨htodo, ht⟩ := Option.ite_none_right_eq_some.mp ht
      cases ht
      cases hclosed : s.closed with
      | false => exact h.turn hclosed hfew env
      | true =>
          -- the descriptor is not the acceptor's any more
          refine ⟨h.listed.turn hfew env, ?_, ?_, fun hbusy => absurd htodo hbusy, h.reported⟩
          · intro hopen
            cases hopen
          · intro hopen
            cases hopen
  | handleEvent r =>
      cases htodo : s.todo with
      | handleEvent revents =>
          simp only [acceptMachine, htodo, Option.some.injEq] at ht
          subst ht
          exact h.handleEvent revents r (h.busy (by simp [htodo]))
      | idle => simp [acceptMachine, htodo] at ht
      | enableReading => simp [acceptMachine, htodo] at ht
  | destroy =>
      obtain ⟨⟨htodo, -⟩, ht⟩ := Option.ite_none_right_eq_some.mp ht
      cases ht
      refine ⟨h.listed.setPoller _, ?_, ?_, fun hbusy => absurd htodo hbusy, ?_⟩
      · intro hopen
        cases hopen
      · intro hopen
        cases hopen
      · intro revents hr
        cases htodo.symm.trans hr
  | connect peer =>
      obtain ⟨⟨-, hopen⟩, ht⟩ := Option.ite_none_right_eq_some.mp ht
      cases ht
      have hw := h.wake s.listenfd
      refine ⟨hw.listed, hw.channel, ?_, h.busy, fun revents hr => ⟨?_, (h.reported revents hr).2⟩⟩
      · intro _ _ hwatches
        exact Polling.mem_wake (by rwa [Polling.wake_poller] at hwatches)
      · exact List.append_ne_nil_of_right_ne_nil _ (List.cons_ne_nil _ _)
  | updateChannel c =>
      obtain ⟨hother, ht⟩ := Option.ite_none_right_eq_some.mp ht
      cases ht
      refine h.setPoller fun hopen => Polling.updateChannel_epollSet_ne _ ?_
      exact hother.resolve_left (by simp [hopen])
  | removeChannel c =>
      obtain ⟨hother, ht⟩ := Option.ite_none_right_eq_some.mp ht
      cases ht
      refine h.setPoller fun hopen => Polling.removeChannel_epollSet_ne _ ?_
      exact hother.resolve_left (by simp [hopen])
  | wake fd =>
      obtain ⟨-, ht⟩ := Option.ite_none_right_eq_some.mp ht
      cases ht
      exact h.wake fd

theorem accepting_of_run (hinit : acceptMachine.init s) (hfew : acceptMachine.Along Few s es)
    (hrun : acceptMachine.run s es = some t) : t.Accepting :=
  Machine.run_invariant (fun _ _ _ h he ht => h.step he ht) hfew hrun (accepting_of_init hinit)

/-! ### How long a connection waits -/

/-- The polls that return. -/
def polls (_ : AcceptLoop) : AcceptEvent → List WaitEnv
  | .turn env => if env.error = none then [env] else []
  | _ => []

/-- At most `N` descriptors are ready at once, `accept4` finds a descriptor for each
connection, and the acceptor lives. -/
def Prompt (N : Nat) (s : AcceptLoop) : AcceptEvent → Prop
  | .turn _ => s.polling.ready.length ≤ N ∧ N < 2 ^ 30
  | .handleEvent r => ∃ connfd, r = .accept connfd
  | .destroy => False
  | _ => True

instance (N : Nat) (s : AcceptLoop) : (e : AcceptEvent) → Decidable (s.Prompt N e)
  | .turn _ => inferInstanceAs (Decidable (_ ∧ _))
  | .handleEvent (.accept connfd) => .isTrue ⟨connfd, rfl⟩
  | .handleEvent (.fail _ _) => .isFalse fun ⟨_, h⟩ => by cases h
  | .destroy => instDecidableFalse
  | .setNewConnectionCallback | .listen | .enableReading | .connect _ | .updateChannel _
  | .removeChannel _ | .wake _ => instDecidableTrue

/-- The reports that the connection behind `k` others still needs. -/
def BaseTask.reports (k : Nat) : BaseTask → Nat
  | .handleEvent _ => k
  | _ => k + 1

/-- The places in the ready list that the polls have to go through until then. -/
def cost (N : Nat) (s : AcceptLoop) (k : Nat) : Nat :=
  BaseTask.reports k s.todo * (N + kInitEventListSize) + s.polling.ready.idxOf s.listenfd

theorem Prompt.few {N : Nat} (h : s.Prompt N e) : s.Few e := by
  cases e with
  | turn env => exact Nat.lt_of_le_of_lt h.1 h.2
  | _ => trivial

/-- The acceptor stays as it is. -/
theorem Watched.stays {N : Nat} (h : s.Watched) (hacc : s.Accepting)
    (hcb : s.acceptor.newConnectionCallback_ = true) (he : s.Prompt N e)
    (ht : acceptMachine.next s e = some t) :
    t.Watched ∧ t.acceptor.newConnectionCallback_ = true := by
  have hkeep : ∀ {poller : EPollPoller},
      poller.epollSet s.listenfd = s.polling.poller.epollSet s.listenfd →
      Watched { s with polling := s.polling.setPoller poller } := fun hsame =>
    ⟨h.opened, ⟨h.registered.index, hsame.trans h.registered.kernel⟩, h.mask⟩
  have hwake : ∀ fd, Watched { s with polling := s.polling.wake fd } := fun fd =>
    ⟨h.opened, by rw [Polling.wake_poller]; exact h.registered, h.mask⟩
  cases e with
  | setNewConnectionCallback =>
      cases ht
      exact ⟨⟨h.opened, h.registered, h.mask⟩, rfl⟩
  | listen =>
      obtain ⟨-, ht⟩ := Option.ite_none_right_eq_some.mp ht
      cases ht
      exact ⟨⟨h.opened, h.registered, h.mask⟩, hcb⟩
  | enableReading =>
      obtain ⟨-, ht⟩ := Option.ite_none_right_eq_some.mp ht
      cases ht
      exact ⟨(hacc.enableReading h.opened).2, hcb⟩
  | turn env =>
      obtain ⟨-, ht⟩ := Option.ite_none_right_eq_some.mp ht
      cases ht
      rw [if_neg (by simp [h.opened])]
      have hpoller : (s.turn env).polling.poller = s.polling.poller :=
        (hacc.listed.polled (s.waitEnv env)).poller
      exact ⟨⟨h.opened, by rw [hpoller]; exact h.registered, h.mask⟩, hcb⟩
  | handleEvent r =>
      cases htodo : s.todo with
      | handleEvent revents =>
          simp only [acceptMachine, htodo, Option.some.injEq] at ht
          subst ht
          obtain ⟨hchannel, hcallback⟩ :=
            handleEvent_channel s.acceptor revents (accept4 r s.queue)
          refine ⟨⟨h.opened, ?_, ?_⟩, hcallback.trans hcb⟩
          · rw [hchannel]
            exact h.registered
          · rw [hchannel]
            exact h.mask
      | idle => simp [acceptMachine, htodo] at ht
      | enableReading => simp [acceptMachine, htodo] at ht
  | destroy => exact he.elim
  | connect peer =>
      obtain ⟨-, ht⟩ := Option.ite_none_right_eq_some.mp ht
      cases ht
      have hw := hwake s.listenfd
      exact ⟨⟨h.opened, hw.registered, h.mask⟩, hcb⟩
  | updateChannel c =>
      obtain ⟨hother, ht⟩ := Option.ite_none_right_eq_some.mp ht
      cases ht
      have hne := hother.resolve_left (by simp [h.opened])
      exact ⟨hkeep (Polling.updateChannel_epollSet_ne _ hne), hcb⟩
  | removeChannel c =>
      obtain ⟨hother, ht⟩ := Option.ite_none_right_eq_some.mp ht
      cases ht
      have hne := hother.resolve_left (by simp [h.opened])
      exact ⟨hkeep (Polling.removeChannel_epollSet_ne _ hne), hcb⟩
  | wake fd =>
      obtain ⟨-, ht⟩ := Option.ite_none_right_eq_some.mp ht
      cases ht
      exact ⟨hwake fd, hcb⟩

/-- What a step does for the connection behind `k` others. -/
inductive Paid (N : Nat) (s : AcceptLoop) (e : AcceptEvent) (t : AcceptLoop) (k : Nat) : Prop
  | waits (hsettled : s.settled e = []) (hqueue : s.queue <+: t.queue)
      (hpaid : kInitEventListSize * (s.polls e).length + t.cost N k ≤ s.cost N k)
  | served (peer : InetAddress) (connfd : Nat) (hqueue : s.queue = peer :: t.queue)
      (hsettled : s.settled e = [(peer, .handed connfd)]) (hpolls : s.polls e = [])
      (hcost : ∀ j, t.cost N j = s.cost N (j + 1))

theorem Watched.pays_turn {N k : Nat} (h : s.Watched) (hacc : s.Accepting) (hk : s.queue ≠ [])
    (hfew : s.polling.ready.length ≤ N) (htodo : s.todo = .idle) (env : WaitEnv) :
    kInitEventListSize * (s.polls (.turn env)).length + (s.turn env).cost N k ≤ s.cost N k := by
  have hready := hacc.ready h.opened hk h.watches
  have hreport := h.report env
  rw [if_neg hk] at hreport
  obtain ⟨hmem, hleft⟩ := hacc.listed.turn_idxOf hready (by rw [hreport]; rfl)
  have hone : kInitEventListSize * (s.polls (.turn env)).length ≤ kInitEventListSize := by
    show kInitEventListSize * (if env.error = none then [env] else []).length ≤ _
    split <;> simp
  have hcost : s.cost N k = (k + 1) * (N + kInitEventListSize)
      + s.polling.ready.idxOf s.listenfd := by
    rw [cost, htodo]
    rfl
  cases hlookup : (s.polling.reported (s.waitEnv env)).lookup s.listenfd with
  | none =>
      -- the descriptor moves forward
      have hnot : s.listenfd ∉ (s.polling.reported (s.waitEnv env)).map Prod.fst := by
        intro hin
        obtain ⟨p, hp, hfst⟩ := List.mem_map.mp hin
        have := List.lookup_eq_none_iff.mp hlookup p hp
        simp [hfst] at this
      have hidle : (s.turn env).todo = .idle := by
        simp only [AcceptLoop.turn, hlookup]
      have hcost' : (s.turn env).cost N k = (k + 1) * (N + kInitEventListSize)
          + (s.polling.turn (s.waitEnv env)).ready.idxOf s.listenfd := by
        rw [cost, hidle]
        rfl
      have hpaid := hleft hnot
      have hpolls : (s.polls (.turn env)).length
          = (s.polling.polls (.turn (s.waitEnv env))).length := by
        show (if env.error = none then [env] else []).length
          = (if env.error = none then [s.waitEnv env] else []).length
        split <;> rfl
      rw [hcost, hcost', hpolls]
      omega
  | some ev =>
      -- one report less, and the descriptor goes to the end of the list
      have htodo' : (s.turn env).todo = .handleEvent ev.events := by
        simp only [AcceptLoop.turn, hlookup]
      have hcost' : (s.turn env).cost N k = k * (N + kInitEventListSize)
          + (s.polling.turn (s.waitEnv env)).ready.idxOf s.listenfd := by
        rw [cost, htodo']
        rfl
      have hlt := List.idxOf_lt_length_iff.mpr hmem
      have hle := hacc.listed.length_turn_le (s.waitEnv env)
      rw [hcost, hcost', Nat.succ_mul]
      omega

/-- A second call of `listen` tells the kernel what it knows. -/
theorem Watched.enableReading_idxOf (h : s.Watched) (hacc : s.Accepting) (hq : s.queue ≠ []) :
    s.enableReading.polling.ready.idxOf s.enableReading.listenfd
      ≤ s.polling.ready.idxOf s.listenfd := by
  have hready := hacc.ready h.opened hq h.watches
  have hmask : s.acceptor.acceptChannel_.events_ ||| kReadEvent = kReadEvent := by
    rw [h.mask]
    decide
  have hsame : (s.acceptor.acceptChannel_.enableReading s.polling.poller).2.epollSet s.listenfd
      = s.polling.poller.epollSet s.listenfd := by
    rw [Channel.enableReading, hmask, Channel.update_mod h.registered (by decide)]
    show Function.update _ _ _ s.listenfd = _
    rw [listenfd, Function.update_self, h.registered.kernel, h.mask]
  obtain ⟨hmem, hle⟩ := hacc.listed.setPoller_idxOf hready hsame
  have hfd : s.enableReading.listenfd = s.listenfd := Channel.update_fd _ _
  have hpolling : s.enableReading.polling
      = s.polling.setPoller (s.acceptor.acceptChannel_.enableReading s.polling.poller).2 := by
    unfold AcceptLoop.enableReading
    dsimp only
    rw [if_neg hq, Polling.wake_of_mem hmem]
  rw [hfd, hpolling]
  exact hle

theorem Watched.pays {N k : Nat} (h : s.Watched) (hacc : s.Accepting)
    (hcb : s.acceptor.newConnectionCallback_ = true) (hk : k < s.queue.length)
    (he : s.Prompt N e) (ht : acceptMachine.next s e = some t) : s.Paid N e t k := by
  have hq : s.queue ≠ [] := List.ne_nil_of_length_pos (by omega)
  have hready := hacc.ready h.opened hq h.watches
  -- a step that keeps the task and the place in the ready list
  have hfree : ∀ {u : AcceptLoop}, BaseTask.reports k u.todo = BaseTask.reports k s.todo →
      u.polling.ready.idxOf u.listenfd ≤ s.polling.ready.idxOf s.listenfd →
      kInitEventListSize * ([] : List WaitEnv).length + u.cost N k ≤ s.cost N k := by
    intro u htodo hidx
    rw [List.length_nil, Nat.mul_zero, Nat.zero_add, cost, cost, htodo]
    exact Nat.add_le_add_left hidx _
  cases e with
  | setNewConnectionCallback =>
      cases ht
      exact .waits rfl List.prefix_rfl (hfree rfl (Nat.le_refl _))
  | listen =>
      obtain ⟨⟨htodo, -⟩, ht⟩ := Option.ite_none_right_eq_some.mp ht
      cases ht
      exact .waits rfl List.prefix_rfl (hfree (by rw [htodo]; rfl) (Nat.le_refl _))
  | enableReading =>
      obtain ⟨htodo, ht⟩ := Option.ite_none_right_eq_some.mp ht
      cases ht
      exact .waits rfl List.prefix_rfl (hfree (by rw [htodo]; rfl)
        (h.enableReading_idxOf hacc hq))
  | turn env =>
      obtain ⟨htodo, ht⟩ := Option.ite_none_right_eq_some.mp ht
      cases ht
      rw [if_neg (by simp [h.opened])]
      exact .waits rfl List.prefix_rfl (h.pays_turn hacc hq he.1 htodo env)
  | handleEvent r =>
      obtain ⟨connfd, rfl⟩ := he
      cases htodo : s.todo with
      | handleEvent revents =>
          simp only [acceptMachine, htodo, Option.some.injEq] at ht
          obtain ⟨-, hin⟩ := hacc.reported revents htodo
          obtain ⟨hchannel, -⟩ := handleEvent_channel s.acceptor revents
            (accept4 (.accept connfd) s.queue)
          obtain ⟨peer, rest, hqueue⟩ := List.exists_cons_of_ne_nil hq
          subst ht
          refine .served peer connfd ?_ ?_ rfl fun j => ?_
          · dsimp only
            rw [if_pos hin, hqueue]
            rfl
          · simp [settled, htodo, hin, hqueue, answered, hcb]
          · simp only [cost, listenfd, hchannel, htodo]
            rfl
      | idle => simp [acceptMachine, htodo] at ht
      | enableReading => simp [acceptMachine, htodo] at ht
  | destroy => exact he.elim
  | connect peer =>
      obtain ⟨-, ht⟩ := Option.ite_none_right_eq_some.mp ht
      cases ht
      exact .waits rfl (List.prefix_append _ _)
        (hfree rfl (Polling.wake_idxOf hready s.listenfd).2.le)
  | updateChannel c =>
      obtain ⟨hother, ht⟩ := Option.ite_none_right_eq_some.mp ht
      cases ht
      have hne := hother.resolve_left (by simp [h.opened])
      exact .waits rfl List.prefix_rfl (hfree rfl (hacc.listed.setPoller_idxOf hready
        (Polling.updateChannel_epollSet_ne _ hne)).2)
  | removeChannel c =>
      obtain ⟨hother, ht⟩ := Option.ite_none_right_eq_some.mp ht
      cases ht
      have hne := hother.resolve_left (by simp [h.opened])
      exact .waits rfl List.prefix_rfl (hfree rfl (hacc.listed.setPoller_idxOf hready
        (Polling.removeChannel_epollSet_ne _ hne)).2)
  | wake fd =>
      obtain ⟨-, ht⟩ := Option.ite_none_right_eq_some.mp ht
      cases ht
      exact .waits rfl List.prefix_rfl (hfree rfl (Polling.wake_idxOf hready fd).2.le)

/-- A run whose polls go beyond the cost serves the connection. -/
theorem Watched.served {N k : Nat} (h : s.Watched) (hacc : s.Accepting)
    (hcb : s.acceptor.newConnectionCallback_ = true) (hk : k < s.queue.length)
    (hprompt : acceptMachine.Along (Prompt N) s es) (hrun : acceptMachine.run s es = some t)
    (hlong : s.cost N k < kInitEventListSize * (acceptMachine.gather polls s es).length) :
    ∃ connfd : Nat, (acceptMachine.gather settled s es)[k]? = some (s.queue[k], .handed connfd) := by
  induction es generalizing s k with
  | nil => simp at hlong
  | cons e es ih =>
      obtain ⟨u, hu, hrest⟩ := Machine.run_cons_some.mp hrun
      obtain ⟨hwatched, hcallback⟩ := h.stays hacc hcb hprompt.1 hu
      have hnext := hacc.step hprompt.1.few hu
      rw [Machine.gather_cons_of_next hu] at hlong ⊢
      rw [List.length_append, Nat.mul_add] at hlong
      cases h.pays hacc hcb hk hprompt.1 hu with
      | waits hsettled hqueue hpaid =>
          have hk' : k < u.queue.length := Nat.lt_of_lt_of_le hk hqueue.length_le
          obtain ⟨connfd, hserved⟩ := ih hwatched hnext hcallback hk' (hprompt.2 u hu) hrest
            (by omega)
          refine ⟨connfd, ?_⟩
          rw [hsettled, List.nil_append, hserved, hqueue.getElem hk]
      | served peer connfd hqueue hsettled hpolls hcost =>
          rw [hpolls, List.length_nil, Nat.mul_zero, Nat.zero_add] at hlong
          rw [hsettled, List.singleton_append]
          cases k with
          | zero => exact ⟨connfd, by simp [hqueue]⟩
          | succ k =>
              have hk' : k < u.queue.length := by
                rw [hqueue, List.length_cons] at hk
                exact Nat.lt_of_succ_lt_succ hk
              have hlong' : u.cost N k
                  < kInitEventListSize * (acceptMachine.gather polls u es).length := by
                rw [hcost]
                exact hlong
              obtain ⟨connfd', hserved⟩ :=
                ih hwatched hnext hcallback hk' (hprompt.2 u hu) hrest hlong'
              exact ⟨connfd', by simp [hqueue, hserved]⟩

/-- Three connections complete before the first poll. -/
def threeArrivals : List AcceptEvent :=
  [.setNewConnectionCallback, .listen, .enableReading, .connect ⟨(10, 0, 0, 1), 1000⟩,
    .connect ⟨(10, 0, 0, 2), 1000⟩, .connect ⟨(10, 0, 0, 3), 1000⟩]

/-- The loop goes round until nothing is ready. -/
def fourPolls : List AcceptEvent :=
  [.turn ⟨none, fun _ => 0⟩, .handleEvent (.accept 7), .turn ⟨none, fun _ => 0⟩,
    .handleEvent (.accept 8), .turn ⟨none, fun _ => 0⟩, .handleEvent (.accept 9),
    .turn ⟨none, fun _ => 0⟩]

end AcceptLoop

end Mymuduo
