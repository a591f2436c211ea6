/-
Mymuduo/EPollPoller.lean

`Channel` (Channel.h, Channel.cc) and `EPollPoller` (EPollPoller.cc, Poller.cc)
with the kernel's interest list.

A `Channel*` is represented by an address; the map `channels_` and the kernel
list hold addresses, a `Channel` value carries its own (`self`).  An interest
operation of a channel goes through its loop to the poller, so it takes the
poller and returns both.  `epoll_ctl` succeeds for ADD of an absent fd and for
MOD and DEL of a present one and fails otherwise; the failed calls are kept in
`failures` (LOG_ERROR for DEL, LOG_FATAL and exit for the other two).
-/
import Mathlib.Tactic
import Mathlib.Logic.Function.Basic

namespace Mymuduo

/-! ### Event masks -/

/-- The `int` masks of epoll. -/
abbrev Mask := BitVec 32

def EPOLLIN : Mask := 0x001
def EPOLLPRI : Mask := 0x002
def EPOLLOUT : Mask := 0x004
def EPOLLERR : Mask := 0x008
def EPOLLHUP : Mask := 0x010

def kNoneEvent : Mask := 0
def kReadEvent : Mask := EPOLLIN ||| EPOLLPRI
def kWriteEvent : Mask := EPOLLOUT

/-- `m & flags` as a condition. -/
def hasAny (m flags : Mask) : Bool := m &&& flags != 0

theorem hasAny_or (m a b : Mask) :
    hasAny m (a ||| b) = true ↔ hasAny m a = true ∨ hasAny m b = true := by
  simp only [hasAny, bne_iff_ne, BitVec.and_or_distrib_left, ne_eq]
  rw [show (0 : Mask) = 0#32 from rfl, BitVec.or_eq_zero_iff, not_and_or]

/-! ### Channel -/

/-- The address of a `Channel`. -/
abbrev ChannelPtr := Nat

/-- The state of a channel in its poller. -/
inductive Index
  | kNew
  | kAdded
  | kDeleted
  deriving DecidableEq, Repr

structure Channel where
  self : ChannelPtr
  fd_ : Int
  events_ : Mask
  revents_ : Mask
  index_ : Index
  tied_ : Bool
  deriving DecidableEq, Repr

namespace Channel

/-- `Channel::Channel`. -/
def new (self : ChannelPtr) (fd : Int) : Channel where
  self := self
  fd_ := fd
  events_ := 0
  revents_ := 0
  index_ := .kNew
  tied_ := false

def isNoneEvent (c : Channel) : Bool := c.events_ == kNoneEvent

def isWriting (c : Channel) : Bool := hasAny c.events_ kWriteEvent

end Channel

/-! ### The kernel's interest list -/

inductive EpollOp
  | add
  | mod
  | del
  deriving DecidableEq, Repr

/-- The interest list of an epoll descriptor: the registered mask and the
`data.ptr` of each fd. -/
abbrev EpollSet := Int → Option (Mask × ChannelPtr)

/-- `::epoll_ctl`; `none` is a return of `-1`. -/
def epoll_ctl (set : EpollSet) (op : EpollOp) (fd : Int) (event : Mask × ChannelPtr) :
    Option EpollSet :=
  match op, (set fd).isSome with
  | .add, false => some (Function.update set fd (some event))
  | .mod, true => some (Function.update set fd (some event))
  | .del, true => some (Function.update set fd none)
  -- ADD of a present fd, MOD or DEL of an absent one
  | _, _ => none

/-! ### EPollPoller -/

structure EPollPoller where
  channels_ : Int → Option ChannelPtr
  epollSet : EpollSet
  failures : List (EpollOp × Int)

namespace EPollPoller

def new : EPollPoller where
  channels_ := fun _ => none
  epollSet := fun _ => none
  failures := []

/-- `EPollPoller::update(int operation, Channel *channel)`. -/
def update (p : EPollPoller) (op : EpollOp) (c : Channel) : EPollPoller :=
  match epoll_ctl p.epollSet op c.fd_ (c.events_, c.self) with
  | some set => { p with epollSet := set }
  | none => { p with failures := p.failures ++ [(op, c.fd_)] }

def updateChannel (p : EPollPoller) (c : Channel) : EPollPoller × Channel :=
  if c.index_ = .kNew ∨ c.index_ = .kDeleted then
    -- whatever the mask, also an empty one
    let p := { p with channels_ := Function.update p.channels_ c.fd_ (some c.self) }
    let c := { c with index_ := .kAdded }
    (p.update .add c, c)
  else if c.isNoneEvent then
    (p.update .del c, { c with index_ := .kDeleted })
  else (p.update .mod c, c)

def removeChannel (p : EPollPoller) (c : Channel) : EPollPoller × Channel :=
  let p := { p with channels_ := Function.update p.channels_ c.fd_ none }
  -- a channel in state kDeleted has left the kernel's list before
  let p := if c.index_ = .kAdded then p.update .del c else p
  (p, { c with index_ := .kNew })

/-- `Poller::hasChannel`. -/
def hasChannel (p : EPollPoller) (c : Channel) : Bool := p.channels_ c.fd_ == some c.self

/-- `epoll_wait` may return the fd: it is in the interest list. -/
def watches (p : EPollPoller) (fd : Int) : Bool := (p.epollSet fd).isSome

end EPollPoller

/-! ### The interest operations of a channel -/

namespace Channel

/-- `Channel::update`, through `EventLoop::updateChannel`. -/
def update (c : Channel) (p : EPollPoller) : Channel × EPollPoller := (p.updateChannel c).swap

def enableReading (c : Channel) (p : EPollPoller) : Channel × EPollPoller :=
  { c with events_ := c.events_ ||| kReadEvent }.update p

def disableReading (c : Channel) (p : EPollPoller) : Channel × EPollPoller :=
  { c with events_ := c.events_ &&& ~~~kReadEvent }.update p

def enablewriting (c : Channel) (p : EPollPoller) : Channel × EPollPoller :=
  { c with events_ := c.events_ ||| kWriteEvent }.update p

def disableWriting (c : Channel) (p : EPollPoller) : Channel × EPollPoller :=
  { c with events_ := c.events_ &&& ~~~kWriteEvent }.update p

def disableAll (c : Channel) (p : EPollPoller) : Channel × EPollPoller :=
  { c with events_ := kNoneEvent }.update p

/-- `Channel::remove`, through `EventLoop::removeChannel`. -/
def remove (c : Channel) (p : EPollPoller) : Channel × EPollPoller := (p.removeChannel c).swap

/-! ### What an update does -/

/-- The channel is in the kernel's interest list, with its mask and itself. -/
structure Registered (c : Channel) (p : EPollPoller) : Prop where
  index : c.index_ = .kAdded
  kernel : p.epollSet c.fd_ = some (c.events_, c.self)

/-- The channel is not in the kernel's interest list. -/
structure Unregistered (c : Channel) (p : EPollPoller) : Prop where
  index : c.index_ ≠ .kAdded
  kernel : p.epollSet c.fd_ = none

variable {c : Channel} {p : EPollPoller}

/-- An update tells the poller about the mask and leaves it as it is. -/
@[simp] theorem update_events (c : Channel) (p : EPollPoller) :
    (c.update p).1.events_ = c.events_ := by
  unfold update EPollPoller.updateChannel
  dsimp only
  split
  · rfl
  · split <;> rfl

/-- An unregistered channel is added, whatever its mask. -/
theorem update_add (h : c.Unregistered p) :
    c.update p = ({ c with index_ := .kAdded },
      { p with channels_ := Function.update p.channels_ c.fd_ (some c.self)
               epollSet := Function.update p.epollSet c.fd_ (some (c.events_, c.self)) }) := by
  have hidx : c.index_ = .kNew ∨ c.index_ = .kDeleted := by
    have := h.index
    cases hi : c.index_ <;> simp_all
  simp [update, EPollPoller.updateChannel, hidx, EPollPoller.update, epoll_ctl, h.kernel]

/-- A registered channel whose mask was set to something is modified. -/
theorem update_mod {m : Mask} (h : c.Registered p) (hm : m ≠ kNoneEvent) :
    { c with events_ := m }.update p = ({ c with events_ := m },
      { p with epollSet := Function.update p.epollSet c.fd_ (some (m, c.self)) }) := by
  simp [update, EPollPoller.updateChannel, h.index, isNoneEvent, hm, EPollPoller.update,
    epoll_ctl, h.kernel]

/-- A registered channel whose mask was cleared is deleted. -/
theorem update_del (h : c.Registered p) :
    { c with events_ := kNoneEvent }.update p
      = ({ c with events_ := kNoneEvent, index_ := .kDeleted },
        { p with epollSet := Function.update p.epollSet c.fd_ none }) := by
  simp [update, EPollPoller.updateChannel, h.index, isNoneEvent, EPollPoller.update,
    epoll_ctl, h.kernel]

theorem Unregistered.registered (h : c.Unregistered p) :
    (c.update p).1.Registered (c.update p).2 := by
  rw [update_add h]
  exact ⟨rfl, by simp⟩

theorem Registered.modified {m : Mask} (h : c.Registered p) (hm : m ≠ kNoneEvent) :
    ({ c with events_ := m }.update p).1.Registered ({ c with events_ := m }.update p).2 := by
  rw [update_mod h hm]
  exact ⟨h.index, by simp⟩

theorem Registered.deleted (h : c.Registered p) :
    ({ c with events_ := kNoneEvent }.update p).1.Unregistered
      ({ c with events_ := kNoneEvent }.update p).2 := by
  rw [update_del h]
  exact ⟨by simp, by simp⟩

end Channel

end Mymuduo
