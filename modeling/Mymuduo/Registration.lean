/-
Mymuduo/Registration.lean

The channels of one loop, the poller's map and the kernel's interest list
(EPollPoller.cc, Poller.cc, Channel.h).

What a channel is registered as is written down three times: in its `index_`
and `events_`, in `channels_`, and in the kernel.  `EPollPoller.record` writes
the last two from the first; `ChannelOp.apply_eq` says that each of the six
calls on a channel changes the channel and records it, and nothing else.  Both
results of the module are read off that equation:

* the map and the kernel mirror the channels in every reachable state, and no
  `epoll_ctl` fails (`poller_mirrors_kernel`);
* a channel without interest stays out of the kernel's list exactly as long as
  no call leaves an empty mask on a channel that is not in the list
  (`no_interest_iff_emptiesAdded`): `updateChannel` looks at the mask only when the
  index is `kAdded`.
-/
import Mymuduo.Transition
import Mymuduo.EPollPoller

namespace Mymuduo

open Transition

/-! ### The calls on a channel -/

/-- The calls of a channel that reach the poller. -/
inductive ChannelOp
  | enableReading
  | disableReading
  | enablewriting
  | disableWriting
  | disableAll
  | remove
  deriving DecidableEq, Repr

namespace ChannelOp

/-- The call on a channel of the loop whose poller is given. -/
def apply : ChannelOp → Channel → EPollPoller → Channel × EPollPoller
  | .enableReading => Channel.enableReading
  | .disableReading => Channel.disableReading
  | .enablewriting => Channel.enablewriting
  | .disableWriting => Channel.disableWriting
  | .disableAll => Channel.disableAll
  | .remove => Channel.remove

/-- What the call makes of `events_`. -/
def mask : ChannelOp → Mask → Mask
  | .enableReading, m => m ||| kReadEvent
  | .disableReading, m => m &&& ~~~kReadEvent
  | .enablewriting, m => m ||| kWriteEvent
  | .disableWriting, m => m &&& ~~~kWriteEvent
  | .disableAll, _ => kNoneEvent
  -- `remove` leaves the interest as it is
  | .remove, m => m

/-- The calls that give up interest. -/
def disables : ChannelOp → Bool
  | .disableReading | .disableWriting | .disableAll => true
  | .enableReading | .enablewriting | .remove => false

/-- The channel after the call, if the poller mirrors it. -/
def after (op : ChannelOp) (c : Channel) : Channel :=
  { c with
    events_ := op.mask c.events_
    index_ :=
      if op = .remove then .kNew
      -- the mask counts only for a channel that is in the kernel's list
      else if c.index_ = .kAdded ∧ op.mask c.events_ = kNoneEvent then .kDeleted
      else .kAdded }

variable (op : ChannelOp) (c : Channel)

@[simp] theorem after_self : (op.after c).self = c.self := rfl
@[simp] theorem after_fd : (op.after c).fd_ = c.fd_ := rfl
@[simp] theorem after_events : (op.after c).events_ = op.mask c.events_ := rfl

end ChannelOp

/-! ### Recording a channel -/

namespace Channel

/-- What `channels_` should hold at the channel's fd. -/
def mapEntry (c : Channel) : Option ChannelPtr :=
  if c.index_ = .kNew then none else some c.self

/-- What the kernel should hold at the channel's fd. -/
def watchEntry (c : Channel) : Option (Mask × ChannelPtr) :=
  if c.index_ = .kAdded then some (c.events_, c.self) else none

/-- The poller's map and the kernel's list agree with the channel. -/
structure Mirrored (c : Channel) (p : EPollPoller) : Prop where
  channels : p.channels_ c.fd_ = c.mapEntry
  kernel : p.epollSet c.fd_ = c.watchEntry

end Channel

/-- Write what the channel is registered as at its fd. -/
def EPollPoller.record (p : EPollPoller) (c : Channel) : EPollPoller :=
  { p with channels_ := Function.update p.channels_ c.fd_ c.mapEntry
           epollSet := Function.update p.epollSet c.fd_ c.watchEntry }

section Record

variable {p : EPollPoller} {c d : Channel} {op : ChannelOp} {m : Mask}

@[simp] theorem EPollPoller.record_failures : (p.record c).failures = p.failures := rfl

theorem EPollPoller.record_channels_ne (h : d.fd_ ≠ c.fd_) :
    (p.record c).channels_ d.fd_ = p.channels_ d.fd_ :=
  Function.update_of_ne h _ _

theorem EPollPoller.record_epollSet_ne (h : d.fd_ ≠ c.fd_) :
    (p.record c).epollSet d.fd_ = p.epollSet d.fd_ :=
  Function.update_of_ne h _ _

theorem Channel.mirrored_record : c.Mirrored (p.record c) :=
  ⟨Function.update_self .., Function.update_self ..⟩

/-- Recording a channel does not touch the record of another fd. -/
theorem Channel.Mirrored.frame (h : d.Mirrored p) (hfd : d.fd_ ≠ c.fd_) :
    d.Mirrored (p.record c) := by
  constructor
  · rw [EPollPoller.record_channels_ne hfd, h.channels]
  · rw [EPollPoller.record_epollSet_ne hfd, h.kernel]

/-- Recording a channel that is mirrored already changes nothing. -/
theorem Channel.Mirrored.record_eq (h : c.Mirrored p) : p.record c = p := by
  have hmap : Function.update p.channels_ c.fd_ c.mapEntry = p.channels_ := by
    rw [Function.update_eq_self_iff, h.channels]
  have hset : Function.update p.epollSet c.fd_ c.watchEntry = p.epollSet := by
    rw [Function.update_eq_self_iff, h.kernel]
  simp only [EPollPoller.record, hmap, hset]

theorem Channel.mirrored_new (self : ChannelPtr) (fd : Int) :
    (Channel.new self fd).Mirrored EPollPoller.new :=
  ⟨rfl, rfl⟩

theorem Channel.Mirrored.registered (h : c.Mirrored p) (hi : c.index_ = .kAdded) :
    c.Registered p :=
  ⟨hi, by rw [h.kernel, Channel.watchEntry, if_pos hi]⟩

theorem Channel.Mirrored.unregistered (h : c.Mirrored p) (hi : c.index_ ≠ .kAdded) :
    { c with events_ := m }.Unregistered p :=
  ⟨hi, by rw [h.kernel, Channel.watchEntry, if_neg hi]⟩

/-- An update of a mirrored channel whose mask was set to `m`. -/
theorem Channel.Mirrored.update_eq (h : c.Mirrored p) {d : Channel}
    (hd : d = { c with
      events_ := m
      index_ := if c.index_ = .kAdded ∧ m = kNoneEvent then .kDeleted else .kAdded }) :
    { c with events_ := m }.update p = (d, p.record d) := by
  subst hd
  by_cases hi : c.index_ = .kAdded
  · -- a registered channel keeps its entry in the map
    have hmap : Function.update p.channels_ c.fd_ (some c.self) = p.channels_ := by
      rw [Function.update_eq_self_iff, h.channels, Channel.mapEntry, hi]
      rfl
    by_cases hm : m = kNoneEvent
    · subst hm
      rw [update_del (h.registered hi)]
      simp [hi, EPollPoller.record, mapEntry, watchEntry, hmap]
    · rw [update_mod (h.registered hi) hm]
      simp [hi, hm, EPollPoller.record, mapEntry, watchEntry, hmap]
  · rw [update_add (h.unregistered hi)]
    simp [hi, EPollPoller.record, mapEntry, watchEntry]

theorem Channel.Mirrored.remove_eq (h : c.Mirrored p) :
    c.remove p = ({ c with index_ := .kNew }, p.record { c with index_ := .kNew }) := by
  by_cases hi : c.index_ = .kAdded
  · simp [Channel.remove, EPollPoller.removeChannel, hi, EPollPoller.update, epoll_ctl,
      (h.registered hi).kernel, EPollPoller.record, mapEntry, watchEntry]
  · -- the kernel does not hold the fd, so there is nothing to delete
    have hset : Function.update p.epollSet c.fd_ none = p.epollSet := by
      rw [Function.update_eq_self_iff, h.kernel, Channel.watchEntry, if_neg hi]
    simp [Channel.remove, EPollPoller.removeChannel, hi, EPollPoller.record, mapEntry,
      watchEntry, hset]

/-- A call on a mirrored channel changes the channel, records it, and does
nothing else. -/
theorem ChannelOp.apply_eq (h : c.Mirrored p) :
    op.apply c p = (op.after c, p.record (op.after c)) := by
  cases op with
  | remove => exact h.remove_eq
  | enableReading => exact h.update_eq rfl
  | disableReading => exact h.update_eq rfl
  | enablewriting => exact h.update_eq rfl
  | disableWriting => exact h.update_eq rfl
  | disableAll => exact h.update_eq rfl

end Record

/-! ### The channels of one loop -/

/-- The channels that share a poller. -/
structure Registry (ι : Type*) where
  channels : ι → Channel
  poller : EPollPoller

variable {ι : Type*} [DecidableEq ι] {s t : Registry ι} {e : ι × ChannelOp} {i j : ι}

/-- One call on one of the channels. -/
def Registry.call (s : Registry ι) (e : ι × ChannelOp) : Registry ι where
  channels := Function.update s.channels e.1 (e.2.apply (s.channels e.1) s.poller).1
  poller := (e.2.apply (s.channels e.1) s.poller).2

/-- Calls in any order on channels with distinct descriptors, none of them
registered at the start. -/
def registryMachine (ι : Type*) [DecidableEq ι] : Machine (Registry ι) (ι × ChannelOp) where
  init s := s.poller = EPollPoller.new ∧
    ∃ (ptr : ι → ChannelPtr) (fd : ι → Int), Function.Injective fd ∧
      s.channels = fun i => Channel.new (ptr i) (fd i)
  next s e := some (s.call e)

@[simp] theorem registryMachine_next :
    (registryMachine ι).next s e = some t ↔ s.call e = t := by
  simp [registryMachine]

/-- The three records of every channel agree. -/
structure Registry.InStep (s : Registry ι) : Prop where
  fds : Function.Injective fun i => (s.channels i).fd_
  mirrored : ∀ i, (s.channels i).Mirrored s.poller
  failures : s.poller.failures = []

namespace Registry.InStep

theorem of_init (h : (registryMachine ι).init s) : s.InStep := by
  obtain ⟨hp, ptr, fd, hfd, hc⟩ := h
  refine ⟨?_, fun i => ?_, ?_⟩
  · simpa [hc, Channel.new] using hfd
  · rw [hc, hp]
    exact Channel.mirrored_new _ _
  · rw [hp]
    rfl

variable (h : s.InStep)
include h

theorem call_self : (s.call e).channels e.1 = e.2.after (s.channels e.1) := by
  simp [call, ChannelOp.apply_eq (h.mirrored e.1)]

theorem call_poller : (s.call e).poller = s.poller.record (e.2.after (s.channels e.1)) := by
  simp [call, ChannelOp.apply_eq (h.mirrored e.1)]

omit h in
theorem call_ne (hj : j ≠ e.1) : (s.call e).channels j = s.channels j :=
  Function.update_of_ne hj _ _

omit [DecidableEq ι] in
theorem fd_ne (hj : j ≠ i) : (s.channels j).fd_ ≠ (s.channels i).fd_ :=
  fun hfd => hj (h.fds hfd)

/-- No call changes a descriptor. -/
theorem call_fd : ((s.call e).channels i).fd_ = (s.channels i).fd_ := by
  by_cases hi : i = e.1
  · subst hi
    rw [h.call_self]
    rfl
  · rw [call_ne hi]

/-- The registration of the other channels is unchanged by a call. -/
theorem call_frame (hj : j ≠ e.1) :
    (s.call e).poller.channels_ (s.channels j).fd_ = s.poller.channels_ (s.channels j).fd_ ∧
    (s.call e).poller.epollSet (s.channels j).fd_ = s.poller.epollSet (s.channels j).fd_ := by
  rw [h.call_poller]
  exact ⟨EPollPoller.record_channels_ne (h.fd_ne hj),
    EPollPoller.record_epollSet_ne (h.fd_ne hj)⟩

/-- **A call keeps the three records in step.** -/
theorem call : (s.call e).InStep where
  fds := by simpa only [h.call_fd] using h.fds
  mirrored j := by
    rw [h.call_poller]
    by_cases hj : j = e.1
    · subst hj
      rw [h.call_self]
      exact Channel.mirrored_record
    · rw [call_ne hj]
      exact (h.mirrored j).frame (h.fd_ne hj)
  failures := by rw [h.call_poller, EPollPoller.record_failures, h.failures]

theorem next (ht : (registryMachine ι).next s e = some t) : t.InStep := by
  obtain rfl := registryMachine_next.mp ht
  exact h.call

end Registry.InStep

theorem Registry.inStep_of_reachable (h : (registryMachine ι).Reachable s) : s.InStep :=
  h.invariant (fun _ => Registry.InStep.of_init) fun _ _ _ => Registry.InStep.next

/-! ### The poller mirrors the kernel -/

namespace Channel.Mirrored

variable {c : Channel} {p : EPollPoller} (h : c.Mirrored p)
include h

theorem kAdded_iff : c.index_ = .kAdded ↔ p.epollSet c.fd_ = some (c.events_, c.self) := by
  rw [h.kernel, watchEntry]
  cases c.index_ <;> simp

theorem kDeleted_iff :
    c.index_ = .kDeleted ↔ p.channels_ c.fd_ = some c.self ∧ p.epollSet c.fd_ = none := by
  rw [h.kernel, h.channels, watchEntry, mapEntry]
  cases c.index_ <;> simp

theorem kNew_iff :
    c.index_ = .kNew ↔ p.channels_ c.fd_ = none ∧ p.epollSet c.fd_ = none := by
  rw [h.kernel, h.channels, watchEntry, mapEntry]
  cases c.index_ <;> simp

theorem hasChannel_iff : p.hasChannel c = true ↔ c.index_ ≠ .kNew := by
  rw [EPollPoller.hasChannel, h.channels, mapEntry]
  cases c.index_ <;> simp

end Channel.Mirrored

/-- **The poller mirrors the kernel.**  In every reachable state the index of
each channel says what the map and the kernel's list hold at its descriptor, a
further call leaves the registration of all other channels as it is, and no
`epoll_ctl` has failed. -/
theorem poller_mirrors_kernel (h : (registryMachine ι).Reachable s) :
    (∀ i, ((s.channels i).index_ = .kAdded ↔ s.poller.epollSet (s.channels i).fd_
          = some ((s.channels i).events_, (s.channels i).self)) ∧
      ((s.channels i).index_ = .kDeleted ↔
        s.poller.channels_ (s.channels i).fd_ = some (s.channels i).self ∧
        s.poller.epollSet (s.channels i).fd_ = none) ∧
      ((s.channels i).index_ = .kNew ↔ s.poller.channels_ (s.channels i).fd_ = none ∧
        s.poller.epollSet (s.channels i).fd_ = none) ∧
      (s.poller.hasChannel (s.channels i) = true ↔ (s.channels i).index_ ≠ .kNew)) ∧
    (∀ e t, (registryMachine ι).next s e = some t → ∀ j, j ≠ e.1 →
      t.channels j = s.channels j ∧
      t.poller.channels_ (s.channels j).fd_ = s.poller.channels_ (s.channels j).fd_ ∧
      t.poller.epollSet (s.channels j).fd_ = s.poller.epollSet (s.channels j).fd_) ∧
    s.poller.failures = [] := by
  have hs := Registry.inStep_of_reachable h
  refine ⟨fun i => ?_, fun e t ht j hj => ?_, hs.failures⟩
  · have hi := hs.mirrored i
    exact ⟨hi.kAdded_iff, hi.kDeleted_iff, hi.kNew_iff, hi.hasChannel_iff⟩
  · obtain rfl := registryMachine_next.mp ht
    exact ⟨Registry.InStep.call_ne hj, hs.call_frame hj⟩

/-- Two channels: one was added and cleared again, the other is writing. -/
theorem poller_mirrors_kernel_pair :
    ∃ s : Registry Bool, (registryMachine Bool).Reachable s ∧
      (s.channels false).index_ = .kDeleted ∧ s.poller.channels_ 4 = some 100 ∧
      s.poller.epollSet 4 = none ∧ s.poller.epollSet 5 = some (kWriteEvent, 200) ∧
      s.poller.failures = [] := by
  let s₀ : Registry Bool :=
    ⟨fun i => bif i then Channel.new 200 5 else Channel.new 100 4, EPollPoller.new⟩
  have hinit : (registryMachine Bool).init s₀ := by
    refine ⟨rfl, fun i => bif i then 200 else 100, fun i => bif i then 5 else 4, ?_, ?_⟩
    · decide
    · funext i
      cases i <;> rfl
  have hreach : (registryMachine Bool).Reachable _ :=
    ⟨s₀, [(false, .enableReading), (true, .enablewriting), (false, .disableAll)], hinit, rfl⟩
  obtain ⟨hmirror, -, hfail⟩ := poller_mirrors_kernel hreach
  refine ⟨_, hreach, by decide, ?_, ?_, by decide, hfail⟩
  · exact ((hmirror false).2.1.mp (by decide)).1
  · exact ((hmirror false).2.1.mp (by decide)).2

/-! ### Channels without interest -/

namespace Registry

/-- A channel without interest is not in the kernel's list. -/
def NoInterestAbsent (s : Registry ι) : Prop :=
  ∀ i, (s.channels i).isNoneEvent = true → s.poller.epollSet (s.channels i).fd_ = none

/-- What a step should keep: no channel without interest is in the kernel's
list, and a disabling call on a channel without interest, or one that finds its
bits clear on a channel in the list, leaves the poller as it is. -/
structure Disarmed (s : Registry ι) (e : ι × ChannelOp) (t : Registry ι) : Prop where
  absent : t.NoInterestAbsent
  idempotent : e.2.disables = true →
    e.2.mask (s.channels e.1).events_ = (s.channels e.1).events_ →
    (s.channels e.1).isNoneEvent = true ∨ (s.channels e.1).index_ = .kAdded →
    t.poller = s.poller

/-- The call is `remove`, leaves some interest, or is made on a channel that is
in the kernel's list. -/
def EmptiesAdded (s : Registry ι) (e : ι × ChannelOp) : Prop :=
  e.2 = .remove ∨ e.2.mask (s.channels e.1).events_ ≠ kNoneEvent ∨
    (s.channels e.1).index_ = .kAdded

instance (s : Registry ι) (e : ι × ChannelOp) : Decidable (s.EmptiesAdded e) :=
  inferInstanceAs (Decidable (_ ∨ _ ∨ _))

end Registry

omit [DecidableEq ι] in
/-- A channel without interest has no index `kAdded`. -/
theorem Registry.NoInterestAbsent.index (h : s.NoInterestAbsent) (hs : s.InStep)
    (hi : (s.channels i).events_ = kNoneEvent) : (s.channels i).index_ ≠ .kAdded := by
  intro hadded
  have hset := (hs.mirrored i).kAdded_iff.mp hadded
  rw [h i (by simp [Channel.isNoneEvent, hi])] at hset
  cases hset

/-- An emptying call on a channel outside the list puts it in, with the empty
mask. -/
theorem Registry.InStep.not_absent (hs : s.InStep) (he : ¬ s.EmptiesAdded e) :
    ¬ (s.call e).NoInterestAbsent := by
  simp only [EmptiesAdded, not_or, not_not] at he
  obtain ⟨hremove, hmask, hadded⟩ := he
  intro h
  refine h.index hs.call (i := e.1) ?_ ?_
  · rw [hs.call_self, ChannelOp.after_events, hmask]
  · rw [hs.call_self]
    simp [ChannelOp.after, hremove, hadded]

/-- A guarded call keeps the channels without interest out of the list. -/
theorem Registry.NoInterestAbsent.call (h : s.NoInterestAbsent) (hs : s.InStep)
    (he : s.EmptiesAdded e) : (s.call e).NoInterestAbsent := by
  intro i hi
  by_cases hie : i = e.1
  · subst hie
    rw [(hs.call.mirrored e.1).kernel, Channel.watchEntry, if_neg]
    rw [hs.call_self] at hi ⊢
    have hmask : e.2.mask (s.channels e.1).events_ = kNoneEvent := by
      simpa [Channel.isNoneEvent] using hi
    rcases he with hremove | hne | hadded
    · simp [ChannelOp.after, hremove]
    · exact absurd hmask hne
    · by_cases hremove : e.2 = .remove <;> simp [ChannelOp.after, hremove, hadded, hmask]
  · rw [Registry.InStep.call_ne hie] at hi ⊢
    rw [(hs.call_frame hie).2]
    exact h i hi

/-- A disabling call that has nothing to disable changes nothing, if the channel
is in the list. -/
theorem Registry.InStep.call_idempotent (hs : s.InStep) (hd : e.2.disables = true)
    (hmask : e.2.mask (s.channels e.1).events_ = (s.channels e.1).events_)
    (hne : (s.channels e.1).events_ ≠ kNoneEvent)
    (hadded : (s.channels e.1).index_ = .kAdded) : (s.call e).poller = s.poller := by
  have hafter : e.2.after (s.channels e.1) = s.channels e.1 := by
    have hremove : e.2 ≠ .remove := by
      intro hremove
      rw [hremove] at hd
      cases hd
    simp only [ChannelOp.after, hmask, hremove, hne, and_false, if_false, ← hadded]
  rw [hs.call_poller, hafter, (hs.mirrored e.1).record_eq]

/-- The guard decides what a step does to the channels without interest. -/
theorem Registry.disarmed_iff (hs : s.InStep) (h : s.NoInterestAbsent) :
    s.Disarmed e (s.call e) ↔ s.EmptiesAdded e := by
  constructor
  · intro hd
    by_contra he
    exact hs.not_absent he hd.absent
  · refine fun he => ⟨h.call hs he, fun hd hmask hcase => ?_⟩
    have hremove : e.2 ≠ .remove := by
      intro hremove
      rw [hremove] at hd
      cases hd
    by_cases hne : (s.channels e.1).events_ = kNoneEvent
    · -- such a call on a channel without interest is not guarded
      refine absurd ?_ (h.index hs hne)
      rcases he with hr | hm | hadded
      · exact absurd hr hremove
      · exact absurd (hmask.trans hne) hm
      · exact hadded
    · refine hs.call_idempotent hd hmask hne (hcase.resolve_left ?_)
      simpa [Channel.isNoneEvent] using hne

/-- **No interest means not registered, as long as no call empties a channel
outside the list.**  Every step of a run keeps the channels without interest out
of the kernel's list, and disabling idempotent, exactly when each call that
leaves an empty mask is made on a channel with index `kAdded`. -/
theorem no_interest_iff_emptiesAdded {es : List (ι × ChannelOp)}
    (hinit : (registryMachine ι).init s) (hrun : (registryMachine ι).run s es = some t) :
    (registryMachine ι).Every Registry.Disarmed s es ↔
      (registryMachine ι).Along Registry.EmptiesAdded s es := by
  refine Machine.every_iff_along (I := fun s => s.InStep ∧ s.NoInterestAbsent)
    (A := fun _ _ => True) ?_ ?_ (Machine.along_of_forall fun _ _ _ => trivial) hrun ?_
  · rintro s e t ⟨hs, habsent⟩ - ht
    obtain rfl := registryMachine_next.mp ht
    exact Registry.disarmed_iff hs habsent
  · rintro s e t ⟨hs, habsent⟩ - he ht
    obtain rfl := registryMachine_next.mp ht
    exact ⟨hs.call, habsent.call hs he⟩
  · refine ⟨Registry.InStep.of_init hinit, fun i _ => ?_⟩
    rw [hinit.1]
    rfl

/-- The channel of an `Acceptor` that listens, is destroyed, and is taken out. -/
theorem no_interest_iff_emptiesAdded_listening :
    let es : List (Unit × ChannelOp) := [((), .enableReading), ((), .disableAll), ((), .remove)]
    ∃ s : Registry Unit, (registryMachine Unit).init s ∧
      (registryMachine Unit).Every Registry.Disarmed s es := by
  intro es
  let s₀ : Registry Unit := ⟨fun _ => Channel.new 100 4, EPollPoller.new⟩
  have hinit : (registryMachine Unit).init s₀ :=
    ⟨rfl, fun _ => 100, fun _ => 4, Function.injective_of_subsingleton _, rfl⟩
  have hguard : (registryMachine Unit).Along Registry.EmptiesAdded s₀ es := by decide
  exact ⟨s₀, hinit, (no_interest_iff_emptiesAdded hinit rfl).mpr hguard⟩

/-- The destructor of an `Acceptor` that never listened: `disableAll` adds its
descriptor to the kernel's list, with the empty mask. -/
theorem never_listened_is_registered :
    ∃ s t : Registry Unit, (registryMachine Unit).init s ∧
      (registryMachine Unit).run s [((), .disableAll)] = some t ∧
      s.poller.epollSet 4 = none ∧ (t.channels ()).fd_ = 4 ∧
      (t.channels ()).isNoneEvent = true ∧ t.poller.epollSet 4 = some (kNoneEvent, 100) := by
  refine ⟨⟨fun _ => Channel.new 100 4, EPollPoller.new⟩, _, ?_, rfl, rfl, rfl, rfl, rfl⟩
  exact ⟨rfl, fun _ => 100, fun _ => 4, Function.injective_of_subsingleton _, rfl⟩

end Mymuduo
