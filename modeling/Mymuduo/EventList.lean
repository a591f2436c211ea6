/-
Mymuduo/EventList.lean

`EPollPoller::poll` and the vector of events that it hands to the kernel.

`events_` is kept from one poll to the next: `epoll_wait` overwrites its first entries,
the others are those of older polls or zero, and a poll that fills the vector doubles
it.  A loop clears `activeChannels_` and lets the poller fill it again (`turn`).

The kernel reports at most as many descriptors as there is room for, so with more of
them ready than that a poll leaves some behind.  It goes round its list of ready
descriptors (epoll_wait(2)): what is left behind is first in the next poll, and what
stays ready after a report goes to the end.  Each poll brings a descriptor that waits
forward by at least the initial size of the vector, whatever the others do
(`no_descriptor_starves`).  That the kernel goes round its list is assumed, as the manual
page documents it; what the poller adds is the room.
-/
import Mymuduo.Ledger
import Mymuduo.ServerSystem

namespace Mymuduo

open Transition

/-! ### epoll_wait -/

/-- `struct epoll_event` with a pointer in its union. -/
structure EpollEvent where
  events : Mask
  ptr : ChannelPtr
  deriving DecidableEq, Repr

/-- The answer of the kernel to an `epoll_wait`: an error, or what is the case with
each descriptor at that time. -/
structure WaitEnv where
  error : Option Errno
  state : Int → Mask

/-- What is reported of a descriptor: the events it is watched for, and errors in any
case. -/
def report (set : EpollSet) (state : Int → Mask) (fd : Int) : Option EpollEvent :=
  (set fd).bind fun (interest, ptr) =>
    let revents := state fd &&& (interest ||| EPOLLERR ||| EPOLLHUP)
    if revents = 0 then none else some ⟨revents, ptr⟩

/-- What is reported is watched, and comes with the pointer it was registered with. -/
theorem watched_of_report {set : EpollSet} {state : Int → Mask} {fd : Int} {ev : EpollEvent}
    (h : report set state fd = some ev) : ∃ interest, set fd = some (interest, ev.ptr) := by
  obtain ⟨⟨interest, ptr⟩, hset, hev⟩ := Option.bind_eq_some_iff.mp h
  obtain ⟨-, hev⟩ := Option.ite_none_left_eq_some.mp hev
  obtain rfl := Option.some.inj hev
  exact ⟨interest, hset⟩

/-- The kernel's part of `epoll_wait`, as epoll_wait(2) documents it: it goes through the
ready list as long as there is room, and takes out what is not ready any more.  The second
list has not been looked at. -/
def scan (report : Int → Option EpollEvent) : Nat → List Int → List (Int × EpollEvent) × List Int
  | 0, fds => ([], fds)
  | _ + 1, [] => ([], [])
  | n + 1, fd :: fds =>
      match report fd with
      | some ev => ((fd, ev) :: (scan report n fds).1, (scan report n fds).2)
      | none => scan report (n + 1) fds

section Scan

variable {report : Int → Option EpollEvent} {n : Nat} {fds : List Int} {fd : Int} {ev : EpollEvent}

theorem scan_length_le (report : Int → Option EpollEvent) (n : Nat) (fds : List Int) :
    (scan report n fds).1.length ≤ n := by
  fun_induction scan report n fds with
  | case1 fds => exact Nat.zero_le _
  | case2 n => exact Nat.zero_le _
  | case3 n fd fds ev hev ih => exact Nat.succ_le_succ ih
  | case4 n fd fds hev ih => exact ih

/-- The reported descriptors and those behind them, in the order of the list. -/
theorem scan_sublist (report : Int → Option EpollEvent) (n : Nat) (fds : List Int) :
    ((scan report n fds).1.map Prod.fst ++ (scan report n fds).2).Sublist fds := by
  fun_induction scan report n fds with
  | case1 fds => exact List.Sublist.refl _
  | case2 n => exact List.Sublist.refl _
  | case3 n fd fds ev hev ih => exact ih.cons_cons fd
  | case4 n fd fds hev ih => exact ih.cons fd

theorem report_of_scan (h : (fd, ev) ∈ (scan report n fds).1) :
    fd ∈ fds ∧ report fd = some ev := by
  fun_induction scan report n fds with
  | case1 fds => cases h
  | case2 n => cases h
  | case3 n fd' fds ev' hev ih =>
      rcases List.mem_cons.mp h with heq | hmem
      · cases heq
        exact ⟨List.mem_cons_self, hev⟩
      · exact ⟨List.mem_cons_of_mem _ (ih hmem).1, (ih hmem).2⟩
  | case4 n fd' fds hev ih => exact ⟨List.mem_cons_of_mem _ (ih h).1, (ih h).2⟩

/-- With room to spare, everything that is ready is reported. -/
theorem scan_complete (hroom : (scan report n fds).1.length < n) (hfd : fd ∈ fds)
    (hev : report fd = some ev) : (fd, ev) ∈ (scan report n fds).1 := by
  fun_induction scan report n fds with
  | case1 fds => exact absurd hroom (Nat.not_lt_zero _)
  | case2 n => cases hfd
  | case3 n fd' fds ev' hev' ih =>
      rcases List.mem_cons.mp hfd with rfl | hmem
      · rw [hev'] at hev
        cases hev
        exact List.mem_cons_self
      · exact List.mem_cons_of_mem _ (ih (Nat.lt_of_succ_lt_succ hroom) hmem)
  | case4 n fd' fds hev' ih =>
      rcases List.mem_cons.mp hfd with rfl | hmem
      · rw [hev'] at hev
        cases hev
      · exact ih hroom hmem

/-- A ready descriptor that is left behind has moved forward by as many places as there
was room for. -/
theorem scan_idxOf (hfd : fd ∈ fds) (hready : (report fd).isSome = true)
    (hleft : fd ∉ (scan report n fds).1.map Prod.fst) :
    fd ∈ (scan report n fds).2 ∧ n + (scan report n fds).2.idxOf fd ≤ fds.idxOf fd := by
  fun_induction scan report n fds with
  | case1 fds => exact ⟨hfd, (Nat.zero_add _).le⟩
  | case2 n => cases hfd
  | case3 n fd' fds ev hev ih =>
      rw [List.map_cons, List.mem_cons, not_or] at hleft
      obtain ⟨hmem, hle⟩ := ih ((List.mem_cons.mp hfd).resolve_left hleft.1) hleft.2
      refine ⟨hmem, ?_⟩
      show n + 1 + (scan report n fds).2.idxOf fd ≤ _
      rw [List.idxOf_cons_ne _ (Ne.symm hleft.1)]
      omega
  | case4 n fd' fds hev ih =>
      have hne : fd ≠ fd' := by
        rintro rfl
        rw [hev] at hready
        cases hready
      obtain ⟨hmem, hle⟩ := ih ((List.mem_cons.mp hfd).resolve_left hne) hleft
      refine ⟨hmem, ?_⟩
      rw [List.idxOf_cons_ne _ (Ne.symm hne)]
      omega

end Scan

/-! ### The poller with its vector -/

def kInitEventListSize : Nat := 16

/-- A poller with `events_`, `activeChannels_` of its loop, and the kernel's list of
ready descriptors. -/
structure Polling where
  poller : EPollPoller
  ready : List Int
  events_ : List EpollEvent
  activeChannels_ : List (ChannelPtr × Mask)

/-- `EPollPoller::fillActiveChannels(int numEvents, ChannelList *activeChannels)`. -/
def fillActiveChannels (events : List EpollEvent) (numEvents : Nat)
    (activeChannels : List (ChannelPtr × Mask)) : List (ChannelPtr × Mask) :=
  activeChannels ++ (events.take numEvents).map fun ev => (ev.ptr, ev.events)

namespace Polling

def new : Polling where
  poller := EPollPoller.new
  ready := []
  events_ := List.replicate kInitEventListSize ⟨0, 0⟩
  activeChannels_ := []

/-- `static_cast<int>(events_.size())`. -/
def maxevents (p : Polling) : Int := (BitVec.ofNat 32 p.events_.length).toInt

/-- The reported events and the ready list behind them; `none` is a return of `-1`.  What
has been reported and is ready still goes to the end of the list (`poll`): epoll_wait(2)
promises the round, and this is taken for granted. -/
def epoll_wait (p : Polling) (env : WaitEnv) : Option (List (Int × EpollEvent) × List Int) :=
  if env.error.isSome ∨ p.maxevents ≤ 0 then none
  else some (scan (report p.poller.epollSet env.state) p.maxevents.toNat p.ready)

/-- `EPollPoller::poll`. -/
def poll (p : Polling) (env : WaitEnv) : Polling :=
  match p.epoll_wait env with
  -- the error is only logged
  | none => p
  | some (reported, rest) =>
      let numEvents := reported.length
      let events := reported.map Prod.snd ++ p.events_.drop numEvents
      -- level-triggered: what has been reported is looked at again
      let ready := rest ++ reported.map Prod.fst
      if 0 < numEvents then
        { p with
          ready := ready
          activeChannels_ := fillActiveChannels events numEvents p.activeChannels_
          events_ :=
            if numEvents = events.length then events ++ List.replicate events.length ⟨0, 0⟩
            else events }
      else { p with ready := ready, events_ := events }

/-- The beginning of an iteration of `EventLoop::loop`. -/
def turn (p : Polling) (env : WaitEnv) : Polling := { p with activeChannels_ := [] }.poll env

/-- What a poll reports. -/
def reported (p : Polling) (env : WaitEnv) : List (Int × EpollEvent) :=
  ((p.epoll_wait env).map Prod.fst).getD []

/-- Another interest list; what is not watched any more is not ready either. -/
def setPoller (p : Polling) (poller : EPollPoller) : Polling :=
  { p with poller := poller, ready := p.ready.filter fun fd => (poller.epollSet fd).isSome }

end Polling

/-- An iteration of the loop, an interest operation of a channel, and a descriptor that
becomes ready. -/
inductive PollingEvent
  | turn (env : WaitEnv)
  | updateChannel (c : Channel)
  | removeChannel (c : Channel)
  | wake (fd : Int)

def pollingMachine : Machine Polling PollingEvent where
  init p := p = Polling.new
  next p
    | .turn env => some (p.turn env)
    | .updateChannel c => some (p.setPoller (p.poller.updateChannel c).1)
    | .removeChannel c => some (p.setPoller (p.poller.removeChannel c).1)
    | .wake fd =>
        if p.poller.watches fd = true ∧ fd ∉ p.ready then some { p with ready := p.ready ++ [fd] }
        else none

namespace Polling

/-! ### What a poll does -/

variable {p q : Polling} {env : WaitEnv} {e : PollingEvent} {es : List PollingEvent} {fd : Int}

/-- The ready list has watched descriptors, each once, and the size of the vector fits
into the `int` of `epoll_wait`. -/
structure Listed (p : Polling) : Prop where
  nodup : p.ready.Nodup
  watched : ∀ fd ∈ p.ready, p.poller.watches fd = true
  room : kInitEventListSize ≤ p.events_.length
  fits : p.events_.length < 2 ^ 31

theorem Listed.maxevents (h : p.Listed) : p.maxevents = p.events_.length := by
  have hfits := h.fits
  have hnat : (BitVec.ofNat 32 p.events_.length).toNat = p.events_.length :=
    Nat.mod_eq_of_lt (by omega)
  rw [Polling.maxevents, BitVec.toInt_eq_toNat_of_lt (by omega), hnat]

/-- An `epoll_wait` without an error goes through the ready list. -/
theorem Listed.epoll_wait (h : p.Listed) (henv : env.error = none) :
    p.epoll_wait env
      = some (scan (report p.poller.epollSet env.state) p.events_.length p.ready) := by
  have hroom : 16 ≤ p.events_.length := h.room
  rw [Polling.epoll_wait, h.maxevents, henv, if_neg, Int.toNat_natCast]
  rintro (herror | hle)
  · cases herror
  · omega

theorem epoll_wait_error (henv : env.error ≠ none) : p.epoll_wait env = none :=
  if_pos (.inl (Option.isSome_iff_ne_none.mpr henv))

/-- What a poll leaves. -/
structure Polled (p : Polling) (env : WaitEnv) (q : Polling) : Prop where
  poller : q.poller = p.poller
  active : q.activeChannels_ = (p.reported env).map fun r => (r.2.ptr, r.2.events)
  events : q.events_.length =
    if (p.reported env).length = p.events_.length then 2 * p.events_.length else p.events_.length
  room : (p.reported env).length ≤ p.events_.length
  ready : env.error ≠ none ∧ q.ready = p.ready ∧ p.reported env = [] ∨
    env.error = none ∧ ∃ rest, q.ready = rest ++ (p.reported env).map Prod.fst ∧
      scan (report p.poller.epollSet env.state) p.events_.length p.ready = (p.reported env, rest)

/-- The first entries are those of this poll, whatever the vector had in it. -/
theorem fillActiveChannels_reported (reported : List (Int × EpollEvent)) (old : List EpollEvent) :
    fillActiveChannels (reported.map Prod.snd ++ old) reported.length []
      = reported.map fun r => (r.2.ptr, r.2.events) := by
  rw [fillActiveChannels, List.nil_append, List.take_left' (List.length_map _), List.map_map]
  rfl

theorem Listed.polled (h : p.Listed) (env : WaitEnv) : p.Polled env (p.turn env) := by
  have hroom : 0 < p.events_.length := Nat.lt_of_lt_of_le (by decide) h.room
  by_cases henv : env.error = none
  · have hwait := h.epoll_wait henv
    obtain ⟨reported, rest, hscan⟩ : ∃ reported rest,
        scan (report p.poller.epollSet env.state) p.events_.length p.ready = (reported, rest) :=
      ⟨_, _, rfl⟩
    rw [hscan] at hwait
    have hreported : p.reported env = reported := by rw [Polling.reported, hwait]; rfl
    have hle : reported.length ≤ p.events_.length := by
      have hlen := scan_length_le (report p.poller.epollSet env.state) p.events_.length p.ready
      rwa [hscan] at hlen
    have hlength : (reported.map Prod.snd ++ p.events_.drop reported.length).length
        = p.events_.length := by simp; omega
    have hwait' : { p with activeChannels_ := [] }.epoll_wait env = some (reported, rest) := hwait
    rw [turn, poll, hwait']
    dsimp only
    by_cases hnone : 0 < reported.length
    · rw [if_pos hnone, fillActiveChannels_reported, hlength]
      refine ⟨rfl, by rw [hreported], ?_, hreported ▸ hle, .inr ⟨henv, rest, ?_, ?_⟩⟩
      · rw [hreported]
        dsimp only
        split
        · rw [List.length_append, hlength, List.length_replicate, Nat.two_mul]
        · exact hlength
      · rw [hreported]
      · rw [hreported, hscan]
    · rw [if_neg hnone]
      obtain rfl : reported = [] := List.length_eq_zero_iff.mp (Nat.eq_zero_of_not_pos hnone)
      refine ⟨rfl, by rw [hreported]; rfl, ?_, hreported ▸ hle, .inr ⟨henv, rest, ?_, ?_⟩⟩
      · rw [hreported, List.length_nil, if_neg (Nat.ne_of_lt hroom)]
        exact hlength
      · rw [hreported]
      · rw [hreported, hscan]
  · have hreported : p.reported env = [] := by
      rw [Polling.reported, epoll_wait_error henv]
      rfl
    have hturn : p.turn env = { p with activeChannels_ := [] } := by
      rw [turn, poll, epoll_wait_error henv]
    rw [hturn]
    refine ⟨rfl, by rw [hreported]; rfl, ?_, ?_, .inl ⟨henv, rfl, hreported⟩⟩
    · rw [hreported, List.length_nil, if_neg (Nat.ne_of_lt hroom)]
    · rw [hreported]
      exact Nat.zero_le _

/-! ### Runs -/

/-- Fewer than 2^30 descriptors are ready at once. -/
def Few (p : Polling) : PollingEvent → Prop
  | .turn _ => p.ready.length < 2 ^ 30
  | _ => True

instance (p : Polling) : (e : PollingEvent) → Decidable (p.Few e)
  | .turn _ => inferInstanceAs (Decidable (_ < _))
  | .updateChannel _ | .removeChannel _ | .wake _ => instDecidableTrue

theorem listed_new : new.Listed where
  nodup := List.nodup_nil
  watched := nofun
  room := Nat.le_refl _
  fits := by decide

theorem Listed.turn (h : p.Listed) (hfew : p.ready.length < 2 ^ 30) (env : WaitEnv) :
    (p.turn env).Listed := by
  have hp := h.polled env
  obtain ⟨hnodup, hsubset, hlength⟩ : (p.turn env).ready.Nodup ∧
      (∀ fd ∈ (p.turn env).ready, fd ∈ p.ready) ∧ (p.reported env).length ≤ p.ready.length := by
    rcases hp.ready with ⟨-, hready, hnone⟩ | ⟨-, rest, hready, hscan⟩
    · rw [hready, hnone]
      exact ⟨h.nodup, fun _ => id, Nat.zero_le _⟩
    · have hsub := scan_sublist (report p.poller.epollSet env.state) p.events_.length p.ready
      rw [hscan] at hsub
      have hperm : (rest ++ (p.reported env).map Prod.fst).Perm
          ((p.reported env).map Prod.fst ++ rest) := List.perm_append_comm
      rw [hready]
      refine ⟨hperm.nodup_iff.mpr (h.nodup.sublist hsub), fun fd hfd => ?_, ?_⟩
      · exact hsub.subset (hperm.mem_iff.mp hfd)
      · have hlen := hsub.length_le
        rw [List.length_append, List.length_map] at hlen
        exact (Nat.le_add_right _ _).trans hlen
  have hroom := h.room
  have hfits := h.fits
  refine ⟨hnodup, fun fd hfd => ?_, ?_, ?_⟩
  · rw [hp.poller]
    exact h.watched fd (hsubset fd hfd)
  · rw [hp.events]
    split <;> omega
  · rw [hp.events]
    split <;> omega

theorem Listed.setPoller (h : p.Listed) (poller : EPollPoller) : (p.setPoller poller).Listed where
  nodup := h.nodup.filter _
  watched _ hfd := (List.mem_filter.mp hfd).2
  room := h.room
  fits := h.fits

theorem Listed.step (h : p.Listed) (hfew : p.Few e) (hq : pollingMachine.next p e = some q) :
    q.Listed := by
  cases e with
  | turn env => cases hq; exact h.turn hfew env
  | updateChannel c => cases hq; exact h.setPoller _
  | removeChannel c => cases hq; exact h.setPoller _
  | wake fd =>
      obtain ⟨⟨hwatched, hnot⟩, hq⟩ := Option.ite_none_right_eq_some.mp hq
      cases hq
      refine ⟨?_, fun fd' hfd' => ?_, h.room, h.fits⟩
      · exact List.nodup_append_comm.mp (List.nodup_cons.mpr ⟨hnot, h.nodup⟩)
      · rcases List.mem_append.mp hfd' with hold | hnew
        · exact h.watched fd' hold
        · obtain rfl := List.mem_singleton.mp hnew
          exact hwatched

theorem listed_of_run (hinit : pollingMachine.init p) (hfew : pollingMachine.Along Few p es)
    (hrun : pollingMachine.run p es = some q) : q.Listed :=
  Machine.run_invariant (fun _ _ _ h he hq => h.step he hq) hfew hrun (hinit ▸ listed_new)

/-- **A poll passes on what the kernel reports, and nothing else.**  In every state of a
run, `activeChannels_` after a poll has the channels of the reported descriptors with
their events, in the order of the reports, and no entry of an older poll; no descriptor
is reported twice, each is ready and watched, and if there was room to spare, all that
were ready are there.  It is what the loop of a server finds as its active channels. -/
theorem poll_fills_active {ι α : Type*} (hinit : pollingMachine.init p)
    (hfew : pollingMachine.Along Few p es)
    (hrun : pollingMachine.run p es = some q) (env : WaitEnv) :
    (q.turn env).activeChannels_ = (q.reported env).map (fun r => (r.2.ptr, r.2.events)) ∧
      ((q.reported env).map Prod.fst).Nodup ∧
      (∀ r ∈ q.reported env, r.1 ∈ q.ready ∧ report q.poller.epollSet env.state r.1 = some r.2) ∧
      (env.error = none → (q.reported env).length < q.events_.length → ∀ fd ∈ q.ready, ∀ ev,
        report q.poller.epollSet env.state fd = some ev → (fd, ev) ∈ q.reported env) ∧
      ∀ (s : ServerSystem ι α) (l : ι) (b : Bool), s.poller l = q.poller →
        s.activeAfter l (.poll b) ((q.reported env).map fun r => (r.1, r.2.events))
          = (q.turn env).activeChannels_ := by
  have hlisted := listed_of_run hinit hfew hrun
  have hp := hlisted.polled env
  have hscan : env.error = none →
      (scan (report q.poller.epollSet env.state) q.events_.length q.ready).1 = q.reported env := by
    intro henv
    rcases hp.ready with ⟨herror, -⟩ | ⟨-, rest, -, hscan⟩
    · exact absurd henv herror
    · rw [hscan]
  have hreport : ∀ r ∈ q.reported env,
      r.1 ∈ q.ready ∧ report q.poller.epollSet env.state r.1 = some r.2 := by
    rintro ⟨fd, ev⟩ hr
    by_cases henv : env.error = none
    · rw [← hscan henv] at hr
      exact report_of_scan hr
    · rw [Polling.reported, epoll_wait_error henv] at hr
      cases hr
  refine ⟨hp.active, ?_, hreport, fun henv hroom fd hfd ev hev => ?_, fun s l b hpoller => ?_⟩
  · by_cases henv : env.error = none
    · have hsub := scan_sublist (report q.poller.epollSet env.state) q.events_.length q.ready
      rw [hscan henv] at hsub
      exact (hlisted.nodup.sublist hsub).sublist (List.sublist_append_left _ _)
    · rw [Polling.reported, epoll_wait_error henv]
      exact List.nodup_nil
  · rw [← hscan henv] at hroom ⊢
    exact scan_complete hroom hfd hev
  · have hfills : (LoopStep.poll b).fills = true := rfl
    rw [hp.active, ServerSystem.activeAfter, if_pos hfills, hpoller, List.filterMap_map,
      ← List.filterMap_eq_map]
    refine List.filterMap_congr fun r hr => ?_
    obtain ⟨interest, hset⟩ := watched_of_report (hreport r hr).2
    show ((q.poller.epollSet r.1).map fun p => (p.2, r.2.events)) = some (r.2.ptr, r.2.events)
    rw [hset]
    rfl

/-- Everything that is watched for reading is ready. -/
def allReady : WaitEnv := ⟨none, fun _ => EPOLLIN⟩

/-- Seventeen channels are registered, and their descriptors become ready. -/
def seventeenReady : List PollingEvent :=
  (List.range 17).flatMap fun i =>
    [.updateChannel { Channel.new i i with events_ := kReadEvent }, .wake i]

/-- The first poll leaves the last channel behind, and the second one begins with it. -/
theorem poll_fills_active_seventeen :
    ∃ q : Polling, ((q.reported allReady).map Prod.fst).take 2 = [16, 0] ∧
      (q.turn allReady).activeChannels_
        = (q.reported allReady).map fun r => (r.2.ptr, r.2.events) := by
  have hend : (pollingMachine.run new (seventeenReady ++ [.turn allReady])).any fun q =>
      decide (((q.reported allReady).map Prod.fst).take 2 = [16, 0]) := by
    decide +kernel
  obtain ⟨q, hrun, hq⟩ := (Option.any_eq_true _ _).mp hend
  have hpoll := poll_fills_active (ι := Unit) (α := Unit) rfl (by decide +kernel) hrun allReady
  exact ⟨q, of_decide_eq_true hq, hpoll.1⟩

/-! ### The size of the vector -/

/-- The number of events that a poll reports. -/
def load (p : Polling) : PollingEvent → Nat
  | .turn env => (p.reported env).length
  | _ => 0

/-- The sizes of the vectors that a poll has filled. -/
def filled (p : Polling) : PollingEvent → List Nat
  | .turn env => if (p.reported env).length = p.events_.length then [p.events_.length] else []
  | _ => []

/-- The vector is doubled by a poll that fills it, and by no other step. -/
theorem Listed.events_step (h : p.Listed) (hq : pollingMachine.next p e = some q) :
    q.events_.length = p.events_.length * 2 ^ (p.filled e).length ∧
      q.events_.length ≤ max p.events_.length (2 * p.load e) := by
  cases e with
  | turn env =>
      cases hq
      have hevents := (h.polled env).events
      by_cases hfull : (p.reported env).length = p.events_.length
      · rw [if_pos hfull] at hevents
        rw [hevents, filled, load, if_pos hfull, hfull]
        exact ⟨Nat.mul_comm _ _, le_max_right _ _⟩
      · rw [if_neg hfull] at hevents
        rw [hevents, filled, if_neg hfull]
        exact ⟨(Nat.mul_one _).symm, le_max_left _ _⟩
  | updateChannel c => cases hq; exact ⟨(Nat.mul_one _).symm, le_max_left _ _⟩
  | removeChannel c => cases hq; exact ⟨(Nat.mul_one _).symm, le_max_left _ _⟩
  | wake fd =>
      obtain ⟨-, hq⟩ := Option.ite_none_right_eq_some.mp hq
      cases hq
      exact ⟨(Nat.mul_one _).symm, le_max_left _ _⟩

theorem Listed.events_run (h : p.Listed) (hfew : pollingMachine.Along Few p es)
    (hrun : pollingMachine.run p es = some q) :
    q.events_.length = p.events_.length * 2 ^ (pollingMachine.gather filled p es).length ∧
      q.events_.length ≤ max p.events_.length (2 * pollingMachine.peak load p es) := by
  induction es generalizing p with
  | nil =>
      obtain rfl := Option.some.inj hrun
      exact ⟨(Nat.mul_one _).symm, le_max_left _ _⟩
  | cons e es ih =>
      obtain ⟨u, hu, hrest⟩ := Machine.run_cons_some.mp hrun
      obtain ⟨hgrown, hbound⟩ := h.events_step hu
      obtain ⟨hgrown', hbound'⟩ := ih (h.step hfew.1 hu) (hfew.2 u hu) hrest
      refine ⟨?_, ?_⟩
      · rw [hgrown', hgrown, Machine.gather_cons_of_next hu, List.length_append, pow_add, mul_assoc]
      · rw [Machine.peak, hu, Option.elim_some]
        omega

/-- **The vector follows the load.**  After every run it has its initial size, doubled
once for each poll that filled it, and is no larger than that size or twice the largest
number of events that a poll has reported. -/
theorem event_list_follows_load (hinit : pollingMachine.init p)
    (hfew : pollingMachine.Along Few p es) (hrun : pollingMachine.run p es = some q) :
    q.events_.length = kInitEventListSize * 2 ^ (pollingMachine.gather filled p es).length ∧
      q.events_.length ≤ max kInitEventListSize (2 * pollingMachine.peak load p es) := by
  subst hinit
  exact listed_new.events_run hfew hrun

/-- The vector has been doubled once. -/
theorem event_list_follows_load_seventeen :
    ∃ q : Polling, q.events_.length = 32 ∧ 32 ≤ max 16
      (2 * pollingMachine.peak load new (seventeenReady ++ [.turn allReady, .turn allReady])) := by
  have hend : (pollingMachine.run new
      (seventeenReady ++ [.turn allReady, .turn allReady])).any fun q =>
        decide (q.events_.length = 32) := by
    decide +kernel
  obtain ⟨q, hrun, hq⟩ := (Option.any_eq_true _ _).mp hend
  have hbound := (event_list_follows_load rfl (by decide +kernel) hrun).2
  exact ⟨q, of_decide_eq_true hq, of_decide_eq_true hq ▸ hbound⟩

/-! ### Starvation -/

/-- The polls that return. -/
def polls (_ : Polling) : PollingEvent → List WaitEnv
  | .turn env => if env.error = none then [env] else []
  | _ => []

/-- The descriptor is left registered, and is ready whenever the kernel looks at it. -/
def StaysReady (fd : Int) (p : Polling) : PollingEvent → Prop
  | .turn env => env.error = none → (report p.poller.epollSet env.state fd).isSome = true
  | .updateChannel c | .removeChannel c => c.fd_ ≠ fd
  | .wake _ => True

instance (fd : Int) (p : Polling) : (e : PollingEvent) → Decidable (StaysReady fd p e)
  | .turn _ => inferInstanceAs (Decidable (_ → _))
  | .updateChannel _ | .removeChannel _ => inferInstanceAs (Decidable (_ ≠ _))
  | .wake _ => instDecidableTrue

/-- The step is a poll that reports the descriptor. -/
def Reports (fd : Int) (p : Polling) : PollingEvent → Prop
  | .turn env => fd ∈ (p.reported env).map Prod.fst
  | _ => False

/-- `epoll_ctl` for one descriptor leaves the others alone. -/
theorem update_epollSet_ne (poller : EPollPoller) (op : EpollOp) {c : Channel} (h : c.fd_ ≠ fd) :
    (poller.update op c).epollSet fd = poller.epollSet fd := by
  cases op <;> cases hset : (poller.epollSet c.fd_).isSome <;>
    simp [EPollPoller.update, epoll_ctl, hset, Function.update_of_ne h.symm]

theorem updateChannel_epollSet_ne (poller : EPollPoller) {c : Channel} (h : c.fd_ ≠ fd) :
    (poller.updateChannel c).1.epollSet fd = poller.epollSet fd := by
  unfold EPollPoller.updateChannel
  split
  · exact update_epollSet_ne _ _ h
  · split <;> exact update_epollSet_ne _ _ h

theorem removeChannel_epollSet_ne (poller : EPollPoller) {c : Channel} (h : c.fd_ ≠ fd) :
    (poller.removeChannel c).1.epollSet fd = poller.epollSet fd := by
  unfold EPollPoller.removeChannel
  dsimp only
  split
  · exact update_epollSet_ne _ _ h
  · rfl

theorem idxOf_filter_le {f : Int → Bool} (l : List Int) (hf : f fd = true) :
    (l.filter f).idxOf fd ≤ l.idxOf fd := by
  induction l with
  | nil => exact Nat.le_refl _
  | cons a l ih =>
      by_cases ha : a = fd
      · subst ha
        rw [List.filter_cons_of_pos hf, List.idxOf_cons_self]
        exact Nat.zero_le _
      · rw [List.idxOf_cons_ne _ ha]
        by_cases hfa : f a = true
        · rw [List.filter_cons_of_pos hfa, List.idxOf_cons_ne _ ha]
          exact Nat.succ_le_succ ih
        · rw [List.filter_cons_of_neg hfa]
          exact ih.trans (Nat.le_succ _)

theorem Listed.setPoller_idxOf (h : p.Listed) (hfd : fd ∈ p.ready) {poller : EPollPoller}
    (hkeep : poller.epollSet fd = p.poller.epollSet fd) :
    fd ∈ (p.setPoller poller).ready ∧ (p.setPoller poller).ready.idxOf fd ≤ p.ready.idxOf fd := by
  have hwatched : (poller.epollSet fd).isSome = true := by
    rw [hkeep]
    exact h.watched fd hfd
  exact ⟨List.mem_filter.mpr ⟨hfd, hwatched⟩, idxOf_filter_le _ hwatched⟩

/-- A descriptor that waits is not overtaken, and a poll that leaves it behind brings it
forward. -/
theorem Listed.waits (h : p.Listed) (hfd : fd ∈ p.ready) (hready : StaysReady fd p e)
    (hleft : ¬ Reports fd p e) (hq : pollingMachine.next p e = some q) :
    fd ∈ q.ready ∧ kInitEventListSize * (p.polls e).length + q.ready.idxOf fd ≤ p.ready.idxOf fd := by
  cases e with
  | turn env =>
      cases hq
      rcases (h.polled env).ready with ⟨herror, hsame, -⟩ | ⟨henv, rest, hrest, hscan⟩
      · rw [hsame, polls, if_neg herror]
        exact ⟨hfd, by simp⟩
      · have hroom := h.room
        have hmoved := scan_idxOf (n := p.events_.length) hfd (hready henv) (by rwa [hscan])
        rw [hscan] at hmoved
        rw [hrest, polls, if_pos henv, List.idxOf_append_of_mem hmoved.1, List.length_singleton]
        exact ⟨List.mem_append_left _ hmoved.1, by omega⟩
  | updateChannel c =>
      cases hq
      obtain ⟨hmem, hle⟩ := h.setPoller_idxOf hfd (updateChannel_epollSet_ne p.poller hready)
      exact ⟨hmem, by simpa [polls] using hle⟩
  | removeChannel c =>
      cases hq
      obtain ⟨hmem, hle⟩ := h.setPoller_idxOf hfd (removeChannel_epollSet_ne p.poller hready)
      exact ⟨hmem, by simpa [polls] using hle⟩
  | wake fd' =>
      obtain ⟨-, hq⟩ := Option.ite_none_right_eq_some.mp hq
      cases hq
      refine ⟨List.mem_append_left _ hfd, ?_⟩
      rw [List.idxOf_append_of_mem hfd]
      simp [polls]

/-- **No descriptor starves.**  Whatever others are ready, if they are fewer than 2^30, and
whatever is done with their channels, a descriptor that is ready and stays so is reported
before the polls that return have gone through the places in front of it, sixteen or more
at a time. -/
theorem no_descriptor_starves {es' : List PollingEvent} {r : Polling}
    (hinit : pollingMachine.init p) (hfew : pollingMachine.Along Few p (es ++ es'))
    (hrun : pollingMachine.run p es = some q) (hfd : fd ∈ q.ready)
    (hready : pollingMachine.Along (StaysReady fd) q es')
    (hrun' : pollingMachine.run q es' = some r)
    (hlong : q.ready.idxOf fd < kInitEventListSize * (pollingMachine.gather polls q es').length) :
    ∃ es₁ env es₂ u, es' = es₁ ++ .turn env :: es₂ ∧ pollingMachine.run q es₁ = some u ∧
      fd ∈ (u.reported env).map Prod.fst := by
  obtain ⟨hfew₁, hfew₂⟩ := Machine.along_append.mp hfew
  have hlisted := listed_of_run hinit hfew₁ hrun
  have hsome : ¬ pollingMachine.Along (fun p e => ¬ Reports fd p e) q es' := by
    intro hnone
    -- a poll that leaves the descriptor behind pays out of the places in front of it
    have hstep : ∀ p e q, (p.Listed ∧ fd ∈ p.ready) →
        (Few p e ∧ StaysReady fd p e ∧ ¬ Reports fd p e) → pollingMachine.next p e = some q →
        (q.Listed ∧ fd ∈ q.ready) ∧
          kInitEventListSize * (polls p e).length + q.ready.idxOf fd ≤ p.ready.idxOf fd := by
      intro p e q hp he hq
      obtain ⟨hmem, hle⟩ := hp.1.waits hp.2 he.2.1 he.2.2 hq
      exact ⟨⟨hp.1.step he.1 hq, hmem⟩, hle⟩
    have hbudget := Machine.gather_le_budget hstep ((hfew₂ q hrun).and (hready.and hnone)) hrun'
      ⟨hlisted, hfd⟩
    omega
  obtain ⟨es₁, e, es₂, u, rfl, hu, hreports⟩ := Machine.exists_step_of_not_along hrun' hsome
  cases e with
  | turn env => exact ⟨es₁, env, es₂, u, rfl, hu, not_not.mp hreports⟩
  | _ => exact absurd (not_not.mp hreports) id

/-- The seventeenth channel waits for one poll. -/
theorem no_descriptor_starves_seventeen :
    ∃ (es₁ : List PollingEvent) (env : WaitEnv) (es₂ : List PollingEvent) (u : Polling),
      [.turn allReady, .turn allReady] = es₁ ++ .turn env :: es₂ ∧
        16 ∈ (u.reported env).map Prod.fst := by
  have hend : (pollingMachine.run new seventeenReady).any fun q =>
      decide (16 ∈ q.ready ∧ q.ready.idxOf 16 < kInitEventListSize *
        (pollingMachine.gather polls q [.turn allReady, .turn allReady]).length ∧
        pollingMachine.Along (StaysReady 16) q [.turn allReady, .turn allReady]) := by
    decide +kernel
  obtain ⟨q, hrun, hq⟩ := (Option.any_eq_true _ _).mp hend
  obtain ⟨hfd, hlong, hready⟩ := of_decide_eq_true hq
  obtain ⟨es₁, env, es₂, u, heq, -, hreported⟩ := no_descriptor_starves rfl (by decide +kernel) hrun
    hfd hready rfl hlong
  exact ⟨es₁, env, es₂, u, heq, hreported⟩

end Polling

end Mymuduo
