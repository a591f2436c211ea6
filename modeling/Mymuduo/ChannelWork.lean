/-
Mymuduo/ChannelWork.lean

What the member functions of a connection do to its channel and its poller.

They write `events_` and `index_` through the interest operations only, and each
of these writes at most the entries of the channel's own descriptor, and there
nothing but the channel itself.  So every member function is a path of interest
operations (`Works`); only `removeChannel` takes the channel out
(`works_removeChannel`).  Two consequences are drawn once for all paths: every
entry of the poller is an old one or the channel's own (`Works.entries`), and the
path ends in the poller with the channel recorded, if it was (`Works.recorded`).
-/
import Mathlib.Logic.Relation
import Mymuduo.Registration
import Mymuduo.StateOrder

namespace Mymuduo

open Relation

/-! ### Paths of interest operations -/

/-- One interest operation out of `ok`, or a write of `tied_` and `revents_`. -/
inductive Work (ok : ChannelOp → Prop) : Channel × EPollPoller → Channel × EPollPoller → Prop
  | op (o : ChannelOp) (h : ok o) (c : Channel) (p : EPollPoller) : Work ok (c, p) (o.apply c p)
  | mark (tied : Bool) (revents : Mask) (c : Channel) (p : EPollPoller) :
      Work ok (c, p) ({ c with tied_ := tied, revents_ := revents }, p)

/-- A function of the connection works on the channel by such steps. -/
def TcpConnection.Works (ok : ChannelOp → Prop) (c c' : TcpConnection) : Prop :=
  ReflTransGen (Work ok) (c.channel_, c.poller_) (c'.channel_, c'.poller_)

/-- Every operation that leaves the channel in the poller's map. -/
def ChannelOp.Stays (o : ChannelOp) : Prop := o ≠ .remove

namespace TcpConnection

variable {ok : ChannelOp → Prop} {c c' c'' : TcpConnection}

theorem Works.refl (hc : c'.channel_ = c.channel_) (hp : c'.poller_ = c.poller_) :
    Works ok c c' := by
  rw [Works, hc, hp]

theorem Works.trans (h : Works ok c c') (h' : Works ok c' c'') : Works ok c c'' :=
  ReflTransGen.trans h h'

theorem Works.imp {ok' : ChannelOp → Prop} (hok : ∀ o, ok o → ok' o) (h : Works ok c c') :
    Works ok' c c' := by
  refine ReflTransGen.mono (fun a b hab => ?_) _ _ h
  cases hab with
  | op o ho c p => exact .op o (hok o ho) c p
  | mark tied revents c p => exact .mark tied revents c p

theorem works_op {o : ChannelOp} (ho : ok o) (hc : (c'.channel_, c'.poller_)
    = o.apply c.channel_ c.poller_) : Works ok c c' := by
  rw [Works, hc]
  exact .single (.op o ho _ _)

/-! ### The member functions -/

theorem works_tryWrite (c : TcpConnection) (data : List Byte) (w : WriteResult) :
    Works ok c (c.tryWrite data w).conn := by
  have htried := tryWrite_cases c data w
  generalize c.tryWrite data w = a at htried
  cases htried with
  | _ => exact .refl rfl rfl

theorem works_queueRest (a : Attempt) (data : List Byte) :
    Works ChannelOp.Stays a.conn (queueRest a data) := by
  unfold queueRest
  dsimp only
  split
  · -- with and without the high-water-mark callback
    split
    · split
      · exact works_op (o := .enablewriting) (by simp [ChannelOp.Stays]) rfl
      · exact .refl rfl rfl
    · split
      · exact works_op (o := .enablewriting) (by simp [ChannelOp.Stays]) rfl
      · exact .refl rfl rfl
  · exact .refl rfl rfl

theorem works_sendInLoop (c : TcpConnection) (data : List Byte) (w : WriteResult) :
    Works ChannelOp.Stays c (c.sendInLoop data w) := by
  unfold sendInLoop
  dsimp only
  split
  · exact .refl rfl rfl
  · have hsend : Works ChannelOp.Stays c (c.emit (.sendInLoop data)) := .refl rfl rfl
    exact hsend.trans ((works_tryWrite _ data w).trans (works_queueRest _ data))

theorem works_shutdownInLoop (c : TcpConnection) : Works ok c c.shutdownInLoop := by
  unfold shutdownInLoop
  split <;> exact .refl rfl rfl

theorem works_finishWrite (c : TcpConnection) : Works ok c c.finishWrite := by
  unfold finishWrite
  split
  · exact works_shutdownInLoop c
  · exact .refl rfl rfl

theorem works_writeOut (c : TcpConnection) (w : WriteResult) :
    Works ChannelOp.Stays c (c.writeOut w).1 := by
  have hwrote := writeOut_cases c w
  generalize c.writeOut w = r at hwrote
  cases hwrote with
  | idle hoff => exact .refl rfl rfl
  | nothing hon hret => exact .refl rfl rfl
  | partly hon hret hrest => exact .refl rfl rfl
  | drained hon hret hall hcb =>
      exact works_op (o := .disableWriting) (by simp [ChannelOp.Stays]) rfl
  | completed hon hret hall hcb =>
      exact works_op (o := .disableWriting) (by simp [ChannelOp.Stays]) rfl

theorem works_handleClose (c : TcpConnection) (env : Env) :
    Works ChannelOp.Stays c (c.handleClose env.withoutUser) :=
  works_op (o := .disableAll) (by simp [ChannelOp.Stays]) rfl

theorem works_handleRead (c : TcpConnection) (env : Env) :
    Works ChannelOp.Stays c (c.handleRead env.withoutUser) := by
  unfold handleRead
  dsimp only
  split
  · exact .refl rfl rfl
  · split
    · have hread : Works ChannelOp.Stays c
          { c with inputBuffer_ := (c.inputBuffer_.readFd env.readv 0).1 } := .refl rfl rfl
      exact hread.trans (works_handleClose _ env)
    · exact .refl rfl rfl

theorem works_connectEstablished (c : TcpConnection) :
    Works ChannelOp.Stays c (c.connectEstablished []) := by
  refine .head (.mark true c.channel_.revents_ _ _) ?_
  exact .single (.op .enableReading (by simp [ChannelOp.Stays]) _ _)

theorem works_markDestroyed (c : TcpConnection) : Works ChannelOp.Stays c c.markDestroyed :=
  works_op (o := .disableAll) (by simp [ChannelOp.Stays]) rfl

theorem works_removeChannel (c : TcpConnection) :
    Works (· = .remove) c c.removeChannel :=
  works_op (o := .remove) rfl rfl

end TcpConnection

/-! ### Entries -/

/-- The entries of `p'` are entries of `p` or of the channel itself. -/
structure Channel.EntriesFrom (c : Channel) (p p' : EPollPoller) : Prop where
  channels : ∀ fd x, p'.channels_ fd = some x → p.channels_ fd = some x ∨ fd = c.fd_ ∧ x = c.self
  kernel : ∀ fd m x, p'.epollSet fd = some (m, x) →
    (∃ m', p.epollSet fd = some (m', x)) ∨ fd = c.fd_ ∧ x = c.self

namespace Channel.EntriesFrom

variable {c : Channel} {p p' p'' : EPollPoller}

theorem refl : c.EntriesFrom p p := ⟨fun _ _ => .inl, fun _ m _ h => .inl ⟨m, h⟩⟩

theorem trans (h : c.EntriesFrom p p') (h' : c.EntriesFrom p' p'') : c.EntriesFrom p p'' := by
  refine ⟨fun fd x hx => ?_, fun fd m x hx => ?_⟩
  · exact (h'.channels fd x hx).elim (h.channels fd x) .inr
  · exact (h'.kernel fd m x hx).elim (fun ⟨m', hm'⟩ => h.kernel fd m' x hm') .inr

end Channel.EntriesFrom

section Entries

variable {c d : Channel} {p : EPollPoller}

/-- What `epoll_ctl` leaves in the list, whether it succeeds or fails. -/
theorem EPollPoller.entriesFrom_update (op : EpollOp) (hself : d.self = c.self)
    (hfd : d.fd_ = c.fd_) : c.EntriesFrom p (p.update op d) := by
  unfold EPollPoller.update
  split
  · rename_i set hset
    refine ⟨fun _ _ => .inl, fun fd m x hx => ?_⟩
    change set fd = some (m, x) at hx
    unfold epoll_ctl at hset
    by_cases hne : fd = d.fd_
    · subst hne
      refine .inr ⟨hfd, ?_⟩
      split at hset <;> cases hset <;> rw [Function.update_self] at hx <;> cases hx
      · exact hself
      · exact hself
    · refine .inl ⟨m, ?_⟩
      split at hset <;> cases hset <;> rwa [Function.update_of_ne hne] at hx
  · exact ⟨fun _ _ => .inl, fun _ m _ h => .inl ⟨m, h⟩⟩

/-- The map after a write at the channel's descriptor. -/
theorem EPollPoller.entriesFrom_map {o : Option ChannelPtr} (ho : ∀ x, o = some x → x = c.self) :
    c.EntriesFrom p { p with channels_ := Function.update p.channels_ c.fd_ o } := by
  refine ⟨fun fd x hx => ?_, fun _ m _ h => .inl ⟨m, h⟩⟩
  by_cases hne : fd = c.fd_
  · subst hne
    exact .inr ⟨rfl, ho x (by simpa using hx)⟩
  · exact .inl (by simpa [Function.update_of_ne hne] using hx)

/-- An update of the channel, whatever its new mask. -/
theorem Channel.update_entries (d : Channel) (hself : d.self = c.self) (hfd : d.fd_ = c.fd_) :
    (d.update p).1.self = c.self ∧ (d.update p).1.fd_ = c.fd_ ∧
      c.EntriesFrom p (d.update p).2 := by
  unfold Channel.update EPollPoller.updateChannel
  dsimp only [Prod.swap, Prod.fst, Prod.snd]
  split
  · refine ⟨hself, hfd, ?_⟩
    have hmap : c.EntriesFrom p
        { p with channels_ := Function.update p.channels_ d.fd_ (some d.self) } := by
      rw [hfd]
      exact EPollPoller.entriesFrom_map fun x hx => by rw [← Option.some.inj hx, hself]
    exact hmap.trans (EPollPoller.entriesFrom_update _ hself hfd)
  · split
    · exact ⟨hself, hfd, EPollPoller.entriesFrom_update _ hself hfd⟩
    · exact ⟨hself, hfd, EPollPoller.entriesFrom_update _ hself hfd⟩

theorem Channel.remove_entries (c : Channel) :
    (c.remove p).1.self = c.self ∧ (c.remove p).1.fd_ = c.fd_ ∧
      c.EntriesFrom p (c.remove p).2 := by
  refine ⟨rfl, rfl, ?_⟩
  have hmap : c.EntriesFrom p
      { p with channels_ := Function.update p.channels_ c.fd_ none } :=
    EPollPoller.entriesFrom_map nofun
  unfold Channel.remove EPollPoller.removeChannel
  dsimp only [Prod.swap, Prod.snd]
  split
  · exact hmap.trans (EPollPoller.entriesFrom_update _ rfl rfl)
  · exact hmap

/-- An interest operation leaves the channel's identity, and writes no entry but
its own. -/
theorem ChannelOp.apply_entries (o : ChannelOp) (c : Channel) (p : EPollPoller) :
    (o.apply c p).1.self = c.self ∧ (o.apply c p).1.fd_ = c.fd_ ∧
      c.EntriesFrom p (o.apply c p).2 := by
  cases o with
  | remove => exact c.remove_entries
  | enableReading => exact Channel.update_entries _ rfl rfl
  | disableReading => exact Channel.update_entries _ rfl rfl
  | enablewriting => exact Channel.update_entries _ rfl rfl
  | disableWriting => exact Channel.update_entries _ rfl rfl
  | disableAll => exact Channel.update_entries _ rfl rfl

end Entries

namespace TcpConnection

variable {ok : ChannelOp → Prop} {c c' : TcpConnection}

/-- **The entries of a path are its channel's.**  A member function leaves the
identity of the channel, and every entry of the poller afterwards was there
before or is the channel's own. -/
theorem Works.entries (h : Works ok c c') :
    c'.channel_.self = c.channel_.self ∧ c'.channel_.fd_ = c.channel_.fd_ ∧
      c.channel_.EntriesFrom c.poller_ c'.poller_ := by
  have hpath : ∀ b : Channel × EPollPoller,
      Relation.ReflTransGen (Work ok) (c.channel_, c.poller_) b →
      b.1.self = c.channel_.self ∧ b.1.fd_ = c.channel_.fd_ ∧
        c.channel_.EntriesFrom c.poller_ b.2 := by
    intro b hb
    induction hb with
    | refl => exact ⟨rfl, rfl, .refl⟩
    | tail _ hstep ih =>
        obtain ⟨hself, hfd, hentries⟩ := ih
        cases hstep with
        | op o ho d p =>
            dsimp only at hself hfd
            obtain ⟨hself', hfd', hentries'⟩ := o.apply_entries d p
            refine ⟨hself'.trans hself, hfd'.trans hfd, hentries.trans ⟨?_, ?_⟩⟩
            · simpa only [hself, hfd] using hentries'.channels
            · simpa only [hself, hfd] using hentries'.kernel
        | mark tied revents d p => exact ⟨hself, hfd, hentries⟩
  exact hpath _ h

/-! ### Records -/

end TcpConnection

/-- An entry of a poller with a channel recorded is an entry at another
descriptor, or the channel's own. -/
theorem EPollPoller.entry_record {p : EPollPoller} {c : Channel} {fd : Int} {x : ChannelPtr}
    (h : (p.record c).channels_ fd = some x ∨ ∃ m, (p.record c).epollSet fd = some (m, x)) :
    (fd ≠ c.fd_ ∧ (p.channels_ fd = some x ∨ ∃ m, p.epollSet fd = some (m, x))) ∨
      (fd = c.fd_ ∧ x = c.self ∧ c.index_ ≠ .kNew) := by
  by_cases hfd : fd = c.fd_
  · subst hfd
    refine .inr ⟨rfl, ?_⟩
    rcases h with hx | ⟨m, hx⟩
    · rw [Channel.mirrored_record.channels, Channel.mapEntry, Option.ite_none_left_eq_some] at hx
      exact ⟨(Option.some.inj hx.2).symm, hx.1⟩
    · rw [Channel.mirrored_record.kernel, Channel.watchEntry, Option.ite_none_right_eq_some] at hx
      obtain ⟨hadded, heq⟩ := hx
      cases heq
      exact ⟨rfl, by simp [hadded]⟩
  · refine .inl ⟨hfd, ?_⟩
    rcases h with hx | ⟨m, hx⟩
    · exact .inl ((Function.update_of_ne hfd _ _).symm.trans hx)
    · exact .inr ⟨m, (Function.update_of_ne hfd _ _).symm.trans hx⟩

namespace TcpConnection

variable {ok : ChannelOp → Prop} {c c' : TcpConnection}

/-- **A path records its channel.**  If the poller mirrors the channel before,
the poller afterwards is the old one with the new channel recorded; and a path
without `remove` keeps the channel in the poller's map. -/
theorem Works.recorded (h : Works ok c c') (hm : c.channel_.Mirrored c.poller_) :
    c'.poller_ = c.poller_.record c'.channel_ ∧
      ((∀ o, ok o → o.Stays) → c.channel_.index_ ≠ .kNew → c'.channel_.index_ ≠ .kNew) := by
  have hpath : ∀ b : Channel × EPollPoller,
      Relation.ReflTransGen (Work ok) (c.channel_, c.poller_) b →
      b.1.fd_ = c.channel_.fd_ ∧ b.2 = c.poller_.record b.1 ∧
        ((∀ o, ok o → o.Stays) → c.channel_.index_ ≠ .kNew → b.1.index_ ≠ .kNew) := by
    intro b hb
    induction hb with
    | refl => exact ⟨rfl, hm.record_eq.symm, fun _ => id⟩
    | tail _ hstep ih =>
        obtain ⟨hfd, hrec, hindex⟩ := ih
        cases hstep with
        | op o ho d p =>
            dsimp only at hrec
            subst hrec
            rw [ChannelOp.apply_eq Channel.mirrored_record]
            refine ⟨hfd, ?_, fun hok _ => ?_⟩
            · -- the second record is at the same descriptor
              simp only [EPollPoller.record, ChannelOp.after_fd, Function.update_idem]
            · have hremove : o ≠ .remove := hok o ho
              simp only [ChannelOp.after, if_neg hremove]
              split <;> simp
        | mark tied revents d p => exact ⟨hfd, hrec, hindex⟩
  exact (hpath _ h).2

end TcpConnection

end Mymuduo
