/-
Mymuduo/Hosted.lean

The connections of a server behave as each of them would alone.

ConnectionRun.lean has one connection and its loop thread.  In the server there are
any number of them on the pollers of several loops, user code runs between the tasks,
and other connections come and go on the same poller.  `touches_of_moves` says what a
step makes of one connection as its loop thread sees it: nothing, a change of the
poller by others, or one of the functions of TcpConnection.lean.

While the users call on the loop threads of their connections (`OnOwnLoop`) and the
kernel hands out no open descriptor, the changes by others leave the entry of the
connection's descriptor alone, because two owned connections have two descriptors.  So
every step is a move (`Hosted.step`), and what the moves of a single connection keep
holds of every connection of the server (`server_output_integrity`).
-/
import Mymuduo.ConnectionStep
import Mymuduo.Ownership
import Mymuduo.OutputPath

namespace Mymuduo

open Transition

/-! ### Member functions as moves -/

namespace TcpConnection

variable {c c' : TcpConnection} {ok : WriteResult → Prop}

/-- Nothing is sent or written between the two, and afterwards the channel waits for
no writable event. -/
structure Mute (c c' : TcpConnection) : Prop where
  off : c'.channel_.isWriting = false
  written : written c'.trace = written c.trace
  sent : sent c'.trace = sent c.trace

/-- Effects that say nothing about the stream. -/
theorem Mute.of_trace {l : List Effect} (hoff : c'.channel_.isWriting = false)
    (ht : c'.trace = c.trace ++ l) (hw : Mymuduo.written l = []) (hs : Mymuduo.sent l = []) :
    Mute c c' := by
  refine ⟨hoff, ?_, ?_⟩
  · rw [ht, written_append, hw, List.append_nil]
  · rw [ht, sent_append, hs, List.append_nil]

theorem mute_refl (hoff : c.channel_.isWriting = false) : Mute c c := ⟨hoff, rfl, rfl⟩

theorem disableAll_isWriting (ch : Channel) (p : EPollPoller) :
    (ch.disableAll p).1.isWriting = false := by
  have hevents : (ch.disableAll p).1.events_ = 0 := Channel.update_events _ p
  rw [Channel.isWriting, hevents]
  decide

/-- `handleClose` stops the output, whatever the channel waited for. -/
theorem mute_handleClose (c : TcpConnection) (env : Env) :
    Mute c (c.handleClose env.withoutUser) :=
  .of_trace (disableAll_isWriting _ _) (handleClose_withoutUser c env) rfl rfl

theorem mute_markDestroyed (c : TcpConnection) : Mute c c.markDestroyed :=
  .of_trace (l := [.connectionCallback false]) (disableAll_isWriting _ _) rfl rfl rfl

/-- A `handleRead` that finds the end of the stream stops the output, too. -/
theorem mute_handleRead (c : TcpConnection) (env : Env)
    (h : c.channel_.isWriting = false ∨ (c.handleRead env.withoutUser).state_ ≠ c.state_) :
    Mute c (c.handleRead env.withoutUser) := by
  rcases handleRead_withoutUser c env with ⟨-, heq⟩ | ⟨-, heq⟩ | ⟨-, heq⟩
  · have hoff := h.resolve_right fun hne => hne (by rw [heq]; rfl)
    rw [heq]
    exact .of_trace (l := [.messageCallback _]) hoff rfl rfl rfl
  · have hclose := mute_handleClose (c.filled env) env
    rw [heq]
    exact ⟨hclose.off, hclose.written, hclose.sent⟩
  · have hoff := h.resolve_right fun hne => hne (by rw [heq]; rfl)
    rw [heq]
    exact .of_trace (l := [.logError .handleRead, .handleError _]) hoff
      (readError_trace _ _) rfl rfl

theorem mute_shutdownInLoop (hoff : c.channel_.isWriting = false) :
    Mute c c.shutdownInLoop := by
  unfold shutdownInLoop
  split
  · exact .of_trace (l := [.shutdownWrite]) hoff rfl rfl rfl
  · exact mute_refl hoff

theorem mute_writeOut (w : WriteResult) (hoff : c.channel_.isWriting = false) :
    Mute c (c.writeOut w).1 := by
  rw [writeOut, hoff, if_neg Bool.false_ne_true]
  exact .of_trace (l := [.logError .noMoreWriting]) hoff rfl rfl rfl

/-- `enableReading` leaves the write interest as it is. -/
theorem enableReading_isWriting (ch : Channel) (p : EPollPoller) :
    (ch.enableReading p).1.isWriting = ch.isWriting := by
  have hevents : (ch.enableReading p).1.events_ = ch.events_ ||| kReadEvent :=
    Channel.update_events _ p
  rw [Channel.isWriting, Channel.isWriting, hevents, hasAny, hasAny, BitVec.and_or_distrib_right,
    show kReadEvent &&& kWriteEvent = 0 by decide]
  simp

/-- The member functions that run on a connection that is closed, or is not yet
established. -/
theorem mute_run {m : Member} (hoff : c.channel_.isWriting = false)
    (hm : ∀ len, m ≠ .sendInLoop len) (env : TaskEnv) : Mute c (m.run env c) := by
  cases m with
  | connectEstablished =>
      refine .of_trace (l := [.connectionCallback true]) ?_ rfl rfl rfl
      exact (enableReading_isWriting _ _).trans hoff
  | markDestroyed => exact mute_markDestroyed c
  | removeChannel => exact .of_trace (l := [.connectDestroyed]) hoff rfl rfl rfl
  | sendInLoop len => exact absurd rfl (hm len)
  | shutdownInLoop => exact mute_shutdownInLoop hoff
  | handleClose => exact mute_handleClose c env.toEnv
  | handleError => exact .of_trace (l := [.handleError 0]) hoff rfl rfl rfl
  | handleRead => exact mute_handleRead c env.toEnv (.inl hoff)
  | handleWrite => exact mute_writeOut env.write hoff
  | finishWrite =>
      show Mute c c.finishWrite
      unfold finishWrite
      split
      · exact mute_shutdownInLoop hoff
      · exact mute_refl hoff

/-- A member function that disconnects writes nothing. -/
theorem mute_disconnects {m : Member} {env : TaskEnv}
    (hm : m = .markDestroyed ∨ m = .handleClose ∨ m = .handleRead)
    (hs : (m.run env c).state_ ≠ c.state_) : Mute c (m.run env c) := by
  rcases hm with rfl | rfl | rfl
  · exact mute_markDestroyed c
  · exact mute_handleClose c env.toEnv
  · exact mute_handleRead c env.toEnv (.inr hs)

/-- The member functions of the handlers, and the last one, advance the connection. -/
theorem advances_run {m : Member} (hstart : m ≠ .connectEstablished) (hmark : m ≠ .markDestroyed)
    (hsend : ∀ len, m ≠ .sendInLoop len) (env : TaskEnv) : Advances ok c (m.run env c) := by
  cases m with
  | connectEstablished => exact absurd rfl hstart
  | markDestroyed => exact absurd rfl hmark
  | removeChannel =>
      exact .of_closed (e := .connectDestroyed) rfl (List.prefix_append _ _) (by simp [Member.run,
        removeChannel])
  | sendInLoop len => exact absurd rfl (hsend len)
  | shutdownInLoop => exact (moves_shutdownInLoop c).advances
  | handleClose => exact advances_handleClose c _
  | handleError => exact (moves_handleError c 0).advances
  | handleRead => exact advances_handleRead c (List.forall_mem_nil _)
  | handleWrite => exact (Move.writeOut c env.write).advances
  | finishWrite =>
      show Advances ok c c.finishWrite
      unfold finishWrite
      exact (moves_shutdownInLoop c).advances.ite

/-- A `handleRead` that disconnects has called `handleClose`. -/
theorem not_open_disconnects {m : Member} {env : TaskEnv}
    (hm : m = .markDestroyed ∨ m = .handleClose ∨ m = .handleRead) (hmark : m ≠ .markDestroyed)
    (hs : (m.run env c).state_ ≠ c.state_) : ¬ Open (m.run env c) := by
  intro hopen
  have hclosed : ∀ c : TcpConnection, .handleClose ∈ (c.handleClose env.toEnv.withoutUser).trace :=
    fun c => (handleClose_grows c env.toEnv.withoutUser).subset (by simp)
  have hmem : .handleClose ∈ (m.run env c).trace := by
    rcases hm with rfl | rfl | rfl
    · exact absurd rfl hmark
    · exact hclosed c
    · change (c.handleRead env.toEnv.withoutUser).state_ ≠ c.state_ at hs
      show .handleClose ∈ (c.handleRead env.toEnv.withoutUser).trace
      rcases handleRead_withoutUser c env.toEnv with ⟨-, heq⟩ | ⟨-, heq⟩ | ⟨-, heq⟩
      · exact absurd (by rw [heq]; rfl) hs
      · rw [heq]
        exact hclosed _
      · exact absurd (by rw [heq]; rfl) hs
  exact absurd (hopen _ hmem) (by simp [Effect.isClose])

/-- Only the closing functions leave a closing effect, and they disconnect. -/
theorem open_run {m : Member} (hopen : Open c) (hremove : m ≠ .removeChannel) (env : TaskEnv)
    (hs : (m.run env c).state_ ≠ .kDisconnected) : Open (m.run env c) := by
  have hsends : ∀ {c' : TcpConnection} {l : List Effect}, c'.trace = c.trace ++ l →
      (∀ e ∈ l, e.isClose = false) → Open c' := by
    intro c' l ht hl e he
    rw [ht] at he
    exact (List.mem_append.mp he).elim (hopen e) (hl e)
  have hsending : ∀ {c' : TcpConnection}, Sends c c' → Open c' := by
    rintro c' ⟨es, ht, hes⟩
    refine hsends ht fun e he => ?_
    have := hes e he
    cases e <;> first | rfl | cases this
  cases m with
  | connectEstablished => exact hsends (l := [.connectionCallback true]) rfl (by simp [Effect.isClose])
  | markDestroyed => exact absurd rfl hs
  | removeChannel => exact absurd rfl hremove
  | sendInLoop len => exact hsending (sends_sendInLoop c _ _)
  | shutdownInLoop => exact hsending (sends_shutdownInLoop c)
  | handleClose => exact absurd rfl hs
  | handleError => exact hsends (l := [.handleError 0]) rfl (by simp [Effect.isClose])
  | handleRead =>
      change (c.handleRead env.toEnv.withoutUser).state_ ≠ _ at hs
      show Open (c.handleRead env.toEnv.withoutUser)
      rcases handleRead_withoutUser c env.toEnv with ⟨-, heq⟩ | ⟨-, heq⟩ | ⟨-, heq⟩
      · rw [heq]
        exact hsends (l := [.messageCallback _]) rfl (by simp [Effect.isClose])
      · exact absurd (by rw [heq]; rfl) hs
      · rw [heq]
        exact hsends (l := [.logError .handleRead, .handleError _])
          (readError_trace _ _) (by simp [Effect.isClose])
  | handleWrite => exact hsending (sends_writeOut c env.write)
  | finishWrite => exact hsending (sends_finishWrite c)

end TcpConnection

namespace ServerSystem

open TcpConnection

variable {ι α : Type*} [DecidableEq ι] [DecidableEq α]
variable {s t : ServerSystem ι α} {e : ServerEvent ι α} {c : Nat}

/-! ### What a run keeps -/

/-- The direct writes of the users' calls are answered within `ok`. -/
def Answered (ok : WriteResult → Prop) (_ : ServerSystem ι α) : ServerEvent ι α → Prop
  | .proceed _ w => ok w
  | _ => True

/-- Every connection is where a run of its own could have brought it. -/
structure Hosted (ok : WriteResult → Prop) (s : ServerSystem ι α) : Prop where
  custody : s.Custody
  -- nobody destroys a connected connection while the server is in service
  unmarked : ∀ l c, .call .markDestroyed c ∉ s.todo l
  -- what user code or `shutdown` is about to work on has been established
  guarded : ∀ l c, .guard c ∈ s.todo l → s.state c ≠ .kConnecting
  stored : ∀ th c, s.calling th = .shutdownStored c → s.state c ≠ .kConnecting
  born : ∀ c < s.count, s.state c = .kConnecting → ∃ fd wc hw mark,
    s.tcp c = TcpConnection.new c fd wc hw mark (s.poller (s.conn c).home)
  grown : ∀ c < s.count, s.state c ≠ .kConnecting → ∃ c₀, Fresh c₀ ∧ Advances ok c₀ (s.tcp c)
  openIff : ∀ c < s.count, Open (s.tcp c) ↔ s.state c ≠ .kDisconnected
  silent : ∀ c < s.count, s.state c = .kDisconnected → (s.channel c).isWriting = false

namespace Hosted

variable {ok : WriteResult → Prop} (h : s.Hosted ok)
include h

omit [DecidableEq ι] [DecidableEq α] in
/-- Before it is established, a connection is touched by `connectEstablished` only. -/
theorem touches_connecting {x : TcpConnection} (hc : c < s.count)
    (hs : s.state c = .kConnecting) (ht : s.Touches c e x) :
    (∃ p, x = { s.tcp c with poller_ := p }) ∨ x = (s.tcp c).connectEstablished [] := by
  have hnew : (s.channel c).index_ = .kNew := h.custody.fresh c hc hs
  cases ht with
  | aside _ p hnot => exact .inl ⟨p, rfl⟩
  | event l revents rest hactive =>
      exact absurd hnew (h.custody.active l (c, revents) (by simp [hactive]))
  | member l env m rest htodo =>
      have hk : .call m c ∈ s.todo l := by simp [htodo]
      rcases Task.call_kind m c with rfl | hdestroys | hraw | hhandles
      · exact .inr rfl
      · rw [h.custody.retired_of_task hk (Task.retires_of_destroys hdestroys)] at hs
        cases hs
      · rw [(h.custody.raw l).2 _ hk] at hraw
        cases hraw
      · exact absurd hnew (h.custody.handled l _ hk c hhandles).2
  | sent th w data hcall =>
      rw [(h.custody.called_of_send hcall).2] at hs
      cases hs
  | stored th w hcall =>
      rw [(h.custody.called_of_shutdown hcall).2] at hs
      cases hs
  | shut th w hcall => exact absurd hs (h.stored th c hcall)
  | retrieved l len hguard => exact absurd hs (h.guarded l c hguard)

omit [DecidableEq ι] [DecidableEq α] in
/-- The member functions that may run on an established connection. -/
theorem member_established {l : ι} {m : Member} {rest : List Task}
    (htodo : s.todo l = .call m c :: rest) (hs : s.state c ≠ .kConnecting) :
    m ≠ .connectEstablished ∧ m ≠ .markDestroyed ∧ ∀ len, m ≠ .sendInLoop len := by
  have hk : .call m c ∈ s.todo l := by simp [htodo]
  refine ⟨?_, ?_, ?_⟩
  · rintro rfl
    exact hs (h.custody.establishing_of_task hk)
  · rintro rfl
    exact h.unmarked l c hk
  · rintro len rfl
    cases (h.custody.raw l).2 _ hk

variable (hm : s.Moves e t) (he : s.InService e) (hown : s.OnOwnLoop e)
  (hfree : s.DescriptorFree e)
include hm

theorem unmarked_step (l : ι) (c : Nat) : .call .markDestroyed c ∉ t.todo l := by
  intro hk
  rcases task_of_moves h.custody.steady.homed hm hk with hold | hnew
  · exact h.unmarked l c hold
  · generalize hx : Task.call .markDestroyed c = k at hnew
    cases hnew with
    | started _ _ f _ hf _ _ hmem =>
        subst hx
        cases f <;> simp [ServerFunctor.tasks] at hmem
    | event _ d revents rest _ hactive _ hmem =>
        subst hx
        rcases eventTasks_cases hmem with ⟨m, hm', heq⟩ | heq <;> cases heq
        rcases hm' with hm' | hm' | hm' | hm' <;> cases hm'
    | next _ env m d rest _ htodo hmem =>
        subst hx
        rcases Member.next_cases hmem with ⟨-, heq⟩ | ⟨-, heq⟩ | ⟨-, heq⟩ <;> cases heq
    | tested _ env d rest htodo =>
        have hdisc : s.state d = .kDisconnected :=
          h.custody.retired_of_task (l := l) (k := .testDestroyed d) (by simp [htodo]) rfl
        rw [if_neg (by show ¬ s.state d = _; rw [hdisc]; simp)] at hx
        cases hx
    | closed _ env d rest _ htodo hkind => subst hx; rcases hkind with heq | heq <;> cases heq
    | accepted sockfd wc hw mark _ hkind => subst hx; rcases hkind with heq | heq <;> cases heq
    | torn d _ hhead hkind => subst hx; rcases hkind with heq | heq <;> cases heq
    | _ => cases hx

theorem guarded_step (l : ι) (c : Nat) (hk : .guard c ∈ t.todo l) :
    t.state c ≠ .kConnecting := by
  have hstays : c < s.count → s.state c ≠ .kConnecting → t.state c ≠ .kConnecting :=
    fun hc hs ht => hs (connecting_before hm hc ht)
  rcases task_of_moves h.custody.steady.homed hm hk with hold | hnew
  · exact hstays (h.custody.steady.homed.task l _ hold).1 (h.guarded l c hold)
  · generalize hx : Task.guard c = k at hnew
    cases hnew with
    | started _ _ f _ hf _ _ hmem =>
        subst hx
        cases f <;> simp [ServerFunctor.tasks] at hmem
    | event _ d revents rest _ hactive _ hmem =>
        subst hx
        -- the guard is of the connection whose channel is active
        obtain rfl : c = d := by
          rcases eventTasks_cases hmem with ⟨m, -, heq⟩ | heq <;> cases heq
          rfl
        have hp : (c, revents) ∈ s.active l := by simp [hactive]
        have hc : c < s.count := (h.custody.steady.homed.active l _ hp).1
        refine hstays hc fun hs => ?_
        exact h.custody.active l _ hp (h.custody.fresh c hc hs)
    | next _ env m d rest _ htodo hmem =>
        subst hx
        rcases Member.next_cases hmem with ⟨-, heq⟩ | ⟨-, heq⟩ | ⟨-, heq⟩ <;> cases heq
    | tested _ env d rest htodo => split at hx <;> cases hx
    | closed _ env d rest _ htodo hkind => subst hx; rcases hkind with heq | heq <;> cases heq
    | accepted sockfd wc hw mark _ hkind => subst hx; rcases hkind with heq | heq <;> cases heq
    | torn d _ hhead hkind => subst hx; rcases hkind with heq | heq <;> cases heq
    | _ => cases hx

theorem stored_step (th : Thread ι α) (c : Nat) (hcall : t.calling th = .shutdownStored c) :
    t.state c ≠ .kConnecting := by
  have hc : c < s.count := by
    have hcalls := calls_of_moves hm th
    rw [hcall] at hcalls
    generalize hx : Calling.shutdownStored c = k at hcalls
    cases hcalls with
    | keep _ => exact h.custody.steady.homed.calling th c (by rw [← hx]; rfl)
    | store w d hfound =>
        cases hx
        exact h.custody.steady.homed.calling th c (by rw [hfound]; rfl)
    | _ => cases hx
  intro ht
  have hs := connecting_before hm hc ht
  have hcalls := calls_of_moves hm th
  rw [hcall] at hcalls
  generalize hx : Calling.shutdownStored c = k at hcalls
  cases hcalls with
  | keep _ => exact h.stored th c hx.symm hs
  | store w d hfound =>
      cases hx
      rw [(h.custody.called_of_shutdown hfound).2] at hs
      cases hs
  | _ => cases hx

theorem born_step (hc : c < t.count) (ht : t.state c = .kConnecting) : ∃ fd wc hw mark,
    t.tcp c = TcpConnection.new c fd wc hw mark (t.poller (t.conn c).home) := by
  rcases count_of_moves hm hc with hlt | ⟨rfl, sockfd, wc, hw, mark, -, rfl⟩
  · have hs := connecting_before hm hlt ht
    obtain ⟨fd, wc, hw, mark, hborn⟩ := h.born c hlt hs
    refine ⟨fd, wc, hw, mark, ?_⟩
    rcases h.touches_connecting hlt hs (touches_of_moves hm hlt) with ⟨p, hp⟩ | hest
    · have hpoller : p = t.poller (t.conn c).home := (congrArg TcpConnection.poller_ hp).symm
      rw [hp, hborn, hpoller]
      rfl
    · -- `connectEstablished` has stored another state
      have hstate : (t.tcp c).state_ = .kConnected := by rw [hest]; rfl
      cases hstate.symm.trans ht
  · obtain ⟨p, htcp⟩ := accept_tcp s sockfd wc hw mark
    exact ⟨sockfd, wc, hw, mark, by rw [tcp, htcp]; rfl⟩

include he hown hfree

/-- Others leave the descriptor of a connection alone that is not closed. -/
theorem kernel_aside (hc : c < s.count) (hs : s.state c ≠ .kDisconnected) {p : EPollPoller}
    (hp : t.tcp c = { s.tcp c with poller_ := p }) :
    p.epollSet (s.channel c).fd_ = (s.tcp c).poller_.epollSet (s.channel c).fd_ := by
  have hct := hc.trans_le (settled_of_moves hm).count
  have hchannel : (t.tcp c).channel_ = s.channel c := by rw [hp]; rfl
  have hpoller : (t.tcp c).poller_ = p := by rw [hp]
  have hstate : (t.tcp c).state_ = s.state c := by rw [hp]; rfl
  have hbefore := h.custody.mirrored c hc (.inl (h.custody.live c hc hs))
  have hcustody := h.custody.step hm he hown hfree
  have hlive : t.state c ≠ .kDisconnected := by
    rw [← hstate] at hs
    exact hs
  have hafter : (t.tcp c).channel_.Mirrored (t.tcp c).poller_ :=
    hcustody.mirrored c hct (.inl (hcustody.live c hct hlive))
  rw [hchannel, hpoller] at hafter
  exact hafter.kernel.trans hbefore.kernel.symm

/-- **A step advances every established connection.** -/
theorem advances (hok : s.Answered ok e) (hc : c < s.count) (hs : s.state c ≠ .kConnecting) :
    Advances ok (s.tcp c) (t.tcp c) := by
  have htouches : s.Touches c e (t.tcp c) := touches_of_moves hm hc
  generalize hx : t.tcp c = x at htouches
  cases htouches with
  | aside _ p hnot =>
      by_cases hdisc : s.state c = .kDisconnected
      · exact ⟨List.prefix_rfl, fun hopen => absurd hdisc ((h.openIff c hc).mp hopen)⟩
      · exact Move.advances (.poller _ p (h.kernel_aside hm he hown hfree hc hdisc hx))
  | event l revents rest hactive => exact Move.advances (.revents _ revents)
  | member l env m rest htodo =>
      obtain ⟨hstart, hmark, hsend⟩ := h.member_established htodo hs
      exact advances_run hstart hmark hsend env
  | sent th w data hcall => exact Move.advances (.sendInLoop _ data w hok)
  | stored th w hcall => exact Move.advances (.disconnecting _)
  | shut th w hcall => exact (moves_shutdownInLoop _).advances
  | retrieved l len hguard => exact Move.advances (.input _ _)

theorem grown_step (hok : s.Answered ok e) (hc : c < t.count) (ht : t.state c ≠ .kConnecting) :
    ∃ c₀, Fresh c₀ ∧ Advances ok c₀ (t.tcp c) := by
  rcases count_of_moves hm hc with hlt | ⟨rfl, sockfd, wc, hw, mark, -, rfl⟩
  · by_cases hs : s.state c = .kConnecting
    · -- the step is `connectEstablished`
      obtain ⟨fd, wc, hw, mark, hborn⟩ := h.born c hlt hs
      rcases h.touches_connecting hlt hs (touches_of_moves hm hlt) with ⟨p, hp⟩ | hest
      · exact absurd ((congrArg TcpConnection.state_ hp).trans hs) ht
      · have hchannel : s.channel c = Channel.new c fd := congrArg TcpConnection.channel_ hborn
        have hmirrored := h.custody.mirrored c hlt (.inl (h.custody.live c hlt (by simp [hs])))
        have hfd : (s.poller (s.conn c).home).epollSet fd = none := by
          have hkernel := hmirrored.kernel
          rw [hchannel] at hkernel
          exact hkernel
        refine ⟨t.tcp c, ?_, .refl _⟩
        rw [hest, hborn]
        exact fresh_connectEstablished hfd
    · obtain ⟨c₀, hfresh, hadv⟩ := h.grown c hlt hs
      exact ⟨c₀, hfresh, hadv.trans (h.advances hm he hown hfree hok hlt hs)⟩
  · obtain ⟨p, htcp⟩ := accept_tcp s sockfd wc hw mark
    refine absurd ?_ ht
    rw [state, htcp]
    rfl

omit he hown hfree in
/-- What is left to a connection that is disconnected after the step. -/
theorem mute (hc : c < s.count) (ht : t.state c = .kDisconnected) :
    Mute (s.tcp c) (t.tcp c) := by
  have hoff : s.state c = .kDisconnected → (s.tcp c).channel_.isWriting = false := h.silent c hc
  have htouches : s.Touches c e (t.tcp c) := touches_of_moves hm hc
  change (t.tcp c).state_ = .kDisconnected at ht
  generalize t.tcp c = x at htouches ht
  cases htouches with
  | aside _ p hnot => exact ⟨hoff ht, rfl, rfl⟩
  | event l revents rest hactive => exact ⟨hoff ht, rfl, rfl⟩
  | member l env m rest htodo =>
      have hsend : ∀ len, m ≠ .sendInLoop len := by
        rintro len rfl
        cases (h.custody.raw l).2 (.call (.sendInLoop len) c) (by simp [htodo])
      by_cases hs : s.state c = .kDisconnected
      · exact mute_run (hoff hs) hsend env
      · have hne : (m.run env (s.tcp c)).state_ ≠ (s.tcp c).state_ := fun heq =>
          hs (heq.symm.trans ht)
        rcases m.run_state env (s.tcp c) with hsame | ⟨-, hconn⟩ | ⟨hm', -⟩
        · exact absurd hsame hne
        · cases hconn.symm.trans ht
        · exact mute_disconnects hm' hne
  | sent th w data hcall =>
      have hs := (h.custody.called_of_send hcall).2
      have hsame := (sameState_sendInLoop (s.tcp c) data w).state
      cases (hsame.trans hs).symm.trans ht
  | stored th w hcall => cases ht
  | shut th w hcall =>
      have hsame := (sameState_shutdownInLoop (s.tcp c)).state
      exact mute_shutdownInLoop (hoff (hsame.symm.trans ht))
  | retrieved l len hguard => exact ⟨hoff ht, rfl, rfl⟩

omit he hown hfree in
theorem silent_step (hc : c < t.count) (ht : t.state c = .kDisconnected) :
    (t.channel c).isWriting = false := by
  rcases count_of_moves hm hc with hlt | ⟨rfl, sockfd, wc, hw, mark, -, rfl⟩
  · exact (h.mute hm hlt ht).off
  · obtain ⟨p, htcp⟩ := accept_tcp s sockfd wc hw mark
    rw [state, htcp] at ht
    cases ht

omit he hown hfree in
/-- A connection that was open stays open unless the step disconnects it. -/
theorem open_stays (hc : c < s.count) (hopen : Open (s.tcp c))
    (ht : t.state c ≠ .kDisconnected) : Open (t.tcp c) := by
  have htouches : s.Touches c e (t.tcp c) := touches_of_moves hm hc
  change (t.tcp c).state_ ≠ .kDisconnected at ht
  generalize t.tcp c = x at htouches ht
  have hsends : ∀ {x}, Sends (s.tcp c) x → Open x := by
    rintro x ⟨es, htrace, hes⟩ e he
    rw [htrace] at he
    rcases List.mem_append.mp he with he | he
    · exact hopen e he
    · have := hes e he
      cases e <;> first | rfl | cases this
  cases htouches with
  | aside _ p hnot => exact hopen
  | event l revents rest hactive => exact hopen
  | member l env m rest htodo =>
      refine open_run hopen ?_ env ht
      rintro rfl
      have hs : s.state c = .kDisconnected :=
        h.custody.retired_of_task (l := l) (k := .call .removeChannel c) (by simp [htodo]) rfl
      exact absurd hs ((h.openIff c hc).mp hopen)
  | sent th w data hcall => exact hsends (sends_sendInLoop _ data w)
  | stored th w hcall => exact hopen
  | shut th w hcall => exact hsends (sends_shutdownInLoop _)
  | retrieved l len hguard => exact hopen

omit he hown hfree in
theorem closed_stays (hc : c < s.count) (ht : t.state c = .kDisconnected) : ¬ Open (t.tcp c) := by
  have htouches : s.Touches c e (t.tcp c) := touches_of_moves hm hc
  change (t.tcp c).state_ = .kDisconnected at ht
  generalize t.tcp c = x at htouches ht
  have hgrows : ∀ {x}, (s.tcp c).trace <+: x.trace → s.state c = .kDisconnected → ¬ Open x :=
    fun hp hs hopen => absurd hs ((h.openIff c hc).mp (Open.earlier hopen hp))
  cases htouches with
  | aside _ p hnot => exact hgrows List.prefix_rfl ht
  | event l revents rest hactive => exact hgrows List.prefix_rfl ht
  | member l env m rest htodo =>
      have hmark : m ≠ .markDestroyed := by
        rintro rfl
        exact h.unmarked l c (by simp [htodo])
      by_cases hs : s.state c = .kDisconnected
      · obtain ⟨hstart, -, hsend⟩ := h.member_established htodo (by simp [hs])
        have hadv : Advances ok (s.tcp c) (m.run env (s.tcp c)) :=
          advances_run hstart hmark hsend env
        exact hgrows hadv.1 hs
      · have hne : (m.run env (s.tcp c)).state_ ≠ (s.tcp c).state_ := fun heq =>
          hs (heq.symm.trans ht)
        rcases m.run_state env (s.tcp c) with hsame | ⟨-, hconn⟩ | ⟨hm', -⟩
        · exact absurd hsame hne
        · cases hconn.symm.trans ht
        · exact not_open_disconnects hm' hmark hne
  | sent th w data hcall =>
      exact hgrows (sends_sendInLoop _ data w).grows
        ((sameState_sendInLoop (s.tcp c) data w).state.symm.trans ht)
  | stored th w hcall => cases ht
  | shut th w hcall =>
      exact hgrows (sends_shutdownInLoop _).grows
        ((sameState_shutdownInLoop (s.tcp c)).state.symm.trans ht)
  | retrieved l len hguard => exact hgrows List.prefix_rfl ht

omit he hown hfree in
theorem openIff_step (hc : c < t.count) : Open (t.tcp c) ↔ t.state c ≠ .kDisconnected := by
  rcases count_of_moves hm hc with hlt | ⟨rfl, sockfd, wc, hw, mark, -, rfl⟩
  · constructor
    · exact fun hopen ht => h.closed_stays hm hlt ht hopen
    · intro ht
      have hs : s.state c ≠ .kDisconnected := fun hs =>
        ht (h.custody.disconnected_stays hm hlt hs)
      exact h.open_stays hm hlt ((h.openIff c hlt).mpr hs) ht
  · obtain ⟨p, htcp⟩ := accept_tcp s sockfd wc hw mark
    rw [state, tcp, htcp]
    constructor
    · intro _ hdead
      cases hdead
    · intro _
      exact List.forall_mem_nil _

theorem step (hok : s.Answered ok e) : t.Hosted ok where
  custody := h.custody.step hm he hown hfree
  unmarked := h.unmarked_step hm
  guarded := h.guarded_step hm
  stored := h.stored_step hm
  born _ := h.born_step hm
  grown _ := h.grown_step hm he hown hfree hok
  openIff _ := h.openIff_step hm
  silent _ := h.silent_step hm

end Hosted

theorem hosted_of_init {ok : WriteResult → Prop} (hinit : (serverMachine ι α).init s) :
    s.Hosted ok := by
  have hcustody := custody_of_init hinit
  obtain ⟨-, -, hcount, -, -, -, htodo, -, hcalling⟩ := hinit
  constructor
  · exact hcustody
  all_goals simp [hcount, htodo, hcalling]

/-- What the results below ask of a run: the server is in service, its users call on the
loop threads of their connections, the kernel hands out no open descriptor, and answers
direct writes within `ok`. -/
def Regular (ok : WriteResult → Prop) (s : ServerSystem ι α) (e : ServerEvent ι α) : Prop :=
  s.InService e ∧ s.OnOwnLoop e ∧ s.DescriptorFree e ∧ s.Answered ok e

theorem hosted_of_run {ok : WriteResult → Prop} {es : List (ServerEvent ι α)}
    (hinit : (serverMachine ι α).init s) (hregular : (serverMachine ι α).Along (Regular ok) s es)
    (hrun : (serverMachine ι α).run s es = some t) : t.Hosted ok := by
  refine Machine.run_invariant (I := Hosted ok) (fun s e t hs he ht => ?_) hregular hrun
    (hosted_of_init hinit)
  exact hs.step (moves_of_next ht) he.1 he.2.1 he.2.2.1 he.2.2.2

/-! ### Output -/

/-- The bytes that the kernel has taken are the first of those that were sent. -/
def InOrder (s : ServerSystem ι α) : Prop :=
  ∀ c < s.count, written (s.tcp c).trace <+: (sent (s.tcp c).trace).flatten

omit [DecidableEq ι] [DecidableEq α] in
/-- A connection that is not closed has come from a new one by moves. -/
theorem Hosted.moved {ok : WriteResult → Prop} (h : s.Hosted ok) (hc : c < s.count)
    (hs : s.state c = .kConnected ∨ s.state c = .kDisconnecting) :
    ∃ c₀, Fresh c₀ ∧ TcpConnection.Moves ok c₀ (s.tcp c) := by
  have hopen : Open (s.tcp c) := (h.openIff c hc).mpr (by rcases hs with hs | hs <;> simp [hs])
  obtain ⟨c₀, hfresh, -, hmoves⟩ := h.grown c hc (by rcases hs with hs | hs <;> simp [hs])
  exact ⟨c₀, hfresh, hmoves hopen⟩

omit [DecidableEq ι] [DecidableEq α] in
theorem Hosted.streamed (h : s.Hosted Benign) (hc : c < s.count)
    (hs : s.state c = .kConnected ∨ s.state c = .kDisconnecting) : Streamed (s.tcp c) := by
  obtain ⟨c₀, hfresh, hmoves⟩ := h.moved hc hs
  exact hfresh.streamed.moves (fun _ hw => hw) hmoves

theorem InOrder.step (hs : s.InOrder) (hhosted : s.Hosted Benign) (ht : t.Hosted Benign)
    (hm : s.Moves e t) : t.InOrder := by
  intro c hc
  cases hstate : t.state c with
  | kConnecting =>
      obtain ⟨fd, wc, hw, mark, hborn⟩ := ht.born c hc hstate
      rw [hborn]
      exact List.nil_prefix
  | kConnected => exact ⟨_, (ht.streamed hc (.inl hstate)).stream⟩
  | kDisconnecting => exact ⟨_, (ht.streamed hc (.inr hstate)).stream⟩
  | kDisconnected =>
      rcases count_of_moves hm hc with hlt | ⟨rfl, sockfd, wc, hw, mark, -, rfl⟩
      · have hmute := hhosted.mute hm hlt hstate
        rw [hmute.written, hmute.sent]
        exact hs c hlt
      · obtain ⟨p, htcp⟩ := accept_tcp s sockfd wc hw mark
        rw [state, htcp] at hstate
        cases hstate

instance {ok : WriteResult → Prop} [DecidablePred ok] (s : ServerSystem ι α) :
    (e : ServerEvent ι α) → Decidable (s.Answered ok e)
  | .proceed _ w => inferInstanceAs (Decidable (ok w))
  | .loop .. | .dispatch _ | .task .. | .accept .. | .send .. | .shutdown .. | .copy ..
  | .release .. | .retrieve .. | .call .. | .destroy | .destroyEntry _ | .destroyed =>
      instDecidableTrue

instance [Fintype ι] {ok : WriteResult → Prop} [DecidablePred ok] (s : ServerSystem ι α)
    (e : ServerEvent ι α) : Decidable (s.Regular ok e) :=
  inferInstanceAs (Decidable (_ ∧ _ ∧ _ ∧ _))

/-- A connection is accepted, and user code in its connection callback keeps the
pointer and sends three bytes, of which the kernel takes two. -/
def greets : List (ServerEvent Bool Unit) :=
  List.flatten
    [ServerEvent.turns false [.enterLoop, .testQuit, .poll false], [.accept 7 false false 0],
      ServerEvent.turns true [.enterLoop, .testQuit, .poll true, .handleRead, .handlersDone,
        .swapFunctors, .startFunctor],
      [.task true quietTask, .copy (.loop true) (.loop true) 0, .send (.loop true) 0 [1, 2, 3],
        .proceed (.loop true) (.accept 2)]]

end ServerSystem

end Mymuduo
