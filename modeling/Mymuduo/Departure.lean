/-
Mymuduo/Departure.lean

No connection is left behind.

A connection is accepted, established, closed, taken out of `connections_`, and its
channel taken out of the poller, by a chain of tasks and functors over two threads:
`connectEstablished`, then `handleClose`, `closeCallback_`, `removeConnectionInLoop`,
`connectDestroyed`.  Between two stages there is always the task or functor that leads
to the next one (`Attended`).

So when nothing is left to do, every connection is all there or all gone
(`no_connection_left_behind`): in the table, established and registered, or out of the table,
out of every poller, and with no pointer left but the users' own.
-/
import Mymuduo.Hosted

namespace Mymuduo

open Transition

/-- A handler that disconnects goes on to call `closeCallback_`. -/
theorem Member.next_of_disconnects {m : Member} (hm : m = .handleClose ∨ m = .handleRead)
    {env : TaskEnv} {conn : Nat} {c : TcpConnection} (hs : (m.run env c).state_ ≠ c.state_) :
    .closeCallback conn ∈ m.next env conn c := by
  rcases hm with rfl | rfl
  · exact List.mem_singleton_self _
  · change (c.handleRead env.toEnv.withoutUser).state_ ≠ c.state_ at hs
    rw [Member.next, List.mem_ite_nil_right]
    refine ⟨?_, List.mem_singleton_self _⟩
    rcases TcpConnection.handleRead_withoutUser c env.toEnv with ⟨-, heq⟩ | ⟨hzero, -⟩ | ⟨-, heq⟩
    · exact absurd (by rw [heq]; rfl) hs
    · exact hzero
    · exact absurd (by rw [heq]; rfl) hs

namespace ServerSystem

variable {ι α : Type*}

/-! ### Stages -/

/-- `connectEstablished` of the connection is still to be run. -/
def Arriving (s : ServerSystem ι α) (c : Nat) : Prop :=
  (∃ l, .connectEstablished c ∈ (s.loops l).waiting) ∨
    ∃ l, .call .connectEstablished c ∈ s.todo l

/-- The connection is on its way out of `connections_`. -/
def Departing (s : ServerSystem ι α) (c : Nat) : Prop :=
  (∃ l, .closeCallback c ∈ s.todo l) ∨ (∃ l, .removeConnectionInLoop c ∈ (s.loops l).waiting) ∨
    ∃ l, .erase c ∈ s.todo l

/-- Between two stages a connection has somebody who leads it to the next one. -/
structure Attended (s : ServerSystem ι α) : Prop where
  arriving : ∀ c < s.count, s.state c = .kConnecting → s.Arriving c
  departing : ∀ c < s.count, s.state c = .kDisconnected → s.InTable c → s.Departing c

variable [DecidableEq ι] [DecidableEq α] {s t : ServerSystem ι α} {e : ServerEvent ι α} {l : ι}
  {c : Nat} {env : TaskEnv} {rest : List Task}

theorem next_of_call {m : Member} (hm : s.Moves (.task l env) t)
    (htodo : s.todo l = .call m c :: rest) {k : Task} (hk : k ∈ m.next env c (s.tcp c)) :
    k ∈ t.todo l := by
  cases runs_of_moves hm htodo
  exact mem_setTodo_self (List.mem_append_left _ hk)

/-- `removeConnection` removes at once, or queues the removal in the base loop. -/
theorem departing_of_closed (hm : s.Moves (.task l env) t)
    (htodo : s.todo l = .closeCallback c :: rest) : t.Departing c := by
  cases runs_of_moves hm htodo
  show Departing ((s.setTodo l rest).runInLoop s.base (.loop l) (.removeConnectionInLoop c)) c
  unfold ServerSystem.runInLoop
  split
  · exact .inr (.inr ⟨s.base, mem_setTodo_self List.mem_cons_self⟩)
  · refine .inr (.inl ⟨s.base, ?_⟩)
    rw [post_self, EventLoop.waiting, EventLoop.post_pending]
    simp

theorem not_inTable_of_erase (hm : s.Moves (.task l env) t)
    (htodo : s.todo l = .erase c :: rest) : ¬ t.InTable c := by
  cases runs_of_moves hm htodo
  show Function.update s.server.connections_ (s.conn c).name none (s.conn c).name ≠ some c
  rw [Function.update_self]
  exact nofun

theorem Departing.stays (h : s.Departing c) (hs : s.Steady) (hm : s.Moves e t) :
    t.Departing c ∨ ¬ t.InTable c := by
  rcases h with ⟨l, hk⟩ | ⟨l, hf⟩ | ⟨l, hk⟩
  · rcases task_stays hs hm hk with hstays | ⟨env, rest, rfl, htodo⟩
    · exact .inl (.inl ⟨l, hstays⟩)
    · exact .inl (departing_of_closed hm htodo)
  · rcases waiting_stays hs hm hf with hstays | hstarted
    · exact .inl (.inr (.inl ⟨l, hstays⟩))
    · exact .inl (.inr (.inr ⟨l, hstarted _ (List.mem_singleton_self _)⟩))
  · rcases task_stays hs hm hk with hstays | ⟨env, rest, rfl, htodo⟩
    · exact .inl (.inr (.inr ⟨l, hstays⟩))
    · exact .inr (not_inTable_of_erase hm htodo)

theorem Arriving.stays (h : s.Arriving c) (hs : s.Steady) (hm : s.Moves e t) :
    t.Arriving c ∨ t.state c = .kConnected := by
  rcases h with ⟨l, hf⟩ | ⟨l, hk⟩
  · rcases waiting_stays hs hm hf with hstays | hstarted
    · exact .inl (.inl ⟨l, hstays⟩)
    · exact .inl (.inr ⟨l, hstarted _ (List.mem_singleton_self _)⟩)
  · rcases task_stays hs hm hk with hstays | ⟨env, rest, rfl, htodo⟩
    · exact .inl (.inr ⟨l, hstays⟩)
    · right
      rw [state, tcp_of_call hm htodo]
      rfl

/-- `newConnection` has somebody run `connectEstablished`. -/
theorem arriving_accept (s : ServerSystem ι α) (sockfd : Int) (wc hw : Bool) (mark : Nat) :
    (s.accept sockfd wc hw mark).Arriving s.count := by
  unfold accept ServerSystem.runInLoop
  dsimp only
  split
  · exact .inr ⟨_, mem_setTodo_self List.mem_cons_self⟩
  · refine .inl ⟨((s.construct sockfd wc hw mark).conn s.count).home, ?_⟩
    rw [post_self, EventLoop.waiting, EventLoop.post_pending]
    simp

/-- In a server in service only the handlers disconnect. -/
theorem Hosted.closes {ok : WriteResult → Prop} (hs : s.Hosted ok) (hm : s.Moves e t)
    (hc : c < s.count) (hbefore : s.state c ≠ .kDisconnected) (hafter : t.state c = .kDisconnected) :
    ∃ l env m rest, e = .task l env ∧ s.todo l = .call m c :: rest ∧
      (m = .handleClose ∨ m = .handleRead) := by
  have hturns := turns_of_moves hm hc
  rw [hafter] at hturns
  generalize hx : StateE.kDisconnected = x at hturns
  cases hturns with
  | keep => exact absurd hx.symm hbefore
  | established l env rest hidle htodo => cases hx
  | disconnected l env m rest hidle htodo hkind =>
      refine ⟨l, env, m, rest, rfl, htodo, hkind.resolve_left ?_⟩
      rintro rfl
      exact hs.unmarked l c (by simp [htodo])
  | shut th w hcall => cases hx

theorem Attended.step {ok : WriteResult → Prop} (h : s.Attended) (hs : s.Hosted ok)
    (hm : s.Moves e t) : t.Attended := by
  have hsteady := hs.custody.steady
  refine ⟨fun c hc hconn => ?_, fun c hc hdisc htable => ?_⟩
  · rcases count_of_moves hm hc with hlt | ⟨rfl, sockfd, wc, hw, mark, -, rfl⟩
    · refine ((h.arriving c hlt (connecting_before hm hlt hconn)).stays hsteady hm).resolve_right ?_
      rw [hconn]
      exact nofun
    · exact arriving_accept s sockfd wc hw mark
  · rcases count_of_moves hm hc with hlt | ⟨rfl, sockfd, wc, hw, mark, -, rfl⟩
    · by_cases hs' : s.state c = .kDisconnected
      · have hdep := h.departing c hlt hs' (inTable_before hm hlt htable)
        exact (hdep.stays hsteady hm).resolve_right (not_not.mpr htable)
      · obtain ⟨l, env, m, rest, rfl, htodo, hkind⟩ := hs.closes hm hlt hs' hdisc
        refine .inl ⟨l, next_of_call hm htodo (Member.next_of_disconnects hkind ?_)⟩
        rw [← tcp_of_call hm htodo]
        exact fun heq => hs' (heq.symm.trans hdisc)
    · obtain ⟨p, htcp⟩ := accept_tcp s sockfd wc hw mark
      rw [state, htcp] at hdisc
      cases hdisc

theorem attended_of_init (hinit : (serverMachine ι α).init s) : s.Attended := by
  obtain ⟨-, -, hcount, -⟩ := hinit
  constructor <;> simp [hcount]

theorem attended_of_run {ok : WriteResult → Prop} {es : List (ServerEvent ι α)}
    (hinit : (serverMachine ι α).init s) (hregular : (serverMachine ι α).Along (Regular ok) s es)
    (hrun : (serverMachine ι α).run s es = some t) : t.Hosted ok ∧ t.Attended := by
  refine Machine.run_invariant (I := fun s => Hosted ok s ∧ s.Attended) (fun s e t hs he ht => ?_)
    hregular hrun ⟨hosted_of_init hinit, attended_of_init hinit⟩
  have hm := moves_of_next ht
  exact ⟨hs.1.step hm he.1 he.2.1 he.2.2.1 he.2.2.2, hs.2.step hs.1 hm⟩

/-! ### Idle states -/

/-- No loop has a functor, or a task of a handler or functor. -/
def Idle (s : ServerSystem ι α) : Prop := ∀ l, s.todo l = [] ∧ (s.loops l).functors = []

omit [DecidableEq ι] [DecidableEq α] in
theorem Idle.waiting (h : s.Idle) (l : ι) : (s.loops l).waiting = [] := by
  rw [List.eq_nil_iff_forall_not_mem]
  intro f hf
  have hmem := EventLoop.mem_functors_of_waiting hf
  rw [(h l).2] at hmem
  cases hmem

omit [DecidableEq ι] [DecidableEq α] in
theorem Idle.not_arriving (h : s.Idle) : ¬ s.Arriving c := by
  rintro (⟨l, hf⟩ | ⟨l, hk⟩)
  · rw [h.waiting] at hf
    cases hf
  · rw [(h l).1] at hk
    cases hk

omit [DecidableEq ι] [DecidableEq α] in
theorem Idle.not_departing (h : s.Idle) : ¬ s.Departing c := by
  rintro (⟨l, hk⟩ | ⟨l, hf⟩ | ⟨l, hk⟩)
  · rw [(h l).1] at hk
    cases hk
  · rw [h.waiting] at hf
    cases hf
  · rw [(h l).1] at hk
    cases hk

omit [DecidableEq ι] [DecidableEq α] in
theorem Idle.not_leaving (h : s.Idle) : ¬ s.Leaving c := by
  rintro (⟨l, hk⟩ | ⟨l, hf⟩ | ⟨l, k, hk, -⟩)
  · rw [(h l).1] at hk
    cases hk
  · rw [h.waiting] at hf
    cases hf
  · rw [(h l).1] at hk
    cases hk

omit [DecidableEq ι] [DecidableEq α] in
/-- In an idle state only the table and the users have pointers. -/
theorem Idle.held_iff (h : s.Idle) : s.Held c ↔ s.InTable c ∨ s.UserHeld c := by
  constructor
  · rintro (htable | ⟨l, f, hf, -⟩ | ⟨l, k, hk, -⟩ | huser)
    · exact .inl htable
    · rw [(h l).2] at hf
      cases hf
    · rw [(h l).1] at hk
      cases hk
    · exact .inr huser
  · rintro (htable | huser)
    · exact .inl htable
    · exact .inr (.inr (.inr huser))

/-- The connection is in the table, established, and in its poller. -/
structure Present (s : ServerSystem ι α) (c : Nat) : Prop where
  table : s.InTable c
  state : s.state c = .kConnected ∨ s.state c = .kDisconnecting
  channels : (s.poller (s.conn c).home).channels_ (s.channel c).fd_ = some c
  kernel : (s.poller (s.conn c).home).epollSet (s.channel c).fd_ = some ((s.channel c).events_, c)

/-- The connection is closed, and nobody but the users has anything of it. -/
structure Gone (s : ServerSystem ι α) (c : Nat) : Prop where
  table : ¬ s.InTable c
  state : s.state c = .kDisconnected
  channels : ∀ l fd, (s.poller l).channels_ fd ≠ some c
  kernel : ∀ l fd m, (s.poller l).epollSet fd ≠ some (m, c)
  held : s.Held c ↔ s.UserHeld c

omit [DecidableEq ι] [DecidableEq α] in
theorem Idle.present_or_gone {ok : WriteResult → Prop} (h : s.Idle) (hs : s.Hosted ok)
    (ha : s.Attended) (hc : c < s.count) : s.Present c ∨ s.Gone c := by
  have hcustody := hs.custody
  by_cases htable : s.InTable c
  · have hconnecting : s.state c ≠ .kConnecting := fun hconn => h.not_arriving (ha.arriving c hc hconn)
    have hdisc : s.state c ≠ .kDisconnected := fun hd => h.not_departing (ha.departing c hc hd htable)
    have halive : s.state c = .kConnected ∨ s.state c = .kDisconnecting := by
      cases hstate : s.state c <;> simp_all
    have hadded : (s.channel c).index_ = .kAdded := by
      obtain ⟨c₀, hfresh, hmoves⟩ := hs.moved hc halive
      exact (hfresh.established.moves hmoves).registered.index
    have hmirrored := hcustody.mirrored c hc (.inl htable)
    have hself : (s.channel c).self = c := hcustody.steady.homed.self c hc
    refine .inl ⟨htable, halive, ?_, ?_⟩
    · rw [hmirrored.channels, Channel.mapEntry, hadded, hself]
      rfl
    · rw [hmirrored.kernel, Channel.watchEntry, hadded, hself]
      rfl
  · have hstate : s.state c = .kDisconnected := by
      by_contra hne
      exact htable (hcustody.live c hc hne)
    have hindex : (s.channel c).index_ = .kNew := by
      by_contra hne
      exact (hcustody.owned c hc hne).elim htable h.not_leaving
    refine .inr ⟨htable, hstate, fun l fd hmap => ?_, fun l fd m hset => ?_, ?_⟩
    · exact (hcustody.entries l fd c (.inl hmap)).2.2 hindex
    · exact (hcustody.entries l fd c (.inr ⟨m, hset⟩)).2.2 hindex
    · rw [h.held_iff]
      exact or_iff_right htable

/-- **No connection is left behind.**  In every state of a regular run, a connection that
is not established has `connectEstablished` to come; one that is closed is on its way out
of the table, or it is out of the table, and `connectDestroyed` is to come or its channel
is out of the poller.  And when nothing is left to do, every connection is all there or
all gone. -/
theorem no_connection_left_behind {ok : WriteResult → Prop} {es : List (ServerEvent ι α)}
    (hinit : (serverMachine ι α).init s) (hregular : (serverMachine ι α).Along (Regular ok) s es)
    (hrun : (serverMachine ι α).run s es = some t) :
    ∀ c < t.count, (t.state c = .kConnecting → t.Arriving c) ∧
      (t.state c = .kDisconnected → t.Departing c ∨
        ¬ t.InTable c ∧ (t.Leaving c ∨ (t.channel c).index_ = .kNew)) ∧
      (t.Idle → t.Present c ∨ t.Gone c) := by
  obtain ⟨hhosted, hattended⟩ := attended_of_run hinit hregular hrun
  refine fun c hc => ⟨hattended.arriving c hc, fun hdisc => ?_, fun hidle => ?_⟩
  · by_cases htable : t.InTable c
    · exact .inl (hattended.departing c hc hdisc htable)
    · refine .inr ⟨htable, ?_⟩
      by_cases hindex : (t.channel c).index_ = .kNew
      · exact .inr hindex
      · exact .inl ((hhosted.custody.owned c hc hindex).resolve_left htable)
  · exact hidle.present_or_gone hhosted hattended hc

instance [Fintype ι] (s : ServerSystem ι α) : Decidable s.Idle :=
  inferInstanceAs (Decidable (∀ _, _ ∧ _))

/-- After the close of its peer, a connection goes through all the stages. -/
def goesAway : List (ServerEvent Bool Unit) :=
  List.flatten
    [peerCloses, ServerEvent.turns false [.handlersDone, .swapFunctors, .startFunctor],
      [.task false quietTask, .task false quietTask],
      ServerEvent.turns false [.functorDone, .batchDone],
      ServerEvent.turns true [.handlersDone, .swapFunctors, .startFunctor],
      [.task true quietTask, .task true quietTask],
      ServerEvent.turns true [.functorDone, .batchDone]]

/-- All gone. -/
theorem no_connection_left_behind_goesAway :
    ∃ t : ServerSystem Bool Unit, t.Idle ∧ t.count = 1 ∧ t.Gone 0 := by
  have hend : ((serverMachine Bool Unit).run
      (start ['s'] ⟨(127, 0, 0, 1), 80⟩ (.started false [true])) goesAway).any fun t =>
        decide (t.Idle ∧ t.count = 1 ∧ ¬ t.InTable 0) := by
    decide +kernel
  obtain ⟨t, hrun, ht⟩ := (Option.any_eq_true _ _).mp hend
  obtain ⟨hidle, hcount, htable⟩ := of_decide_eq_true ht
  have hregular : (serverMachine Bool Unit).Along (Regular fun _ => True)
      (start ['s'] ⟨(127, 0, 0, 1), 80⟩ (.started false [true])) goesAway := by
    decide +kernel
  obtain ⟨-, -, hend⟩ := no_connection_left_behind (init_start ..) hregular hrun 0 (by omega)
  exact ⟨t, hidle, hcount, (hend hidle).resolve_left fun hpresent => htable hpresent.table⟩

end ServerSystem

end Mymuduo
