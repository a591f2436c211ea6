/-
Mymuduo/Announcements.lean

The user callbacks of the connections of a server.

CallbackProtocol.lean has one connection whose events come one by one.  In a server the
events of a poll are handled one after the other while other loops work, the handlers of
one event are tasks with user code in between, and the connection is established and
removed by functors.  What a step announces to the user of a connection is said once
(`Announces`): nothing, that it is up, a message, or that it is down.

Down is announced by `handleClose` or `handleRead` while the connection is open.  They
run for one event of a registered channel; so if no poll reports a descriptor twice, or
a hang-up with urgent data alone, whoever has closed the connection was the last to
run on it for an event (`Announced`), and DOWN is the last callback (`callbacks_in_order`).
-/
import Mymuduo.CallbackProtocol
import Mymuduo.Departure

namespace Mymuduo

open Transition TcpConnection

/-! ### One connection -/

/-- The callbacks that go with the state: none before UP, then UP and messages, and DOWN
at the end. -/
def TcpConnection.Phased (c : TcpConnection) : Prop :=
  match c.state_ with
  | .kConnecting => callbacks c.trace = []
  | .kConnected | .kDisconnecting => ∃ n, callbacks c.trace = .up :: List.replicate n .message
  | .kDisconnected => Complete (callbacks c.trace)

/-- What a step announces to the user. -/
inductive TcpConnection.Announces (c c' : TcpConnection) : Prop
  | nothing (hcalls : callbacks c'.trace = callbacks c.trace)
      (hstate : c'.state_ = c.state_ ∨ c.state_ = .kConnected ∧ c'.state_ = .kDisconnecting)
  | up (hstate : c.state_ = .kConnecting) (hstate' : c'.state_ = .kConnected)
      (hcalls : callbacks c'.trace = callbacks c.trace ++ [.up])
  | message (hopen : c.state_ ≠ .kConnecting ∧ c.state_ ≠ .kDisconnected)
      (hstate' : c'.state_ = c.state_) (hcalls : callbacks c'.trace = callbacks c.trace ++ [.message])
  | down (hopen : c.state_ ≠ .kConnecting ∧ c.state_ ≠ .kDisconnected)
      (hstate' : c'.state_ = .kDisconnected)
      (hcalls : callbacks c'.trace = callbacks c.trace ++ [.down])

namespace TcpConnection

variable {c c' : TcpConnection}

theorem Phased.of_open (hopen : c.state_ ≠ .kConnecting ∧ c.state_ ≠ .kDisconnected) :
    c.Phased ↔ ∃ n, callbacks c.trace = .up :: List.replicate n .message := by
  cases hs : c.state_ <;> simp_all [Phased]

/-- Each announcement leads on to the callbacks of the next state. -/
theorem Phased.step (h : c.Phased) (ha : c.Announces c') : c'.Phased := by
  cases ha with
  | nothing hcalls hstate =>
      rcases hstate with hstate | ⟨hconnected, hstate⟩
      · rw [Phased, hcalls, hstate]
        exact h
      · rw [Phased, hconnected] at h
        rw [Phased, hstate, hcalls]
        exact h
  | up hstate hstate' hcalls =>
      rw [Phased, hstate] at h
      rw [Phased, hstate', hcalls, h]
      exact ⟨0, rfl⟩
  | message hopen hstate' hcalls =>
      obtain ⟨n, hn⟩ := (Phased.of_open hopen).mp h
      refine (Phased.of_open (hstate' ▸ hopen)).mpr ⟨n + 1, ?_⟩
      rw [hcalls, hn, List.replicate_succ', List.cons_append]
  | down hopen hstate' hcalls =>
      obtain ⟨n, hn⟩ := (Phased.of_open hopen).mp h
      rw [Phased, hstate', hcalls, hn]
      exact ⟨n, rfl⟩

theorem Announces.of_sends (hs : Sends c c') (hstate : c'.state_ = c.state_) : c.Announces c' := by
  obtain ⟨es, htrace, hes⟩ := hs
  refine .nothing ?_ (.inl hstate)
  rw [htrace, callbacks_append, callbacks_of_isSending hes, List.append_nil]

end TcpConnection

/-! ### Tasks that announce -/

/-- The connection for which the task may announce a message or DOWN. -/
def Task.notifies : Task → Option Nat
  | .call .handleClose c | .call .handleRead c => some c
  | _ => none

/-- The connections for which the tasks may do so. -/
def notified (ks : List Task) : List Nat := ks.filterMap Task.notifies

/-- An event that runs `handleClose` and then `handleRead`. -/
def Clashing (revents : Mask) : Prop :=
  hasAny revents EPOLLHUP = true ∧ hasAny revents EPOLLIN = false ∧ hasAny revents EPOLLPRI = true

instance : DecidablePred Clashing := fun _ => inferInstanceAs (Decidable (_ ∧ _ ∧ _))

theorem notified_append (ks ks' : List Task) : notified (ks ++ ks') = notified ks ++ notified ks' :=
  List.filterMap_append

theorem notified_eq_nil {ks : List Task} (h : ∀ k ∈ ks, k.notifies = none) : notified ks = [] :=
  List.filterMap_eq_nil_iff.mpr h

/-- Of the handlers for an event at most one announces. -/
theorem notified_eventTasks {conn : Nat} {tied : Bool} {revents : Mask} (h : ¬ Clashing revents) :
    (notified (eventTasks conn tied revents)).length ≤ 1 := by
  have hone : ¬ ((hasAny revents EPOLLHUP ∧ !hasAny revents EPOLLIN) ∧
      hasAny revents (EPOLLIN ||| EPOLLPRI)) := by
    rintro ⟨⟨hhup, hin⟩, hread⟩
    have hin' : hasAny revents EPOLLIN = false := by simpa using hin
    rcases (hasAny_or _ _ _).mp hread with hin'' | hpri
    · rw [hin'] at hin''
      cases hin''
    · exact h ⟨hhup, hin', hpri⟩
  have hif : ∀ (p : Prop) [Decidable p] (k : Task),
      notified (if p then [k] else []) = if p then k.notifies.toList else [] := by
    intro p _ k
    cases hk : k.notifies <;> split <;> simp [notified, hk]
  simp only [eventTasks, notified_append, hif]
  simp only [Task.notifies, Option.toList_none, Option.toList_some, ite_self, List.append_nil]
  split_ifs with hhup hread
  · exact absurd ⟨hhup, hread⟩ hone
  all_goals simp

/-- Among the tasks that a step gives to a thread, only the handlers for an event announce. -/
theorem ServerFunctor.notifies_of_task {f : ServerFunctor} {k : Task} (hk : k ∈ f.tasks) :
    k.notifies = none := by
  cases f <;> simp only [tasks, List.mem_singleton, List.not_mem_nil] at hk
  all_goals subst hk; rfl

theorem notified_startedTasks {Tid : Type*} (e : LoopStep) (l : EventLoop ServerFunctor Tid) :
    notified (startedTasks e l) = [] := by
  refine notified_eq_nil fun k hk => ?_
  cases e with
  | startFunctor =>
      cases hf : l.running with
      | none => simp [startedTasks, hf] at hk
      | some f =>
          refine ServerFunctor.notifies_of_task (f := f) ?_
          simpa [startedTasks, hf] using hk
  | _ => cases hk

theorem notifies_of_eventTasks {c : Nat} {tied : Bool} {revents : Mask} {k : Task} {d : Nat}
    (hk : k ∈ eventTasks c tied revents) (hd : k.notifies = some d) : d = c := by
  rcases eventTasks_cases hk with ⟨m, hm, rfl⟩ | rfl
  · rcases hm with rfl | rfl | rfl | rfl <;> cases hd <;> rfl
  · cases hd

theorem Task.handles_of_notifies {k : Task} {c : Nat} (hk : k.notifies = some c) :
    k.handles = some c := by
  cases k with
  | call m d => cases m <;> first | exact hk | cases hk
  | _ => cases hk

namespace ServerSystem

variable {ι α : Type*} [DecidableEq ι] [DecidableEq α] {s t : ServerSystem ι α}
  {e : ServerEvent ι α} {l : ι} {c : Nat}

omit [DecidableEq ι] [DecidableEq α] in
/-- A task that announces is new only when its event is dispatched. -/
theorem NewTask.event_of_notifies {k : Task} (h : s.NewTask e l k) (hc : k.notifies = some c) :
    ∃ revents rest, e = .dispatch l ∧ s.active l = (c, revents) :: rest ∧ s.todo l = [] ∧
      k ∈ eventTasks c (s.conn c).tcp.channel_.tied_ revents := by
  cases h with
  | started _ _ f _ hf _ _ hmem =>
      rw [ServerFunctor.notifies_of_task hmem] at hc
      cases hc
  | event _ d revents rest _ hactive htodo hmem =>
      obtain rfl := notifies_of_eventTasks hmem hc
      exact ⟨revents, rest, rfl, hactive, htodo, hmem⟩
  | next _ env m d rest _ htodo hmem =>
      rcases Member.next_cases hmem with ⟨-, rfl⟩ | ⟨-, rfl⟩ | ⟨-, rfl⟩ <;> cases hc
  | erased _ env d rest htodo => cases hc
  | tested _ env d rest htodo => split at hc <;> cases hc
  | closed _ env d rest _ htodo hkind => rcases hkind with rfl | rfl <;> cases hc
  | accepted sockfd wc hw mark _ hkind => rcases hkind with rfl | rfl <;> cases hc
  | destructor => cases hc
  | torn d _ hhead hkind => rcases hkind with rfl | rfl <;> cases hc

/-- What becomes of the active channels of a loop: one is taken off, or a poll finds new
ones. -/
theorem active_changes (hm : s.Moves e t) (l : ι) : t.active l = s.active l ∨
    (∃ p, e = .dispatch l ∧ s.active l = p :: t.active l) ∨
    ∃ b ready, e = .loop l (.poll b) ready ∧ s.todo l = [] ∧
      t.active l = s.activeAfter l (.poll b) ready := by
  cases hm with
  | loop l' le ready x hidle htodo hactive hx =>
      show Function.update s.active l' _ l = _ ∨ _
      by_cases hl : l = l'
      · subst hl
        cases le with
        | poll b => exact .inr (.inr ⟨b, ready, rfl, htodo, Function.update_self ..⟩)
        | _ => exact .inl (Function.update_self ..)
      · exact .inl (Function.update_of_ne hl ..)
  | dispatch l' c revents rest hidle htodo hactive =>
      show Function.update s.active l' rest l = _ ∨ _
      by_cases hl : l = l'
      · subst hl
        refine .inr (.inl ⟨(c, revents), rfl, ?_⟩)
        show s.active l = (c, revents) :: Function.update s.active l rest l
        rw [Function.update_self, hactive]
      · exact .inl (Function.update_of_ne hl ..)
  | task l' env k rest hidle htodo hk =>
      cases k with
      | closeCallback c => exact .inl (by rw [runTask, runInLoop_active]; rfl)
      | _ => exact .inl rfl
  | accept sockfd wc hw mark hphase htodo => exact .inl (by rw [accept, runInLoop_active]; rfl)
  | destroyEntry c hidle hhead hcount htable => exact .inl (by rw [runInLoop_active])
  | _ => exact .inl rfl

/-! ### What a step announces -/

variable {ok : WriteResult → Prop}

omit [DecidableEq ι] [DecidableEq α] in
/-- A connection whose events are handled has been established. -/
theorem Custody.not_connecting (h : s.Custody) {k : Task} (hk : k ∈ s.todo l)
    (hc : k.notifies = some c) : s.state c ≠ .kConnecting := by
  obtain ⟨hhome, hindex⟩ := h.handled l k hk c (Task.handles_of_notifies hc)
  exact fun hconn => hindex (h.fresh c hhome.1 hconn)

/-- What a step announces to the user of a connection, if no handler finds it closed. -/
theorem Hosted.announces (h : s.Hosted ok)
    (hopen : ∀ l, ∀ k ∈ s.todo l, k.notifies = some c → s.state c ≠ .kDisconnected)
    (hm : s.Moves e t) (hc : c < s.count) : (s.tcp c).Announces (t.tcp c) := by
  have htouches : s.Touches c e (t.tcp c) := touches_of_moves hm hc
  generalize t.tcp c = x at htouches
  have hgrows : ∀ {x : TcpConnection} es, x.trace = (s.tcp c).trace ++ es →
      callbacks x.trace = callbacks (s.tcp c).trace ++ callbacks es := by
    intro x es htrace
    rw [htrace, callbacks_append]
  cases htouches with
  | aside _ p hnot => exact .nothing rfl (.inl rfl)
  | event l revents rest hactive => exact .nothing rfl (.inl rfl)
  | sent th w data hcall =>
      exact .of_sends (sends_sendInLoop _ data w) (sameState_sendInLoop (s.tcp c) data w).state
  | stored th w hcall => exact .nothing rfl (.inr ⟨(h.custody.called_of_shutdown hcall).2, rfl⟩)
  | shut th w hcall =>
      exact .of_sends (sends_shutdownInLoop _) (sameState_shutdownInLoop (s.tcp c)).state
  | retrieved l len hguard => exact .nothing rfl (.inl rfl)
  | member l env m rest htodo =>
      have hk : .call m c ∈ s.todo l := by simp [htodo]
      have halive : (Task.call m c).notifies = some c →
          (s.tcp c).state_ ≠ .kConnecting ∧ (s.tcp c).state_ ≠ .kDisconnected := fun hn =>
        ⟨h.custody.not_connecting hk hn, hopen l _ hk hn⟩
      cases m with
      | connectEstablished =>
          exact .up (h.custody.establishing_of_task hk) rfl
            (hgrows [.connectionCallback true] rfl)
      | markDestroyed => exact absurd hk (h.unmarked l c)
      | removeChannel =>
          exact .nothing ((hgrows [.connectDestroyed] rfl).trans (List.append_nil _)) (.inl rfl)
      | sendInLoop len => cases (h.custody.raw l).2 _ hk
      | shutdownInLoop =>
          exact .of_sends (sends_shutdownInLoop _) (sameState_shutdownInLoop (s.tcp c)).state
      | handleClose =>
          exact .down (halive rfl) rfl (hgrows _ (handleClose_withoutUser (s.tcp c) env.toEnv))
      | handleError =>
          exact .nothing ((hgrows [.handleError 0] rfl).trans (List.append_nil _)) (.inl rfl)
      | handleRead =>
          show (s.tcp c).Announces ((s.tcp c).handleRead env.toEnv.withoutUser)
          rcases (s.tcp c).handleRead_withoutUser env.toEnv with ⟨-, heq⟩ | ⟨-, heq⟩ | ⟨-, heq⟩
          · rw [heq]
            exact .message (halive rfl) rfl (hgrows [.messageCallback _] rfl)
          · rw [heq]
            exact .down (halive rfl) rfl
              (hgrows _ (handleClose_withoutUser ((s.tcp c).filled env.toEnv) env.toEnv))
          · rw [heq]
            exact .nothing ((hgrows _ (readError_trace ((s.tcp c).filled env.toEnv) _)).trans
              (List.append_nil _)) (.inl rfl)
      | handleWrite =>
          exact .of_sends (sends_writeOut _ env.write) (sameState_writeOut (s.tcp c) env.write).state
      | finishWrite =>
          exact .of_sends (sends_finishWrite _) (sameState_finishWrite (s.tcp c)).state

/-! ### Closed channels -/

omit [DecidableEq ι] [DecidableEq α] in
theorem Hosted.established (h : s.Hosted ok) (hc : c < s.count)
    (hopen : s.state c ≠ .kConnecting ∧ s.state c ≠ .kDisconnected) : Established (s.tcp c) := by
  have halive : s.state c = .kConnected ∨ s.state c = .kDisconnecting := by
    cases hs : s.state c <;> simp_all
  obtain ⟨c₀, hfresh, hmoves⟩ := h.moved hc halive
  exact hfresh.established.moves hmoves

/-- What a connection that is or becomes closed leaves of its channel. -/
theorem Hosted.off_step (h : s.Hosted ok) (hm : s.Moves e t) (hc : c < s.count)
    (hoff : s.state c = .kDisconnected → (s.channel c).index_ ≠ .kAdded)
    (hopen : ∀ l, ∀ k ∈ s.todo l, k.notifies = some c → s.state c ≠ .kDisconnected)
    (ht : t.state c = .kDisconnected) : (t.channel c).index_ ≠ .kAdded := by
  have htouches : s.Touches c e (t.tcp c) := touches_of_moves hm hc
  change (t.tcp c).channel_.index_ ≠ .kAdded
  change (t.tcp c).state_ = .kDisconnected at ht
  generalize t.tcp c = x at htouches ht
  cases htouches with
  | aside _ p hnot => exact hoff ht
  | event l revents rest hactive => exact hoff ht
  | sent th w data hcall =>
      have hs := (h.custody.called_of_send hcall).2
      have hsame := (sameState_sendInLoop (s.tcp c) data w).state
      cases (hsame.trans hs).symm.trans ht
  | stored th w hcall => cases ht
  | shut th w hcall =>
      have hsame := (sameState_shutdownInLoop (s.tcp c)).state
      rw [(s.tcp c).shutdownInLoop_channel.1]
      exact hoff (hsame.symm.trans ht)
  | retrieved l len hguard => exact hoff ht
  | member l env m rest htodo =>
      have hk : .call m c ∈ s.todo l := by simp [htodo]
      have hest : (Task.call m c).notifies = some c → Established (s.tcp c) := fun hn =>
        h.established hc ⟨h.custody.not_connecting hk hn, hopen l _ hk hn⟩
      cases m with
      | connectEstablished => cases ht
      | markDestroyed => exact absurd hk (h.unmarked l c)
      | removeChannel =>
          have hnew : (Member.removeChannel.run env (s.tcp c)).channel_.index_ = .kNew := rfl
          rw [hnew]
          decide
      | sendInLoop len => cases (h.custody.raw l).2 _ hk
      | shutdownInLoop =>
          have hsame := (sameState_shutdownInLoop (s.tcp c)).state
          show (s.tcp c).shutdownInLoop.channel_.index_ ≠ _
          rw [(s.tcp c).shutdownInLoop_channel.1]
          exact hoff (hsame.symm.trans ht)
      | handleClose => exact ((hest rfl).handleClose _).unregistered.index
      | handleError => exact hoff ht
      | handleRead =>
          change ((s.tcp c).handleRead env.toEnv.withoutUser).state_ = _ at ht
          show ((s.tcp c).handleRead env.toEnv.withoutUser).channel_.index_ ≠ _
          rcases (s.tcp c).handleRead_withoutUser env.toEnv with ⟨-, heq⟩ | ⟨-, heq⟩ | ⟨-, heq⟩
          · rw [heq] at ht
            exact absurd ht (hopen l _ hk rfl)
          · have hinput : TcpConnection.Move ok (s.tcp c) ((s.tcp c).filled env.toEnv) :=
              .input _ _
            have hfilled : Established ((s.tcp c).filled env.toEnv) := (hest rfl).move hinput
            rw [heq]
            exact (hfilled.handleClose _).unregistered.index
          · rw [heq] at ht
            exact absurd ht (hopen l _ hk rfl)
      | handleWrite =>
          have hs : s.state c = .kDisconnected :=
            (sameState_writeOut (s.tcp c) env.write).state.symm.trans ht
          have hsilent : (s.tcp c).channel_.isWriting = false := h.silent c hc hs
          show ((s.tcp c).writeOut env.write).1.channel_.index_ ≠ _
          rw [writeOut, hsilent, if_neg Bool.false_ne_true]
          exact hoff hs
      | finishWrite =>
          have hs : s.state c = .kDisconnected :=
            (sameState_finishWrite (s.tcp c)).state.symm.trans ht
          have hsame : (s.tcp c).finishWrite = s.tcp c := by
            rw [finishWrite, if_neg (by show ¬ s.state c = _; rw [hs]; decide)]
          show (s.tcp c).finishWrite.channel_.index_ ≠ _
          rw [hsame]
          exact hoff hs

/-- `epoll_wait` reports a descriptor once, and no hang-up with urgent data alone. -/
def Plain : ServerEvent ι α → Prop
  | .loop _ _ ready => (ready.map Prod.fst).Nodup ∧ ∀ r ∈ ready, ¬ Clashing r.2
  | _ => True

/-- Who closes a connection is the last to run for one of its events. -/
structure Announced (s : ServerSystem ι α) : Prop where
  phased : ∀ c < s.count, (s.tcp c).Phased
  off : ∀ c < s.count, s.state c = .kDisconnected → (s.channel c).index_ ≠ .kAdded
  active : ∀ l, ∀ p ∈ s.active l, ¬ Clashing p.2 ∧ s.state p.1 ≠ .kDisconnected
  distinct : ∀ l, ((s.active l).map Prod.fst).Nodup
  one : ∀ l, (notified (s.todo l)).length ≤ 1
  handled : ∀ l, ∀ k ∈ s.todo l, ∀ c, k.notifies = some c →
    s.state c ≠ .kDisconnected ∧ c ∉ (s.active l).map Prod.fst

theorem announced_of_init (hinit : (serverMachine ι α).init s) : s.Announced := by
  obtain ⟨-, -, hcount, -, -, hactive, htodo, -⟩ := hinit
  constructor <;> simp [hcount, hactive, htodo, notified]

/-- When its task has run, nothing else runs for an event of the connection. -/
theorem Announced.spent (h : s.Announced) {env : TaskEnv} {k : Task} {rest : List Task}
    (hm : s.Moves (.task l env) t) (htodo : s.todo l = k :: rest) (hc : k.notifies = some c) :
    ∀ k' ∈ t.todo l, k'.notifies = none := by
  have hrest : ∀ k' ∈ rest, k'.notifies = none := by
    have hone := h.one l
    rw [htodo, notified, List.filterMap_cons_some hc, List.length_cons] at hone
    exact List.filterMap_eq_nil_iff.mp (List.eq_nil_of_length_eq_zero (by omega))
  intro k' hk'
  cases k with
  | call m d =>
      cases runs_of_moves hm htodo
      have hset : ((s.setTodo l rest).runTask l env (.call m d)).todo l
          = m.next env d ((s.setTodo l rest).tcp d) ++ (s.setTodo l rest).todo l :=
        Function.update_self ..
      have htail : (s.setTodo l rest).todo l = rest := Function.update_self ..
      rw [hset, htail] at hk'
      rcases List.mem_append.mp hk' with hnext | hold
      · rcases Member.next_cases hnext with ⟨-, rfl⟩ | ⟨-, rfl⟩ | ⟨-, rfl⟩ <;> rfl
      · exact hrest k' hold
  | _ => cases hc

/-- A connection is closed by a handler of one of its events. -/
theorem Hosted.closer (h : s.Hosted ok) (hm : s.Moves e t) (hc : c < s.count)
    (hbefore : s.state c ≠ .kDisconnected) (hafter : t.state c = .kDisconnected) :
    ∃ env k rest, e = .task (s.conn c).home env ∧ s.todo (s.conn c).home = k :: rest ∧
      k.notifies = some c := by
  obtain ⟨l, env, m, rest, rfl, htodo, hkind⟩ := h.closes hm hc hbefore hafter
  have hn : (Task.call m c).notifies = some c := by rcases hkind with rfl | rfl <;> rfl
  have hhome : (s.conn c).home = l :=
    (h.custody.handled l _ (by simp [htodo]) c (Task.handles_of_notifies hn)).1.2
  rw [hhome]
  exact ⟨env, _, rest, rfl, htodo, hn⟩

section Step

variable (h : s.Announced) (hs : s.Hosted ok) (hm : s.Moves e t)
include h hs hm

theorem Announced.phased_step (hc : c < t.count) : (t.tcp c).Phased := by
  rcases count_of_moves hm hc with hlt | ⟨rfl, sockfd, wc, hw, mark, -, rfl⟩
  · exact (h.phased c hlt).step (hs.announces (fun l k hk hn => (h.handled l k hk c hn).1) hm hlt)
  · obtain ⟨p, htcp⟩ := accept_tcp s sockfd wc hw mark
    rw [tcp, htcp]
    rfl

theorem Announced.off_stays (hc : c < t.count) (ht : t.state c = .kDisconnected) :
    (t.channel c).index_ ≠ .kAdded := by
  rcases count_of_moves hm hc with hlt | ⟨rfl, sockfd, wc, hw, mark, -, rfl⟩
  · exact hs.off_step hm hlt (h.off c hlt) (fun l k hk hn => (h.handled l k hk c hn).1) ht
  · obtain ⟨p, htcp⟩ := accept_tcp s sockfd wc hw mark
    rw [state, htcp] at ht
    cases ht

theorem Announced.active_stays {p : ChannelPtr × Mask} (hp : p ∈ s.active l) :
    t.state p.1 ≠ .kDisconnected := by
  intro ht
  have hhome := hs.custody.steady.homed.active l p hp
  obtain ⟨env, k, rest, -, htodo, hn⟩ := hs.closer hm hhome.1 (h.active l p hp).2 ht
  rw [hhome.2] at htodo
  exact (h.handled l k (by simp [htodo]) p.1 hn).2 (List.mem_map_of_mem hp)

omit hs in
theorem Announced.one_step (hhomed : s.Homed) (l : ι) : (notified (t.todo l)).length ≤ 1 := by
  -- what the step adds is no handler, unless it dispatches an event
  have hquiet : ∀ new : List Task, (∀ k ∈ new, s.NewTask e l k) → e ≠ .dispatch l →
      notified new = [] := by
    refine fun new hnew hne => notified_eq_nil fun k hk => ?_
    by_contra hn
    obtain ⟨c, hc⟩ := Option.ne_none_iff_exists'.mp hn
    obtain ⟨_, _, he, -⟩ := (hnew k hk).event_of_notifies hc
    exact hne he
  by_cases hd : e = .dispatch l
  · subst hd
    cases hm with
    | dispatch _ c revents rest hidle htodo hactive =>
        show (notified (Function.update s.todo l _ l)).length ≤ 1
        rw [Function.update_self]
        exact notified_eventTasks (h.active l (c, revents) (by simp [hactive])).1
  · cases shifts_of_moves hhomed hm l with
    | loop le ready he htodo hactive hx hks =>
        rw [hks, notified_startedTasks]
        exact Nat.zero_le _
    | other he hx hks =>
        cases hks with
        | keep new hnew hks =>
            rw [hks, notified_append, hquiet new hnew hd, List.nil_append]
            exact h.one l
        | run env k rest new he' htodo hnew hks =>
            have hone := h.one l
            rw [htodo, ← List.singleton_append, notified_append, List.length_append] at hone
            rw [hks, notified_append, hquiet new hnew hd, List.nil_append]
            omega
        | destroyed he' htodo =>
            have hone := h.one l
            rw [htodo] at hone
            exact hone

theorem Announced.handled_step (l : ι) (k : Task) (hk : k ∈ t.todo l) (c : Nat)
    (hn : k.notifies = some c) : t.state c ≠ .kDisconnected ∧ c ∉ (t.active l).map Prod.fst := by
  rcases task_of_moves hs.custody.steady.homed hm hk with hold | hnew
  · obtain ⟨halive, hnot⟩ := h.handled l k hold c hn
    have hhome := (hs.custody.handled l k hold c (Task.handles_of_notifies hn)).1
    constructor
    · intro ht
      obtain ⟨env, k', rest, rfl, htodo, hn'⟩ := hs.closer hm hhome.1 halive ht
      rw [hhome.2] at hm htodo
      rw [h.spent hm htodo hn' k hk] at hn
      cases hn
    · rcases active_changes hm l with heq | ⟨p, rfl, hcons⟩ | ⟨b, ready, rfl, htodo, -⟩
      · rwa [heq]
      · rw [hcons] at hnot
        exact fun hmem => hnot (List.mem_cons_of_mem _ hmem)
      · rw [htodo] at hold
        cases hold
  · obtain ⟨revents, rest, rfl, hactive, -, -⟩ := hnew.event_of_notifies hn
    refine ⟨h.active_stays hs hm (l := l) (p := (c, revents)) (by simp [hactive]), ?_⟩
    have hdistinct := h.distinct l
    rw [hactive, List.map_cons, List.nodup_cons] at hdistinct
    cases hm with
    | dispatch _ c' revents' rest' hidle htodo hactive' =>
        rw [hactive] at hactive'
        cases hactive'
        show c ∉ (Function.update s.active l rest l).map Prod.fst
        rw [Function.update_self]
        exact hdistinct.1

end Step

omit [DecidableEq ι] [DecidableEq α] in
/-- The channels that a poll finds are those of open connections, each once. -/
theorem Announced.poll (h : s.Announced) (hs : s.Custody) {b : Bool} {ready : List (Int × Mask)}
    (hready : (ready.map Prod.fst).Nodup) :
    ((s.activeAfter l (.poll b) ready).map Prod.fst).Nodup ∧
      ∀ p ∈ s.activeAfter l (.poll b) ready,
        s.state p.1 ≠ .kDisconnected ∧ ∃ r ∈ ready, r.2 = p.2 := by
  have hafter : s.activeAfter l (.poll b) ready = ready.filterMap fun r =>
      ((s.poller l).epollSet r.1).map fun p => (p.2, r.2) := if_pos rfl
  rw [hafter]
  constructor
  · let found := fun fd => ((s.poller l).epollSet fd).map Prod.snd
    have hfound : (ready.filterMap fun r => ((s.poller l).epollSet r.1).map fun p =>
        (p.2, r.2)).map Prod.fst = (ready.map Prod.fst).filterMap found := by
      rw [List.map_filterMap, List.filterMap_map]
      refine List.filterMap_congr fun r _ => ?_
      rw [Option.map_map]
      rfl
    have hfd : ∀ fd c, found fd = some c → (s.channel c).fd_ = fd := by
      intro fd c hc
      obtain ⟨⟨m, c'⟩, hentry, rfl⟩ := Option.map_eq_some_iff.mp hc
      exact (hs.entries l fd c' (.inr ⟨m, hentry⟩)).2.1
    rw [hfound]
    refine List.Nodup.filterMap (fun fd fd' c hc hc' => ?_) hready
    rw [← hfd fd c hc, ← hfd fd' c hc']
  · intro p hp
    obtain ⟨r, hr, hfound⟩ := List.mem_filterMap.mp hp
    obtain ⟨⟨m, c⟩, hentry, rfl⟩ := Option.map_eq_some_iff.mp hfound
    refine ⟨fun hdisc => ?_, r, hr, rfl⟩
    -- the kernel does not watch the channel of a closed connection
    obtain ⟨hhome, hfd, hindex⟩ := hs.entries l r.1 c (.inr ⟨m, hentry⟩)
    have hkernel := (hs.mirrored c hhome.1 (hs.owned_of_index hhome.1 hindex)).kernel
    rw [hfd, hhome.2, Channel.watchEntry, if_neg (h.off c hhome.1 hdisc), hentry] at hkernel
    cases hkernel

theorem Announced.step (h : s.Announced) (hs : s.Hosted ok) (hm : s.Moves e t)
    (he : Plain e) : t.Announced where
  phased _ := h.phased_step hs hm
  off _ := h.off_stays hs hm
  one := h.one_step hm hs.custody.steady.homed
  handled := h.handled_step hs hm
  active l p hp := by
    rcases active_changes hm l with heq | ⟨q, -, hcons⟩ | ⟨b, ready, rfl, -, hnew⟩
    · rw [heq] at hp
      exact ⟨(h.active l p hp).1, h.active_stays hs hm hp⟩
    · have hold : p ∈ s.active l := by
        rw [hcons]
        exact List.mem_cons_of_mem q hp
      exact ⟨(h.active l p hold).1, h.active_stays hs hm hold⟩
    · rw [hnew] at hp
      obtain ⟨hopen, r, hr, hmask⟩ := (h.poll hs.custody he.1).2 p hp
      refine ⟨hmask ▸ he.2 r hr, fun ht => ?_⟩
      have hhome := hs.custody.steady.homed.activeAfter l (.poll b) ready p hp
      obtain ⟨_, _, _, htask, -⟩ := hs.closer hm hhome.1 hopen ht
      cases htask
  distinct l := by
    rcases active_changes hm l with heq | ⟨q, -, hcons⟩ | ⟨b, ready, rfl, -, hnew⟩
    · rw [heq]
      exact h.distinct l
    · have hdistinct := h.distinct l
      rw [hcons, List.map_cons, List.nodup_cons] at hdistinct
      exact hdistinct.2
    · rw [hnew]
      exact (h.poll hs.custody he.1).1

/-- **The callbacks of every connection come in order.**  In every regular run in which
no poll reports a descriptor twice or a hang-up with urgent data alone, the user of a
connection gets nothing before UP, messages while the connection is open, and DOWN when
it is closed; and nothing after that. -/
theorem callbacks_in_order {es : List (ServerEvent ι α)} (hinit : (serverMachine ι α).init s)
    (hregular : (serverMachine ι α).Along (fun s e => s.Regular ok e ∧ Plain e) s es)
    (hrun : (serverMachine ι α).run s es = some t) : ∀ c < t.count, (t.tcp c).Phased := by
  have h : t.Hosted ok ∧ t.Announced := by
    refine Machine.run_invariant (I := fun s => Hosted ok s ∧ s.Announced)
      (fun s e t hs he ht => ?_) hregular hrun ⟨hosted_of_init hinit, announced_of_init hinit⟩
    obtain ⟨⟨hservice, hhome, hfree, hanswered⟩, hplain⟩ := he
    have hm := moves_of_next ht
    exact ⟨hs.1.step hm hservice hhome hfree hanswered, hs.2.step hs.1 hm hplain⟩
  exact h.2.phased

instance : (e : ServerEvent ι α) → Decidable (Plain e)
  | .loop _ _ ready =>
      inferInstanceAs (Decidable ((ready.map Prod.fst).Nodup ∧ ∀ r ∈ ready, ¬ Clashing r.2))
  | .dispatch _ | .task _ _ | .accept _ _ _ _ | .send _ _ _ | .shutdown _ _ | .proceed _ _
  | .copy _ _ _ | .release _ _ | .retrieve _ _ _ | .call _ _ _ | .destroy | .destroyEntry _
  | .destroyed => isTrue trivial

/-- The connection whose peer closes announces twice. -/
theorem callbacks_in_order_goesAway :
    ∃ t : ServerSystem Bool Unit, (t.tcp 0).Phased ∧ (t.tcp 0).state_ = .kDisconnected ∧
      callbacks (t.tcp 0).trace = [.up, .down] := by
  have hend : ((serverMachine Bool Unit).run
      (start ['s'] ⟨(127, 0, 0, 1), 80⟩ (.started false [true])) goesAway).any fun t =>
        decide (t.count = 1 ∧ (t.tcp 0).state_ = .kDisconnected ∧
          callbacks (t.tcp 0).trace = [.up, .down]) := by
    decide +kernel
  obtain ⟨t, hrun, ht⟩ := (Option.any_eq_true _ _).mp hend
  obtain ⟨hcount, hstate, hcalls⟩ := of_decide_eq_true ht
  have hregular : (serverMachine Bool Unit).Along
      (fun s e => s.Regular (fun _ => True) e ∧ Plain e)
      (start ['s'] ⟨(127, 0, 0, 1), 80⟩ (.started false [true])) goesAway := by
    decide +kernel
  exact ⟨t, callbacks_in_order (init_start ..) hregular hrun 0 (by omega), hstate, hcalls⟩

end ServerSystem

end Mymuduo
