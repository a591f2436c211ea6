/-
Mymuduo/Teardown.lean

The destructor of the server, and what reaches the server after it.

`setCloseCallback` binds the address of the server.  The thread of a sub-loop that
runs `handleClose` leaves a `removeConnectionInLoop` with that address in the queue
of the base loop, and neither the body of `~TcpServer` nor the join of the pool
looks at this queue.  The base loop goes on after the destructor and runs the
functor.

What the destructor would have to find is `Quiet`: a base loop with nothing in its
queue and on its stack that leads to a notification, and no connection of the base
loop itself that may still be closed.  If it does, nothing ever reaches the server
again (`no_late_notice`).  For connections of sub-loops the join takes care of the
rest, since only their own threads close them.
-/
import Mymuduo.Confinement
import Mymuduo.Footprint

namespace Mymuduo

open Transition

/-! ### What leads to no notification -/

/-- The member function neither closes the connection nor registers its channel. -/
def Member.isMute : Member → Bool
  | .removeChannel | .shutdownInLoop | .handleError | .finishWrite => true
  | _ => false

/-- The task neither is nor leads to a part of a close notification that uses the
server. -/
def Task.isMute : Task → Bool
  | .call m _ => m.isMute
  | .queueDestroyed _ | .testDestroyed _ | .guard _ | .scope _ => true
  | .erase _ | .closeCallback _ | .destructor => false

/-- The functor does not lead to one either. -/
def ServerFunctor.isMute : ServerFunctor → Bool
  | .removeConnectionInLoop _ | .connectEstablished _ | .sendInLoop _ _ => false
  | _ => true

theorem ServerFunctor.isMute_tasks {f : ServerFunctor} (hf : f.isMute = true) {k : Task}
    (hk : k ∈ f.tasks) : k.isMute = true := by
  cases f with
  | connectDestroyed c => obtain rfl := List.mem_singleton.mp hk; rfl
  | shutdownInLoop c => obtain rfl := List.mem_singleton.mp hk; rfl
  | callback c cb => cases hk
  | other => cases hk
  | _ => cases hf

theorem Member.isMute_next {m : Member} (hm : m.isMute = true) {env : TaskEnv} {c : Nat}
    {k : TcpConnection} {k' : Task} : k' ∉ m.next env c k := by
  intro hk
  rcases Member.next_cases hk with ⟨rfl, -⟩ | ⟨rfl | rfl, -⟩ | ⟨rfl, -⟩ <;> cases hm

theorem EPollPoller.removeChannel_unwatched {p : EPollPoller} (c : Channel)
    (h : ∀ fd, p.epollSet fd = none) (fd : Int) : (p.removeChannel c).1.epollSet fd = none := by
  unfold removeChannel
  dsimp only
  split
  · -- the DEL fails
    simp [update, epoll_ctl, h]
  · exact h fd

/-- A mute member function leaves an empty interest list empty. -/
theorem Member.isMute_unwatched {m : Member} (hm : m.isMute = true) (env : TaskEnv)
    {c : TcpConnection} (h : ∀ fd, c.poller_.epollSet fd = none) (fd : Int) :
    (m.run env c).poller_.epollSet fd = none := by
  cases m with
  | removeChannel => exact EPollPoller.removeChannel_unwatched c.channel_ h fd
  | shutdownInLoop =>
      show c.shutdownInLoop.poller_.epollSet fd = none
      rw [c.shutdownInLoop_channel.2]
      exact h fd
  | handleError => exact h fd
  | finishWrite =>
      show c.finishWrite.poller_.epollSet fd = none
      unfold TcpConnection.finishWrite
      split
      · rw [c.shutdownInLoop_channel.2]
        exact h fd
      · exact h fd
  | _ => cases hm

namespace ServerSystem

variable {ι α : Type*} [DecidableEq ι] [DecidableEq α]

/-! ### The machine -/

/-- The destructor has joined the thread. -/
def joined (s : ServerSystem ι α) : Thread ι α → Bool
  | .loop l => decide (s.phase = .destroyed ∧ l ∈ s.server.threadPool_.loops_)
  | .app _ => false

/-- Connection `c` of the base loop cannot be closed any more: nobody reports its
events, and nobody sends through it, which might register its channel. -/
structure Finished (s : ServerSystem ι α) (c : Nat) : Prop where
  state : s.state c ≠ .kConnected
  unwatched : ∀ fd m, (s.poller s.base).epollSet fd ≠ some (m, c)
  inactive : ∀ m, (c, m) ∉ s.active s.base
  unsent : ∀ th data, s.calling th ≠ .sendFound c data

/-- Nothing on the base loop leads to a notification.  `ks` is what its thread has
still to do. -/
structure Quiet (s : ServerSystem ι α) (ks : List Task) : Prop where
  functors : ∀ f ∈ (s.loops s.base).waiting, f.isMute = true
  tasks : ∀ k ∈ ks, k.isMute = true
  finished : ∀ c < s.count, (s.conn c).home = s.base → s.Finished c

/-- The destructor finds the base loop quiet when it is at its end. -/
def EndsQuiet (s : ServerSystem ι α) : ServerEvent ι α → Prop
  | .destroyed => s.Quiet (s.todo s.base).tail
  | _ => True

/-- No step runs `removeConnection` or `removeConnectionInLoop` for a server whose
destructor has finished. -/
def NoLateNotice (s : ServerSystem ι α) (e : ServerEvent ι α) (_ : ServerSystem ι α) : Prop :=
  s.phase = .destroyed → ∀ l env, e = .task l env → ∀ c,
    (s.todo l).head? ≠ some (.closeCallback c) ∧ (s.todo l).head? ≠ some (.erase c)

end ServerSystem

/-- The runs of a server to the end of its destructor and beyond: the threads of the
pool are gone then, the base loop goes on. -/
def teardownMachine (ι α : Type*) [DecidableEq ι] [DecidableEq α] :
    Machine (ServerSystem ι α) (ServerEvent ι α) where
  init := (serverMachine ι α).init
  next s e := if s.joined (e.thread s.base) = true then none else s.next e

namespace ServerSystem

variable {ι α : Type*} [DecidableEq ι] [DecidableEq α]
variable {s t : ServerSystem ι α} {e : ServerEvent ι α}

/-! ### Where connections are closed -/

/-- No step changes the loops of the pool. -/
theorem pool_of_moves (hm : s.Moves e t) :
    t.server.threadPool_.loops_ = s.server.threadPool_.loops_ := by
  cases hm with
  | task l env k rest hidle htodo hk =>
      cases k with
      | closeCallback c =>
          show (runInLoop _ _ _ _).server.threadPool_.loops_ = _
          rw [runInLoop_server]
          rfl
      | _ => rfl
  | accept sockfd wc hw mark hphase htodo =>
      rw [accept, runInLoop_server]
      exact s.server.threadPool_.getNextLoop_loops
  | destroyEntry c hidle hhead hcount htable =>
      rw [runInLoop_server]
      rfl
  | _ => rfl

/-- A new connection goes to the base loop or to one of the pool. -/
theorem accept_home (s : ServerSystem ι α) (sockfd : Int) (wc hw : Bool) (mark : Nat) :
    ((s.accept sockfd wc hw mark).conn s.count).home = s.base ∨
      ((s.accept sockfd wc hw mark).conn s.count).home ∈ s.server.threadPool_.loops_ := by
  have hhome : ((s.accept sockfd wc hw mark).conn s.count).home
      = s.server.threadPool_.getNextLoop.1 := by
    rw [accept, runInLoop_conn]
    show (Function.update s.conn s.count _ s.count).home = _
    rw [Function.update_self]
    rfl
  rw [hhome]
  exact s.server.threadPool_.getNextLoop_mem

/-- The phase changes only at the start and at the end of the destructor. -/
theorem phase_of_moves (hm : s.Moves e t) :
    t.phase = s.phase ∨ (e = .destroy ∧ t.phase = .tearing) ∨ e = .destroyed := by
  cases hm with
  | task l env k rest hidle htodo hk =>
      cases k with
      | closeCallback c =>
          left
          show (runInLoop _ _ _ _).phase = _
          unfold runInLoop
          split <;> rfl
      | _ => exact .inl rfl
  | accept sockfd wc hw mark hphase htodo =>
      left
      unfold accept runInLoop
      dsimp only
      split <;> rfl
  | destroyEntry c hidle hhead hcount htable =>
      left
      unfold runInLoop
      split <;> rfl
  | destroy hphase => exact .inr (.inl ⟨rfl, rfl⟩)
  | destroyed hhead => exact .inr (.inr rfl)
  | _ => exact .inl rfl

/-- Everything is where it belongs, a connection is closed by the thread of its own
loop, and after the destructor the base loop stays quiet. -/
structure Orderly (s : ServerSystem ι α) : Prop where
  homed : s.Homed
  pooled : ∀ c < s.count,
    (s.conn c).home = s.base ∨ (s.conn c).home ∈ s.server.threadPool_.loops_
  closing : ∀ l c, .closeCallback c ∈ s.todo l → s.ConnHome l c
  quiet : s.phase = .destroyed → s.Quiet (s.todo s.base)

theorem orderly_of_init (h : (teardownMachine ι α).init s) : s.Orderly := by
  obtain ⟨-, hphase, hcount, -, -, -, htodo, -⟩ := id h
  refine ⟨homed_of_init h, ?_, ?_, ?_⟩
  · simp [hcount]
  · simp [htodo]
  · simp [hphase]

theorem pooled_step (h : s.Orderly) (hm : s.Moves e t) {c : Nat} (hc : c < t.count) :
    (t.conn c).home = t.base ∨ (t.conn c).home ∈ t.server.threadPool_.loops_ := by
  have hset := settled_of_moves hm
  rw [pool_of_moves hm, hset.base]
  rcases count_of_moves hm hc with hlt | ⟨rfl, sockfd, wc, hw, mark, -, rfl⟩
  · rw [hset.home c hlt]
    exact h.pooled c hlt
  · exact s.accept_home sockfd wc hw mark

theorem closing_step (h : s.Orderly) (hm : s.Moves e t) {l : ι} {c : Nat}
    (hc : .closeCallback c ∈ t.todo l) : t.ConnHome l c := by
  refine ConnHome.settled (settled_of_moves hm) ?_
  rcases task_of_moves h.homed hm hc with hold | hnew
  · exact h.closing l c hold
  · cases hnew with
    | started _ ready f _ hf htodo hactive hk => cases f <;> simp [ServerFunctor.tasks] at hk
    | event _ d revents rest _ hactive htodo hk =>
        rcases eventTasks_cases hk with ⟨m, -, hk⟩ | hk <;> cases hk
    | next _ env m d rest _ htodo hk =>
        -- `closeCallback_` is called at the end of `handleClose`
        have htask : s.TaskHome l (.call m d) := h.homed.task l _ (by simp [htodo])
        rcases Member.next_cases hk with ⟨-, hk⟩ | ⟨-, hk⟩ | ⟨-, hk⟩
        · cases hk
        · obtain rfl := Task.closeCallback.inj hk
          exact htask
        · cases hk
    | closed _ env d rest _ htodo hk => simp at hk
    | accepted _ _ _ _ _ hk => simp at hk
    | torn d _ hhead hk => simp at hk

/-! ### After the destructor -/

namespace Orderly

section After

variable (h : s.Orderly) (hdestroyed : s.phase = .destroyed)
include h hdestroyed

omit [DecidableEq α] in
/-- A thread that closes connections now is that of the base loop. -/
theorem base_of_thread {th : Thread ι α} {l : ι} (hth : s.joined th = false)
    (hl : th = .loop l) {c : Nat} (hc : s.ConnHome l c) : l = s.base := by
  rcases h.pooled c hc.1 with hbase | hpool
  · exact hc.2.symm.trans hbase
  · rw [hc.2] at hpool
    rw [hl] at hth
    simp [joined, hdestroyed, hpool] at hth

omit [DecidableEq ι] [DecidableEq α] in
theorem isMute_of_head {l : ι} (hl : l = s.base) {k : Task} {rest : List Task}
    (htodo : s.todo l = k :: rest) : k.isMute = true := by
  subst hl
  exact (h.quiet hdestroyed).tasks k (by simp [htodo])

omit [DecidableEq ι] [DecidableEq α] in
theorem finished_of_home {l : ι} (hl : l = s.base) {c : Nat} (hc : s.ConnHome l c) :
    s.Finished c :=
  (h.quiet hdestroyed).finished c hc.1 (hc.2.trans hl)

omit [DecidableEq ι] [DecidableEq α] in
/-- The base loop watches nothing. -/
theorem unwatched (fd : Int) : (s.poller s.base).epollSet fd = none := by
  cases hentry : (s.poller s.base).epollSet fd with
  | none => rfl
  | some p =>
      obtain ⟨m, c⟩ := p
      have hc := h.homed.poller s.base fd m c hentry
      exact absurd hentry ((h.finished_of_home hdestroyed rfl hc).unwatched fd m)

omit [DecidableEq ι] [DecidableEq α] in
theorem inactive {l : ι} (hl : l = s.base) : s.active l = [] := by
  subst hl
  refine List.eq_nil_iff_forall_not_mem.mpr fun ⟨c, m⟩ hp => ?_
  have hc := h.homed.active s.base _ hp
  exact (h.finished_of_home hdestroyed rfl hc).inactive m hp

omit [DecidableEq ι] [DecidableEq α] in
/-- Nobody sends through a connection of the base loop. -/
theorem unsent {th : Thread ι α} {c : Nat} {data : List Byte}
    (hcall : s.calling th = .sendFound c data) : (s.conn c).home ≠ s.base := by
  intro hhome
  have hc : c < s.count := h.homed.calling th c (by rw [hcall]; rfl)
  exact ((h.quiet hdestroyed).finished c hc hhome).unsent th data hcall

variable (hm : s.Moves e t) (hthread : s.joined (e.thread s.base) = false)
include hm hthread

/-- No notification comes to the queue of the base loop. -/
theorem functors_step {l : ι} (hl : l = s.base) {f : ServerFunctor}
    (hf : f ∈ (t.loops l).waiting) : f.isMute = true := by
  rcases waiting_of_moves h.homed hm hf with hold | hnew
  · subst hl
    exact (h.quiet hdestroyed).functors f hold
  · cases hnew with
    | established sockfd wc hw mark _ hne => exact absurd hl hne
    | removed l' env c rest htodo =>
        have hbase := h.base_of_thread hdestroyed hthread rfl (h.closing l' c (by simp [htodo]))
        cases h.isMute_of_head hdestroyed hbase htodo
    | sent th w c data hcall hth => exact absurd hl (h.unsent hdestroyed hcall)
    | _ => rfl

/-- The base thread gets mute tasks. -/
theorem tasks_step {l : ι} (hl : l = s.base) {k : Task} (hk : k ∈ t.todo l) :
    k.isMute = true := by
  rcases task_of_moves h.homed hm hk with hold | hnew
  · subst hl
    exact (h.quiet hdestroyed).tasks k hold
  · cases hnew with
    | started _ ready f _ hf htodo hactive hmem =>
        subst hl
        exact ServerFunctor.isMute_tasks ((h.quiet hdestroyed).functors f hf) hmem
    | event _ c revents rest _ hactive htodo hk =>
        rw [h.inactive hdestroyed hl] at hactive
        cases hactive
    | next _ env m c rest _ htodo hk =>
        exact absurd hk (Member.isMute_next (h.isMute_of_head hdestroyed hl htodo))
    | erased _ env c rest htodo => cases h.isMute_of_head hdestroyed hl htodo
    | tested _ env c rest htodo =>
        -- the connection is not connected, so its channel is only removed
        have hc : s.ConnHome l c := h.homed.task l (.testDestroyed c) (by simp [htodo])
        have hstate : (s.tcp c).state_ ≠ .kConnected := (h.finished_of_home hdestroyed hl hc).state
        rw [if_neg hstate]
        rfl
    | closed _ env c rest _ htodo hk => cases h.isMute_of_head hdestroyed hl htodo
    | accepted sockfd wc hw mark _ hk =>
        cases hm with
        | accept _ _ _ _ hphase _ => rw [hdestroyed] at hphase; cases hphase
    | destructor =>
        cases hm with
        | destroy hphase => rw [hdestroyed] at hphase; cases hphase
    | torn c _ hhead hk =>
        obtain ⟨rest, htodo⟩ := List.head?_eq_some_iff.mp hhead
        cases h.isMute_of_head hdestroyed rfl htodo

/-- The poller of the base loop goes on watching nothing. -/
theorem unwatched_step (fd : Int) : (t.poller s.base).epollSet fd = none := by
  have hold := h.unwatched hdestroyed fd
  -- a mute task of the base thread
  have hmute : ∀ {l env m c rest}, e = .task l env → s.todo l = .call m c :: rest →
      (s.conn c).home = s.base → (t.poller s.base).epollSet fd = none := by
    rintro l env m c rest rfl htodo hhome
    have hc : s.ConnHome l c := h.homed.task l (.call m c) (by simp [htodo])
    have hl : l = s.base := hc.2.symm.trans hhome
    have hnone : ∀ fd, (s.tcp c).poller_.epollSet fd = none := by
      show ∀ fd, (s.poller (s.conn c).home).epollSet fd = none
      rw [hhome]
      exact h.unwatched hdestroyed
    have hrun := runConn_poller (s.setTodo l rest) (.loop l) c (m.run env)
    cases runs_of_moves hm htodo
    show (((s.setTodo l rest).runConn (.loop l) c (m.run env)).poller s.base).epollSet fd = none
    rw [← hhome]
    refine (congrArg (fun p => p.epollSet fd) hrun).trans ?_
    exact Member.isMute_unwatched (h.isMute_of_head hdestroyed hl htodo) env hnone fd
  cases rewires_of_moves hm with
  | keep _ hpoller _ => rwa [hpoller]
  | accept _ _ _ _ _ _ _ hpoller _ => rwa [hpoller]
  | work c ok hworker hworks hframe hpoller hcount =>
      by_cases hhome : (s.conn c).home = s.base
      · cases hworker with
        | event l revents rest hactive =>
            have hc := h.homed.active l (c, revents) (by simp [hactive])
            rw [h.inactive hdestroyed (hc.2.symm.trans hhome)] at hactive
            cases hactive
        | member l env m rest htodo hm' => exact hmute rfl htodo hhome
        | removal l env rest htodo => exact hmute rfl htodo hhome
        | sender th w data hcall => exact absurd hhome (h.unsent hdestroyed hcall)
      · rwa [hpoller s.base (Ne.symm hhome)]

/-- No connection of the base loop comes back. -/
theorem finished_step {c : Nat} (hc : c < s.count) (hhome : (s.conn c).home = s.base)
    (hbase : t.base = s.base) : t.Finished c where
  state := by
    have hfinished := (h.quiet hdestroyed).finished c hc hhome
    have hturns : s.Turns c e (t.state c) := turns_of_moves hm hc
    generalize t.state c = x at hturns ⊢
    cases hturns with
    | keep _ => exact hfinished.state
    | established l env rest hidle htodo =>
        have hl : s.ConnHome l c := h.homed.task l (.call .connectEstablished c) (by simp [htodo])
        cases h.isMute_of_head hdestroyed (hl.2.symm.trans hhome) htodo
    | disconnected l env m rest hidle htodo hm' => simp
    | shut th w hcall => simp
  unwatched := by
    intro fd m
    rw [hbase, h.unwatched_step hdestroyed hm hthread fd]
    simp
  inactive := by
    intro m hp
    rw [hbase] at hp
    rcases active_of_moves hm hp with hold | ⟨-, -, fd, m', hentry⟩
    · rw [h.inactive hdestroyed rfl] at hold
      cases hold
    · rw [h.unwatched hdestroyed fd] at hentry
      cases hentry
  unsent := by
    have hfinished := (h.quiet hdestroyed).finished c hc hhome
    intro th data hcall
    have hcalls := calls_of_moves hm th
    rw [hcall] at hcalls
    generalize hx : Calling.sendFound c data = x at hcalls
    cases hcalls with
    | keep _ => exact hfinished.unsent th data hx.symm
    | done _ => cases hx
    | send d data' huser hstate =>
        obtain ⟨rfl, -⟩ := Calling.sendFound.inj hx
        exact hfinished.state hstate
    | shutdown d huser hstate => cases hx
    | store w d hcall' => cases hx

theorem quiet_step : t.Quiet (t.todo t.base) := by
  have hset := settled_of_moves hm
  refine ⟨?_, ?_, ?_⟩
  · intro f hf
    exact h.functors_step hdestroyed hm hthread hset.base hf
  · intro k hk
    exact h.tasks_step hdestroyed hm hthread hset.base hk
  · intro c hc hhome
    rcases count_of_moves hm hc with hlt | ⟨-, sockfd, wc, hw, mark, rfl, -⟩
    · refine h.finished_step hdestroyed hm hthread hlt ?_ hset.base
      rw [← hset.home c hlt, hhome, hset.base]
    · cases hm with
      | accept _ _ _ _ hphase _ => rw [hdestroyed] at hphase; cases hphase

end After

/-- Every step keeps the order, if the destructor ends quiet. -/
theorem step (h : s.Orderly) (hquiet : s.EndsQuiet e) (hm : s.Moves e t)
    (hthread : s.joined (e.thread s.base) = false) : t.Orderly where
  homed := h.homed.step hm
  pooled := fun _ hc => pooled_step h hm hc
  closing := fun _ _ hc => closing_step h hm hc
  quiet := by
    intro hdestroyed
    rcases phase_of_moves hm with hphase | ⟨-, hphase⟩ | rfl
    · exact h.quiet_step (hphase.symm.trans hdestroyed) hm hthread
    · rw [hdestroyed] at hphase
      cases hphase
    · -- the destructor leaves the rest of the tasks
      cases hm with
      | destroyed hhead =>
          obtain ⟨hfunctors, htasks, hfinished⟩ := hquiet
          refine ⟨hfunctors, ?_, fun c hc hhome => ?_⟩
          · show ∀ k ∈ Function.update s.todo s.base _ s.base, _
            rwa [Function.update_self]
          · obtain ⟨hstate, hunwatched, hinactive, hunsent⟩ := hfinished c hc hhome
            exact ⟨hstate, hunwatched, hinactive, hunsent⟩

omit [DecidableEq α] in
/-- After the destructor no thread has a notification at hand. -/
theorem noLateNotice (h : s.Orderly) (hthread : s.joined (e.thread s.base) = false) :
    s.NoLateNotice e t := by
  rintro hdestroyed l env rfl c
  constructor
  · intro hhead
    obtain ⟨rest, htodo⟩ := List.head?_eq_some_iff.mp hhead
    have hbase := h.base_of_thread hdestroyed hthread rfl (h.closing l c (by simp [htodo]))
    cases h.isMute_of_head hdestroyed hbase htodo
  · intro hhead
    obtain ⟨rest, htodo⟩ := List.head?_eq_some_iff.mp hhead
    have hc : s.TaskHome l (.erase c) := h.homed.task l _ (by simp [htodo])
    cases h.isMute_of_head hdestroyed hc.2 htodo

end Orderly

/-- **No close notification reaches a destroyed server.**  In every run in which the
destructor finds the base loop quiet at its end, neither `removeConnection` nor
`removeConnectionInLoop` is run after it. -/
theorem no_late_notice {es : List (ServerEvent ι α)} (hinit : (teardownMachine ι α).init s)
    (hquiet : (teardownMachine ι α).Along EndsQuiet s es) :
    (teardownMachine ι α).Every NoLateNotice s es := by
  refine Machine.every_of_along (I := Orderly) ?_ ?_ hquiet (orderly_of_init hinit)
  · intro s e t h _ hnext
    obtain ⟨hthread, -⟩ := Option.ite_none_left_eq_some.mp hnext
    exact h.noLateNotice (Bool.eq_false_of_not_eq_true hthread)
  · intro s e t h hquiet hnext
    obtain ⟨hthread, hnext⟩ := Option.ite_none_left_eq_some.mp hnext
    exact h.step hquiet (moves_of_next hnext) (Bool.eq_false_of_not_eq_true hthread)

/-! ### Two runs -/

/-- If all connections live on sub-loops, the queue and the stack of the base loop
are all that counts. -/
def EndsMute (s : ServerSystem ι α) : ServerEvent ι α → Prop
  | .destroyed =>
      (∀ f ∈ (s.loops s.base).waiting, f.isMute = true) ∧
        (∀ k ∈ (s.todo s.base).tail, k.isMute = true) ∧ ∀ c < s.count, (s.conn c).home ≠ s.base
  | _ => True

omit [DecidableEq ι] [DecidableEq α] in
theorem EndsMute.endsQuiet (h : s.EndsMute e) : s.EndsQuiet e := by
  cases e with
  | destroyed => exact ⟨h.1, h.2.1, fun c hc hhome => absurd hhome (h.2.2 c hc)⟩
  | _ => trivial

instance (s : ServerSystem ι α) : (e : ServerEvent ι α) → Decidable (s.EndsMute e)
  | .destroyed =>
      inferInstanceAs (Decidable ((∀ f ∈ (s.loops s.base).waiting, f.isMute = true) ∧
        (∀ k ∈ (s.todo s.base).tail, k.isMute = true) ∧ ∀ c < s.count, (s.conn c).home ≠ s.base))
  | .loop .. | .dispatch _ | .task .. | .accept .. | .send .. | .shutdown .. | .proceed ..
  | .copy .. | .release .. | .retrieve .. | .call .. | .destroy | .destroyEntry _ =>
      instDecidableTrue

/-- The base thread makes the sub-loop quit. -/
def quitSubloop : List (ServerEvent Bool Unit) :=
  List.flatten
    [[.call true (.loop false) .quit, .call true (.loop false) .storeQuit,
        .call true (.loop false) .wakeup],
      ServerEvent.turns true [.handlersDone, .swapFunctors, .startFunctor],
      [.task true quietTask, .task true quietTask],
      ServerEvent.turns true [.functorDone, .batchDone, .testQuit]]

/-- The destructor runs in a handler of the base loop while the notification
waits. -/
def destroyedEarly : List (ServerEvent Bool Unit) :=
  List.flatten
    [peerCloses, [.destroy, .destroyEntry 0], quitSubloop, [.destroyed],
      ServerEvent.turns false [.handlersDone, .swapFunctors, .startFunctor]]

/-- The base loop removes the connection first. -/
def destroyedLate : List (ServerEvent Bool Unit) :=
  List.flatten
    [peerCloses, ServerEvent.turns false [.handlersDone, .swapFunctors, .startFunctor],
      [.task false quietTask, .task false quietTask],
      ServerEvent.turns false [.functorDone, .batchDone, .testQuit, .poll true, .handleRead],
      [.destroy], quitSubloop, [.destroyed],
      ServerEvent.turns false [.handlersDone, .swapFunctors, .batchDone]]

theorem no_late_notice_destroyedLate :
    (teardownMachine Bool Unit).Every NoLateNotice
      (start ['s'] ⟨(127, 0, 0, 1), 80⟩ (.started false [true])) destroyedLate :=
  no_late_notice (init_start ..)
    (Machine.Along.imp (fun _ _ => EndsMute.endsQuiet) (by decide +kernel))

/-- **`removeConnectionInLoop` runs for a destroyed server.** -/
theorem late_notice_destroyedEarly :
    ∃ s : ServerSystem Bool Unit,
      (teardownMachine Bool Unit).run
        (start ['s'] ⟨(127, 0, 0, 1), 80⟩ (.started false [true])) destroyedEarly = some s ∧
      s.phase = .destroyed ∧ s.todo false = [.erase 0] ∧
      ((teardownMachine Bool Unit).next s (.task false quietTask)).isSome ∧
      ¬ (teardownMachine Bool Unit).Every NoLateNotice
        (start ['s'] ⟨(127, 0, 0, 1), 80⟩ (.started false [true]))
        (destroyedEarly ++ [.task false quietTask]) := by
  have hend : ((teardownMachine Bool Unit).run
      (start ['s'] ⟨(127, 0, 0, 1), 80⟩ (.started false [true])) destroyedEarly).any fun s =>
        decide (s.phase = .destroyed ∧ s.todo false = [.erase 0] ∧
          ((teardownMachine Bool Unit).next s (.task false quietTask)).isSome) := by
    decide +kernel
  obtain ⟨s, hrun, hs⟩ := (Option.any_eq_true _ _).mp hend
  obtain ⟨hphase, htodo, hnext⟩ := of_decide_eq_true hs
  refine ⟨s, hrun, hphase, htodo, hnext, fun hevery => ?_⟩
  obtain ⟨t, ht⟩ := Option.isSome_iff_exists.mp hnext
  have hlast := (hevery.after hrun) t ht
  refine (hlast.1 hphase false quietTask rfl 0).2 ?_
  rw [htodo]
  rfl

end ServerSystem

end Mymuduo
