/-
Mymuduo/Homes.lean

Where everything is that leads to a connection.

A functor of a connection is kept by the connection's loop, one that removes a
connection from the table by the base loop; the tasks of a loop thread are of
its own connections; and what `epoll_wait` can return in a loop is a channel of
that loop.  `Homed` says so, and every step keeps it (`Homed.step`): this is
where `runInLoop` and `queueInLoop` are called on the right loop each time.
-/
import Mymuduo.ChannelWork
import Mymuduo.ConnectionTable
import Mymuduo.ServerSystem

namespace Mymuduo

open Transition

theorem TcpConnection.works_setRevents (c : TcpConnection) (revents : Mask) :
    Works ChannelOp.Stays c (c.setRevents revents) :=
  .single (.mark c.channel_.tied_ revents _ _)

/-- Every member function works on its own channel. -/
theorem Member.works (m : Member) (env : TaskEnv) (c : TcpConnection) :
    c.Works (fun _ => True) (m.run env c) := by
  cases m with
  | connectEstablished => exact c.works_connectEstablished.imp fun _ _ => trivial
  | markDestroyed => exact c.works_markDestroyed.imp fun _ _ => trivial
  | removeChannel => exact c.works_removeChannel.imp fun _ _ => trivial
  | sendInLoop len => exact (c.works_sendInLoop _ _).imp fun _ _ => trivial
  | shutdownInLoop => exact c.works_shutdownInLoop
  | handleClose => exact (c.works_handleClose _).imp fun _ _ => trivial
  | handleError => exact .refl rfl rfl
  | handleRead => exact (c.works_handleRead _).imp fun _ _ => trivial
  | handleWrite => exact (c.works_writeOut _).imp fun _ _ => trivial
  | finishWrite => exact c.works_finishWrite

/-- The connection that a call of `send` or `shutdown` is about. -/
def Calling.conn : Calling → Option Nat
  | .idle => none
  | .sendFound c _ | .shutdownFound c | .shutdownStored c => some c

namespace ServerSystem

variable {ι α : Type*}

/-! ### Homes -/

/-- A connection of loop `l`. -/
def ConnHome (s : ServerSystem ι α) (l : ι) (c : Nat) : Prop :=
  c < s.count ∧ (s.conn c).home = l

/-- Loop `l` may have the functor. -/
def FunctorHome (s : ServerSystem ι α) (l : ι) : ServerFunctor → Prop
  | .removeConnectionInLoop c => c < s.count ∧ l = s.base
  | .connectEstablished c | .connectDestroyed c | .sendInLoop c _ | .shutdownInLoop c
  | .callback c _ => s.ConnHome l c
  | .other => True

/-- The thread of loop `l` may have the task. -/
def TaskHome (s : ServerSystem ι α) (l : ι) : Task → Prop
  | .call _ c | .testDestroyed c | .guard c => s.ConnHome l c
  | .erase c | .queueDestroyed c => c < s.count ∧ l = s.base
  | .closeCallback c | .scope c => c < s.count
  | .destructor => l = s.base

/-- Everything is where it belongs. -/
structure Homed (s : ServerSystem ι α) : Prop where
  thread : ∀ l, (s.loops l).threadId_ = .loop l
  kempt : ∀ l, (s.loops l).Kempt
  functor : ∀ l, ∀ f ∈ (s.loops l).functors, s.FunctorHome l f
  task : ∀ l, ∀ k ∈ s.todo l, s.TaskHome l k
  active : ∀ l, ∀ p ∈ s.active l, s.ConnHome l p.1
  users : ∀ p ∈ s.users, p.2 < s.count
  calling : ∀ t c, (s.calling t).conn = some c → c < s.count
  entry : ∀ nm c, s.server.connections_ nm = some c → c < s.count ∧ nm = (s.conn c).name
  poller : ∀ l fd m c, (s.poller l).epollSet fd = some (m, c) → s.ConnHome l c
  self : ∀ c < s.count, (s.conn c).tcp.channel_.self = c

/-- What the steps leave of the connections: a step may add one, and gives no
connection another loop or name. -/
structure Settled (s t : ServerSystem ι α) : Prop where
  base : t.base = s.base
  count : s.count ≤ t.count
  home : ∀ c < s.count, (t.conn c).home = (s.conn c).home
  name : ∀ c < s.count, (t.conn c).name = (s.conn c).name

section Settled

variable {s t : ServerSystem ι α} (h : Settled s t) {l : ι}
include h

theorem ConnHome.settled {c : Nat} (hc : s.ConnHome l c) : t.ConnHome l c :=
  ⟨hc.1.trans_le h.count, (h.home c hc.1).trans hc.2⟩

theorem FunctorHome.settled {f : ServerFunctor} (hf : s.FunctorHome l f) :
    t.FunctorHome l f := by
  cases f with
  | removeConnectionInLoop c => exact ⟨hf.1.trans_le h.count, hf.2.trans h.base.symm⟩
  | connectEstablished c => exact ConnHome.settled h hf
  | connectDestroyed c => exact ConnHome.settled h hf
  | sendInLoop c len => exact ConnHome.settled h hf
  | shutdownInLoop c => exact ConnHome.settled h hf
  | callback c cb => exact ConnHome.settled h hf
  | other => trivial

theorem TaskHome.settled {k : Task} (hk : s.TaskHome l k) : t.TaskHome l k := by
  cases k with
  | call m c => exact ConnHome.settled h hk
  | testDestroyed c => exact ConnHome.settled h hk
  | guard c => exact ConnHome.settled h hk
  | erase c => exact ⟨hk.1.trans_le h.count, hk.2.trans h.base.symm⟩
  | queueDestroyed c => exact ⟨hk.1.trans_le h.count, hk.2.trans h.base.symm⟩
  | closeCallback c => exact Nat.lt_of_lt_of_le hk h.count
  | scope c => exact Nat.lt_of_lt_of_le hk h.count
  | destructor => exact Eq.trans hk h.base.symm

end Settled

theorem FunctorHome.pointer_lt {s : ServerSystem ι α} {l : ι} {f : ServerFunctor} {c : Nat}
    (h : s.FunctorHome l f) (hf : f.pointer = some c) : c < s.count := by
  cases f <;> cases hf <;> exact h.1

theorem TaskHome.owns_lt {s : ServerSystem ι α} {l : ι} {k : Task} {c : Nat}
    (h : s.TaskHome l k) (hk : k.owns = some c) : c < s.count := by
  cases k with
  | call m c' => cases m <;> cases hk <;> exact h.1
  | erase c' => cases hk; exact h.1
  | queueDestroyed c' => cases hk; exact h.1
  | testDestroyed c' => cases hk; exact h.1
  | guard c' => cases hk; exact h.1
  | closeCallback c' => cases hk; exact h
  | scope c' => cases hk; exact h
  | destructor => cases hk

/-- What a functor begins with is at home where the functor is. -/
theorem FunctorHome.tasks {s : ServerSystem ι α} {l : ι} {f : ServerFunctor}
    (h : s.FunctorHome l f) : ∀ k ∈ f.tasks, s.TaskHome l k := by
  intro k hk
  cases f <;> simp only [ServerFunctor.tasks, List.mem_singleton, List.not_mem_nil] at hk
  all_goals subst hk; exact h

theorem FunctorHome.scope {s : ServerSystem ι α} {l : ι} {f : ServerFunctor}
    (h : s.FunctorHome l f) : ∀ k ∈ f.scope, s.TaskHome l k := by
  intro k hk
  unfold ServerFunctor.scope at hk
  split at hk
  · rename_i c hpointer
    obtain rfl := List.mem_singleton.mp hk
    exact h.pointer_lt hpointer
  · cases hk

/-! ### The pieces of a step -/

theorem Homed.erase {s : ServerSystem ι α} (h : s.Homed) (nm : Text) :
    { s with server := s.server.erase nm }.Homed where
  __ := h
  entry nm' c hc := by
    change Function.update s.server.connections_ nm none nm' = some c at hc
    by_cases hnm : nm' = nm
    · subst hnm
      rw [Function.update_self] at hc
      cases hc
    · exact h.entry nm' c (by rwa [Function.update_of_ne hnm] at hc)

@[simp] theorem setTcp_home (s : ServerSystem ι α) (c c' : Nat) (k : TcpConnection) :
    ((s.setTcp c k).conn c').home = (s.conn c').home := by
  simp only [setTcp]
  by_cases hc : c' = c
  · subst hc
    rw [Function.update_self]
  · rw [Function.update_of_ne hc]

@[simp] theorem setTcp_name (s : ServerSystem ι α) (c c' : Nat) (k : TcpConnection) :
    ((s.setTcp c k).conn c').name = (s.conn c').name := by
  simp only [setTcp]
  by_cases hc : c' = c
  · subst hc
    rw [Function.update_self]
  · rw [Function.update_of_ne hc]

theorem settled_setTcp (s : ServerSystem ι α) (c : Nat) (k : TcpConnection) :
    Settled s (s.setTcp c k) :=
  ⟨rfl, Nat.le_refl _, fun c' _ => setTcp_home s c c' k, fun c' _ => setTcp_name s c c' k⟩

/-- The connection object changes, and its channel stays the same object. -/
theorem Homed.setTcp {s : ServerSystem ι α} (h : s.Homed) {c : Nat} {k : TcpConnection}
    (hself : k.channel_.self = (s.conn c).tcp.channel_.self) : (s.setTcp c k).Homed := by
  have hset := settled_setTcp s c k
  refine ⟨h.thread, h.kempt, fun l f hf => .settled hset (h.functor l f hf),
    fun l k hk => .settled hset (h.task l k hk), fun l p hp => .settled hset (h.active l p hp),
    h.users, h.calling, fun nm c' hc => ?_, fun l fd m c' hc => .settled hset (h.poller l fd m c' hc),
    fun c' hc => ?_⟩
  · obtain ⟨hlt, hnm⟩ := h.entry nm c' hc
    exact ⟨hlt, hnm.trans (hset.name c' hlt).symm⟩
  · rw [ServerSystem.setTcp]
    by_cases hcc : c' = c
    · subst hcc
      simp only [Function.update_self]
      exact hself.trans (h.self c' hc)
    · simp only [Function.update_of_ne hcc]
      exact h.self c' hc

variable [DecidableEq ι]

namespace Homed

variable {s : ServerSystem ι α} (h : s.Homed) {l : ι}
include h

theorem setLoop {x : EventLoop ServerFunctor (Thread ι α)} (hthread : x.threadId_ = .loop l)
    (hkempt : x.Kempt) (hfunctor : ∀ f ∈ x.functors, s.FunctorHome l f) :
    (s.setLoop l x).Homed where
  __ := h
  thread := (Function.forall_update_iff s.loops (p := fun l x => x.threadId_ = .loop l)).mpr
    ⟨hthread, fun l' _ => h.thread l'⟩
  kempt := (Function.forall_update_iff s.loops (p := fun _ x => x.Kempt)).mpr
    ⟨hkempt, fun l' _ => h.kempt l'⟩
  functor := (Function.forall_update_iff s.loops
    (p := fun l x => ∀ f ∈ x.functors, s.FunctorHome l f)).mpr
    ⟨hfunctor, fun l' _ => h.functor l'⟩

theorem setTodo {ks : List Task} (hks : ∀ k ∈ ks, s.TaskHome l k) :
    (s.setTodo l ks).Homed where
  __ := h
  task := (Function.forall_update_iff s.todo (p := fun l ks => ∀ k ∈ ks, s.TaskHome l k)).mpr
    ⟨hks, fun l' _ => h.task l'⟩

theorem setActive {cs : List (ChannelPtr × Mask)} (hcs : ∀ p ∈ cs, s.ConnHome l p.1) :
    (s.setActive l cs).Homed where
  __ := h
  active := (Function.forall_update_iff s.active
    (p := fun l cs => ∀ p ∈ cs, s.ConnHome l p.1)).mpr ⟨hcs, fun l' _ => h.active l'⟩

theorem setPoller {p : EPollPoller} (hp : ∀ fd m c, p.epollSet fd = some (m, c) → s.ConnHome l c) :
    (s.setPoller l p).Homed where
  __ := h
  poller := (Function.forall_update_iff s.poller
    (p := fun l p => ∀ fd m c, p.epollSet fd = some (m, c) → s.ConnHome l c)).mpr
    ⟨hp, fun l' _ => h.poller l'⟩

end Homed

variable [DecidableEq α]

theorem Homed.setCalling {s : ServerSystem ι α} (h : s.Homed) {th : Thread ι α} {k : Calling}
    (hk : ∀ c, k.conn = some c → c < s.count) : (s.setCalling th k).Homed where
  __ := h
  calling := (Function.forall_update_iff s.calling
    (p := fun _ k => ∀ c, k.conn = some c → c < s.count)).mpr ⟨hk, fun t _ => h.calling t⟩

/-- The loops after some posts. -/
theorem Homed.posts {s : ServerSystem ι α} (h : s.Homed) {l : ι} (th : Thread ι α)
    {fs : List ServerFunctor} (hfs : ∀ f ∈ fs, s.FunctorHome l f) :
    (s.setLoop l ((s.loops l).posts th fs)).Homed := by
  have hp := (s.loops l).posted_posts th fs
  refine h.setLoop (hp.threadId.trans (h.thread l)) (hp.kempt (h.kempt l)) fun f hf => ?_
  rw [EventLoop.functors, hp.pending, hp.batch] at hf
  simp only [List.mem_append, or_assoc] at hf
  rcases hf with hf | hf | hf
  · exact h.functor l f (List.mem_append_left _ hf)
  · exact hfs f hf
  · exact h.functor l f (List.mem_append_right _ hf)

/-! ### Member functions -/

omit [DecidableEq ι] [DecidableEq α] in
/-- The channel of a connection as its loop thread sees it. -/
theorem tcp_channel (s : ServerSystem ι α) (c : Nat) :
    (s.tcp c).channel_ = (s.conn c).tcp.channel_ := rfl

omit [DecidableEq ι] [DecidableEq α] in
theorem tcp_poller (s : ServerSystem ι α) (c : Nat) :
    (s.tcp c).poller_ = s.poller (s.conn c).home := rfl

theorem settled_runConn (s : ServerSystem ι α) (th : Thread ι α) (c : Nat)
    (f : TcpConnection → TcpConnection) : Settled s (s.runConn th c f) := by
  obtain ⟨hbase, hcount, hhome, hname⟩ := settled_setTcp s c (f (s.tcp c))
  exact ⟨hbase, hcount, hhome, hname⟩

/-- A member function that works on its own channel. -/
theorem Homed.runConn {s : ServerSystem ι α} (h : s.Homed) {th : Thread ι α} {c : Nat}
    {f : TcpConnection → TcpConnection} {ok : ChannelOp → Prop} (hc : c < s.count)
    (hf : (s.tcp c).Works ok (f (s.tcp c))) : (s.runConn th c f).Homed := by
  obtain ⟨hself, -, hentries⟩ := hf.entries
  have hset := settled_setTcp s c (f (s.tcp c))
  have htcp := h.setTcp hself
  have hhome : s.ConnHome (s.conn c).home c := ⟨hc, rfl⟩
  have hpoller := htcp.setPoller (l := (s.conn c).home) (p := (f (s.tcp c)).poller_) ?_
  · refine hpoller.posts th fun g hg => ?_
    obtain ⟨cb, -, rfl⟩ := List.mem_map.mp hg
    exact ConnHome.settled hset hhome
  · intro fd m c' hentry
    rcases hentries.kernel fd m c' hentry with ⟨m', hold⟩ | ⟨-, hown⟩
    · exact .settled hset (h.poller _ fd m' c' hold)
    · rw [tcp_channel, h.self c hc] at hown
      subst hown
      exact .settled hset hhome

@[simp] theorem post_self (s : ServerSystem ι α) (l : ι) (th : Thread ι α) (f : ServerFunctor) :
    (s.post l th f).loops l = (s.loops l).post th f :=
  Function.update_self ..

theorem Homed.post {s : ServerSystem ι α} (h : s.Homed) {l : ι} (th : Thread ι α)
    {f : ServerFunctor} (hf : s.FunctorHome l f) : (s.post l th f).Homed := by
  have hfs : ∀ g ∈ [f], s.FunctorHome l g := by simpa using hf
  exact h.posts th hfs

theorem Homed.runInLoop {s : ServerSystem ι α} (h : s.Homed) {l : ι} (th : Thread ι α)
    {f : ServerFunctor} (hf : s.FunctorHome l f) : (s.runInLoop l th f).Homed := by
  unfold ServerSystem.runInLoop
  split
  · refine h.setTodo fun k hk => ?_
    simp only [List.mem_append, or_assoc] at hk
    rcases hk with hk | hk | hk
    · exact hf.tasks k hk
    · exact hf.scope k hk
    · exact h.task l k hk
  · exact h.post th hf

omit [DecidableEq ι] [DecidableEq α] in
/-- What a member function leaves to do is at home where it ran. -/
theorem memberNext_home {s : ServerSystem ι α} {l : ι} {c : Nat}
    (hc : s.ConnHome l c) (m : Member) (env : TaskEnv) (k : TcpConnection) :
    ∀ k' ∈ m.next env c k, s.TaskHome l k' := by
  intro k' hk'
  rcases Member.next_cases hk' with ⟨-, rfl⟩ | ⟨-, rfl⟩ | ⟨-, rfl⟩
  · exact hc
  · exact hc.1
  · exact hc

theorem Homed.runTask {s : ServerSystem ι α} (h : s.Homed) {l : ι} (env : TaskEnv) {k : Task}
    (hk : s.TaskHome l k) : (s.runTask l env k).Homed := by
  cases k with
  | call m c =>
      have hset := settled_runConn s (.loop l) c (m.run env)
      refine (h.runConn hk.1 (m.works env _)).setTodo fun k' hk' => ?_
      rcases List.mem_append.mp hk' with hk' | hk'
      · exact .settled hset (memberNext_home hk m env _ k' hk')
      · exact .settled hset (h.task l k' hk')
  | erase c =>
      refine (h.erase _).setTodo fun k' hk' => ?_
      rcases List.mem_cons.mp hk' with rfl | hk'
      · exact hk
      · exact h.task l k' hk'
  | queueDestroyed c => exact h.post (.loop l) (f := .connectDestroyed c) ⟨hk.1, rfl⟩
  | testDestroyed c =>
      refine h.setTodo fun k' hk' => ?_
      rcases List.mem_cons.mp hk' with rfl | hk'
      · exact hk
      · exact h.task l k' hk'
  | closeCallback c => exact h.runInLoop (.loop l) (f := .removeConnectionInLoop c) ⟨hk, rfl⟩
  | guard c => exact h
  | scope c => exact h
  | destructor => exact h

/-! ### One step -/

omit [DecidableEq ι] [DecidableEq α] in
theorem settled_construct (s : ServerSystem ι α) (sockfd : Int) (wc hw : Bool) (mark : Nat) :
    Settled s (s.construct sockfd wc hw mark) := by
  have hold : ∀ c < s.count, (s.construct sockfd wc hw mark).conn c = s.conn c :=
    fun c hc => Function.update_of_ne (Nat.ne_of_lt hc) _ _
  refine ⟨s.server.threadPool_.getNextLoop_base, Nat.le_succ _, fun c hc => ?_, fun c hc => ?_⟩
  · rw [hold c hc]
  · rw [hold c hc]

omit [DecidableEq ι] [DecidableEq α] in
theorem Homed.construct {s : ServerSystem ι α} (h : s.Homed) (sockfd : Int) (wc hw : Bool)
    (mark : Nat) : (s.construct sockfd wc hw mark).Homed := by
  have hset := settled_construct s sockfd wc hw mark
  have hnew : (s.construct sockfd wc hw mark).conn s.count = ⟨s.server.threadPool_.getNextLoop.1,
      s.server.connName, TcpConnection.new s.count sockfd wc hw mark
        (s.poller s.server.threadPool_.getNextLoop.1)⟩ := Function.update_self ..
  refine ⟨h.thread, h.kempt, fun l f hf => .settled hset (h.functor l f hf),
    fun l k hk => .settled hset (h.task l k hk), fun l p hp => .settled hset (h.active l p hp),
    fun p hp => (h.users p hp).trans (Nat.lt_succ_self _),
    fun t c hc => (h.calling t c hc).trans (Nat.lt_succ_self _), fun nm c hc => ?_,
    fun l fd m c hc => .settled hset (h.poller l fd m c hc), fun c hc => ?_⟩
  · change Function.update s.server.connections_ s.server.connName (some s.count) nm = some c at hc
    by_cases hnm : nm = s.server.connName
    · subst hnm
      rw [Function.update_self] at hc
      obtain rfl := Option.some.inj hc
      rw [hnew]
      exact ⟨Nat.lt_succ_self _, rfl⟩
    · rw [Function.update_of_ne hnm] at hc
      obtain ⟨hlt, hname⟩ := h.entry nm c hc
      exact ⟨hlt.trans (Nat.lt_succ_self _), hname.trans (hset.name c hlt).symm⟩
  · rcases Nat.lt_succ_iff_lt_or_eq.mp hc with hlt | rfl
    · rw [show (s.construct sockfd wc hw mark).conn c = s.conn c from
        Function.update_of_ne (Nat.ne_of_lt hlt) _ _]
      exact h.self c hlt
    · rw [hnew]
      rfl

theorem Homed.accept {s : ServerSystem ι α} (h : s.Homed) (sockfd : Int) (wc hw : Bool)
    (mark : Nat) : (s.accept sockfd wc hw mark).Homed :=
  (h.construct sockfd wc hw mark).runInLoop _ (f := .connectEstablished s.count)
    ⟨Nat.lt_succ_self _, rfl⟩

/-- A loop after one of its steps, or after a call that queues nothing of the
server. -/
theorem Homed.stepLoop {s : ServerSystem ι α} (h : s.Homed) {l : ι}
    {e : LoopEvent ServerFunctor (Thread ι α)} {x : EventLoop ServerFunctor (Thread ι α)}
    (he : ∀ t c, e = .call t c → c.isForeign = true) (hx : (s.loops l).next e = some x) :
    (s.setLoop l x).Homed := by
  have hstep := EventLoop.step_of_next hx
  refine h.setLoop (hstep.threadId.trans (h.thread l)) ((h.kempt l).step hstep) fun f hf => ?_
  rcases (EventLoop.hands_of_step (h.kempt l) hstep).mem_functors hf with hold | ⟨t, c, rfl, hc⟩
  · exact h.functor l f hold
  · -- the only functor that such a call pushes is foreign
    have hforeign := he t c rfl
    rcases hc with rfl | rfl
    · cases f <;> trivial
    · cases f <;> cases hforeign

omit [DecidableEq ι] [DecidableEq α] in
theorem Homed.activeAfter {s : ServerSystem ι α} (h : s.Homed) (l : ι) (e : LoopStep)
    (ready : List (Int × Mask)) : ∀ p ∈ s.activeAfter l e ready, s.ConnHome l p.1 := by
  intro p hp
  unfold ServerSystem.activeAfter at hp
  split at hp
  · obtain ⟨r, -, hr⟩ := List.mem_filterMap.mp hp
    obtain ⟨⟨m, c⟩, hentry, rfl⟩ := Option.map_eq_some_iff.mp hr
    exact h.poller l r.1 m c hentry
  · exact h.active l p hp

omit [DecidableEq ι] [DecidableEq α] in
theorem Homed.startedTasks {s : ServerSystem ι α} (h : s.Homed) (l : ι) (e : LoopStep) :
    ∀ k ∈ startedTasks e (s.loops l), s.TaskHome l k := by
  intro k hk
  unfold Mymuduo.startedTasks at hk
  split at hk
  · cases hrunning : (s.loops l).running with
    | none => simp [hrunning] at hk
    | some f =>
        have hf := List.mem_append_right (s.loops l).pending ((h.kempt l).running_mem hrunning)
        exact (h.functor l f hf).tasks k (by simpa [hrunning] using hk)
  · cases hk

omit [DecidableEq ι] [DecidableEq α] in
theorem Homed.eventTasks {s : ServerSystem ι α} {l : ι} {c : Nat} (hc : s.ConnHome l c)
    (tied : Bool) (revents : Mask) : ∀ k ∈ eventTasks c tied revents, s.TaskHome l k := by
  intro k hk
  rcases eventTasks_cases hk with ⟨m, -, rfl⟩ | rfl
  · exact hc
  · exact hc

omit [DecidableEq ι] [DecidableEq α] in
theorem Homed.argument {s : ServerSystem ι α} (h : s.Homed) {th : Thread ι α} {c : Nat}
    (hc : s.argument th c = true) : c < s.count := by
  cases th with
  | app a => cases hc
  | loop l =>
      rcases Bool.or_eq_true_iff.mp hc with hc | hc
      · obtain ⟨f, hrunning, hf⟩ := Option.bind_eq_some_iff.mp (of_decide_eq_true hc)
        have hmem := List.mem_append_right (s.loops l).pending ((h.kempt l).running_mem hrunning)
        exact (h.functor l f hmem).pointer_lt hf
      · obtain ⟨k, hk, howns⟩ := List.any_eq_true.mp hc
        exact (h.task l k hk).owns_lt (of_decide_eq_true howns)

variable {s t : ServerSystem ι α} {e : ServerEvent ι α}

/-- **A step keeps everything where it belongs.** -/
theorem Homed.step (h : s.Homed) (hm : s.Moves e t) : t.Homed := by
  cases hm with
  | loop l e ready x hidle htodo hactive hx =>
      have hloop := h.stepLoop (by simp) hx
      refine (hloop.setActive (h.activeAfter l e ready)).setTodo fun k hk => ?_
      apply hloop.startedTasks l e k
      simpa [ServerSystem.setLoop] using hk
  | dispatch l c revents rest hidle htodo hactive =>
      have hc : s.ConnHome l c := h.active l (c, revents) (by simp [hactive])
      have hset := settled_runConn s (.loop l) c (·.setRevents revents)
      have hrun : (s.runConn (.loop l) c (·.setRevents revents)).Homed :=
        h.runConn hc.1 ((s.tcp c).works_setRevents revents)
      refine (hrun.setActive fun p hp => ?_).setTodo ?_
      · exact .settled hset (h.active l p (by simp [hactive, hp]))
      · exact fun k hk => Homed.eventTasks (ConnHome.settled hset hc) _ _ k hk
  | task l env k rest hidle htodo hk =>
      have hrest : (s.setTodo l rest).Homed :=
        h.setTodo fun k' hk' => h.task l k' (by simp [htodo, hk'])
      exact hrest.runTask env (h.task l k (by simp [htodo]))
  | accept sockfd wc hw mark hphase htodo => exact h.accept sockfd wc hw mark
  | send th c data hidle huser =>
      refine h.setCalling fun c' hc' => ?_
      split at hc' <;> cases hc'
      exact h.users _ huser
  | shutdown th c hidle huser =>
      refine h.setCalling fun c' hc' => ?_
      split at hc' <;> cases hc'
      exact h.users _ huser
  | sendHere th w c data hcall hin =>
      have hidle : (s.setCalling th .idle).Homed := h.setCalling (by simp [Calling.conn])
      exact hidle.runConn (h.calling th c (by simp [hcall, Calling.conn]))
        (TcpConnection.works_sendInLoop _ data w)
  | sendThere th w c data hcall hout =>
      have hidle : (s.setCalling th .idle).Homed := h.setCalling (by simp [Calling.conn])
      exact hidle.post th (f := .sendInLoop c data.length)
        ⟨h.calling th c (by simp [hcall, Calling.conn]), rfl⟩
  | store th w c hcall =>
      have hstore := h.setTcp (c := c) (k := (s.conn c).tcp.setState .kDisconnecting) rfl
      refine hstore.setCalling fun c' hc' => ?_
      cases hc'
      exact h.calling th c (by simp [hcall, Calling.conn])
  | shutdownHere th w c hcall hin =>
      have hidle : (s.setCalling th .idle).Homed := h.setCalling (by simp [Calling.conn])
      have hworks : TcpConnection.Works ChannelOp.Stays ((s.setCalling th .idle).tcp c) _ :=
        TcpConnection.works_shutdownInLoop _
      exact hidle.runConn (h.calling th c (by simp [hcall, Calling.conn])) hworks
  | shutdownThere th w c hcall hout =>
      have hidle : (s.setCalling th .idle).Homed := h.setCalling (by simp [Calling.conn])
      exact hidle.post th (f := .shutdownInLoop c)
        ⟨h.calling th c (by simp [hcall, Calling.conn]), rfl⟩
  | copy src th c hsrc =>
      refine { h with users := fun p hp => ?_ }
      rcases List.mem_cons.mp hp with rfl | hp
      · exact hsrc.elim (h.users _) h.argument
      · exact h.users p hp
  | release th c hidle huser =>
      exact { h with users := fun p hp => h.users p (List.mem_of_mem_erase hp) }
  | retrieve l c len hidle hguard =>
      have hworks : TcpConnection.Works ChannelOp.Stays (s.tcp c)
          ((s.tcp c).userCall (.retrieve len)) := .refl rfl rfl
      exact h.runConn (h.task l _ hguard).1 hworks
  | call l th c x hc hx =>
      refine h.stepLoop (fun t c' he => ?_) hx
      cases he
      exact hc
  | destroy hphase =>
      have hphase' : { s with phase := .tearing }.Homed := { h with }
      refine hphase'.setTodo fun k hk => ?_
      rcases List.mem_cons.mp hk with rfl | hk
      · rfl
      · exact h.task s.base k hk
  | destroyEntry c hidle hhead hcount htable =>
      exact (h.erase _).runInLoop (.loop s.base) (f := .connectDestroyed c) ⟨hcount, rfl⟩
  | destroyed hhead =>
      have hphase' : { s with phase := .destroyed }.Homed := { h with }
      exact hphase'.setTodo fun k hk => h.task s.base k (List.mem_of_mem_tail hk)

theorem homed_of_init (h : (serverMachine ι α).init s) : s.Homed := by
  obtain ⟨⟨name, addr, pool, hserver⟩, -, hcount, hloops, hpoller, hactive, htodo, husers,
    hcalling⟩ := h
  constructor
  all_goals simp [hserver, hcount, hloops, hpoller, hactive, htodo, husers, hcalling,
    TcpServer.new, EPollPoller.new, Calling.conn]
  · exact fun l => rfl
  · exact fun l => EventLoop.kempt_new _
  · exact fun l f hf => by simp [EventLoop.functors, EventLoop.pending, EventLoop.batch,
      EventLoop.new] at hf

theorem homed_of_reachable (h : (serverMachine ι α).Reachable s) : s.Homed :=
  h.invariant (fun _ => homed_of_init) fun _ _ _ hs ht => hs.step (moves_of_next ht)

/-! ### What a step leaves of the connections -/

/-- A thread that `isInLoopThread` accepts is the one of the loop. -/
theorem Homed.thread_eq (h : s.Homed) {l : ι} {th : Thread ι α}
    (hin : (s.loops l).isInLoopThread th = true) : th = .loop l :=
  (of_decide_eq_true hin).trans (h.thread l)


omit [DecidableEq ι] [DecidableEq α] in
theorem Settled.of_conn (hbase : t.base = s.base) (hcount : t.count = s.count)
    (hconn : t.conn = s.conn) : Settled s t :=
  ⟨hbase, hcount.ge, fun _ _ => by rw [hconn], fun _ _ => by rw [hconn]⟩

theorem Settled.runInLoop (h : Settled s t) {l : ι} {th : Thread ι α} {f : ServerFunctor} :
    Settled s (t.runInLoop l th f) := by
  obtain ⟨hbase, hcount, hhome, hname⟩ := h
  refine ⟨?_, ?_, ?_, ?_⟩
  · rwa [ServerSystem.base, runInLoop_server]
  · rwa [runInLoop_count]
  · rwa [runInLoop_conn]
  · rwa [runInLoop_conn]

theorem settled_runTask (s : ServerSystem ι α) (l : ι) (env : TaskEnv) (k : Task) :
    Settled s (s.runTask l env k) := by
  have hsame : Settled s s := .of_conn rfl rfl rfl
  cases k with
  | call m c =>
      obtain ⟨hbase, hcount, hhome, hname⟩ := settled_runConn s (.loop l) c (m.run env)
      exact ⟨hbase, hcount, hhome, hname⟩
  | erase c => exact .of_conn rfl rfl rfl
  | queueDestroyed c => exact .of_conn rfl rfl rfl
  | testDestroyed c => exact .of_conn rfl rfl rfl
  | closeCallback c => exact hsame.runInLoop
  | guard c => exact hsame
  | scope c => exact hsame
  | destructor => exact hsame

theorem settled_of_moves (hm : s.Moves e t) : Settled s t := by
  cases hm with
  | dispatch l c revents rest hidle htodo hactive =>
      obtain ⟨hbase, hcount, hhome, hname⟩ :=
        settled_runConn s (.loop l) c (·.setRevents revents)
      exact ⟨hbase, hcount, hhome, hname⟩
  | task l env k rest hidle htodo hk =>
      obtain ⟨hbase, hcount, hhome, hname⟩ := settled_runTask (s.setTodo l rest) l env k
      exact ⟨hbase, hcount, hhome, hname⟩
  | accept sockfd wc hw mark hphase htodo => exact (settled_construct s sockfd wc hw mark).runInLoop
  | sendHere th w c data hcall hin =>
      obtain ⟨hbase, hcount, hhome, hname⟩ :=
        settled_runConn (s.setCalling th .idle) th c (·.sendInLoop data w)
      exact ⟨hbase, hcount, hhome, hname⟩
  | store th w c hcall =>
      obtain ⟨hbase, hcount, hhome, hname⟩ :=
        settled_setTcp s c ((s.conn c).tcp.setState .kDisconnecting)
      exact ⟨hbase, hcount, hhome, hname⟩
  | shutdownHere th w c hcall hin =>
      obtain ⟨hbase, hcount, hhome, hname⟩ :=
        settled_runConn (s.setCalling th .idle) th c TcpConnection.shutdownInLoop
      exact ⟨hbase, hcount, hhome, hname⟩
  | retrieve l c len hidle hguard => exact settled_runConn s (.loop l) c _
  | destroyEntry c hidle hhead hcount htable =>
      have herase : Settled s { s with server := s.server.erase (s.conn c).name } :=
        .of_conn rfl rfl rfl
      exact herase.runInLoop
  | _ => exact .of_conn rfl rfl rfl

/-! ### Names -/

/-- Every connection has the name that goes with its number. -/
structure Named (s : ServerSystem ι α) : Prop where
  address : ∃ addr : InetAddress, s.server.ipPort_ = addr.toIpPort
  counter : s.server.nextConnId_ = BitVec.ofNat 32 (s.count + 1)
  names : ∀ c < s.count, (s.conn c).name
    = connName s.server.name_ s.server.ipPort_ (BitVec.ofNat 32 (c + 1))

theorem named_of_init (h : (serverMachine ι α).init s) : s.Named := by
  obtain ⟨⟨name, addr, pool, hserver⟩, -, hcount, -⟩ := h
  refine ⟨⟨addr, by rw [hserver]; rfl⟩, by rw [hserver, hcount]; rfl, fun c hc => ?_⟩
  rw [hcount] at hc
  exact absurd hc (Nat.not_lt_zero c)

/-- What an accept leaves of the names, and the other steps. -/
inductive Renames (s : ServerSystem ι α) (e : ServerEvent ι α) (t : ServerSystem ι α) : Prop
  | keep (hname : t.server.name_ = s.server.name_) (hip : t.server.ipPort_ = s.server.ipPort_)
      (hid : t.server.nextConnId_ = s.server.nextConnId_) (hcount : t.count = s.count)
  | accept (he : ∃ sockfd wc hw mark, e = .accept sockfd wc hw mark)
      (hname : t.server.name_ = s.server.name_) (hip : t.server.ipPort_ = s.server.ipPort_)
      (hid : t.server.nextConnId_ = s.server.nextConnId_ + 1) (hcount : t.count = s.count + 1)
      (hnew : (t.conn s.count).name = s.server.connName)

theorem Renames.runInLoop (h : Renames s e t) {l : ι} {th : Thread ι α} {f : ServerFunctor} :
    Renames s e (t.runInLoop l th f) := by
  cases h with
  | keep hname hip hid hcount => refine .keep ?_ ?_ ?_ ?_ <;> simpa
  | accept he hname hip hid hcount hnew => refine .accept he ?_ ?_ ?_ ?_ ?_ <;> simpa

theorem renames_of_moves (hm : s.Moves e t) : Renames s e t := by
  cases hm with
  | task l env k rest hidle htodo hk =>
      cases k with
      | closeCallback c =>
          have hrest : Renames s (.task l env) (s.setTodo l rest) := .keep rfl rfl rfl rfl
          exact hrest.runInLoop
      | _ => exact .keep rfl rfl rfl rfl
  | accept sockfd wc hw mark hphase htodo =>
      have hconstruct : Renames s (.accept sockfd wc hw mark) (s.construct sockfd wc hw mark) := by
        refine .accept ⟨sockfd, wc, hw, mark, rfl⟩ rfl rfl rfl rfl ?_
        show (Function.update s.conn s.count _ s.count).name = _
        rw [Function.update_self]
      exact hconstruct.runInLoop
  | destroyEntry c hidle hhead hcount htable =>
      have herase : Renames s (.destroyEntry c) { s with server := s.server.erase (s.conn c).name } :=
        .keep rfl rfl rfl rfl
      exact herase.runInLoop
  | _ => exact .keep rfl rfl rfl rfl

/-- A connection that is there after a step was there before, or has been
accepted. -/
theorem count_of_moves (hm : s.Moves e t) {c : Nat} (hc : c < t.count) :
    c < s.count ∨ c = s.count ∧ ∃ sockfd wc hw mark, e = .accept sockfd wc hw mark ∧
      t = s.accept sockfd wc hw mark := by
  cases renames_of_moves hm with
  | keep _ _ _ hcount => exact .inl (hcount ▸ hc)
  | accept he _ _ _ hcount _ =>
      rw [hcount] at hc
      refine (Nat.lt_succ_iff_lt_or_eq.mp hc).imp id fun heq => ⟨heq, ?_⟩
      obtain ⟨sockfd, wc, hw, mark, rfl⟩ := he
      cases hm
      exact ⟨sockfd, wc, hw, mark, rfl, rfl⟩

theorem Named.step (h : s.Named) (hm : s.Moves e t) : t.Named := by
  have hset := settled_of_moves hm
  cases renames_of_moves hm with
  | keep hname hip hid hcount =>
      refine ⟨?_, ?_, fun c hc => ?_⟩
      · rw [hip]
        exact h.address
      · rw [hid, hcount, h.counter]
      · rw [hcount] at hc
        rw [hset.name c hc, h.names c hc, hname, hip]
  | accept he hname hip hid hcount hnew =>
      refine ⟨?_, ?_, fun c hc => ?_⟩
      · rw [hip]
        exact h.address
      · rw [hid, hcount, h.counter]
        exact (BitVec.ofNat_add _ 1).symm
      · rw [hcount] at hc
        rcases Nat.lt_succ_iff_lt_or_eq.mp hc with hlt | rfl
        · rw [hset.name c hlt, h.names c hlt, hname, hip]
        · rw [hnew, hname, hip, TcpServer.connName, h.counter]

namespace Named

variable (h : s.Named)
include h

omit [DecidableEq ι] [DecidableEq α] in
/-- Two connections have one name only if they are the same. -/
theorem name_inj (hbound : s.count ≤ 2 ^ 31) {a b : Nat} (ha : a < s.count) (hb : b < s.count)
    (hname : (s.conn a).name = (s.conn b).name) : a = b := by
  obtain ⟨addr, haddr⟩ := h.address
  rw [h.names a ha, h.names b hb, haddr, connName_inj, ConnectionTable.ofNat_eq_iff] at hname
  exact Nat.ModEq.eq_of_lt_of_lt hname (by omega) (by omega)

omit [DecidableEq ι] [DecidableEq α] in
/-- The next name is new. -/
theorem name_ne_next (hbound : s.count < 2 ^ 31) {a : Nat} (ha : a < s.count) :
    (s.conn a).name ≠ s.server.connName := by
  obtain ⟨addr, haddr⟩ := h.address
  rw [h.names a ha, TcpServer.connName, h.counter, haddr, Ne, connName_inj,
    ConnectionTable.ofNat_eq_iff]
  exact fun hmod => absurd (Nat.ModEq.eq_of_lt_of_lt hmod (by omega) (by omega)) ha.ne

end Named

end ServerSystem

end Mymuduo
