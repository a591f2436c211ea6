/-
Mymuduo/Confinement.lean

Which thread works on what.

The buffers of a connection, its channel and the poller of its loop have no lock,
nor have the connection table and the counters of the server.  They are safe
because everything that leads to them is where it belongs (Homes.lean).
`operations` lists what the code of each step reads or writes, and `Changed` says what
differs after a step; `thread_confinement` puts both under the thread they belong to.

The end of a connection is another matter.  The thread that drops the last
`TcpConnectionPtr`, at the end of a batch or of a scope of user code, runs
`~TcpConnection`, and with it the destructors of the two buffers (`Ends`); it need not be
the thread of the connection's loop (`destroyed_elsewhere`).
-/
import Mymuduo.Homes

namespace Mymuduo

open Transition

/-! ### Accesses -/

/-- The members without a lock. -/
inductive Field (ι : Type*)
  | inputBuffer_ (conn : Nat)
  | outputBuffer_ (conn : Nat)
  | events_ (conn : Nat)
  | index_ (conn : Nat)
  | channels_ (l : ι)
  | connections_
  | nextConnId_
  | next_
  deriving DecidableEq, Repr

/-- The thread that takes the step. -/
def ServerEvent.thread {ι α : Type*} (base : ι) : ServerEvent ι α → Thread ι α
  | .loop l _ _ | .dispatch l | .task l _ | .retrieve l _ _ => .loop l
  | .accept .. | .destroy | .destroyEntry _ | .destroyed => .loop base
  | .send t _ _ | .shutdown t _ | .proceed t _ | .copy _ t _ | .release t _ | .call _ t _ => t

namespace ServerSystem

variable {ι α : Type*}

/-- The thread that a member belongs to. -/
def owner (s : ServerSystem ι α) : Field ι → Thread ι α
  | .inputBuffer_ c | .outputBuffer_ c | .events_ c | .index_ c => .loop (s.conn c).home
  | .channels_ l => .loop l
  | .connections_ | .nextConnId_ | .next_ => .loop s.base

/-- What a member function of the connection may read and write. -/
def worked (s : ServerSystem ι α) (c : Nat) : List (Field ι) :=
  [.inputBuffer_ c, .outputBuffer_ c, .events_ c, .index_ c, .channels_ (s.conn c).home]

/-- A step changed the member, of a connection that had been constructed
before. -/
def Changed (s t : ServerSystem ι α) : Field ι → Prop
  | .inputBuffer_ c => c < s.count ∧ (t.conn c).tcp.inputBuffer_ ≠ (s.conn c).tcp.inputBuffer_
  | .outputBuffer_ c => c < s.count ∧ (t.conn c).tcp.outputBuffer_ ≠ (s.conn c).tcp.outputBuffer_
  | .events_ c =>
      c < s.count ∧ (t.conn c).tcp.channel_.events_ ≠ (s.conn c).tcp.channel_.events_
  | .index_ c => c < s.count ∧ (t.conn c).tcp.channel_.index_ ≠ (s.conn c).tcp.channel_.index_
  | .channels_ l => (t.poller l).channels_ ≠ (s.poller l).channels_
  | .connections_ => t.server.connections_ ≠ s.server.connections_
  | .nextConnId_ => t.server.nextConnId_ ≠ s.server.nextConnId_
  | .next_ => t.server.threadPool_.next_ ≠ s.server.threadPool_.next_

section Accesses

variable [DecidableEq ι] [DecidableEq α]

/-- What the code of the step reads or writes. -/
def operations (s : ServerSystem ι α) : ServerEvent ι α → List (Field ι)
  -- `poll` logs the size of the map
  | .loop l e _ => if e.fills then [.channels_ l] else []
  | .task l _ =>
      match (s.todo l).head? with
      | some (.call _ c) => s.worked c
      | some (.erase _) => [.connections_]
      | _ => []
  | .accept .. => [.connections_, .nextConnId_, .next_]
  | .proceed t _ =>
      match s.calling t with
      | .sendFound c _ | .shutdownStored c =>
          if (s.loops (s.conn c).home).isInLoopThread t then s.worked c else []
      | _ => []
  | .retrieve _ c _ => [.inputBuffer_ c]
  | .destroy | .destroyEntry _ | .destroyed => [.connections_]
  -- `state_` is atomic, and the queues have their mutex
  | .dispatch _ | .send .. | .shutdown .. | .copy .. | .release .. | .call .. => []

/-- The step destroys the connection: the last pointer to it goes. -/
def Destroys (s t : ServerSystem ι α) (c : Nat) : Prop := c < s.count ∧ s.Held c ∧ ¬ t.Held c

/-- The members that a step destroys, as far as their destructors do something. -/
def Ends (s t : ServerSystem ι α) : Field ι → Prop
  | .inputBuffer_ c | .outputBuffer_ c => s.Destroys t c
  | _ => False

/-- What the step reads or writes. -/
def Accesses (s : ServerSystem ι α) (e : ServerEvent ι α) (t : ServerSystem ι α)
    (f : Field ι) : Prop := f ∈ s.operations e ∨ s.Ends t f

end Accesses

theorem not_changed (s : ServerSystem ι α) (f : Field ι) : ¬ s.Changed s f := by
  cases f with
  | inputBuffer_ c => exact fun h => h.2 rfl
  | outputBuffer_ c => exact fun h => h.2 rfl
  | events_ c => exact fun h => h.2 rfl
  | index_ c => exact fun h => h.2 rfl
  | channels_ l => exact fun h => h rfl
  | connections_ => exact fun h => h rfl
  | nextConnId_ => exact fun h => h rfl
  | next_ => exact fun h => h rfl

/-- A new connection object, and what differs of it. -/
theorem changed_setTcp {s : ServerSystem ι α} {c : Nat} {k : TcpConnection} {f : Field ι}
    (h : s.Changed (s.setTcp c k) f) :
    (f = .inputBuffer_ c ∧ k.inputBuffer_ ≠ (s.conn c).tcp.inputBuffer_) ∨
    (f = .outputBuffer_ c ∧ k.outputBuffer_ ≠ (s.conn c).tcp.outputBuffer_) ∨
    (f = .events_ c ∧ k.channel_.events_ ≠ (s.conn c).tcp.channel_.events_) ∨
    (f = .index_ c ∧ k.channel_.index_ ≠ (s.conn c).tcp.channel_.index_) := by
  have hother : ∀ c', c' ≠ c → (s.setTcp c k).conn c' = s.conn c' :=
    fun c' hc => Function.update_of_ne hc _ _
  have hself : ((s.setTcp c k).conn c).tcp = k := by simp [setTcp]
  cases f with
  | inputBuffer_ c' =>
      by_cases hc : c' = c
      · subst hc
        exact .inl ⟨rfl, by simpa only [hself] using h.2⟩
      · exact absurd (by rw [hother c' hc]) h.2
  | outputBuffer_ c' =>
      by_cases hc : c' = c
      · subst hc
        exact .inr (.inl ⟨rfl, by simpa only [hself] using h.2⟩)
      · exact absurd (by rw [hother c' hc]) h.2
  | events_ c' =>
      by_cases hc : c' = c
      · subst hc
        exact .inr (.inr (.inl ⟨rfl, by simpa only [hself] using h.2⟩))
      · exact absurd (by rw [hother c' hc]) h.2
  | index_ c' =>
      by_cases hc : c' = c
      · subst hc
        exact .inr (.inr (.inr ⟨rfl, by simpa only [hself] using h.2⟩))
      · exact absurd (by rw [hother c' hc]) h.2
  | channels_ l => exact absurd rfl h
  | connections_ => exact absurd rfl h
  | nextConnId_ => exact absurd rfl h
  | next_ => exact absurd rfl h

variable [DecidableEq ι] [DecidableEq α]

/-- A member function changes its connection, and the map of its loop's
poller. -/
theorem changed_runConn {s : ServerSystem ι α} {th : Thread ι α} {c : Nat}
    {g : TcpConnection → TcpConnection} {f : Field ι} (h : s.Changed (s.runConn th c g) f) :
    s.Changed (s.setTcp c (g (s.tcp c))) f ∨
      f = .channels_ (s.conn c).home ∧
        (g (s.tcp c)).poller_.channels_ ≠ (s.tcp c).poller_.channels_ := by
  cases f with
  | channels_ l =>
      by_cases hl : l = (s.conn c).home
      · subst hl
        refine .inr ⟨rfl, ?_⟩
        simpa [Changed, runConn, setPoller, setLoop, tcp] using h
      · refine absurd ?_ h
        show (Function.update s.poller _ _ l).channels_ = _
        rw [Function.update_of_ne hl]
  | inputBuffer_ c' => exact .inl h
  | outputBuffer_ c' => exact .inl h
  | events_ c' => exact .inl h
  | index_ c' => exact .inl h
  | connections_ => exact .inl h
  | nextConnId_ => exact .inl h
  | next_ => exact .inl h

theorem worked_of_changed {s : ServerSystem ι α} {th : Thread ι α} {c : Nat}
    {g : TcpConnection → TcpConnection} {f : Field ι} (h : s.Changed (s.runConn th c g) f) :
    f ∈ s.worked c := by
  rcases changed_runConn h with h | ⟨rfl, -⟩
  · rcases changed_setTcp h with ⟨rfl, -⟩ | ⟨rfl, -⟩ | ⟨rfl, -⟩ | ⟨rfl, -⟩ <;> simp [worked]
  · simp [worked]

/-- `runInLoop` touches the queues and the tasks. -/
theorem changed_runInLoop {s t : ServerSystem ι α} {l : ι} {th : Thread ι α} {g : ServerFunctor}
    {f : Field ι} (h : s.Changed (t.runInLoop l th g) f) : s.Changed t f := by
  unfold runInLoop at h
  split at h
  · exact h
  · exact h

omit [DecidableEq ι] [DecidableEq α] in
theorem changed_erase {s : ServerSystem ι α} {nm : Text} {f : Field ι}
    (h : s.Changed { s with server := s.server.erase nm } f) : f = .connections_ := by
  cases f with
  | connections_ => rfl
  | inputBuffer_ c => exact absurd rfl h.2
  | outputBuffer_ c => exact absurd rfl h.2
  | events_ c => exact absurd rfl h.2
  | index_ c => exact absurd rfl h.2
  | channels_ l => exact absurd rfl h
  | nextConnId_ => exact absurd rfl h
  | next_ => exact absurd rfl h

variable {s t : ServerSystem ι α} {e : ServerEvent ι α} {f : Field ι}

/-- The functions that work on the connection without a write to the members
considered here. -/
theorem not_changed_runConn {th : Thread ι α} {c : Nat} {g : TcpConnection → TcpConnection}
    (hin : (g (s.tcp c)).inputBuffer_ = (s.tcp c).inputBuffer_)
    (hout : (g (s.tcp c)).outputBuffer_ = (s.tcp c).outputBuffer_)
    (hevents : (g (s.tcp c)).channel_.events_ = (s.tcp c).channel_.events_)
    (hindex : (g (s.tcp c)).channel_.index_ = (s.tcp c).channel_.index_)
    (hpoller : (g (s.tcp c)).poller_ = (s.tcp c).poller_) :
    ¬ s.Changed (s.runConn th c g) f := by
  intro h
  rcases changed_runConn h with h | ⟨-, hne⟩
  · rcases changed_setTcp h with ⟨-, hne⟩ | ⟨-, hne⟩ | ⟨-, hne⟩ | ⟨-, hne⟩
    · exact hne hin
    · exact hne hout
    · exact hne hevents
    · exact hne hindex
  · exact hne (by rw [hpoller])

/-- A task changes only what it is said to work on. -/
theorem operated_of_changed_task {l : ι} {env : TaskEnv} {k : Task} {rest : List Task}
    (htodo : s.todo l = k :: rest) (h : s.Changed ((s.setTodo l rest).runTask l env k) f) :
    f ∈ s.operations (.task l env) := by
  simp only [operations, htodo, List.head?_cons]
  cases k with
  | call m c =>
      have hrun : s.Changed ((s.setTodo l rest).runConn (.loop l) c (m.run env)) f := h
      exact worked_of_changed (s := s.setTodo l rest) hrun
  | erase c =>
      obtain rfl := changed_erase (s := s.setTodo l rest) h
      exact List.mem_singleton_self _
  | queueDestroyed c => exact absurd h (s.not_changed f)
  | testDestroyed c => exact absurd h (s.not_changed f)
  | closeCallback c => exact absurd (changed_runInLoop h) (s.not_changed f)
  | guard c => exact absurd h (s.not_changed f)
  | scope c => exact absurd h (s.not_changed f)
  | destructor => exact absurd h (s.not_changed f)

/-- What a step changes is among what its code works on. -/
theorem operated_of_changed (hm : s.Moves e t) (h : s.Changed t f) : f ∈ s.operations e := by
  cases hm with
  | loop l e ready x hidle htodo hactive hx => exact absurd h (s.not_changed f)
  | dispatch l c revents rest hidle htodo hactive =>
      have hrun : s.Changed (s.runConn (.loop l) c (·.setRevents revents)) f := h
      exact absurd hrun (not_changed_runConn rfl rfl rfl rfl rfl)
  | task l env k rest hidle htodo hk => exact operated_of_changed_task htodo h
  | accept sockfd wc hw mark hphase htodo =>
      have hc := changed_runInLoop h
      have hold : ∀ c < s.count, (s.construct sockfd wc hw mark).conn c = s.conn c :=
        fun c hc => Function.update_of_ne (Nat.ne_of_lt hc) _ _
      cases f with
      | inputBuffer_ c => exact absurd (by rw [hold c hc.1]) hc.2
      | outputBuffer_ c => exact absurd (by rw [hold c hc.1]) hc.2
      | events_ c => exact absurd (by rw [hold c hc.1]) hc.2
      | index_ c => exact absurd (by rw [hold c hc.1]) hc.2
      | channels_ l => exact absurd rfl hc
      | connections_ => simp [operations]
      | nextConnId_ => simp [operations]
      | next_ => simp [operations]
  | send th c data hidle huser => exact absurd h (s.not_changed f)
  | shutdown th c hidle huser => exact absurd h (s.not_changed f)
  | sendHere th w c data hcall hin =>
      simp only [operations, hcall, hin, if_true]
      have hrun : s.Changed ((s.setCalling th .idle).runConn th c (·.sendInLoop data w)) f := h
      exact worked_of_changed (s := s.setCalling th .idle) hrun
  | sendThere th w c data hcall hout => exact absurd h (s.not_changed f)
  | store th w c hcall =>
      rcases changed_setTcp h with ⟨-, hne⟩ | ⟨-, hne⟩ | ⟨-, hne⟩ | ⟨-, hne⟩ <;>
        exact absurd rfl hne
  | shutdownHere th w c hcall hin =>
      simp only [operations, hcall, hin, if_true]
      have hrun : s.Changed ((s.setCalling th .idle).runConn th c TcpConnection.shutdownInLoop) f :=
        h
      exact worked_of_changed (s := s.setCalling th .idle) hrun
  | shutdownThere th w c hcall hout => exact absurd h (s.not_changed f)
  | copy src th c hsrc => exact absurd h (s.not_changed f)
  | release th c hidle huser => exact absurd h (s.not_changed f)
  | retrieve l c len hidle hguard =>
      simp only [operations, List.mem_singleton]
      have hrun : s.Changed (s.runConn (.loop l) c (·.userCall (.retrieve len))) f := h
      rcases changed_runConn hrun with h | ⟨-, hne⟩
      · rcases changed_setTcp h with ⟨rfl, -⟩ | ⟨-, hne⟩ | ⟨-, hne⟩ | ⟨-, hne⟩
        · rfl
        · exact absurd rfl hne
        · exact absurd rfl hne
        · exact absurd rfl hne
      · exact absurd rfl hne
  | call l th c x hc hx => exact absurd h (s.not_changed f)
  | destroy hphase => exact absurd h (s.not_changed f)
  | destroyEntry c hidle hhead hcount htable =>
      obtain rfl := changed_erase (changed_runInLoop h)
      simp [operations]
  | destroyed hhead => exact absurd h (s.not_changed f)

omit [DecidableEq ι] [DecidableEq α] in
theorem owner_of_worked {l : ι} {c : Nat} (hc : (s.conn c).home = l) (hf : f ∈ s.worked c) :
    s.owner f = .loop l := by
  simp only [worked, List.mem_cons, List.not_mem_nil, or_false] at hf
  rcases hf with rfl | rfl | rfl | rfl | rfl <;> rw [← hc] <;> rfl

theorem Homed.owner_of_operated (h : s.Homed) (hm : s.Moves e t) (hf : f ∈ s.operations e) :
    s.owner f = e.thread s.base := by
  cases hm with
  | loop l e ready x hidle htodo hactive hx =>
      obtain ⟨-, hf⟩ := List.mem_ite_nil_right.mp hf
      obtain rfl := List.mem_singleton.mp hf
      rfl
  | task l env k rest hidle htodo hk =>
      have hhome := h.task l k (by simp [htodo])
      simp only [operations, htodo, List.head?_cons] at hf
      cases k with
      | call m c => exact owner_of_worked hhome.2 hf
      | erase c =>
          obtain rfl := List.mem_singleton.mp hf
          exact congrArg Thread.loop hhome.2.symm
      | _ => cases hf
  | accept sockfd wc hw mark hphase htodo =>
      simp only [operations, List.mem_cons, List.not_mem_nil, or_false] at hf
      rcases hf with rfl | rfl | rfl <;> rfl
  | sendHere th w c data hcall hin =>
      simp only [operations, hcall, hin, if_true] at hf
      rw [owner_of_worked rfl hf]
      exact (h.thread_eq hin).symm
  | sendThere th w c data hcall hout => simp [operations, hcall, hout] at hf
  | store th w c hcall => simp [operations, hcall] at hf
  | shutdownHere th w c hcall hin =>
      simp only [operations, hcall, hin, if_true] at hf
      rw [owner_of_worked rfl hf]
      exact (h.thread_eq hin).symm
  | shutdownThere th w c hcall hout => simp [operations, hcall, hout] at hf
  | retrieve l c len hidle hguard =>
      obtain rfl := List.mem_singleton.mp hf
      exact congrArg Thread.loop (h.task l _ hguard).2
  | destroy hphase =>
      obtain rfl := List.mem_singleton.mp hf
      rfl
  | destroyEntry c hidle hhead hcount htable =>
      obtain rfl := List.mem_singleton.mp hf
      rfl
  | destroyed hhead =>
      obtain rfl := List.mem_singleton.mp hf
      rfl
  | _ => cases hf

/-- **Thread confinement.**  In every run of the server, whatever its loops and
its application threads do, each step accesses the buffers, the channel and the
poller of a connection only in the thread of the connection's loop, and the
connection table and the counters of the server only in the thread of the base
loop, unless it destroys the connection: then the buffers end in the thread that takes
the step.  Whatever else the step does it does in the right thread, and all that it
changes is among that. -/
theorem thread_confinement (h : (serverMachine ι α).Reachable s)
    (hnext : (serverMachine ι α).next s e = some t) :
    (∀ f, s.Accesses e t f → s.owner f = e.thread s.base ∨ s.Ends t f) ∧
    (∀ f ∈ s.operations e, s.owner f = e.thread s.base) ∧
      ∀ f, s.Changed t f → f ∈ s.operations e := by
  have hs := homed_of_reachable h
  have hm := moves_of_next hnext
  refine ⟨?_, fun f => hs.owner_of_operated hm, fun f => operated_of_changed hm⟩
  exact fun f hf => hf.imp_left (hs.owner_of_operated hm)

/-- The base loop polls and accepts a connection for the loop of the pool, which
establishes it. -/
def acceptOne : List (ServerEvent Bool Unit) :=
  List.flatten
    [ServerEvent.turns false [.enterLoop, .testQuit, .poll false], [.accept 7 false false 0],
      ServerEvent.turns true [.enterLoop, .testQuit, .poll true, .handleRead, .handlersDone,
        .swapFunctors, .startFunctor]]

/-- `connectEstablished` runs in the thread of the connection's loop, and writes
the mask of the channel. -/
theorem thread_confinement_accept :
    ∃ s t : ServerSystem Bool Unit, (serverMachine Bool Unit).Reachable s ∧
      (serverMachine Bool Unit).next s (.task true quietTask) = some t ∧
      s.Changed t (.events_ 0) ∧ .events_ 0 ∈ s.operations (.task true quietTask) ∧
      s.owner (.events_ 0) = .loop true := by
  have hend : ((serverMachine Bool Unit).run
      (start ['s'] ⟨(127, 0, 0, 1), 80⟩ (.started false [true])) acceptOne).any fun s =>
        ((serverMachine Bool Unit).next s (.task true quietTask)).any fun t =>
          decide (0 < s.count ∧
            (t.conn 0).tcp.channel_.events_ ≠ (s.conn 0).tcp.channel_.events_) := by
    decide +kernel
  obtain ⟨s, hrun, hs⟩ := (Option.any_eq_true _ _).mp hend
  obtain ⟨t, hnext, ht⟩ := (Option.any_eq_true _ _).mp hs
  have hdiff := of_decide_eq_true ht
  have hchanged : s.Changed t (.events_ 0) := hdiff
  have hreach : (serverMachine Bool Unit).Reachable s := ⟨_, acceptOne, init_start .., hrun⟩
  obtain ⟨-, howner, hoperated⟩ := thread_confinement hreach hnext
  have hmem := hoperated _ hchanged
  exact ⟨s, t, hreach, hnext, hchanged, hmem, howner _ hmem⟩

/-- The peer of a connection of the pool's loop goes, the base loop removes the
connection, and `connectDestroyed` has run and its batch has ended while the batch of the
base loop has not. -/
def lastInBase : List (ServerEvent Bool Unit) :=
  List.flatten
    [peerCloses, ServerEvent.turns false [.handlersDone, .swapFunctors, .startFunctor],
      [.task false quietTask, .task false quietTask], ServerEvent.turns false [.functorDone],
      ServerEvent.turns true [.handlersDone, .swapFunctors, .startFunctor],
      [.task true quietTask, .task true quietTask],
      ServerEvent.turns true [.functorDone, .batchDone]]

/-- The base loop drops its batch, and with it the connection: the buffers are destroyed
in its thread. -/
theorem destroyed_elsewhere :
    ∃ s t : ServerSystem Bool Unit, (serverMachine Bool Unit).Reachable s ∧
      (serverMachine Bool Unit).next s (.loop false .batchDone []) = some t ∧
      s.Accesses (.loop false .batchDone []) t (.inputBuffer_ 0) ∧
      s.Accesses (.loop false .batchDone []) t (.outputBuffer_ 0) ∧
      s.owner (.inputBuffer_ 0) = .loop true ∧ s.owner (.outputBuffer_ 0) = .loop true ∧
      (ServerEvent.loop false .batchDone [] : ServerEvent Bool Unit).thread s.base
        = .loop false := by
  have hend : ((serverMachine Bool Unit).run
      (start ['s'] ⟨(127, 0, 0, 1), 80⟩ (.started false [true])) lastInBase).any fun s =>
        ((serverMachine Bool Unit).next s (.loop false .batchDone [])).any fun t =>
          decide ((0 < s.count ∧ s.Held 0 ∧ ¬ t.Held 0) ∧ (s.conn 0).home = true) := by
    decide +kernel
  obtain ⟨s, hrun, hs⟩ := (Option.any_eq_true _ _).mp hend
  obtain ⟨t, hnext, ht⟩ := (Option.any_eq_true _ _).mp hs
  obtain ⟨hends, hhome⟩ := of_decide_eq_true ht
  have howner : Thread.loop (s.conn 0).home = (.loop true : Thread Bool Unit) :=
    congrArg Thread.loop hhome
  exact ⟨s, t, ⟨_, lastInBase, init_start .., hrun⟩, hnext, .inr hends, .inr hends, howner,
    howner, rfl⟩

end ServerSystem

end Mymuduo
