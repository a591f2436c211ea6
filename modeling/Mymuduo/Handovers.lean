/-
Mymuduo/Handovers.lean

Where a task and a functor come from.

Work on a connection changes hands: from an active channel to the tasks of its
event, from a task to a functor of another loop, from a functor to the tasks of
the thread that runs it.  `NewTask` and `NewFunctor` list these hand-overs, each
with what was there before the step.

What a step does to one loop and the tasks of its thread is said once
(`shifts_of_moves`): the loop goes on itself, or it is given new functors and its
thread new tasks, and loses at most the task that has run.  Where a task or a
functor comes from (`task_of_moves`, `waiting_of_moves`) and how long it stays
(`task_stays`, `waiting_stays`) follows from that.
-/
import Mymuduo.Homes

namespace Mymuduo

open Transition

namespace ServerSystem

variable {ι α : Type*} [DecidableEq ι] [DecidableEq α]

/-! ### Tasks -/

/-- The tasks that a step gives to the thread of a loop. -/
inductive NewTask (s : ServerSystem ι α) : ServerEvent ι α → ι → Task → Prop
  | started (l : ι) (ready : List (Int × Mask)) (f : ServerFunctor) (k : Task)
      (hf : f ∈ (s.loops l).waiting) (htodo : s.todo l = []) (hactive : s.active l = [])
      (hk : k ∈ f.tasks) : NewTask s (.loop l .startFunctor ready) l k
  | event (l : ι) (c : Nat) (revents : Mask) (rest : List (ChannelPtr × Mask)) (k : Task)
      (hactive : s.active l = (c, revents) :: rest) (htodo : s.todo l = [])
      (hk : k ∈ eventTasks c (s.conn c).tcp.channel_.tied_ revents) :
      NewTask s (.dispatch l) l k
  | next (l : ι) (env : TaskEnv) (m : Member) (c : Nat) (rest : List Task) (k : Task)
      (htodo : s.todo l = .call m c :: rest) (hk : k ∈ m.next env c (s.tcp c)) :
      NewTask s (.task l env) l k
  | erased (l : ι) (env : TaskEnv) (c : Nat) (rest : List Task)
      (htodo : s.todo l = .erase c :: rest) : NewTask s (.task l env) l (.queueDestroyed c)
  | tested (l : ι) (env : TaskEnv) (c : Nat) (rest : List Task)
      (htodo : s.todo l = .testDestroyed c :: rest) : NewTask s (.task l env) l
        (.call (if (s.tcp c).state_ = .kConnected then .markDestroyed else .removeChannel) c)
  | closed (l : ι) (env : TaskEnv) (c : Nat) (rest : List Task) (k : Task)
      (htodo : s.todo l = .closeCallback c :: rest) (hk : k = .erase c ∨ k = .scope c) :
      NewTask s (.task l env) l k
  | accepted (sockfd : Int) (wc hw : Bool) (mark : Nat) (k : Task)
      (hk : k = .call .connectEstablished s.count ∨ k = .scope s.count) :
      NewTask s (.accept sockfd wc hw mark) s.base k
  | destructor : NewTask s .destroy s.base .destructor
  | torn (c : Nat) (k : Task) (hhead : (s.todo s.base).head? = some .destructor)
      (hk : k = .testDestroyed c ∨ k = .scope c) : NewTask s (.destroyEntry c) s.base k

variable {s t : ServerSystem ι α} {e : ServerEvent ι α} {l : ι}

/-! ### Functors -/

/-- The functors that a step queues in a loop. -/
inductive NewFunctor (s : ServerSystem ι α) : ServerEvent ι α → ι → ServerFunctor → Prop
  | callback (e : ServerEvent ι α) (l : ι) (c : Nat) (cb : QueuedCallback) :
      NewFunctor s e l (.callback c cb)
  | foreign (e : ServerEvent ι α) (l : ι) : NewFunctor s e l .other
  | established (sockfd : Int) (wc hw : Bool) (mark : Nat) (l : ι)
      (hl : l ≠ s.base) : NewFunctor s (.accept sockfd wc hw mark) l (.connectEstablished s.count)
  | removed (l : ι) (env : TaskEnv) (c : Nat) (rest : List Task)
      (htodo : s.todo l = .closeCallback c :: rest) :
      NewFunctor s (.task l env) s.base (.removeConnectionInLoop c)
  | destroyed (l : ι) (env : TaskEnv) (c : Nat) (rest : List Task)
      (htodo : s.todo l = .queueDestroyed c :: rest) :
      NewFunctor s (.task l env) (s.conn c).home (.connectDestroyed c)
  | sent (th : Thread ι α) (w : WriteResult) (c : Nat) (data : List Byte)
      (hcall : s.calling th = .sendFound c data) (hth : th ≠ .loop (s.conn c).home) :
      NewFunctor s (.proceed th w) (s.conn c).home (.sendInLoop c data.length)
  | shut (th : Thread ι α) (w : WriteResult) (c : Nat)
      (hcall : s.calling th = .shutdownStored c) (hth : th ≠ .loop (s.conn c).home) :
      NewFunctor s (.proceed th w) (s.conn c).home (.shutdownInLoop c)
  | torn (c : Nat) (hhead : (s.todo s.base).head? = some .destructor) :
      NewFunctor s (.destroyEntry c) (s.conn c).home (.connectDestroyed c)

/-- A thread that `isInLoopThread` rejects is another one. -/
theorem Homed.thread_ne (hs : s.Homed) {th : Thread ι α}
    (hout : (s.loops l).isInLoopThread th = false) : th ≠ .loop l := by
  rintro rfl
  rw [EventLoop.isInLoopThread, hs.thread l] at hout
  simp at hout

/-! ### One loop -/

/-- What becomes of the tasks of loop `l`: the new ones come first, and the one
that has run is gone. -/
inductive Retasks (s : ServerSystem ι α) (e : ServerEvent ι α) (l : ι) (ks : List Task) : Prop
  | keep (new : List Task) (hnew : ∀ k ∈ new, s.NewTask e l k) (hks : ks = new ++ s.todo l)
  | run (env : TaskEnv) (k : Task) (rest new : List Task) (he : e = .task l env)
      (htodo : s.todo l = k :: rest) (hnew : ∀ k' ∈ new, s.NewTask e l k') (hks : ks = new ++ rest)
  | destroyed (he : e = .destroyed) (htodo : s.todo l = .destructor :: ks)

/-- What becomes of loop `l` when it does not go on itself: new functors come to
its queue. -/
inductive Requeues (s : ServerSystem ι α) (e : ServerEvent ι α) (l : ι)
    (x : EventLoop ServerFunctor (Thread ι α)) : Prop
  | push (new : List ServerFunctor) (hnew : ∀ f ∈ new, s.NewFunctor e l f)
      (hpending : x.pending = (s.loops l).pending ++ new) (hbatch : x.batch = (s.loops l).batch)
      (hrest : x.rest = (s.loops l).rest)

/-- What a step does to loop `l` and the tasks of its thread. -/
inductive Shifts (s : ServerSystem ι α) (e : ServerEvent ι α) (l : ι)
    (x : EventLoop ServerFunctor (Thread ι α)) (ks : List Task) : Prop
  | loop (e' : LoopStep) (ready : List (Int × Mask)) (he : e = .loop l e' ready)
      (htodo : s.todo l = []) (hactive : e' = .handleRead ∨ s.active l = [])
      (hx : (s.loops l).Hands (.loop e') x) (hks : ks = startedTasks e' x)
  | other (he : ∀ e' ready, e ≠ .loop l e' ready) (hx : s.Requeues e l x)
      (hks : s.Retasks e l ks)

section Pieces

variable {l' : ι}

omit [DecidableEq ι] [DecidableEq α] in
theorem Retasks.same : s.Retasks e l (s.todo l) := .keep [] (by simp) rfl

omit [DecidableEq α] in
theorem Retasks.update {ks : List Task} (h : s.Retasks e l' ks) :
    s.Retasks e l (Function.update s.todo l' ks l) := by
  by_cases hl : l = l'
  · subst hl
    rwa [Function.update_self]
  · rw [Function.update_of_ne hl]
    exact .same

omit [DecidableEq ι] [DecidableEq α] in
theorem Requeues.same : s.Requeues e l (s.loops l) :=
  .push [] (by simp) (List.append_nil _).symm rfl rfl

theorem Requeues.posts {th : Thread ι α} {fs : List ServerFunctor}
    (hfs : ∀ f ∈ fs, s.NewFunctor e l' f) :
    s.Requeues e l (Function.update s.loops l' ((s.loops l').posts th fs) l) := by
  have hp := (s.loops l').posted_posts th fs
  by_cases hl : l = l'
  · subst hl
    rw [Function.update_self]
    exact .push fs hfs hp.pending hp.batch hp.rest
  · rw [Function.update_of_ne hl]
    exact .same

theorem Requeues.post {th : Thread ι α} {f : ServerFunctor} (hf : s.NewFunctor e l' f) :
    s.Requeues e l (Function.update s.loops l' ((s.loops l').post th f) l) := by
  have hfs : ∀ g ∈ [f], s.NewFunctor e l' g := by simpa using hf
  exact .posts hfs

/-- A member function queues callbacks. -/
theorem Requeues.runConn {u : ServerSystem ι α} (hu : u.loops = s.loops) (th : Thread ι α)
    (c : Nat) (g : TcpConnection → TcpConnection) :
    s.Requeues e l ((u.runConn th c g).loops l) := by
  show s.Requeues e l (Function.update u.loops (u.conn c).home _ l)
  rw [hu]
  refine Requeues.posts fun f hf => ?_
  obtain ⟨cb, -, rfl⟩ := List.mem_map.mp hf
  exact .callback e _ c cb

theorem Requeues.runInLoop {u : ServerSystem ι α} (hu : u.loops = s.loops) {th : Thread ι α}
    {f : ServerFunctor} (hf : (s.loops l').isInLoopThread th = false → s.NewFunctor e l' f) :
    s.Requeues e l ((u.runInLoop l' th f).loops l) := by
  unfold ServerSystem.runInLoop
  rw [hu]
  split
  · show s.Requeues e l (u.loops l)
    rw [hu]
    exact .same
  · rename_i hout
    show s.Requeues e l (Function.update u.loops l' ((u.loops l').post th f) l)
    rw [hu]
    exact .post (hf (Bool.eq_false_of_not_eq_true hout))

theorem Retasks.runInLoop {u : ServerSystem ι α} (hloops : u.loops = s.loops)
    (htodo : u.todo = s.todo) {th : Thread ι α} {f : ServerFunctor}
    (hin : (s.loops l').isInLoopThread th = true → ∀ k ∈ f.tasks ++ f.scope, s.NewTask e l' k) :
    s.Retasks e l ((u.runInLoop l' th f).todo l) := by
  unfold ServerSystem.runInLoop
  rw [hloops]
  split
  · rename_i hthread
    show s.Retasks e l (Function.update u.todo l' (f.tasks ++ f.scope ++ u.todo l') l)
    rw [htodo]
    exact Retasks.update (.keep _ (hin hthread) rfl)
  · show s.Retasks e l (u.todo l)
    rw [htodo]
    exact .same

end Pieces

/-! ### One task -/

section Task

variable (hs : s.Homed) {l' : ι} {env : TaskEnv} {k : Task} {rest : List Task}
  (htodo : s.todo l' = k :: rest)
include hs htodo

/-- The task that has run is gone, and what it hands over to its own thread comes
next. -/
theorem Retasks.runTask :
    s.Retasks (.task l' env) l (((s.setTodo l' rest).runTask l' env k).todo l) := by
  have hrun : ∀ new, (∀ k' ∈ new, s.NewTask (.task l' env) l' k') →
      s.Retasks (.task l' env) l (Function.update (Function.update s.todo l' rest) l'
        (new ++ Function.update s.todo l' rest l') l) := by
    intro new hnew
    rw [Function.update_self, Function.update_idem]
    exact Retasks.update (.run env k rest new rfl htodo hnew rfl)
  have hgone : s.Retasks (.task l' env) l (Function.update s.todo l' rest l) :=
    Retasks.update (.run env k rest [] rfl htodo (by simp) rfl)
  cases k with
  | call m c => exact hrun _ fun k' hk' => .next l' env m c rest k' htodo hk'
  | erase c =>
      refine hrun [.queueDestroyed c] fun k' hk' => ?_
      obtain rfl := List.mem_singleton.mp hk'
      exact .erased l' env c rest htodo
  | queueDestroyed c => exact hgone
  | testDestroyed c =>
      refine hrun [.call _ c] fun k' hk' => ?_
      obtain rfl := List.mem_singleton.mp hk'
      exact .tested l' env c rest htodo
  | closeCallback c =>
      show s.Retasks _ l (((s.setTodo l' rest).runInLoop s.base (.loop l')
        (.removeConnectionInLoop c)).todo l)
      unfold ServerSystem.runInLoop
      split
      · -- inline only if the loop is the base loop itself
        rename_i hin
        have hl : l' = s.base := Thread.loop.inj (hs.thread_eq hin)
        rw [← hl]
        refine hrun [.erase c, .scope c] fun k' hk' => ?_
        exact .closed l' env c rest k' htodo (by simpa using hk')
      · exact hgone
  | guard c => exact hgone
  | scope c => exact hgone
  | destructor => exact hgone

omit hs in
theorem Requeues.runTask :
    s.Requeues (.task l' env) l (((s.setTodo l' rest).runTask l' env k).loops l) := by
  cases k with
  | call m c => exact Requeues.runConn (s := s) (u := s.setTodo l' rest) rfl (.loop l') c (m.run env)
  | queueDestroyed c => exact Requeues.post (.destroyed l' env c rest htodo)
  | closeCallback c =>
      exact Requeues.runInLoop (s := s) (u := s.setTodo l' rest) rfl fun _ =>
        .removed l' env c rest htodo
  | _ => exact .same

end Task

/-! ### One step -/

omit [DecidableEq ι] [DecidableEq α] in
/-- The tasks that a step of a loop gives its thread are those of a functor. -/
theorem started_of_hands {x x' : EventLoop ServerFunctor (Thread ι α)} {e : LoopStep}
    (hx : x.Hands (.loop e) x') {k : Task} (hk : k ∈ startedTasks e x') :
    e = .startFunctor ∧ ∃ f ∈ x.waiting, k ∈ f.tasks := by
  cases hx with
  | start q _ rest hpc _ _ hrest _ =>
      have hrunning : x'.running = some q.functor := by simp only [EventLoop.running, hpc]
      refine ⟨rfl, q.functor, ?_, by simpa [startedTasks, hrunning] using hk⟩
      rw [EventLoop.waiting, hrest]
      simp
  | keep _ _ _ _ _ _ he =>
      cases e <;> first | cases hk | exact absurd rfl he
  | swap _ _ _ _ _ _ => cases hk
  | endBatch _ _ _ _ _ _ => cases hk

/-- A call that queues nothing of the server. -/
theorem Requeues.call (hs : s.Homed) {l' : ι} {th : Thread ι α} {c : Call ServerFunctor}
    {x : EventLoop ServerFunctor (Thread ι α)} (hc : c.isForeign = true)
    (hx : (s.loops l').next (.call th c) = some x) :
    s.Requeues e l (Function.update s.loops l' x l) := by
  by_cases hl : l = l'
  · subst hl
    rw [Function.update_self]
    cases EventLoop.hands_of_step (hs.kempt l) (EventLoop.step_of_next hx) with
    | keep _ _ hpending hbatch hrest _ _ =>
        exact .push [] (by simp) (hpending.trans (List.append_nil _).symm) hbatch hrest
    | push f _ _ _ hpush hpending hbatch hrest _ =>
        refine .push [f] (fun g hg => ?_) hpending hbatch hrest
        obtain rfl := List.mem_singleton.mp hg
        rcases hpush with rfl | rfl
        · cases g with
          | other => exact .foreign e l
          | _ => cases hc
        · cases hc
  · rw [Function.update_of_ne hl]
    exact .same

/-- **What a step does to a loop**: it goes on itself, or is given functors and
tasks and loses the task that has run. -/
theorem shifts_of_moves (hs : s.Homed) (hm : s.Moves e t) (l : ι) :
    s.Shifts e l (t.loops l) (t.todo l) := by
  cases hm with
  | loop l' e' ready x hidle htodo hactive hx =>
      by_cases hl : l = l'
      · subst hl
        have hhands := EventLoop.hands_of_step (hs.kempt l) (EventLoop.step_of_next hx)
        refine .loop e' ready rfl htodo hactive ?_ ?_
        · show (s.loops l).Hands _ (Function.update s.loops l x l)
          rwa [Function.update_self]
        · show Function.update s.todo l (startedTasks e' x) l
            = startedTasks e' (Function.update s.loops l x l)
          rw [Function.update_self, Function.update_self]
      · refine .other (fun _ _ heq => hl (ServerEvent.loop.inj heq).1.symm) ?_ ?_
        · show s.Requeues _ l (Function.update s.loops l' x l)
          rw [Function.update_of_ne hl]
          exact .same
        · show s.Retasks _ l (Function.update s.todo l' _ l)
          rw [Function.update_of_ne hl]
          exact .same
  | dispatch l' c revents rest hidle htodo hactive =>
      refine .other (by simp) (Requeues.runConn rfl (.loop l') c (·.setRevents revents))
        (Retasks.update ?_)
      refine .keep _ (fun k hk => .event l' c revents rest k hactive htodo hk) ?_
      rw [htodo, List.append_nil]
  | task l' env k rest hidle htodo hk => exact .other (by simp) (.runTask htodo) (.runTask hs htodo)
  | accept sockfd wc hw mark hphase htodo =>
      let s' := s.construct sockfd wc hw mark
      refine .other (by simp) (Requeues.runInLoop (s := s) (u := s') rfl fun hout => ?_)
        (Retasks.runInLoop (s := s) (u := s') rfl rfl fun hin k hk => ?_)
      · exact .established sockfd wc hw mark _ fun heq => hs.thread_ne hout (by rw [heq])
      · have hbase : s.base = (s'.conn s.count).home := Thread.loop.inj (hs.thread_eq hin)
        rw [← hbase]
        exact .accepted sockfd wc hw mark k
          ((List.mem_append.mp hk).imp List.mem_singleton.mp List.mem_singleton.mp)
  | sendHere th w c data hcall hin =>
      exact .other (by simp) (Requeues.runConn (s := s) (u := s.setCalling th .idle) rfl th c
        (·.sendInLoop data w)) .same
  | sendThere th w c data hcall hout =>
      exact .other (by simp) (Requeues.post (.sent th w c data hcall (hs.thread_ne hout))) .same
  | shutdownHere th w c hcall hin =>
      exact .other (by simp) (Requeues.runConn (s := s) (u := s.setCalling th .idle) rfl th c
        TcpConnection.shutdownInLoop) .same
  | shutdownThere th w c hcall hout =>
      exact .other (by simp) (Requeues.post (.shut th w c hcall (hs.thread_ne hout))) .same
  | retrieve l' c len hidle hguard =>
      exact .other (by simp) (Requeues.runConn rfl (.loop l') c (·.userCall (.retrieve len))) .same
  | call l' th c x hc hx => exact .other (by simp) (Requeues.call hs hc hx) .same
  | destroy hphase =>
      refine .other (by simp) .same (Retasks.update (.keep [.destructor] (fun k hk => ?_) rfl))
      obtain rfl := List.mem_singleton.mp hk
      exact .destructor
  | destroyEntry c hidle hhead hcount htable =>
      let s' := { s with server := s.server.erase (s.conn c).name }
      refine .other (by simp) (Requeues.runInLoop (s := s) (u := s') rfl fun _ => .torn c hhead)
        (Retasks.runInLoop (s := s) (u := s') rfl rfl fun hin k hk => ?_)
      have hbase : s.base = (s.conn c).home := Thread.loop.inj (hs.thread_eq hin)
      rw [← hbase]
      exact .torn c k hhead ((List.mem_append.mp hk).imp List.mem_singleton.mp List.mem_singleton.mp)
  | destroyed hhead =>
      refine .other (by simp) .same (Retasks.update (.destroyed rfl ?_))
      obtain ⟨rest, hrest⟩ := List.head?_eq_some_iff.mp hhead
      rw [hrest]
      rfl
  | _ => exact .other (by simp) .same .same

/-! ### Where they come from, and how long they stay -/

/-- A task that is there after a step was there before, or is new. -/
theorem task_of_moves (hs : s.Homed) (hm : s.Moves e t) {k : Task} (hk : k ∈ t.todo l) :
    k ∈ s.todo l ∨ s.NewTask e l k := by
  cases shifts_of_moves hs hm l with
  | loop e' ready he htodo hactive hx hks =>
      rw [hks] at hk
      obtain ⟨rfl, f, hf, hmem⟩ := started_of_hands hx hk
      rw [he]
      exact .inr (.started l ready f k hf htodo (hactive.resolve_left (by simp)) hmem)
  | other _ _ hks =>
      cases hks with
      | keep new hnew hks =>
          rw [hks] at hk
          exact (List.mem_append.mp hk).symm.imp id (hnew k)
      | run env k' rest new _ htodo hnew hks =>
          rw [hks] at hk
          rw [htodo]
          exact (List.mem_append.mp hk).symm.imp (List.mem_cons_of_mem _) (hnew k)
      | destroyed _ htodo =>
          rw [htodo]
          exact .inl (List.mem_cons_of_mem _ hk)

/-- A functor that waits after a step was waiting before it, or is new. -/
theorem waiting_of_moves (hs : s.Homed) (hm : s.Moves e t) {f : ServerFunctor}
    (hf : f ∈ (t.loops l).waiting) : f ∈ (s.loops l).waiting ∨ s.NewFunctor e l f := by
  cases shifts_of_moves hs hm l with
  | loop e' ready he htodo hactive hx hks =>
      rcases hx.waiting_before hf with hold | ⟨th, c, hcall, -⟩
      · exact .inl hold
      · cases hcall
  | other _ hx _ =>
      obtain ⟨new, hnew, hpending, -, hrest⟩ := hx
      rw [EventLoop.waiting, hpending, hrest, List.append_assoc] at hf
      simp only [List.mem_append] at hf
      rcases hf with hold | hmem | hold
      · exact .inl (List.mem_append_left _ hold)
      · exact .inr (hnew f hmem)
      · exact .inl (List.mem_append_right _ hold)

/-! ### The life of a server -/

/-- The server is not destroyed, and fewer than 2^31 connections have been
accepted. -/
def InService (s : ServerSystem ι α) : ServerEvent ι α → Prop
  | .accept .. => s.count < 2 ^ 31
  | .destroy => False
  | _ => True

instance (s : ServerSystem ι α) (e : ServerEvent ι α) : Decidable (s.InService e) := by
  cases e <;> unfold InService <;> infer_instance

/-- What holds while the server is in service. -/
structure Steady (s : ServerSystem ι α) : Prop where
  homed : s.Homed
  named : s.Named
  bound : s.count ≤ 2 ^ 31
  standing : ∀ l, .destructor ∉ s.todo l

theorem steady_of_init (h : (serverMachine ι α).init s) : s.Steady := by
  obtain ⟨-, -, hcount, -, -, -, htodo, -⟩ := id h
  exact ⟨homed_of_init h, named_of_init h, by simp [hcount], by simp [htodo]⟩

omit [DecidableEq ι] [DecidableEq α] in
/-- A server in service is given no task of the destructor. -/
theorem NewTask.ne_destructor {k : Task} (h : s.NewTask e l k) (he : s.InService e) :
    k ≠ .destructor := by
  rintro rfl
  cases h with
  | started l ready f k hf htodo hactive hk => cases f <;> simp [ServerFunctor.tasks] at hk
  | event l c revents rest k hactive htodo hk => simp [eventTasks] at hk
  | next l env m c rest k htodo hk =>
      unfold Member.next at hk
      split at hk <;> simp at hk
  | closed l env c rest k htodo hk => simp at hk
  | accepted sockfd wc hw mark k hk => simp at hk
  | torn c k hhead hk => simp at hk
  | destructor => exact he

theorem Steady.step (h : s.Steady) (he : s.InService e) (hm : s.Moves e t) : t.Steady := by
  refine ⟨h.homed.step hm, h.named.step hm, ?_, fun l hmem => ?_⟩
  · cases renames_of_moves hm with
    | keep _ _ _ hcount =>
        rw [hcount]
        exact h.bound
    | accept hevent _ _ _ hcount _ =>
        obtain ⟨sockfd, wc, hw, mark, rfl⟩ := hevent
        rw [hcount]
        exact he
  · rcases task_of_moves h.homed hm hmem with hold | hnew
    · exact h.standing l hold
    · exact hnew.ne_destructor he rfl

/-- A task stays until it is run. -/
theorem task_stays (hs : s.Steady) (hm : s.Moves e t) {k : Task} (hk : k ∈ s.todo l) :
    k ∈ t.todo l ∨ ∃ env rest, e = .task l env ∧ s.todo l = k :: rest := by
  cases shifts_of_moves hs.homed hm l with
  | loop _ _ _ htodo _ _ _ =>
      rw [htodo] at hk
      cases hk
  | other _ _ hks =>
      cases hks with
      | keep new hnew hks =>
          rw [hks]
          exact .inl (List.mem_append_right _ hk)
      | run env k' rest new he htodo hnew hks =>
          rw [htodo] at hk ⊢
          rcases List.mem_cons.mp hk with rfl | hmem
          · exact .inr ⟨env, rest, he, rfl⟩
          · rw [hks]
            exact .inl (List.mem_append_right _ hmem)
      | destroyed _ htodo => exact absurd (by simp [htodo]) (hs.standing l)

/-- A functor waits until it is started, and then its tasks are there. -/
theorem waiting_stays (hs : s.Steady) (hm : s.Moves e t) {f : ServerFunctor}
    (hf : f ∈ (s.loops l).waiting) :
    f ∈ (t.loops l).waiting ∨ ∀ k ∈ f.tasks, k ∈ t.todo l := by
  cases shifts_of_moves hs.homed hm l with
  | loop e' ready he htodo hactive hx hks =>
      rcases hx.mem_waiting hf with hwait | ⟨hstart, hrunning⟩
      · exact .inl hwait
      · obtain rfl := LoopEvent.loop.inj hstart
        rw [hks]
        show _ ∨ ∀ k ∈ f.tasks, k ∈ ((t.loops l).running.map ServerFunctor.tasks).getD []
        rw [hrunning]
        exact .inr fun _ => id
  | other _ hx _ =>
      obtain ⟨new, hnew, hpending, -, hrest⟩ := hx
      left
      rw [EventLoop.waiting, hpending, hrest]
      rcases List.mem_append.mp hf with hf | hf
      · exact List.mem_append_left _ (List.mem_append_left _ hf)
      · exact List.mem_append_right _ hf

end ServerSystem

end Mymuduo
