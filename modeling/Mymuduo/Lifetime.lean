/-
Mymuduo/Lifetime.lean

The functors of `send` and `shutdown` do not own their connection.

`std::bind(&TcpConnection::sendInLoop, this, ..)` binds an address where the
functors of the server bind a `TcpConnectionPtr`.  From another thread the
functor is queued while the caller has a pointer; when it is run, the connection
exists only if some pointer outlived the caller's.

As long as `connectDestroyed` of the connection has not been queued (`Removing`),
the server has a pointer, and the functor that will be queued stands behind the
functors that are there already.  Afterwards a functor is safe if another one
that owns the connection is in the queue or in the batch with it (`Escorted`).
The caller may release its pointer in these two cases and in no other
(`raw_functors_run_held`): the server never lets such a functor down.
-/
import Mymuduo.Handovers

namespace Mymuduo

open Transition

/-- The connection whose address the functor has bound. -/
def ServerFunctor.raw : ServerFunctor → Option Nat
  | .sendInLoop c _ | .shutdownInLoop c => some c
  | _ => none

/-- The connection that a functor of `send` or `shutdown` is about to work on. -/
def Task.raw : Task → Option Nat
  | .call (.sendInLoop _) c | .call .shutdownInLoop c => some c
  | _ => none

theorem ServerFunctor.raw_tasks {f : ServerFunctor} {k : Task} {c : Nat} (hk : k ∈ f.tasks)
    (hc : k.raw = some c) : f.raw = some c := by
  cases f with
  | sendInLoop c' len => obtain rfl := List.mem_singleton.mp hk; exact hc
  | shutdownInLoop c' => obtain rfl := List.mem_singleton.mp hk; exact hc
  | connectEstablished c' => obtain rfl := List.mem_singleton.mp hk; cases hc
  | removeConnectionInLoop c' => obtain rfl := List.mem_singleton.mp hk; cases hc
  | connectDestroyed c' => obtain rfl := List.mem_singleton.mp hk; cases hc
  | callback c' cb => cases hk
  | other => cases hk

theorem ServerFunctor.raw_scope {f : ServerFunctor} {k : Task} (hk : k ∈ f.scope) :
    k.raw = none := by
  unfold ServerFunctor.scope at hk
  split at hk
  · obtain rfl := List.mem_singleton.mp hk
    rfl
  · cases hk

theorem Member.raw_next {m : Member} {env : TaskEnv} {c : Nat} {k : TcpConnection} {k' : Task}
    (hk : k' ∈ m.next env c k) : k'.raw = none := by
  unfold Member.next at hk
  split at hk
  · obtain rfl := List.mem_singleton.mp hk
    rfl
  · obtain rfl := List.mem_singleton.mp hk
    rfl
  · split at hk
    · obtain rfl := List.mem_singleton.mp hk
      rfl
    · cases hk
  · split at hk
    · obtain rfl := List.mem_singleton.mp hk
      rfl
    · cases hk
  · cases hk

theorem raw_eventTasks {c : Nat} {tied : Bool} {revents : Mask} {k : Task}
    (hk : k ∈ eventTasks c tied revents) : k.raw = none := by
  simp only [eventTasks, List.mem_append, List.mem_ite_nil_right, List.mem_singleton] at hk
  rcases hk with (((⟨-, rfl⟩ | ⟨-, rfl⟩) | ⟨-, rfl⟩) | ⟨-, rfl⟩) | ⟨-, rfl⟩ <;> rfl

namespace ServerSystem

variable {ι α : Type*}

/-! ### What outlives a functor -/

/-- `connectDestroyed` of the connection is still to be queued: the connection is
in the table, or on its way out. -/
def Removing (s : ServerSystem ι α) (c : Nat) : Prop :=
  s.InTable c ∨ .removeConnectionInLoop c ∈ (s.loops s.base).waiting ∨
    .erase c ∈ s.todo s.base ∨ .queueDestroyed c ∈ s.todo s.base

/-- Beside the functors of a loop that have bound the address of the connection
there is one that owns it: in the queue beside those in the queue, in the queue
or the batch beside those of the batch and the task of one that is running. -/
structure Escort (x : EventLoop ServerFunctor (Thread ι α)) (ks : List Task) (c : Nat) :
    Prop where
  queued : ∀ f ∈ x.pending, f.raw = some c → ∃ g ∈ x.pending, g.pointer = some c
  batched : ((∃ f ∈ x.rest, f.raw = some c) ∨ ∃ k ∈ ks, k.raw = some c) →
    ∃ g ∈ x.functors, g.pointer = some c

def Escorted (s : ServerSystem ι α) (c : Nat) : Prop :=
  Escort (s.loops (s.conn c).home) (s.todo (s.conn c).home) c

/-- The server keeps the connection until its functors have run. -/
def Sheltered (s : ServerSystem ι α) (c : Nat) : Prop := s.Removing c ∨ s.Escorted c

/-- User code has a pointer. -/
def UserHeld (s : ServerSystem ι α) (c : Nat) : Prop := ∃ t, (t, c) ∈ s.users

theorem Removing.held {s : ServerSystem ι α} {c : Nat} (h : s.Removing c) : s.Held c := by
  rcases h with htable | hwaiting | htask | htask
  · exact .inl htable
  · exact .inr (.inl ⟨_, _, EventLoop.mem_functors_of_waiting hwaiting, rfl⟩)
  · exact .inr (.inr (.inl ⟨_, _, htask, rfl⟩))
  · exact .inr (.inr (.inl ⟨_, _, htask, rfl⟩))

/-- A connection whose functor is about to run exists. -/
theorem held_of_raw {s : ServerSystem ι α} {c : Nat} {k : Task}
    (h : s.UserHeld c ∨ s.Sheltered c) (hk : k ∈ s.todo (s.conn c).home)
    (hc : k.raw = some c) : s.Held c := by
  rcases h with ⟨t, ht⟩ | hremoving | hescorted
  · exact .inr (.inr (.inr ⟨t, ht⟩))
  · exact hremoving.held
  · obtain ⟨g, hg, hpointer⟩ := hescorted.batched (.inr ⟨k, hk, hc⟩)
    exact .inr (.inl ⟨_, g, hg, hpointer⟩)

/-! ### Escorts -/

namespace Escort

variable {x x' : EventLoop ServerFunctor (Thread ι α)} {ks ks' : List Task} {c : Nat}

/-- A functor in the queue that owns the connection escorts all others. -/
theorem of_pending {g : ServerFunctor} (hg : g ∈ x.pending) (hc : g.pointer = some c) :
    Escort x ks c :=
  ⟨fun _ _ _ => ⟨g, hg, hc⟩, fun _ => ⟨g, List.mem_append_left _ hg, hc⟩⟩

theorem tasks (h : Escort x ks c)
    (hks : ∀ k ∈ ks', k.raw = some c → ∃ k' ∈ ks, k'.raw = some c) : Escort x ks' c := by
  refine ⟨h.queued, fun hstarted => h.batched (hstarted.imp id ?_)⟩
  rintro ⟨k, hk, hc⟩
  exact hks k hk hc

/-- Functors that bind no address may come to the queue. -/
theorem push (h : Escort x ks c) {fs : List ServerFunctor} (hfs : ∀ f ∈ fs, f.raw ≠ some c)
    (hpending : x'.pending = x.pending ++ fs) (hbatch : x'.batch = x.batch)
    (hrest : x'.rest = x.rest) : Escort x' ks c := by
  refine ⟨fun f hf hc => ?_, fun hstarted => ?_⟩
  · rw [hpending] at hf ⊢
    rcases List.mem_append.mp hf with hf | hf
    · obtain ⟨g, hg, hpointer⟩ := h.queued f hf hc
      exact ⟨g, List.mem_append_left _ hg, hpointer⟩
    · exact absurd hc (hfs f hf)
  · rw [hrest] at hstarted
    obtain ⟨g, hg, hpointer⟩ := h.batched hstarted
    refine ⟨g, ?_, hpointer⟩
    rw [EventLoop.functors, hpending, hbatch]
    rcases List.mem_append.mp hg with hg | hg
    · exact List.mem_append_left _ (List.mem_append_left _ hg)
    · exact List.mem_append_right _ hg

/-- The loop goes on, and the thread has what it has started to do. -/
theorem loop (h : Escort x [] c) {e : LoopStep} (hx : x.Hands (.loop e) x') :
    Escort x' (startedTasks e x') c := by
  cases hx with
  | keep _ _ hpending hbatch hrest _ he =>
      have htasks : startedTasks e x' = [] := by
        unfold startedTasks
        split
        · exact absurd rfl he
        · rfl
      rw [htasks]
      exact h.push (by simp) (hpending.trans (List.append_nil _).symm) hbatch hrest
  | swap _ hrest hpending' hbatch' hrest' _ =>
      refine ⟨by simp [hpending'], fun hstarted => ?_⟩
      -- the queue has become the batch, with its escort
      rw [EventLoop.functors, hpending', hbatch', List.nil_append]
      rcases hstarted with ⟨f, hf, hc⟩ | ⟨k, hk, -⟩
      · rw [hrest'] at hf
        exact h.queued f hf hc
      · cases hk
  | start q _ rest' hpc hpending hbatch hrest _ =>
      refine ⟨by rw [hpending]; exact h.queued, fun hstarted => ?_⟩
      rw [EventLoop.functors, hpending, hbatch]
      refine h.batched (.inl ?_)
      rw [hrest]
      rcases hstarted with ⟨f, hf, hc⟩ | ⟨k, hk, hc⟩
      · exact ⟨f, List.mem_cons_of_mem _ hf, hc⟩
      · have hrunning : x'.running = some q.functor := by simp only [EventLoop.running, hpc]
        refine ⟨q.functor, List.mem_cons_self, ServerFunctor.raw_tasks ?_ hc⟩
        simpa [startedTasks, hrunning] using hk
  | endBatch _ hrest hpending hbatch' hrest' _ =>
      refine ⟨by rw [hpending]; exact h.queued, fun hstarted => ?_⟩
      rw [hrest'] at hstarted
      rcases hstarted with ⟨f, hf, -⟩ | ⟨k, hk, -⟩
      · cases hf
      · cases hk

end Escort

/-! ### The pieces of a step -/

theorem Sheltered.setTcp {s : ServerSystem ι α} {c : Nat} (h : s.Sheltered c) (c' : Nat)
    (k : TcpConnection) : (s.setTcp c' k).Sheltered c := by
  rcases h with (htable | hremoving) | hescorted
  · refine .inl (.inl ?_)
    rwa [InTable, setTcp_name]
  · exact .inl (.inr hremoving)
  · refine .inr ?_
    rw [Escorted, setTcp_home]
    exact hescorted

variable [DecidableEq ι]

/-- A change of the tasks of loop `l`. -/
theorem Sheltered.setTodo {s : ServerSystem ι α} {c : Nat} (h : s.Sheltered c) {l : ι}
    {ks : List Task} (hraw : ∀ k ∈ ks, k.raw = some c → ∃ k' ∈ s.todo l, k'.raw = some c)
    (hkeep : ∀ k ∈ s.todo l, k = .erase c ∨ k = .queueDestroyed c → k ∈ ks) :
    (s.setTodo l ks).Sheltered c := by
  have hmem : ∀ k ∈ s.todo s.base, k = .erase c ∨ k = .queueDestroyed c →
      k ∈ Function.update s.todo l ks s.base := by
    intro k hk hkind
    by_cases hl : s.base = l
    · subst hl
      rw [Function.update_self]
      exact hkeep k hk hkind
    · rwa [Function.update_of_ne hl]
  rcases h with (htable | hwaiting | herase | hqueue) | hescorted
  · exact .inl (.inl htable)
  · exact .inl (.inr (.inl hwaiting))
  · exact .inl (.inr (.inr (.inl (hmem _ herase (.inl rfl)))))
  · exact .inl (.inr (.inr (.inr (hmem _ hqueue (.inr rfl)))))
  · refine .inr ?_
    show Escort _ (Function.update s.todo l ks (s.conn c).home) c
    by_cases hl : (s.conn c).home = l
    · subst hl
      rw [Function.update_self]
      exact hescorted.tasks hraw
    · rw [Function.update_of_ne hl]
      exact hescorted

variable [DecidableEq α]

omit [DecidableEq α] in
/-- Functors that bind no address of the connection come to the queue of loop
`l`. -/
theorem Sheltered.setLoop {s : ServerSystem ι α} {c : Nat} (h : s.Sheltered c) {l : ι}
    {x : EventLoop ServerFunctor (Thread ι α)} {fs : List ServerFunctor}
    (hfs : ∀ f ∈ fs, f.raw ≠ some c) (hpending : x.pending = (s.loops l).pending ++ fs)
    (hbatch : x.batch = (s.loops l).batch) (hrest : x.rest = (s.loops l).rest) :
    (s.setLoop l x).Sheltered c := by
  rcases h with (htable | hwaiting | htodo) | hescorted
  · exact .inl (.inl htable)
  · refine .inl (.inr (.inl ?_))
    show _ ∈ (Function.update s.loops l x s.base).waiting
    by_cases hl : s.base = l
    · subst hl
      rw [Function.update_self, EventLoop.waiting, hpending, hrest]
      rcases List.mem_append.mp hwaiting with hmem | hmem
      · exact List.mem_append_left _ (List.mem_append_left _ hmem)
      · exact List.mem_append_right _ hmem
    · rwa [Function.update_of_ne hl]
  · exact .inl (.inr (.inr htodo))
  · refine .inr ?_
    show Escort (Function.update s.loops l x (s.conn c).home) _ c
    by_cases hl : (s.conn c).home = l
    · subst hl
      rw [Function.update_self]
      exact hescorted.push hfs hpending hbatch hrest
    · rw [Function.update_of_ne hl]
      exact hescorted

theorem Sheltered.posts {s : ServerSystem ι α} {c : Nat} (h : s.Sheltered c) {l : ι}
    (th : Thread ι α) {fs : List ServerFunctor} (hfs : ∀ f ∈ fs, f.raw ≠ some c) :
    (s.setLoop l ((s.loops l).posts th fs)).Sheltered c := by
  have hp := (s.loops l).posted_posts th fs
  exact h.setLoop hfs hp.pending hp.batch hp.rest

theorem Sheltered.post {s : ServerSystem ι α} {c : Nat} (h : s.Sheltered c) {l : ι}
    (th : Thread ι α) {f : ServerFunctor} (hf : f.raw ≠ some c) :
    (s.post l th f).Sheltered c := by
  have hfs : ∀ g ∈ [f], g.raw ≠ some c := by simpa using hf
  exact h.posts th hfs

theorem Sheltered.runConn {s : ServerSystem ι α} {c : Nat} (h : s.Sheltered c)
    (th : Thread ι α) (c' : Nat) (f : TcpConnection → TcpConnection) :
    (s.runConn th c' f).Sheltered c := by
  have htcp : ((s.setTcp c' (f (s.tcp c'))).setPoller (s.conn c').home
      (f (s.tcp c')).poller_).Sheltered c := h.setTcp c' _
  refine htcp.posts th fun g hg => ?_
  obtain ⟨cb, -, rfl⟩ := List.mem_map.mp hg
  simp [ServerFunctor.raw]

theorem Sheltered.runInLoop {s : ServerSystem ι α} {c : Nat} (h : s.Sheltered c) {l : ι}
    (th : Thread ι α) {f : ServerFunctor} (hf : f.raw ≠ some c) :
    (s.runInLoop l th f).Sheltered c := by
  unfold ServerSystem.runInLoop
  split
  · refine h.setTodo (fun k hk hc => ?_) fun k hk _ => List.mem_append_right _ hk
    simp only [List.mem_append, or_assoc] at hk
    rcases hk with hk | hk | hk
    · exact absurd (ServerFunctor.raw_tasks hk hc) hf
    · rw [ServerFunctor.raw_scope hk] at hc
      cases hc
    · exact ⟨k, hk, hc⟩
  · exact h.post th hf

/-! ### One step -/

/-- The step of a loop. -/
theorem Sheltered.stepLoop {s : ServerSystem ι α} {c : Nat} (hs : s.Homed) (h : s.Sheltered c)
    {l : ι} {e : LoopStep} {x : EventLoop ServerFunctor (Thread ι α)}
    (hx : (s.loops l).next (.loop e) = some x) (htodo : s.todo l = []) :
    ((s.setLoop l x).setTodo l (startedTasks e x)).Sheltered c := by
  have hhands := EventLoop.hands_of_step (hs.kempt l) (EventLoop.step_of_next hx)
  rcases h with (htable | hwaiting | herase | hqueue) | hescorted
  · exact .inl (.inl htable)
  · by_cases hl : s.base = l
    · subst hl
      rcases hhands.mem_waiting hwaiting with hwait | ⟨he, hrunning⟩
      · refine .inl (.inr (.inl ?_))
        show _ ∈ (Function.update s.loops s.base x s.base).waiting
        rwa [Function.update_self]
      · -- the removal has been started
        obtain rfl := LoopEvent.loop.inj he
        refine .inl (.inr (.inr (.inl ?_)))
        show _ ∈ Function.update s.todo s.base _ s.base
        rw [Function.update_self]
        show _ ∈ (x.running.map ServerFunctor.tasks).getD []
        rw [hrunning]
        exact List.mem_singleton_self _
    · refine .inl (.inr (.inl ?_))
      show _ ∈ (Function.update s.loops l x s.base).waiting
      rwa [Function.update_of_ne hl]
  · have hl : s.base ≠ l := by
      rintro rfl
      rw [htodo] at herase
      cases herase
    refine .inl (.inr (.inr (.inl ?_)))
    show _ ∈ Function.update s.todo l _ s.base
    rwa [Function.update_of_ne hl]
  · have hl : s.base ≠ l := by
      rintro rfl
      rw [htodo] at hqueue
      cases hqueue
    refine .inl (.inr (.inr (.inr ?_)))
    show _ ∈ Function.update s.todo l _ s.base
    rwa [Function.update_of_ne hl]
  · refine .inr ?_
    show Escort (Function.update s.loops l x (s.conn c).home)
      (Function.update s.todo l _ (s.conn c).home) c
    by_cases hl : (s.conn c).home = l
    · subst hl
      rw [Function.update_self, Function.update_self]
      rw [Escorted, htodo] at hescorted
      exact hescorted.loop hhands
    · rw [Function.update_of_ne hl, Function.update_of_ne hl]
      exact hescorted

/-- A task takes the connection a step further on its way out, or leaves it where
it is. -/
theorem Sheltered.runTask {s : ServerSystem ι α} {c : Nat} (hs : s.Steady) (hc : c < s.count)
    (h : s.Sheltered c) {l : ι} {env : TaskEnv} {k : Task} {rest : List Task}
    (htodo : s.todo l = k :: rest) : ((s.setTodo l rest).runTask l env k).Sheltered c := by
  have hself : (s.setTodo l rest).todo l = rest := Function.update_self ..
  have hhome := hs.homed.task l k (by simp [htodo])
  -- without the task the connection is where it was, unless the task was its removal
  have hrest : k ≠ .erase c → k ≠ .queueDestroyed c → (s.setTodo l rest).Sheltered c := by
    intro herase hqueue
    refine h.setTodo (fun k' hk' hraw => ⟨k', ?_, hraw⟩) fun k' hk' hkind => ?_
    · rw [htodo]
      exact List.mem_cons_of_mem _ hk'
    · rw [htodo] at hk'
      rcases List.mem_cons.mp hk' with heq | hk'
      · subst heq
        exact (hkind.elim herase hqueue).elim
      · exact hk'
  cases k with
  | call m c' =>
      have hrun := (hrest (by simp) (by simp)).runConn (.loop l) c' (m.run env)
      refine hrun.setTodo (fun k hk hraw => ?_) fun k hk _ => List.mem_append_right _ hk
      rcases List.mem_append.mp hk with hk | hk
      · rw [Member.raw_next hk] at hraw
        cases hraw
      · exact ⟨k, hk, hraw⟩
  | erase c' =>
      by_cases hcc : c' = c
      · subst hcc
        refine .inl (.inr (.inr (.inr ?_)))
        show _ ∈ Function.update (s.setTodo l rest).todo l _ s.base
        rw [← hhome.2, Function.update_self]
        exact List.mem_cons_self
      · -- the names differ, so the entry of `c` stays
        have hother := hrest (by simpa using hcc) (by simp)
        have hname : (s.conn c).name ≠ (s.conn c').name := fun hname =>
          hcc (hs.named.name_inj hs.bound hc hhome.1 hname).symm
        have herased : { s.setTodo l rest with
            server := s.server.erase (s.conn c').name }.Sheltered c := by
          rcases hother with (htable | hremoving) | hescorted
          · refine .inl (.inl ?_)
            show Function.update s.server.connections_ (s.conn c').name none (s.conn c).name = some c
            rw [Function.update_of_ne hname]
            exact htable
          · exact .inl (.inr hremoving)
          · exact .inr hescorted
        refine herased.setTodo (fun k hk hraw => ?_) fun k hk _ => List.mem_cons_of_mem _ hk
        rcases List.mem_cons.mp hk with rfl | hk
        · cases hraw
        · exact ⟨k, hk, hraw⟩
  | queueDestroyed c' =>
      by_cases hcc : c' = c
      · subst hcc
        refine .inr (Escort.of_pending (g := .connectDestroyed c') ?_ rfl)
        show _ ∈ (((s.setTodo l rest).post (s.conn c').home (.loop l)
          (.connectDestroyed c')).loops (s.conn c').home).pending
        rw [post_self, EventLoop.post_pending]
        exact List.mem_append_right _ (List.mem_singleton_self _)
      · exact (hrest (by simp) (by simpa using hcc)).post (.loop l) (by simp [ServerFunctor.raw])
  | testDestroyed c' =>
      refine (hrest (by simp) (by simp)).setTodo (fun k hk hraw => ?_) fun k hk _ =>
        List.mem_cons_of_mem _ hk
      rcases List.mem_cons.mp hk with rfl | hk
      · split at hraw <;> cases hraw
      · exact ⟨k, hk, hraw⟩
  | closeCallback c' =>
      exact (hrest (by simp) (by simp)).runInLoop (.loop l) (by simp [ServerFunctor.raw])
  | guard c' => exact hrest (by simp) (by simp)
  | scope c' => exact hrest (by simp) (by simp)
  | destructor => exact hrest (by simp) (by simp)

/-- The caller may release its pointer: other user code has one, or the server
keeps the connection until its functors have run. -/
def PointerKept (s : ServerSystem ι α) : ServerEvent ι α → Prop
  | .release t c => (∃ p ∈ s.users.erase (t, c), p.2 = c) ∨ s.Sheltered c
  | _ => True

/-- A queued `sendInLoop` or `shutdownInLoop` runs on a connection that exists. -/
def RunsHeld (s : ServerSystem ι α) (e : ServerEvent ι α) (_t : ServerSystem ι α) : Prop :=
  ∀ l env k rest c, e = .task l env → s.todo l = k :: rest → k.raw = some c → s.Held c

/-- What a run keeps while the pointers are kept. -/
structure Accompanied (s : ServerSystem ι α) : Prop where
  steady : s.Steady
  callers : ∀ t c, (s.calling t).conn = some c → (t, c) ∈ s.users
  sheltered : ∀ c < s.count, s.UserHeld c ∨ s.Sheltered c

variable {s t : ServerSystem ι α} {e : ServerEvent ι α}

theorem accompanied_of_init (h : (serverMachine ι α).init s) : s.Accompanied := by
  obtain ⟨-, -, hcount, -, -, -, -, -, hcalling⟩ := id h
  refine ⟨steady_of_init h, by simp [hcalling, Calling.conn], fun c hc => ?_⟩
  rw [hcount] at hc
  exact absurd hc (Nat.not_lt_zero c)

/-- A thread that is in `send` or `shutdown` has kept its pointer. -/
theorem Accompanied.callers_step (h : s.Accompanied) (hm : s.Moves e t) :
    ∀ th c, (t.calling th).conn = some c → (th, c) ∈ t.users := by
  -- a step that ends or goes on with the call of `th`, or begins one with a pointer
  have hset : ∀ (th : Thread ι α) (k : Calling), (∀ c, k.conn = some c → (th, c) ∈ s.users) →
      ∀ th' c, (Function.update s.calling th k th').conn = some c → (th', c) ∈ s.users := by
    intro th k hk th' c hc
    by_cases hth : th' = th
    · subst hth
      rw [Function.update_self] at hc
      exact hk c hc
    · rw [Function.update_of_ne hth] at hc
      exact h.callers th' c hc
  have hidle : ∀ th c, Calling.idle.conn = some c → (th, c) ∈ s.users := by
    intro th c hc
    cases hc
  cases hm with
  | task l env k rest hidle htodo hk =>
      cases k with
      | closeCallback c =>
          show ∀ th c', ((runInLoop _ _ _ _).calling th).conn = some c' → _ ∈ (runInLoop _ _ _ _).users
          unfold runInLoop
          split <;> exact h.callers
      | _ => exact h.callers
  | accept sockfd wc hw mark hphase htodo =>
      unfold ServerSystem.accept
      dsimp only
      unfold runInLoop
      split <;> exact h.callers
  | send th c data hidle huser =>
      refine hset th _ fun c' hc' => ?_
      split at hc' <;> cases hc'
      exact huser
  | shutdown th c hidle huser =>
      refine hset th _ fun c' hc' => ?_
      split at hc' <;> cases hc'
      exact huser
  | sendHere th w c data hcall hin => exact hset th .idle (hidle th)
  | sendThere th w c data hcall hout => exact hset th .idle (hidle th)
  | store th w c hcall =>
      refine hset th _ fun c' hc' => ?_
      cases hc'
      exact h.callers th c (by rw [hcall]; rfl)
  | shutdownHere th w c hcall hin => exact hset th .idle (hidle th)
  | shutdownThere th w c hcall hout => exact hset th .idle (hidle th)
  | copy src th c hsrc =>
      exact fun th' c' hc' => List.mem_cons_of_mem _ (h.callers th' c' hc')
  | release th c hidle huser =>
      intro th' c' hc'
      refine (List.mem_erase_of_ne ?_).mpr (h.callers th' c' hc')
      -- the thread that releases a pointer is in no call
      rintro heq
      cases heq
      rw [hidle] at hc'
      cases hc'
  | destroyEntry c hidle hhead hcount htable =>
      unfold runInLoop
      split <;> exact h.callers
  | _ => exact h.callers

/-- A new connection is in the table, and leaves the others there. -/
theorem sheltered_accept (hs : s.Steady) (hbound : s.count < 2 ^ 31) (sockfd : Int)
    (wc hw : Bool) (mark : Nat) {c : Nat} (hc : c < s.count + 1)
    (h : c < s.count → s.UserHeld c ∨ s.Sheltered c) :
    (s.accept sockfd wc hw mark).UserHeld c ∨ (s.accept sockfd wc hw mark).Sheltered c := by
  have husers : (s.accept sockfd wc hw mark).users = s.users := by
    unfold ServerSystem.accept runInLoop
    dsimp only
    split <;> rfl
  have hnew : ∀ f : ServerFunctor, f = .connectEstablished s.count → f.raw ≠ some c := by
    rintro f rfl
    simp [ServerFunctor.raw]
  rcases Nat.lt_succ_iff_lt_or_eq.mp hc with hlt | rfl
  · rcases h hlt with ⟨th, hth⟩ | hsheltered
    · exact .inl ⟨th, by rwa [husers]⟩
    · have hconn : (s.construct sockfd wc hw mark).conn c = s.conn c :=
        Function.update_of_ne (Nat.ne_of_lt hlt) _ _
      have hbase : (s.construct sockfd wc hw mark).base = s.base :=
        s.server.threadPool_.getNextLoop_base
      refine .inr (Sheltered.runInLoop ?_ _ (hnew _ rfl))
      rcases hsheltered with (htable | hremoving) | hescorted
      · refine .inl (.inl ?_)
        rw [InTable, hconn]
        show Function.update s.server.connections_ s.server.connName _ (s.conn c).name = some c
        rw [Function.update_of_ne (hs.named.name_ne_next hbound hlt)]
        exact htable
      · refine .inl (.inr ?_)
        rw [hbase]
        exact hremoving
      · refine .inr ?_
        rw [Escorted, hconn]
        exact hescorted
  · refine .inr (Sheltered.runInLoop (.inl (.inl ?_)) _ (hnew _ rfl))
    have hconn : ((s.construct sockfd wc hw mark).conn s.count).name = s.server.connName := by
      show (Function.update s.conn s.count _ s.count).name = _
      rw [Function.update_self]
    rw [InTable, hconn]
    exact Function.update_self ..

/-- **A step keeps every functor accompanied**, if the pointer that is released
is not the last one. -/
theorem Accompanied.step (h : s.Accompanied) (hservice : s.InService e) (hkept : s.PointerKept e)
    (hm : s.Moves e t) : t.Accompanied := by
  refine ⟨h.steady.step hservice hm, h.callers_step hm, fun c hc => ?_⟩
  have hs := h.steady
  -- the post of a functor that binds the address: its caller has a pointer
  have hraw : ∀ (th : Thread ι α) (c' : Nat) (f : ServerFunctor),
      (s.calling th).conn = some c' → (∀ c'', f.raw = some c'' → c'' = c') → c < s.count →
      s.UserHeld c ∨ ((s.setCalling th .idle).post (s.conn c').home th f).Sheltered c := by
    intro th c' f hcall hf hlt
    by_cases hcc : c = c'
    · subst hcc
      exact .inl ⟨th, h.callers th c hcall⟩
    · refine (h.sheltered c hlt).imp id fun hsheltered => ?_
      have hcalling : (s.setCalling th .idle).Sheltered c := hsheltered
      exact hcalling.post th fun hfc => hcc (hf c hfc)
  cases hm with
  | loop l e ready x hidle htodo hactive hx =>
      exact (h.sheltered c hc).imp id fun hsheltered => hsheltered.stepLoop hs.homed hx htodo
  | dispatch l c' revents rest hidle htodo hactive =>
      refine (h.sheltered c hc).imp id fun hsheltered => ?_
      have hrun := hsheltered.runConn (.loop l) c' (·.setRevents revents)
      refine Sheltered.setTodo (s := (s.runConn (.loop l) c' (·.setRevents revents)).setActive l
        rest) hrun (fun k hk hraw => ?_) fun k hk _ => ?_
      · rw [raw_eventTasks hk] at hraw
        cases hraw
      · change k ∈ s.todo l at hk
        rw [htodo] at hk
        cases hk
  | task l env k rest hidle htodo hk =>
      have hcount : c < s.count := by
        cases renames_of_moves (.task l env k rest hidle htodo hk) with
        | keep _ _ _ hcount => rwa [hcount] at hc
        | accept he _ _ _ _ _ =>
            obtain ⟨_, _, _, _, he⟩ := he
            cases he
      refine (h.sheltered c hcount).imp ?_ fun hsheltered => hsheltered.runTask hs hcount htodo
      rintro ⟨th, hth⟩
      refine ⟨th, ?_⟩
      cases k with
      | closeCallback c =>
          show _ ∈ (runInLoop _ _ _ _).users
          unfold runInLoop
          split <;> exact hth
      | _ => exact hth
  | accept sockfd wc hw mark hphase htodo =>
      have hcount : (s.accept sockfd wc hw mark).count = s.count + 1 := by
        unfold ServerSystem.accept runInLoop
        dsimp only
        split <;> rfl
      exact sheltered_accept hs hservice sockfd wc hw mark (hcount ▸ hc) (h.sheltered c)
  | sendHere th w c' data hcall hin =>
      refine (h.sheltered c hc).imp id fun hsheltered => ?_
      have hcalling : (s.setCalling th .idle).Sheltered c := hsheltered
      exact hcalling.runConn th c' (·.sendInLoop data w)
  | sendThere th w c' data hcall hout =>
      refine hraw th c' (.sendInLoop c' data.length) (by rw [hcall]; rfl) (fun c'' hc'' => ?_) hc
      exact (Option.some.inj hc'').symm
  | store th w c' hcall =>
      refine (h.sheltered c hc).imp id fun hsheltered => ?_
      exact hsheltered.setTcp c' ((s.conn c').tcp.setState .kDisconnecting)
  | shutdownHere th w c' hcall hin =>
      refine (h.sheltered c hc).imp id fun hsheltered => ?_
      have hcalling : (s.setCalling th .idle).Sheltered c := hsheltered
      exact hcalling.runConn th c' TcpConnection.shutdownInLoop
  | shutdownThere th w c' hcall hout =>
      refine hraw th c' (.shutdownInLoop c') (by rw [hcall]; rfl) (fun c'' hc'' => ?_) hc
      exact (Option.some.inj hc'').symm
  | copy src th c' hsrc =>
      refine (h.sheltered c hc).imp ?_ id
      rintro ⟨th', hth'⟩
      exact ⟨th', List.mem_cons_of_mem _ hth'⟩
  | release th c' hidle huser =>
      by_cases hcc : c' = c
      · subst hcc
        refine hkept.imp ?_ id
        rintro ⟨⟨th', c''⟩, hp, rfl⟩
        exact ⟨th', hp⟩
      · refine (h.sheltered c hc).imp ?_ id
        rintro ⟨th', hth'⟩
        exact ⟨th', (List.mem_erase_of_ne fun heq => hcc (Prod.mk.inj heq).2.symm).mpr hth'⟩
  | retrieve l c' len hidle hguard =>
      refine (h.sheltered c hc).imp id fun hsheltered => ?_
      exact hsheltered.runConn (.loop l) c' (·.userCall (.retrieve len))
  | call l th c' x hforeign hx =>
      refine (h.sheltered c hc).imp id fun hsheltered => ?_
      cases EventLoop.hands_of_step (hs.homed.kempt l) (EventLoop.step_of_next hx) with
      | keep _ _ hpending hbatch hrest _ _ =>
          exact hsheltered.setLoop (by simp) (hpending.trans (List.append_nil _).symm) hbatch hrest
      | push f _ _ _ hpush hpending hbatch hrest _ =>
          refine hsheltered.setLoop (fun g hg => ?_) hpending hbatch hrest
          obtain rfl := List.mem_singleton.mp hg
          rcases hpush with rfl | rfl
          · cases g with
            | other => simp [ServerFunctor.raw]
            | _ => cases hforeign
          · cases hforeign
  | destroy hphase => exact hservice.elim
  | destroyEntry c' hidle hhead hcount htable =>
      exact absurd (List.mem_of_mem_head? hhead) (hs.standing s.base)
  | destroyed hhead => exact absurd (List.mem_of_mem_head? hhead) (hs.standing s.base)
  | send th c' data hidle huser => exact h.sheltered c hc
  | shutdown th c' hidle huser => exact h.sheltered c hc

omit [DecidableEq ι] [DecidableEq α] in
/-- In an accompanied state the functors run on connections that exist. -/
theorem Accompanied.runsHeld (h : s.Accompanied) : s.RunsHeld e t := by
  rintro l env k rest c rfl htodo hraw
  have hmem : k ∈ s.todo l := by simp [htodo]
  have hhome : s.ConnHome l c := by
    have hk := h.steady.homed.task l k hmem
    cases k with
    | call m c' =>
        cases m <;> cases hraw <;> exact hk
    | _ => cases hraw
  refine held_of_raw (h.sheltered c hhome.1) ?_ hraw
  rwa [hhome.2]

/-- **The functors of `send` and `shutdown` run on live connections, as long as
their callers keep their pointers.**  In every run of a server in service, if
each pointer is released only while the server itself keeps the connection until
its queued functors have run, or while other user code has a pointer, no
`sendInLoop` or `shutdownInLoop` is run for a connection without a pointer. -/
theorem raw_functors_run_held {es : List (ServerEvent ι α)} (hinit : (serverMachine ι α).init s)
    (hservice : (serverMachine ι α).Along InService s es)
    (hkept : (serverMachine ι α).Along PointerKept s es) :
    (serverMachine ι α).Every RunsHeld s es := by
  refine Machine.every_of_along (I := Accompanied) (fun s e t hs _ _ => hs.runsHeld)
    (fun s e t hs he ht => hs.step he.1 he.2 (moves_of_next ht)) (hservice.and hkept) ?_
  exact accompanied_of_init hinit

/-! ### Runs -/

instance (s : ServerSystem ι α) (c : Nat) : Decidable (s.Removing c) :=
  inferInstanceAs (Decidable (_ ∨ _))

omit [DecidableEq ι] [DecidableEq α] in
theorem escort_iff {x : EventLoop ServerFunctor (Thread ι α)} {ks : List Task} {c : Nat} :
    Escort x ks c ↔
      (∀ f ∈ x.pending, f.raw = some c → ∃ g ∈ x.pending, g.pointer = some c) ∧
      (((∃ f ∈ x.rest, f.raw = some c) ∨ ∃ k ∈ ks, k.raw = some c) →
        ∃ g ∈ x.functors, g.pointer = some c) :=
  ⟨fun h => ⟨h.queued, h.batched⟩, fun h => ⟨h.1, h.2⟩⟩

instance (s : ServerSystem ι α) (c : Nat) : Decidable (s.Escorted c) :=
  decidable_of_iff' _ escort_iff

instance (s : ServerSystem ι α) (c : Nat) : Decidable (s.Sheltered c) :=
  inferInstanceAs (Decidable (_ ∨ _))

instance (s : ServerSystem ι α) : (e : ServerEvent ι α) → Decidable (s.PointerKept e)
  | .release t c =>
      inferInstanceAs (Decidable ((∃ p ∈ s.users.erase (t, c), p.2 = c) ∨ s.Sheltered c))
  | .loop .. | .dispatch _ | .task .. | .accept .. | .send .. | .shutdown .. | .proceed ..
  | .copy .. | .retrieve .. | .call .. | .destroy | .destroyEntry _ | .destroyed =>
      instDecidableTrue

/-- A connection is accepted and established; the callback hands its pointer to
another thread, which finds it connected. -/
def sendFromAfar : List (ServerEvent Bool Unit) :=
  List.flatten
    [ServerEvent.turns false [.enterLoop, .testQuit, .poll false], [.accept 7 false false 0],
      ServerEvent.turns true [.enterLoop, .testQuit, .poll true, .handleRead, .handlersDone,
        .swapFunctors, .startFunctor],
      [.task true quietTask, .copy (.loop true) (.app ()) 0],
      ServerEvent.turns true [.functorDone, .batchDone, .testQuit], [.send (.app ()) 0 [1]]]

/-- The other thread queues and releases its pointer before the loop runs the
functor. -/
def earlySend : List (ServerEvent Bool Unit) :=
  List.flatten
    [sendFromAfar, [.proceed (.app ()) (.accept 0), .release (.app ()) 0],
      ServerEvent.turns true [.poll true, .handleRead, .handlersDone, .swapFunctors, .startFunctor],
      [.task true quietTask]]

/-- The table keeps the connection. -/
theorem raw_functors_run_held_early :
    (serverMachine Bool Unit).Every RunsHeld
      (start ['s'] ⟨(127, 0, 0, 1), 80⟩ (.started false [true])) earlySend :=
  raw_functors_run_held (init_start ..) (by decide +kernel) (by decide +kernel)

/-- The peer closes before the other thread queues: the connection is removed from
the table and destroyed, and `sendInLoop` is queued only then. -/
def lateSend : List (ServerEvent Bool Unit) :=
  List.flatten
    [sendFromAfar, [.loop true (.poll false) [(7, EPOLLHUP)], .dispatch true, .task true quietTask,
        .task true quietTask, .task true quietTask],
      ServerEvent.turns true [.handlersDone, .swapFunctors, .batchDone, .testQuit],
      ServerEvent.turns false [.handlersDone, .swapFunctors, .startFunctor],
      [.task false quietTask, .task false quietTask],
      ServerEvent.turns false [.functorDone, .batchDone],
      ServerEvent.turns true [.poll true, .handleRead, .handlersDone, .swapFunctors, .startFunctor],
      [.task true quietTask, .task true quietTask],
      ServerEvent.turns true [.functorDone, .batchDone, .testQuit],
      [.proceed (.app ()) (.accept 0), .release (.app ()) 0],
      ServerEvent.turns true [.poll true, .handleRead, .handlersDone, .swapFunctors, .startFunctor]]

/-- **`sendInLoop` runs after the last pointer is gone.** -/
theorem sendInLoop_runs_freed :
    ∃ s : ServerSystem Bool Unit,
      (serverMachine Bool Unit).run
        (start ['s'] ⟨(127, 0, 0, 1), 80⟩ (.started false [true])) lateSend = some s ∧
      (serverMachine Bool Unit).Along InService
        (start ['s'] ⟨(127, 0, 0, 1), 80⟩ (.started false [true])) lateSend ∧
      s.todo true = [.call (.sendInLoop 1) 0] ∧ ¬ s.Held 0 ∧
      ((serverMachine Bool Unit).next s (.task true quietTask)).isSome := by
  have hend : ((serverMachine Bool Unit).run
      (start ['s'] ⟨(127, 0, 0, 1), 80⟩ (.started false [true])) lateSend).any fun s =>
        decide (s.todo true = [.call (.sendInLoop 1) 0] ∧ ¬ s.Held 0 ∧
          ((serverMachine Bool Unit).next s (.task true quietTask)).isSome) := by
    decide +kernel
  obtain ⟨s, hrun, hs⟩ := (Option.any_eq_true _ _).mp hend
  exact ⟨s, hrun, by decide +kernel, of_decide_eq_true hs⟩

end ServerSystem

end Mymuduo
