/-
Mymuduo/Descriptors.lean

A descriptor is closed once.

The descriptor of a connection is closed when the last `TcpConnectionPtr` goes, and the
kernel may hand out its number again at once.  So the number is safe only if nothing that
still knows the connection's address comes to it afterwards: no entry of a poller or of
the kernel, no active channel, no handler, no functor, no thread inside `send` or
`shutdown` (`Freed`).  And nobody makes a pointer to a connection that has none
(`held_before`), so that what has been freed stays untouched for the rest of the run
(`descriptors_closed_once`).
-/
import Mymuduo.Departure

namespace Mymuduo

open Transition

namespace ServerSystem

variable {ι α : Type*}

/-! ### Who works on a connection -/

/-- A task that works on connection `c`. -/
theorem Custody.held_of_call {s : ServerSystem ι α} (h : s.Custody) {l : ι} {m : Member} {c : Nat}
    (hk : .call m c ∈ s.todo l) : s.Held c := by
  rcases Task.call_kind m c with rfl | hdestroys | hraw | hhandles
  · exact .inr (.inr (.inl ⟨l, _, hk, rfl⟩))
  · exact .inr (.inr (.inl ⟨l, _, hk, Task.owns_of_owner (Task.owner_of_destroys hdestroys)⟩))
  · rw [(h.raw l).2 _ hk] at hraw
    cases hraw
  · exact (h.owned_of_handles hk hhandles).held

/-- The running functor is one of the loop's objects. -/
theorem Homed.mem_functors_of_running {s : ServerSystem ι α} (hs : s.Homed) {l : ι}
    {f : ServerFunctor} (hf : (s.loops l).running = some f) : f ∈ (s.loops l).functors := by
  unfold EventLoop.running at hf
  split at hf
  · rename_i q rest hpc
    obtain rfl := Option.some.inj hf
    refine List.mem_append_right _ ?_
    simp only [EventLoop.batch, hpc]
    refine List.mem_append_left _ (List.mem_map.mpr ⟨(q, (s.loops l).batches), ?_, rfl⟩)
    exact List.mem_filter.mpr ⟨(hs.kempt l).running q rest hpc, by simp⟩
  · cases hf

/-- What a callback has as its argument is held while it runs. -/
theorem Homed.held_of_argument {s : ServerSystem ι α} (hs : s.Homed) {th : Thread ι α} {c : Nat}
    (h : s.argument th c = true) : s.Held c := by
  cases th with
  | app a => cases h
  | loop l =>
      rcases Bool.or_eq_true_iff.mp h with hfunctor | htask
      · obtain ⟨f, hf, hc⟩ := Option.bind_eq_some_iff.mp (of_decide_eq_true hfunctor)
        exact .inr (.inl ⟨l, f, hs.mem_functors_of_running hf, hc⟩)
      · obtain ⟨k, hk, hc⟩ := List.any_eq_true.mp htask
        exact .inr (.inr (.inl ⟨l, k, hk, of_decide_eq_true hc⟩))

/-- A thread inside `send` or `shutdown` has kept its pointer. -/
def Kept (s : ServerSystem ι α) : Prop := ∀ th c, (s.calling th).conn = some c → (th, c) ∈ s.users

variable [DecidableEq ι] [DecidableEq α] {s t : ServerSystem ι α} {e : ServerEvent ι α} {l : ι}
  {c : Nat}

/-- A user's pointer stays until it is released, by a thread that is in no call. -/
theorem user_stays (hm : s.Moves e t) {th : Thread ι α} (hu : (th, c) ∈ s.users) :
    (th, c) ∈ t.users ∨ e = .release th c ∧ s.calling th = .idle := by
  cases hm with
  | task l env k rest hidle htodo hk =>
      cases k with
      | closeCallback d => rw [runTask, runInLoop_users]; exact .inl hu
      | _ => exact .inl hu
  | accept sockfd wc hw mark hphase htodo => rw [accept, runInLoop_users]; exact .inl hu
  | copy src th' d hsrc => exact .inl (List.mem_cons_of_mem _ hu)
  | release th' d hidle huser =>
      by_cases heq : (th, c) = (th', d)
      · cases heq
        exact .inr ⟨rfl, hidle⟩
      · exact .inl ((List.mem_erase_of_ne heq).mpr hu)
  | destroyEntry d hidle hhead hcount htable => rw [runInLoop_users]; exact .inl hu
  | _ => exact .inl hu

/-- A user's pointer is copied from another one, or from the argument of a callback. -/
theorem user_before (hm : s.Moves e t) {th : Thread ι α} (hu : (th, c) ∈ t.users) :
    (th, c) ∈ s.users ∨ ∃ src, (src, c) ∈ s.users ∨ s.argument src c = true := by
  cases hm with
  | task l env k rest hidle htodo hk =>
      cases k with
      | closeCallback d => rw [runTask, runInLoop_users] at hu; exact .inl hu
      | _ => exact .inl hu
  | accept sockfd wc hw mark hphase htodo => rw [accept, runInLoop_users] at hu; exact .inl hu
  | copy src th' d hsrc =>
      rcases List.mem_cons.mp hu with heq | hold
      · cases heq
        exact .inr ⟨src, hsrc⟩
      · exact .inl hold
  | release th' d hidle huser => exact .inl (List.mem_of_mem_erase hu)
  | destroyEntry d hidle hhead hcount htable => rw [runInLoop_users] at hu; exact .inl hu
  | _ => exact .inl hu

theorem Kept.step (h : s.Kept) (hm : s.Moves e t) : t.Kept := by
  intro th c hc
  -- the call goes on from one with the pointer, or begins with it
  have hstays : (th, c) ∈ s.users → (∀ d, e = .release th d → s.calling th ≠ .idle) →
      (th, c) ∈ t.users := fun hu hbusy =>
    (user_stays hm hu).resolve_right fun ⟨he, hidle⟩ => hbusy c he hidle
  have hcalls := calls_of_moves hm th
  generalize hk : t.calling th = k at hc hcalls
  cases hcalls with
  | keep =>
      refine hstays (h th c hc) fun _ _ hidle => ?_
      rw [hidle] at hc
      cases hc
  | done => cases hc
  | send d data huser hstate =>
      cases hc
      exact hstays huser nofun
  | shutdown d huser hstate =>
      cases hc
      exact hstays huser nofun
  | store w d hcall =>
      cases hc
      exact hstays (h th c (by rw [hcall]; rfl)) nofun

/-- Nothing works on a connection without a pointer. -/
theorem Custody.untouched (h : s.Custody) (hk : s.Kept) (hm : s.Moves e t) (hc : c < s.count)
    (hfree : ¬ s.Held c) : t.conn c = s.conn c := by
  have hcalled : ∀ th, (s.calling th).conn = some c → False := fun th hth =>
    hfree (.inr (.inr (.inr ⟨th, hk th c hth⟩)))
  cases hm with
  | dispatch l d revents rest hidle htodo hactive =>
      refine runConn_conn_ne s (.loop l) d (·.setRevents revents) ?_
      rintro rfl
      exact hfree (h.owned_of_active (l := l) (p := (c, revents)) (by simp [hactive])).held
  | task l env k rest hidle htodo hk =>
      cases k with
      | call m d =>
          refine runConn_conn_ne (s.setTodo l rest) (.loop l) d (m.run env) ?_
          rintro rfl
          exact hfree (h.held_of_call (l := l) (m := m) (by simp [htodo]))
      | closeCallback d => rw [runTask, runInLoop_conn]; rfl
      | _ => rfl
  | accept sockfd wc hw mark hphase htodo =>
      rw [accept, runInLoop_conn]
      exact Function.update_of_ne (Nat.ne_of_lt hc) _ _
  | sendHere th w d data hcall hin =>
      refine runConn_conn_ne (s.setCalling th .idle) th d (·.sendInLoop data w) ?_
      rintro rfl
      exact hcalled th (by rw [hcall]; rfl)
  | store th w d hcall =>
      refine setTcp_conn_ne s ?_ _
      rintro rfl
      exact hcalled th (by rw [hcall]; rfl)
  | shutdownHere th w d hcall hin =>
      refine runConn_conn_ne (s.setCalling th .idle) th d TcpConnection.shutdownInLoop ?_
      rintro rfl
      exact hcalled th (by rw [hcall]; rfl)
  | retrieve l d len hidle hguard =>
      refine runConn_conn_ne s (.loop l) d (·.userCall (.retrieve len)) ?_
      rintro rfl
      exact hfree (.inr (.inr (.inl ⟨l, _, hguard, rfl⟩)))
  | destroyEntry d hidle hhead hcount htable => rw [runInLoop_conn]
  | _ => rfl

/-! ### Where pointers come from -/

omit [DecidableEq ι] [DecidableEq α] in
/-- A function that adds nothing to the trace queues nothing. -/
theorem queuedCallbacks_added {k k' : TcpConnection} (h : k'.trace = k.trace) :
    queuedCallbacks (added k k') = [] := by
  have hadded : added k k' = [] := added_of_trace_eq (by rw [h, List.append_nil])
  rw [hadded]
  rfl

theorem callback_runConn (u : ServerSystem ι α) (th : Thread ι α) (d : Nat)
    (f : TcpConnection → TcpConnection) {cb : QueuedCallback}
    (hconn : c = d → (u.runConn th d f).conn c = u.conn c)
    (hf : .callback c cb ∈ ((u.runConn th d f).loops l).functors) :
    .callback c cb ∈ (u.loops l).functors := by
  change _ ∈ (Function.update u.loops (u.conn d).home _ l).functors at hf
  by_cases hl : l = (u.conn d).home
  · subst hl
    have hp := (u.loops (u.conn d).home).posted_posts th
      ((queuedCallbacks (added (u.tcp d) (f (u.tcp d)))).map (ServerFunctor.callback d))
    rw [Function.update_self, EventLoop.functors, hp.pending, hp.batch, List.append_assoc,
      List.mem_append, List.mem_append] at hf
    rcases hf with hold | hnew | hold
    · exact List.mem_append_left _ hold
    · obtain ⟨cb', hcb, heq⟩ := List.mem_map.mp hnew
      cases heq
      have htrace : (f (u.tcp c)).trace = (u.tcp c).trace := by
        rw [← runConn_conn_tcp u th c f, hconn rfl]
        rfl
      rw [queuedCallbacks_added htrace] at hcb
      cases hcb
    · exact List.mem_append_right _ hold
  · rwa [Function.update_of_ne hl] at hf

theorem callback_post (u : ServerSystem ι α) (l' : ι) (th : Thread ι α) (f : ServerFunctor)
    {cb : QueuedCallback} (hne : f ≠ .callback c cb)
    (hf : .callback c cb ∈ ((u.post l' th f).loops l).functors) :
    .callback c cb ∈ (u.loops l).functors := by
  change _ ∈ (Function.update u.loops l' _ l).functors at hf
  by_cases hl : l = l'
  · subst hl
    rw [Function.update_self, EventLoop.functors, EventLoop.post_pending, EventLoop.post_batch,
      List.append_assoc, List.mem_append, List.mem_append] at hf
    rcases hf with hold | hnew | hold
    · exact List.mem_append_left _ hold
    · exact absurd (List.mem_singleton.mp hnew).symm hne
    · exact List.mem_append_right _ hold
  · rwa [Function.update_of_ne hl] at hf

theorem callback_runInLoop (u : ServerSystem ι α) (l' : ι) (th : Thread ι α) (f : ServerFunctor)
    {cb : QueuedCallback} (hne : f ≠ .callback c cb)
    (hf : .callback c cb ∈ ((u.runInLoop l' th f).loops l).functors) :
    .callback c cb ∈ (u.loops l).functors := by
  unfold ServerSystem.runInLoop at hf
  split at hf
  · exact hf
  · exact callback_post u l' th f hne hf

/-- The callbacks of a connection are queued by what works on it. -/
theorem callback_before (hs : s.Homed) (hm : s.Moves e t) (hconn : t.conn c = s.conn c)
    {cb : QueuedCallback} (hf : .callback c cb ∈ (t.loops l).functors) :
    .callback c cb ∈ (s.loops l).functors := by
  have hstep : ∀ l' e' x, (s.loops l').next e' = some x →
      (∀ th, e' ≠ .call th (.queueInLoop (.callback c cb)) ∧
        e' ≠ .call th (.runInLoop (.callback c cb))) →
      .callback c cb ∈ (Function.update s.loops l' x l).functors →
      .callback c cb ∈ (s.loops l).functors := by
    intro l' e' x hx he' hmem
    by_cases hl : l = l'
    · subst hl
      rw [Function.update_self] at hmem
      have hhands := EventLoop.hands_of_step (hs.kempt l) (EventLoop.step_of_next hx)
      refine (hhands.mem_functors hmem).resolve_right ?_
      rintro ⟨th, call, rfl, rfl | rfl⟩
      · exact (he' th).1 rfl
      · exact (he' th).2 rfl
    · rwa [Function.update_of_ne hl] at hmem
  cases hm with
  | loop l' e' ready x hidle htodo hactive hx =>
      exact hstep l' _ x hx (fun _ => ⟨nofun, nofun⟩) hf
  | dispatch l' d revents rest hidle htodo hactive =>
      exact callback_runConn s (.loop l') d (·.setRevents revents) (fun _ => hconn) hf
  | task l' env k rest hidle htodo hk =>
      cases k with
      | call m d =>
          exact callback_runConn (s.setTodo l' rest) (.loop l') d (m.run env) (fun _ => hconn) hf
      | queueDestroyed d =>
          exact callback_post (s.setTodo l' rest) (s.conn d).home (.loop l') (.connectDestroyed d)
            nofun hf
      | closeCallback d =>
          exact callback_runInLoop (s.setTodo l' rest) s.base (.loop l') (.removeConnectionInLoop d)
            nofun hf
      | _ => exact hf
  | accept sockfd wc hw mark hphase htodo =>
      exact callback_runInLoop (s.construct sockfd wc hw mark) _ (.loop s.base)
        (.connectEstablished s.count) nofun hf
  | sendHere th w d data hcall hin =>
      exact callback_runConn (s.setCalling th .idle) th d (·.sendInLoop data w) (fun _ => hconn) hf
  | sendThere th w d data hcall hout =>
      exact callback_post (s.setCalling th .idle) (s.conn d).home th (.sendInLoop d data.length)
        nofun hf
  | shutdownHere th w d hcall hin =>
      exact callback_runConn (s.setCalling th .idle) th d TcpConnection.shutdownInLoop
        (fun _ => hconn) hf
  | shutdownThere th w d hcall hout =>
      exact callback_post (s.setCalling th .idle) (s.conn d).home th (.shutdownInLoop d) nofun hf
  | retrieve l' d len hidle hguard =>
      exact callback_runConn s (.loop l') d (·.userCall (.retrieve len)) (fun _ => hconn) hf
  | call l' th call x hforeign hx =>
      refine hstep l' _ x hx (fun th' => ⟨?_, ?_⟩) hf
      · rintro heq
        cases heq
        cases hforeign
      · rintro heq
        cases heq
        cases hforeign
  | destroyEntry d hidle hhead hcount htable =>
      exact callback_runInLoop { s with server := s.server.erase (s.conn d).name } (s.conn d).home
        (.loop s.base) (.connectDestroyed d) nofun hf
  | _ => exact hf

/-- A functor that binds a pointer has it from somebody. -/
theorem Custody.held_of_functor (h : s.Custody) (hk : s.Kept) (hm : s.Moves e t)
    (hc : c < s.count) {f : ServerFunctor} (hf : f ∈ (t.loops l).functors)
    (hpointer : f.pointer = some c) : s.Held c := by
  by_contra hfree
  have hold : f ∉ (s.loops l).functors := fun hmem => hfree (.inr (.inl ⟨l, f, hmem, hpointer⟩))
  have howns : ∀ {i k}, k ∈ s.todo i → k.owns ≠ some c := fun {i k} hmem howns =>
    hfree (.inr (.inr (.inl ⟨i, k, hmem, howns⟩)))
  cases shifts_of_moves h.steady.homed hm l with
  | loop e' ready he htodo hactive hx hks =>
      obtain ⟨th, call, hcall, -⟩ := (hx.mem_functors hf).resolve_left hold
      cases hcall
  | other he hx hks =>
      obtain ⟨new, hnew, hpending, hbatch, -⟩ := hx
      rw [EventLoop.functors, hpending, hbatch, List.append_assoc, List.mem_append,
        List.mem_append] at hf
      rcases hf with hmem | hmem | hmem
      · exact hold (List.mem_append_left _ hmem)
      · cases hnew f hmem with
        | callback _ _ d cb =>
            cases hpointer
            refine hold (callback_before (l := l) h.steady.homed hm (h.untouched hk hm hc hfree) ?_)
            rw [EventLoop.functors, hpending]
            exact List.mem_append_left _ (List.mem_append_right _ hmem)
        | foreign => cases hpointer
        | established => cases hpointer; exact Nat.lt_irrefl _ hc
        | removed l' env d rest htodo =>
            cases hpointer
            exact howns (i := l') (k := .closeCallback c) (by simp [htodo]) rfl
        | destroyed l' env d rest htodo =>
            cases hpointer
            exact howns (i := l') (k := .queueDestroyed c) (by simp [htodo]) rfl
        | sent => cases hpointer
        | shut => cases hpointer
        | torn d hhead => exact h.steady.standing _ (List.mem_of_mem_head? hhead)
      · exact hold (List.mem_append_right _ hmem)

/-- A task with a pointer in its frame has it from somebody. -/
theorem Custody.held_of_task (h : s.Custody) (hm : s.Moves e t) (hc : c < s.count) {k : Task}
    (hk : k ∈ t.todo l) (howns : k.owns = some c) : s.Held c := by
  have htask : ∀ {i j}, j ∈ s.todo i → j.owns = some c → s.Held c := fun {i j} hmem ho =>
    .inr (.inr (.inl ⟨i, j, hmem, ho⟩))
  rcases task_of_moves h.steady.homed hm hk with hold | hnew
  · exact htask hold howns
  · cases hnew with
    | started _ ready f _ hf htodo hactive hmem =>
        refine .inr (.inl ⟨l, f, EventLoop.mem_functors_of_waiting hf, ?_⟩)
        cases f <;> simp only [ServerFunctor.tasks, List.mem_singleton, List.not_mem_nil] at hmem
        all_goals subst hmem; exact howns
    | event _ d revents rest _ hactive htodo hmem =>
        rcases eventTasks_cases hmem with ⟨m, hkind, rfl⟩ | rfl
        · rcases hkind with rfl | rfl | rfl | rfl <;> cases howns
        · cases howns
          exact (h.owned_of_active (l := l) (p := (c, revents)) (by simp [hactive])).held
    | next _ env m d rest _ htodo hmem =>
        have hd : c = d := by
          rcases Member.next_cases hmem with ⟨-, rfl⟩ | ⟨-, rfl⟩ | ⟨-, rfl⟩ <;> cases howns <;> rfl
        subst hd
        exact h.held_of_call (l := l) (m := m) (by simp [htodo])
    | erased _ env d rest htodo => exact htask (i := l) (j := .erase d) (by simp [htodo]) howns
    | tested _ env d rest htodo =>
        refine htask (i := l) (j := .testDestroyed d) (by simp [htodo]) ?_
        split at howns <;> exact howns
    | closed _ env d rest _ htodo hkind =>
        refine htask (i := l) (j := .closeCallback d) (by simp [htodo]) ?_
        rcases hkind with rfl | rfl <;> exact howns
    | accepted sockfd wc hw mark _ hkind =>
        rcases hkind with rfl | rfl <;> cases howns <;> exact absurd hc (Nat.lt_irrefl _)
    | destructor => cases howns
    | torn d _ hhead hkind => exact absurd (List.mem_of_mem_head? hhead) (h.steady.standing _)

/-- **No step makes a pointer to a connection that has none.** -/
theorem Custody.held_before (h : s.Custody) (hk : s.Kept) (hm : s.Moves e t) (hc : c < s.count)
    (ht : t.Held c) : s.Held c := by
  obtain htable | ⟨l, f, hf, hpointer⟩ | ⟨l, k, hmem, howns⟩ | ⟨th, hu⟩ := ht
  · exact .inl (inTable_before hm hc htable)
  · exact h.held_of_functor hk hm hc hf hpointer
  · exact h.held_of_task hm hc hmem howns
  · rcases user_before hm hu with hold | ⟨src, hold | hargument⟩
    · exact .inr (.inr (.inr ⟨th, hold⟩))
    · exact .inr (.inr (.inr ⟨src, hold⟩))
    · exact h.steady.homed.held_of_argument hargument

/-! ### Runs -/

/-- Nobody knows the address of the connection any more. -/
structure Freed (s : ServerSystem ι α) (c : Nat) : Prop where
  functors : ∀ l, ∀ f ∈ (s.loops l).waiting, f.pointer ≠ some c ∧ f.raw ≠ some c
  tasks : ∀ l, ∀ k ∈ s.todo l, k.owns ≠ some c ∧ k.raw ≠ some c ∧ k.handles ≠ some c
  active : ∀ l, ∀ p ∈ s.active l, p.1 ≠ c
  callers : ∀ th, (s.calling th).conn ≠ some c
  channels : ∀ l fd, (s.poller l).channels_ fd ≠ some c
  kernel : ∀ l fd m, (s.poller l).epollSet fd ≠ some (m, c)

omit [DecidableEq ι] [DecidableEq α] in
/-- What has no pointer has been forgotten everywhere. -/
theorem Custody.freed (h : s.Custody) (hk : s.Kept) (hfree : ¬ s.Held c) : s.Freed c := by
  have hentry : ∀ l fd, ((s.poller l).channels_ fd = some c ∨
      ∃ m, (s.poller l).epollSet fd = some (m, c)) → False := by
    intro l fd hc
    obtain ⟨hhome, -, hindex⟩ := h.entries l fd c hc
    exact hfree (h.owned_of_index hhome.1 hindex).held
  refine ⟨fun l f hf => ⟨fun hc => ?_, ?_⟩, fun l k hmem => ⟨fun hc => ?_, ?_, fun hc => ?_⟩, ?_, ?_,
    fun l fd hc => hentry l fd (.inl hc), fun l fd m hc => hentry l fd (.inr ⟨m, hc⟩)⟩
  · exact hfree (.inr (.inl ⟨l, f, EventLoop.mem_functors_of_waiting hf, hc⟩))
  · rw [(h.raw l).1 f hf]
    exact nofun
  · exact hfree (.inr (.inr (.inl ⟨l, k, hmem, hc⟩)))
  · rw [(h.raw l).2 k hmem]
    exact nofun
  · exact hfree (h.owned_of_handles hmem hc).held
  · rintro l p hp rfl
    exact hfree (h.owned_of_active hp).held
  · exact fun th hc => hfree (.inr (.inr (.inr ⟨th, hk th c hc⟩)))

/-- What a run keeps of the descriptors. -/
structure Tenure (s : ServerSystem ι α) : Prop where
  custody : s.Custody
  kept : s.Kept
  distinct : ∀ c < s.count, ∀ d < s.count, s.Held c → s.Held d →
    (s.channel c).fd_ = (s.channel d).fd_ → c = d

theorem tenure_of_init (h : (serverMachine ι α).init s) : s.Tenure := by
  refine ⟨custody_of_init h, ?_, ?_⟩
  all_goals obtain ⟨-, -, hcount, -, -, -, -, -, hcalling⟩ := h
  · simp [Kept, hcalling, Calling.conn]
  · simp [hcount]

/-- The server is in service, its users call on the loop thread, and the kernel hands out
free descriptors. -/
def Careful (s : ServerSystem ι α) (e : ServerEvent ι α) : Prop :=
  s.InService e ∧ s.OnOwnLoop e ∧ s.DescriptorFree e

/-- A new connection gets a descriptor that no held connection has. -/
theorem Tenure.distinct_step (h : s.Tenure) (he : s.DescriptorFree e) (hm : s.Moves e t) :
    ∀ c < t.count, ∀ d < t.count, t.Held c → t.Held d →
      (t.channel c).fd_ = (t.channel d).fd_ → c = d := by
  have hnew : ∀ c < s.count, t.Held c → ∀ sockfd wc hw mark, e = .accept sockfd wc hw mark →
      t = s.accept sockfd wc hw mark → (t.channel c).fd_ ≠ (t.channel s.count).fd_ := by
    rintro c hc hheld sockfd wc hw mark rfl rfl
    obtain ⟨p, htcp⟩ := accept_tcp s sockfd wc hw mark
    rw [fd_of_moves hm hc, channel, channel, htcp]
    exact he c hc (h.custody.held_before h.kept hm hc hheld)
  intro c hc d hd hheldc hheldd heq
  rcases count_of_moves hm hc with hc' | ⟨rfl, sockfd, wc, hw, mark, he', ht⟩
  · rcases count_of_moves hm hd with hd' | ⟨rfl, sockfd, wc, hw, mark, he', ht⟩
    · rw [fd_of_moves hm hc', fd_of_moves hm hd'] at heq
      exact h.distinct c hc' d hd' (h.custody.held_before h.kept hm hc' hheldc)
        (h.custody.held_before h.kept hm hd' hheldd) heq
    · exact absurd heq (hnew c hc' hheldc sockfd wc hw mark he' ht)
  · rcases count_of_moves hm hd with hd' | ⟨rfl, -⟩
    · exact absurd heq.symm (hnew d hd' hheldd sockfd wc hw mark he' ht)
    · rfl

theorem Tenure.step (h : s.Tenure) (he : s.Careful e) (hm : s.Moves e t) : t.Tenure :=
  ⟨h.custody.step hm he.1 he.2.1 he.2.2, h.kept.step hm, h.distinct_step he.2.2 hm⟩

theorem tenure_of_run {es : List (ServerEvent ι α)}
    (hcareful : (serverMachine ι α).Along Careful s es)
    (hrun : (serverMachine ι α).run s es = some t) (hs : s.Tenure) : t.Tenure :=
  Machine.run_invariant (fun _ _ _ h he ht => h.step he (moves_of_next ht)) hcareful hrun hs

/-- What has been freed stays so, and is not touched. -/
theorem Tenure.freed_stays {es : List (ServerEvent ι α)} (hs : s.Tenure)
    (hcareful : (serverMachine ι α).Along Careful s es)
    (hrun : (serverMachine ι α).run s es = some t) (hc : c < s.count) (hfree : ¬ s.Held c) :
    ¬ t.Held c ∧ t.conn c = s.conn c := by
  have hkeep : t.Tenure ∧ c < t.count ∧ ¬ t.Held c ∧ t.conn c = s.conn c := by
    refine Machine.run_invariant
      (I := fun u => u.Tenure ∧ c < u.count ∧ ¬ u.Held c ∧ u.conn c = s.conn c)
      (fun u e u' hu he hu' => ?_) hcareful hrun ⟨hs, hc, hfree, rfl⟩
    obtain ⟨htenure, hlt, hnot, hconn⟩ := hu
    have hm := moves_of_next hu'
    refine ⟨htenure.step he hm, Nat.lt_of_lt_of_le hlt (settled_of_moves hm).count,
      fun hheld => hnot (htenure.custody.held_before htenure.kept hm hlt hheld), ?_⟩
    exact (htenure.custody.untouched htenure.kept hm hlt hnot).trans hconn
  exact hkeep.2.2

/-- **A descriptor is closed once, and after its close nobody uses the connection.**  In
every state of a run of a server in service, whose users call on the loop thread and whose
kernel hands out free descriptors, two connections that exist have different descriptors; a
connection without a pointer is known to no poller, kernel list, active channel, task,
functor or caller; and in every continuation it has no pointer again, and its object is not
touched. -/
theorem descriptors_closed_once {es : List (ServerEvent ι α)}
    (hinit : (serverMachine ι α).init s) (hcareful : (serverMachine ι α).Along Careful s es)
    (hrun : (serverMachine ι α).run s es = some t) :
    (∀ c < t.count, ∀ d < t.count, t.Held c → t.Held d →
      (t.channel c).fd_ = (t.channel d).fd_ → c = d) ∧
    ∀ c < t.count, ¬ t.Held c → t.Freed c ∧
      ∀ (es' : List (ServerEvent ι α)) (u : ServerSystem ι α),
        (serverMachine ι α).Along Careful t es' → (serverMachine ι α).run t es' = some u →
        ¬ u.Held c ∧ u.Freed c ∧ u.conn c = t.conn c := by
  have htenure := tenure_of_run hcareful hrun (tenure_of_init hinit)
  refine ⟨htenure.distinct, fun c hc hfree => ⟨htenure.custody.freed htenure.kept hfree, ?_⟩⟩
  intro es' u hcareful' hrun'
  obtain ⟨hnot, hconn⟩ := htenure.freed_stays hcareful' hrun' hc hfree
  have hu := tenure_of_run hcareful' hrun' htenure
  exact ⟨hnot, hu.custody.freed hu.kept hnot, hconn⟩

instance [Fintype ι] (s : ServerSystem ι α) (e : ServerEvent ι α) : Decidable (s.Careful e) :=
  inferInstanceAs (Decidable (_ ∧ _ ∧ _))

/-- The next connection gets the number of the descriptor that has been closed. -/
def reusesDescriptor : List (ServerEvent Bool Unit) :=
  ServerEvent.turns false [.testQuit, .poll false] ++ [.accept 7 false false 0]

/-- The first connection is gone and stays gone; the second one has its descriptor. -/
theorem descriptors_closed_once_reused :
    ∃ t : ServerSystem Bool Unit, t.count = 2 ∧ (t.channel 0).fd_ = (t.channel 1).fd_ ∧
      t.Held 1 ∧ ¬ t.Held 0 ∧ t.Freed 0 := by
  have hend : ((serverMachine Bool Unit).run
      (start ['s'] ⟨(127, 0, 0, 1), 80⟩ (.started false [true])) goesAway).any fun t =>
        decide (t.count = 1 ∧ ¬ t.Held 0 ∧ (serverMachine Bool Unit).Along Careful t reusesDescriptor ∧
          ((serverMachine Bool Unit).run t reusesDescriptor).any fun u =>
            decide (u.count = 2 ∧ (u.channel 0).fd_ = (u.channel 1).fd_ ∧ u.Held 1)) := by
    decide +kernel
  obtain ⟨t, hrun, ht⟩ := (Option.any_eq_true _ _).mp hend
  obtain ⟨hcount, hfree, hcareful, hnext⟩ := of_decide_eq_true ht
  obtain ⟨u, hrun', hu⟩ := (Option.any_eq_true _ _).mp hnext
  obtain ⟨hcount', hfd, hheld⟩ := of_decide_eq_true hu
  obtain ⟨-, hfreed⟩ := descriptors_closed_once (init_start ..) (by decide +kernel) hrun
  obtain ⟨hnot, hfreed', -⟩ := (hfreed 0 (by omega) hfree).2 _ u hcareful hrun'
  exact ⟨u, hcount', hfd, hheld, hnot, hfreed'⟩

end ServerSystem

end Mymuduo
