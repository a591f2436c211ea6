/-
Mymuduo/Ownership.lean

A registered channel belongs to a connection that the server owns.

The kernel's list and `channels_` hold channels by their address, so what they
point to must be kept by someone else: by `connections_`, then by the functors
that take the connection out, one handing it to the next, until
`connectDestroyed` has removed the channel (`Leaving`).  That this chain does
not break rests on two orders.  `connectEstablished` comes before everything that
closes the connection, and once (`established`, `once`); and `connectDestroyed`
does not run while its loop handles events (`apart`), so a handler always finds
its channel registered.

The callers of `send` and `shutdown` are on the loop thread here (`OnOwnLoop`).
From other threads `shutdown` may store `kDisconnecting` over `kDisconnected`,
and the functors own nothing.
-/
import Mymuduo.Footprint
import Mymuduo.Lifetime

namespace Mymuduo

open Transition

/-! ### Functors and tasks -/

namespace ServerFunctor

/-- The connection that a functor of the server owns. -/
def owner : ServerFunctor → Option Nat
  | .connectEstablished c | .removeConnectionInLoop c | .connectDestroyed c => some c
  | _ => none

/-- The connection that the functor takes out. -/
def retires : ServerFunctor → Option Nat
  | .removeConnectionInLoop c | .connectDestroyed c => some c
  | _ => none

theorem owner_of_retires {f : ServerFunctor} {c : Nat} (h : f.retires = some c) :
    f.owner = some c := by
  cases f <;> first | exact h | cases h

theorem pointer_of_owner {f : ServerFunctor} {c : Nat} (h : f.owner = some c) :
    f.pointer = some c := by
  cases f <;> first | exact h | cases h

end ServerFunctor

namespace Task

/-- The connection whose functor is running, or whose event is handled under a
guard. -/
def owner : Task → Option Nat
  | .call .connectEstablished c | .call .markDestroyed c | .call .removeChannel c => some c
  | .erase c | .queueDestroyed c | .testDestroyed c | .guard c => some c
  | _ => none

/-- The connection whose event is handled. -/
def handles : Task → Option Nat
  | .call .handleClose c | .call .handleError c | .call .handleRead c | .call .handleWrite c
  | .call .finishWrite c | .closeCallback c => some c
  | _ => none

/-- The connection that has been closed. -/
def retires : Task → Option Nat
  | .closeCallback c | .erase c | .queueDestroyed c | .testDestroyed c => some c
  | .call .markDestroyed c | .call .removeChannel c => some c
  | _ => none

/-- The connection whose `connectDestroyed` is running. -/
def destroys : Task → Option Nat
  | .testDestroyed c | .call .markDestroyed c | .call .removeChannel c => some c
  | _ => none

variable {k : Task} {c : Nat}

theorem owns_of_owner (h : k.owner = some c) : k.owns = some c := by
  cases k with
  | call m d => cases m <;> exact h
  | _ => first | exact h | cases h

theorem retires_of_destroys (h : k.destroys = some c) : k.retires = some c := by
  cases k with
  | call m d => cases m <;> exact h
  | _ => first | exact h | cases h

theorem owner_of_destroys (h : k.destroys = some c) : k.owner = some c := by
  cases k with
  | call m d => cases m <;> first | exact h | cases h
  | _ => first | exact h | cases h

theorem owner_of_handles (h : k.handles = some c) : k.owner = none := by
  cases k with
  | call m d => cases m <;> first | rfl | cases h
  | _ => first | rfl | cases h

/-- The member functions, by what they are called for. -/
theorem call_kind (m : Member) (c : Nat) :
    m = .connectEstablished ∨ (Task.call m c).destroys = some c ∨
      (Task.call m c).raw = some c ∨ (Task.call m c).handles = some c := by
  cases m <;> simp [destroys, raw, handles]

end Task

section Handover

variable {f : ServerFunctor} {k : Task} {c : Nat}

theorem ServerFunctor.retires_of_task (hk : k ∈ f.tasks) (h : k.retires = some c) :
    f.retires = some c := by
  cases f <;> simp only [tasks, List.mem_singleton, List.not_mem_nil] at hk
  all_goals subst hk; exact h

theorem ServerFunctor.owner_of_task (hk : k ∈ f.tasks) (h : k.owner = some c) :
    f.owner = some c := by
  cases f <;> simp only [tasks, List.mem_singleton, List.not_mem_nil] at hk
  all_goals subst hk; exact h

theorem ServerFunctor.handles_of_task (hk : k ∈ f.tasks) : k.handles = none := by
  cases f <;> simp only [tasks, List.mem_singleton, List.not_mem_nil] at hk
  all_goals subst hk; rfl

/-- What a member function leads to, by what it was called for. -/
theorem Member.next_kind {m : Member} {env : TaskEnv} {d : Nat} {x : TcpConnection}
    (hk : k ∈ m.next env d x) :
    (m = .markDestroyed ∧ k = .call .removeChannel d) ∨
      ((Task.call m d).handles = some d ∧ (k = .closeCallback d ∨ k = .call .finishWrite d)) := by
  cases m with
  | markDestroyed => exact .inl ⟨rfl, by simpa [Member.next] using hk⟩
  | handleClose => exact .inr ⟨rfl, .inl (by simpa [Member.next] using hk)⟩
  | handleRead =>
      rw [Member.next, List.mem_ite_nil_right] at hk
      exact .inr ⟨rfl, .inl (by simpa using hk.2)⟩
  | handleWrite =>
      rw [Member.next, List.mem_ite_nil_right] at hk
      exact .inr ⟨rfl, .inr (by simpa using hk.2)⟩
  | _ => simp [Member.next] at hk

theorem eventTasks_kind {tied : Bool} {revents : Mask} (hk : k ∈ eventTasks c tied revents) :
    (k.handles = some c ∧ k.retires = none) ∨ k = .guard c := by
  simp only [eventTasks, List.mem_append, List.mem_ite_nil_right, List.mem_singleton] at hk
  rcases hk with (((⟨-, rfl⟩ | ⟨-, rfl⟩) | ⟨-, rfl⟩) | ⟨-, rfl⟩) | ⟨-, rfl⟩
  · exact .inl ⟨rfl, rfl⟩
  · exact .inl ⟨rfl, rfl⟩
  · exact .inl ⟨rfl, rfl⟩
  · exact .inl ⟨rfl, rfl⟩
  · exact .inr rfl

end Handover

namespace ServerSystem

variable {ι α : Type*}

/-! ### Owners -/

/-- The server has a pointer to the connection: in `connections_`, in a functor
that waits or runs, or in the guard of a handler that runs. -/
def Owned (s : ServerSystem ι α) (c : Nat) : Prop :=
  s.InTable c ∨ (∃ l, ∃ f ∈ (s.loops l).waiting, f.owner = some c) ∨
    ∃ l, ∃ k ∈ s.todo l, k.owner = some c

/-- `connectDestroyed` is queued or about to be, and has not removed the channel. -/
def Leaving (s : ServerSystem ι α) (c : Nat) : Prop :=
  (∃ l, .queueDestroyed c ∈ s.todo l) ∨ (∃ l, .connectDestroyed c ∈ (s.loops l).waiting) ∨
    ∃ l, ∃ k ∈ s.todo l, k.destroys = some c

theorem Owned.held {s : ServerSystem ι α} {c : Nat} (h : s.Owned c) : s.Held c := by
  rcases h with htable | ⟨l, f, hf, hc⟩ | ⟨l, k, hk, hc⟩
  · exact .inl htable
  · exact .inr (.inl ⟨l, f, EventLoop.mem_functors_of_waiting hf,
      ServerFunctor.pointer_of_owner hc⟩)
  · exact .inr (.inr (.inl ⟨l, k, hk, Task.owns_of_owner hc⟩))

theorem Leaving.owned {s : ServerSystem ι α} {c : Nat} (h : s.Leaving c) : s.Owned c := by
  rcases h with ⟨l, hk⟩ | ⟨l, hf⟩ | ⟨l, k, hk, hc⟩
  · exact .inr (.inr ⟨l, _, hk, rfl⟩)
  · exact .inr (.inl ⟨l, _, hf, rfl⟩)
  · exact .inr (.inr ⟨l, k, hk, Task.owner_of_destroys hc⟩)

/-! ### What a run keeps -/

/-- What is known of the call that thread `th` is in. -/
def Called (s : ServerSystem ι α) (th : Thread ι α) : Calling → Prop
  | .idle => True
  | .sendFound c _ | .shutdownFound c =>
      th = .loop (s.conn c).home ∧ s.state c = .kConnected
  | .shutdownStored c => th = .loop (s.conn c).home

structure Custody (s : ServerSystem ι α) : Prop where
  steady : s.Steady
  -- `connectEstablished` comes first and once, and a connection that is not
  -- disconnected stays in the table
  live : ∀ c < s.count, s.state c ≠ .kDisconnected → s.InTable c
  fresh : ∀ c < s.count, s.state c = .kConnecting → (s.channel c).index_ = .kNew
  established : ∀ l c, 0 < s.establishing l c → s.state c = .kConnecting
  once : ∀ l c, s.establishing l c ≤ 1
  retired : ∀ l c, ((∃ k ∈ s.todo l, k.retires = some c) ∨
    ∃ f ∈ (s.loops l).waiting, f.retires = some c) → s.state c = .kDisconnected
  -- `send` and `shutdown` are called on the loop thread and queue nothing
  callers : ∀ th, s.Called th (s.calling th)
  raw : ∀ l, (∀ f ∈ (s.loops l).waiting, f.raw = none) ∧ ∀ k ∈ s.todo l, k.raw = none
  -- events are handled on registered channels, and no channel goes meanwhile
  active : ∀ l, ∀ p ∈ s.active l, (s.channel p.1).index_ ≠ .kNew
  handled : ∀ l, ∀ k ∈ s.todo l, ∀ c, k.handles = some c →
    s.ConnHome l c ∧ (s.channel c).index_ ≠ .kNew
  apart : ∀ l, ∀ k ∈ s.todo l, ∀ c, k.destroys = some c →
    s.active l = [] ∧ ∀ k' ∈ s.todo l, k'.handles = none
  -- the channels and their pollers
  owned : ∀ c < s.count, (s.channel c).index_ ≠ .kNew → s.InTable c ∨ s.Leaving c
  mirrored : ∀ c < s.count, s.Owned c → (s.channel c).Mirrored (s.poller (s.conn c).home)
  descriptors : ∀ c < s.count, ∀ d < s.count, s.Owned c → s.Owned d →
    (s.channel c).fd_ = (s.channel d).fd_ → c = d
  entries : ∀ l fd c, ((s.poller l).channels_ fd = some c ∨
      ∃ m, (s.poller l).epollSet fd = some (m, c)) →
    s.ConnHome l c ∧ (s.channel c).fd_ = fd ∧ (s.channel c).index_ ≠ .kNew

namespace Custody

variable {s : ServerSystem ι α} (h : s.Custody) {l : ι} {c : Nat}
include h

/-- A registered connection is owned. -/
theorem owned_of_index (hc : c < s.count) (hi : (s.channel c).index_ ≠ .kNew) : s.Owned c :=
  (h.owned c hc hi).elim .inl Leaving.owned

theorem owned_of_handles {k : Task} (hk : k ∈ s.todo l) (hc : k.handles = some c) : s.Owned c :=
  have ⟨hhome, hi⟩ := h.handled l k hk c hc
  h.owned_of_index hhome.1 hi

theorem owned_of_active {p : ChannelPtr × Mask} (hp : p ∈ s.active l) : s.Owned p.1 :=
  h.owned_of_index (h.steady.homed.active l p hp).1 (h.active l p hp)

theorem retired_of_task {k : Task} (hk : k ∈ s.todo l) (hc : k.retires = some c) :
    s.state c = .kDisconnected :=
  h.retired l c (.inl ⟨k, hk, hc⟩)

/-- A task of the loop is of its own connection. -/
theorem home_of_call {m : Member} (hk : .call m c ∈ s.todo l) : s.ConnHome l c :=
  h.steady.homed.task l _ hk

/-- `connectEstablished` is pending in the loop of the connection only. -/
theorem home_of_establishing (hc : 0 < s.establishing l c) : s.ConnHome l c := by
  rcases Nat.add_pos_iff_pos_or_pos.mp hc with hwaiting | htodo
  · have hmem := List.count_pos_iff.mp hwaiting
    exact h.steady.homed.functor l _ (EventLoop.mem_functors_of_waiting hmem)
  · exact h.steady.homed.task l _ (List.count_pos_iff.mp htodo)

theorem establishing_of_task (hk : .call .connectEstablished c ∈ s.todo l) :
    s.state c = .kConnecting :=
  h.established l c (Nat.add_pos_right _ (List.count_pos_iff.mpr hk))

theorem called_of_send {th : Thread ι α} {data : List Byte}
    (hcall : s.calling th = .sendFound c data) :
    th = .loop (s.conn c).home ∧ s.state c = .kConnected := by
  have hcalled := h.callers th
  rwa [hcall] at hcalled

theorem called_of_shutdown {th : Thread ι α} (hcall : s.calling th = .shutdownFound c) :
    th = .loop (s.conn c).home ∧ s.state c = .kConnected := by
  have hcalled := h.callers th
  rwa [hcall] at hcalled

end Custody

variable [DecidableEq ι] [DecidableEq α]

/-- Users call `send` and `shutdown` on the loop thread of the connection. -/
def OnOwnLoop (s : ServerSystem ι α) : ServerEvent ι α → Prop
  | .send th c _ | .shutdown th c => th = .loop (s.conn c).home
  | _ => True

/-- The kernel hands out no descriptor that is open: that of a connection is open
as long as a pointer to the connection exists. -/
def DescriptorFree (s : ServerSystem ι α) : ServerEvent ι α → Prop
  | .accept sockfd _ _ _ => ∀ c < s.count, s.Held c → (s.channel c).fd_ ≠ sockfd
  | _ => True

variable {s t : ServerSystem ι α} {e : ServerEvent ι α} {l : ι} {c : Nat}

/-- The state after the member function of the first task. -/
theorem tcp_of_call {env : TaskEnv} {m : Member} {rest : List Task}
    (hm : s.Moves (.task l env) t) (htodo : s.todo l = .call m c :: rest) :
    (t.conn c).tcp = m.run env (s.tcp c) := by
  cases runs_of_moves hm htodo
  exact runConn_conn_tcp (s.setTodo l rest) (.loop l) c (m.run env)

/-- No step takes a connection back to `kConnecting`. -/
theorem connecting_before (hm : s.Moves e t) (hc : c < s.count) (ht : t.state c = .kConnecting) :
    s.state c = .kConnecting := by
  have hturns : s.Turns c e (t.state c) := turns_of_moves hm hc
  rw [ht] at hturns
  generalize hx : StateE.kConnecting = x at hturns
  cases hturns with
  | keep _ => rfl
  | established _ _ _ _ _ => cases hx
  | disconnected _ _ _ _ _ _ _ => cases hx
  | shut _ _ _ => cases hx

omit [DecidableEq ι] [DecidableEq α] in
/-- The handlers of an event are started for an active channel, or by another
handler. -/
theorem NewTask.handles_before {k : Task} (hnew : s.NewTask e l k) (hc : k.handles = some c) :
    s.active l ≠ [] ∨ ∃ k' ∈ s.todo l, k'.handles = some c := by
  cases hnew with
  | started _ ready f _ hf htodo hactive hmem =>
      rw [ServerFunctor.handles_of_task hmem] at hc
      cases hc
  | event _ d revents rest _ hactive htodo hmem => exact .inl (by simp [hactive])
  | next _ env m d rest _ htodo hmem =>
      rcases Member.next_kind hmem with ⟨rfl, rfl⟩ | ⟨hd, rfl | rfl⟩
      · cases hc
      · cases hc
        exact .inr ⟨.call m c, by simp [htodo], hd⟩
      · cases hc
        exact .inr ⟨.call m c, by simp [htodo], hd⟩
  | erased _ _ _ _ _ => cases hc
  | tested _ env d rest htodo => split at hc <;> cases hc
  | closed _ env d rest _ htodo hkind => rcases hkind with rfl | rfl <;> cases hc
  | accepted sockfd wc hw mark _ hkind => rcases hkind with rfl | rfl <;> cases hc
  | destructor => cases hc
  | torn d _ hhead hkind => rcases hkind with rfl | rfl <;> cases hc

namespace Custody

variable (h : s.Custody) (hm : s.Moves e t)
include h hm

/-! ### States -/

/-- A disconnected connection stays so. -/
theorem disconnected_stays (hc : c < s.count) (hs : s.state c = .kDisconnected) :
    t.state c = .kDisconnected := by
  have hturns : s.Turns c e (t.state c) := turns_of_moves hm hc
  generalize t.state c = x at hturns ⊢
  cases hturns with
  | keep _ => exact hs
  | established l env rest hidle htodo =>
      have hk : .call .connectEstablished c ∈ s.todo l := by simp [htodo]
      rw [h.establishing_of_task hk] at hs
      cases hs
  | disconnected l env m rest hidle htodo hm => rfl
  | shut th w hcall =>
      rw [(h.called_of_shutdown hcall).2] at hs
      cases hs

/-- A member function that works on a connection has an owner of it. -/
theorem owned_of_worker {ok : ChannelOp → Prop} (hworker : s.Worker c e ok) :
    s.Owned c ∧ c < s.count := by
  cases hworker with
  | event l revents rest hactive =>
      have hp : (c, revents) ∈ s.active l := by simp [hactive]
      exact ⟨h.owned_of_active hp, (h.steady.homed.active l _ hp).1⟩
  | member l env m rest htodo hne =>
      have hk : .call m c ∈ s.todo l := by simp [htodo]
      refine ⟨?_, (h.home_of_call hk).1⟩
      rcases Task.call_kind m c with rfl | hdestroys | hraw | hhandles
      · exact .inr (.inr ⟨l, _, hk, rfl⟩)
      · exact .inr (.inr ⟨l, _, hk, Task.owner_of_destroys hdestroys⟩)
      · rw [(h.raw l).2 _ hk] at hraw
        cases hraw
      · exact h.owned_of_handles hk hhandles
  | removal l env rest htodo =>
      have hk : .call .removeChannel c ∈ s.todo l := by simp [htodo]
      exact ⟨.inr (.inr ⟨l, _, hk, rfl⟩), (h.home_of_call hk).1⟩
  | sender th w data hcall =>
      have hc : c < s.count := h.steady.homed.calling th c (by simp [hcall, Calling.conn])
      refine ⟨.inl (h.live c hc ?_), hc⟩
      rw [(h.called_of_send hcall).2]
      simp

/-- A channel stays registered until `connectDestroyed` removes it. -/
theorem index_stays (hc : c < s.count) (hi : (s.channel c).index_ ≠ .kNew) :
    (t.channel c).index_ ≠ .kNew ∨
      ∃ l env rest, e = .task l env ∧ s.todo l = .call .removeChannel c :: rest := by
  cases rewires_of_moves hm with
  | keep hchannel _ _ =>
      left
      rwa [channel, hchannel c hc]
  | accept _ _ _ _ _ hconn _ _ _ =>
      left
      rwa [channel, hconn c hc]
  | work d ok hworker hworks hframe _ _ =>
      by_cases hcd : c = d
      · subst hcd
        have hmirrored := h.mirrored c hc (h.owned_of_worker hm hworker).1
        have hkept := (hworks.recorded hmirrored).2
        cases hworker with
        | removal l env rest htodo => exact .inr ⟨l, env, rest, rfl, htodo⟩
        | event _ _ _ _ => exact .inl (hkept (fun _ => id) hi)
        | member _ _ _ _ _ _ => exact .inl (hkept (fun _ => id) hi)
        | sender _ _ _ _ => exact .inl (hkept (fun _ => id) hi)
      · left
        rwa [channel, hframe c hcd]

/-- A channel is registered while the connection is in the table, or in
`connectDestroyed`. -/
theorem index_before (hc : c < s.count) (hi : (s.channel c).index_ = .kNew)
    (ht : (t.channel c).index_ ≠ .kNew) :
    s.InTable c ∨ ∃ l env rest, e = .task l env ∧ s.todo l = .call .markDestroyed c :: rest := by
  have hlive : s.state c ≠ .kDisconnected → s.InTable c := h.live c hc
  cases rewires_of_moves hm with
  | keep hchannel _ _ => exact absurd (by rw [channel, hchannel c hc, hi]) ht
  | accept _ _ _ _ _ hconn _ _ _ => exact absurd (by rw [channel, hconn c hc, hi]) ht
  | work d ok hworker hworks hframe _ _ =>
      by_cases hcd : c = d
      · subst hcd
        cases hworker with
        | event l revents rest hactive =>
            exact absurd hi (h.active l (c, revents) (by simp [hactive]))
        | member l env m rest htodo hne =>
            have hk : .call m c ∈ s.todo l := by simp [htodo]
            rcases Task.call_kind m c with rfl | hdestroys | hraw | hhandles
            · left
              apply hlive
              rw [h.establishing_of_task hk]
              simp
            · right
              cases m with
              | markDestroyed => exact ⟨l, env, rest, rfl, htodo⟩
              | removeChannel => exact absurd rfl hne
              | _ => cases hdestroys
            · rw [(h.raw l).2 _ hk] at hraw
              cases hraw
            · exact absurd hi (h.handled l _ hk c hhandles).2
        | removal l env rest htodo =>
            refine absurd ?_ ht
            rw [channel, tcp_of_call hm htodo]
            rfl
        | sender th w data hcall =>
            left
            apply hlive
            rw [(h.called_of_send hcall).2]
            simp
      · exact absurd (by rw [channel, hframe c hcd, hi]) ht

/-! ### Who is still owned -/

/-- An event is handled only for a registered channel, and what its handlers
leave to do is of the same connection. -/
theorem owned_before (he : s.InService e) (hc : c < s.count) (ht : t.Owned c) : s.Owned c := by
  rcases ht with htable | ⟨l, f, hf, howner⟩ | ⟨l, k, hk, howner⟩
  · exact .inl (inTable_before hm hc htable)
  · rcases waiting_of_moves h.steady.homed hm hf with hold | hnew
    · exact .inr (.inl ⟨l, f, hold, howner⟩)
    · cases hnew with
      | callback _ _ _ _ => cases howner
      | foreign _ _ => cases howner
      | established sockfd wc hw mark _ hl =>
          obtain rfl := Option.some.inj howner
          exact absurd hc (Nat.lt_irrefl _)
      | removed l' env d rest htodo =>
          obtain rfl := Option.some.inj howner
          exact h.owned_of_handles (l := l') (k := .closeCallback d) (by simp [htodo]) rfl
      | destroyed l' env d rest htodo =>
          obtain rfl := Option.some.inj howner
          exact .inr (.inr ⟨l', .queueDestroyed d, by simp [htodo], rfl⟩)
      | sent _ _ _ _ _ _ => cases howner
      | shut _ _ _ _ _ => cases howner
      | torn d hhead => exact absurd (List.mem_of_mem_head? hhead) (h.steady.standing s.base)
  · rcases task_of_moves h.steady.homed hm hk with hold | hnew
    · exact .inr (.inr ⟨l, k, hold, howner⟩)
    · cases hnew with
      | started _ ready f _ hf htodo hactive hmem =>
          exact .inr (.inl ⟨l, f, hf, ServerFunctor.owner_of_task hmem howner⟩)
      | event _ d revents rest _ hactive htodo hmem =>
          rcases eventTasks_kind hmem with ⟨hhandles, -⟩ | rfl
          · rw [Task.owner_of_handles hhandles] at howner
            cases howner
          · obtain rfl := Option.some.inj howner
            exact h.owned_of_active (p := (d, revents)) (l := l) (by simp [hactive])
      | next _ env m d rest _ htodo hmem =>
          rcases Member.next_kind hmem with ⟨rfl, rfl⟩ | ⟨-, rfl | rfl⟩
          · obtain rfl := Option.some.inj howner
            exact .inr (.inr ⟨l, .call .markDestroyed d, by simp [htodo], rfl⟩)
          · cases howner
          · cases howner
      | erased _ env d rest htodo =>
          obtain rfl := Option.some.inj howner
          exact .inr (.inr ⟨l, .erase d, by simp [htodo], rfl⟩)
      | tested _ env d rest htodo =>
          have hd : d = c := by split at howner <;> exact Option.some.inj howner
          subst hd
          exact .inr (.inr ⟨l, .testDestroyed d, by simp [htodo], rfl⟩)
      | closed _ env d rest _ htodo hmem =>
          rcases hmem with rfl | rfl
          · obtain rfl := Option.some.inj howner
            exact h.owned_of_handles (l := l) (k := .closeCallback d) (by simp [htodo]) rfl
          · cases howner
      | accepted sockfd wc hw mark _ hmem =>
          rcases hmem with rfl | rfl
          · obtain rfl := Option.some.inj howner
            exact absurd hc (Nat.lt_irrefl _)
          · cases howner
      | destructor => cases howner
      | torn d _ hhead hmem => exact absurd (List.mem_of_mem_head? hhead) (h.steady.standing s.base)

/-! ### One step: states -/

theorem live_step (he : s.InService e) (hc : c < t.count) (ht : t.state c ≠ .kDisconnected) :
    t.InTable c := by
  rcases count_of_moves hm hc with hlt | ⟨rfl, sockfd, wc, hw, mark, -, rfl⟩
  · have hs : s.state c ≠ .kDisconnected := fun hs => ht (h.disconnected_stays hm hlt hs)
    rcases inTable_of_moves h.steady he hm hlt (h.live c hlt hs) with htable | ⟨l, _, rest, _, htodo⟩
    · exact htable
    · exact absurd (h.retired_of_task (l := l) (k := .erase c) (by simp [htodo]) rfl) hs
  · exact inTable_accept s sockfd wc hw mark

theorem fresh_step (hc : c < t.count) (ht : t.state c = .kConnecting) :
    (t.channel c).index_ = .kNew := by
  rcases count_of_moves hm hc with hlt | ⟨rfl, sockfd, wc, hw, mark, -, rfl⟩
  · have hs := connecting_before hm hlt ht
    have hi := h.fresh c hlt hs
    by_contra hne
    cases rewires_of_moves hm with
    | keep hchannel _ _ => exact hne (by rw [channel, hchannel c hlt, hi])
    | accept _ _ _ _ _ hconn _ _ _ => exact hne (by rw [channel, hconn c hlt, hi])
    | work d ok hworker hworks hframe _ _ =>
        by_cases hcd : c = d
        · subst hcd
          cases hworker with
          | event l revents rest hactive =>
              exact h.active l (c, revents) (by simp [hactive]) hi
          | member l env m rest htodo hm' =>
              have hk : .call m c ∈ s.todo l := by simp [htodo]
              rcases Task.call_kind m c with rfl | hdestroys | hraw | hhandles
              · -- `connectEstablished` stores `kConnected`
                rw [state, tcp_of_call hm htodo] at ht
                cases ht
              · rw [h.retired_of_task hk (Task.retires_of_destroys hdestroys)] at hs
                cases hs
              · rw [(h.raw l).2 _ hk] at hraw
                cases hraw
              · exact (h.handled l _ hk c hhandles).2 hi
          | removal l env rest htodo =>
              refine hne ?_
              rw [channel, tcp_of_call hm htodo]
              rfl
          | sender th w data hcall =>
              rw [(h.called_of_send hcall).2] at hs
              cases hs
        · exact hne (by rw [channel, hframe c hcd, hi])
  · obtain ⟨p, htcp⟩ := accept_tcp s sockfd wc hw mark
    rw [channel, htcp]
    rfl

theorem once_step (l : ι) (c : Nat) : t.establishing l c ≤ 1 := by
  refine (establishing_of_moves h.steady hm).trans ?_
  by_cases hc : c = s.count
  · subst hc
    rw [establishing_eq_zero h.steady.homed]
    simp
  · have hnot : [s.count].count c = 0 := List.count_eq_zero_of_not_mem (by simpa using hc)
    rw [hnot]
    exact h.once l c

theorem established_step (hs : t.Steady) (l : ι) (c : Nat) (ht : 0 < t.establishing l c) :
    t.state c = .kConnecting := by
  have hhome : t.ConnHome l c := by
    rcases Nat.add_pos_iff_pos_or_pos.mp ht with hwaiting | htodo
    · have hmem := List.count_pos_iff.mp hwaiting
      exact hs.homed.functor l _ (EventLoop.mem_functors_of_waiting hmem)
    · exact hs.homed.task l _ (List.count_pos_iff.mp htodo)
  rcases count_of_moves hm hhome.1 with hlt | ⟨rfl, sockfd, wc, hw, mark, -, rfl⟩
  · have hbefore : 0 < s.establishing l c := by
      have hle := establishing_of_moves (l := l) (c := c) h.steady hm
      have hnot : [s.count].count c = 0 :=
        List.count_eq_zero_of_not_mem (by simpa using hlt.ne)
      rw [hnot] at hle
      exact ht.trans_le hle
    have hconnecting := h.established l c hbefore
    have hturns : s.Turns c e (t.state c) := turns_of_moves hm hlt
    generalize t.state c = x at hturns ⊢
    cases hturns with
    | keep _ => exact hconnecting
    | established l' env rest hidle htodo =>
        -- the one that has run was the only one
        have hl : l' = l := by
          have hold := h.home_of_call (l := l') (m := .connectEstablished) (c := c)
            (by simp [htodo])
          exact hold.2.symm.trans (h.home_of_establishing hbefore).2
        subst hl
        have hrun := establishing_run hm htodo
        have honce := h.once l' c
        omega
    | disconnected l' env m rest hidle htodo hm' =>
        have hk : .call m c ∈ s.todo l' := by simp [htodo]
        rcases hm' with rfl | rfl | rfl
        · rw [h.retired_of_task hk rfl] at hconnecting
          cases hconnecting
        · exact absurd (h.fresh c hlt hconnecting) (h.handled l' _ hk c rfl).2
        · exact absurd (h.fresh c hlt hconnecting) (h.handled l' _ hk c rfl).2
    | shut th w hcall =>
        rw [(h.called_of_shutdown hcall).2] at hconnecting
        cases hconnecting
  · obtain ⟨p, htcp⟩ := accept_tcp s sockfd wc hw mark
    rw [state, htcp]
    rfl

/-- A task that a step gives to a loop thread is of a disconnected connection, if
it takes the connection out. -/
theorem retired_newTask {k : Task} (hnew : s.NewTask e l k)
    (hc : k.retires = some c) : t.state c = .kDisconnected := by
  have hstays : c < s.count → s.state c = .kDisconnected → t.state c = .kDisconnected :=
    h.disconnected_stays hm
  cases hnew with
  | started _ ready f _ hf htodo hactive hmem =>
      have hretires := ServerFunctor.retires_of_task hmem hc
      refine hstays ?_ (h.retired l c (.inr ⟨f, hf, hretires⟩))
      have hhome := h.steady.homed.functor l f (EventLoop.mem_functors_of_waiting hf)
      exact hhome.pointer_lt (ServerFunctor.pointer_of_owner (ServerFunctor.owner_of_retires hretires))
  | event _ d revents rest _ hactive htodo hmem =>
      rcases eventTasks_kind hmem with ⟨-, hnone⟩ | rfl
      · rw [hnone] at hc
        cases hc
      · cases hc
  | next _ env m d rest _ htodo hmem =>
      have hd : s.ConnHome l d := h.home_of_call (m := m) (by simp [htodo])
      rcases Member.next_kind hmem with ⟨rfl, rfl⟩ | ⟨-, rfl | rfl⟩
      · obtain rfl := Option.some.inj hc
        exact hstays hd.1 (h.retired_of_task (l := l) (k := .call .markDestroyed d)
          (by simp [htodo]) rfl)
      · -- `handleClose` has run
        obtain rfl := Option.some.inj hc
        rw [state, tcp_of_call hm htodo]
        exact (Member.closed_of_next hmem).2.2
      · cases hc
  | erased _ env d rest htodo =>
      obtain rfl := Option.some.inj hc
      have hmem : .erase d ∈ s.todo l := by simp [htodo]
      exact hstays (h.steady.homed.task l _ hmem).1 (h.retired_of_task hmem rfl)
  | tested _ env d rest htodo =>
      have hd : d = c := by split at hc <;> exact Option.some.inj hc
      subst hd
      have hmem : .testDestroyed d ∈ s.todo l := by simp [htodo]
      exact hstays (h.steady.homed.task l _ hmem).1 (h.retired_of_task hmem rfl)
  | closed _ env d rest _ htodo hkind =>
      rcases hkind with rfl | rfl
      · obtain rfl := Option.some.inj hc
        have hmem : .closeCallback d ∈ s.todo l := by simp [htodo]
        exact hstays (h.steady.homed.task l _ hmem) (h.retired_of_task hmem rfl)
      · cases hc
  | accepted sockfd wc hw mark _ hkind => rcases hkind with rfl | rfl <;> cases hc
  | destructor => cases hc
  | torn d _ hhead _ => exact absurd (List.mem_of_mem_head? hhead) (h.steady.standing s.base)

theorem retired_step (l : ι) (c : Nat)
    (ht : (∃ k ∈ t.todo l, k.retires = some c) ∨ ∃ f ∈ (t.loops l).waiting, f.retires = some c) :
    t.state c = .kDisconnected := by
  have hstays : c < s.count → s.state c = .kDisconnected → t.state c = .kDisconnected :=
    h.disconnected_stays hm
  have htask : ∀ (l' : ι) (k : Task), k ∈ s.todo l' → k.retires = some c → c < s.count := by
    intro l' k hk hc
    have hhome := h.steady.homed.task l' k hk
    cases k with
    | call m d => cases m <;> cases hc <;> exact hhome.1
    | closeCallback d => cases hc; exact hhome
    | erase d => cases hc; exact hhome.1
    | queueDestroyed d => cases hc; exact hhome.1
    | testDestroyed d => cases hc; exact hhome.1
    | _ => cases hc
  rcases ht with ⟨k, hk, hc⟩ | ⟨f, hf, hc⟩
  · rcases task_of_moves h.steady.homed hm hk with hold | hnew
    · exact hstays (htask l k hold hc) (h.retired_of_task hold hc)
    · exact h.retired_newTask hm hnew hc
  · rcases waiting_of_moves h.steady.homed hm hf with hold | hnew
    · have hhome := h.steady.homed.functor l f (EventLoop.mem_functors_of_waiting hold)
      refine hstays (hhome.pointer_lt ?_) (h.retired l c (.inr ⟨f, hold, hc⟩))
      exact ServerFunctor.pointer_of_owner (ServerFunctor.owner_of_retires hc)
    · cases hnew with
      | removed l' env d rest htodo =>
          obtain rfl := Option.some.inj hc
          have hmem : .closeCallback d ∈ s.todo l' := by simp [htodo]
          exact hstays (htask l' _ hmem rfl) (h.retired_of_task hmem rfl)
      | destroyed l' env d rest htodo =>
          obtain rfl := Option.some.inj hc
          have hmem : .queueDestroyed d ∈ s.todo l' := by simp [htodo]
          exact hstays (htask l' _ hmem rfl) (h.retired_of_task hmem rfl)
      | torn d hhead => exact absurd (List.mem_of_mem_head? hhead) (h.steady.standing s.base)
      | _ => cases hc

/-! ### One step: callers -/

/-- While a call is going on, only its own next step stores a state. -/
theorem connected_stays {th : Thread ι α} (hc : c < s.count) (hth : th = .loop (s.conn c).home)
    (hbusy : s.calling th ≠ .idle) (hstore : t.calling th ≠ .shutdownStored c)
    (hs : s.state c = .kConnected) : t.state c = .kConnected := by
  have hturns : s.Turns c e (t.state c) := turns_of_moves hm hc
  generalize t.state c = x at hturns ⊢
  cases hturns with
  | keep _ => exact hs
  | established _ _ _ _ _ => rfl
  | disconnected l env m rest hidle htodo hm' =>
      have hhome := h.home_of_call (l := l) (m := m) (c := c) (by simp [htodo])
      rw [hth, hhome.2] at hbusy
      exact absurd hidle hbusy
  | shut th' w hcall =>
      have hsame : th' = th := (h.called_of_shutdown hcall).1.trans hth.symm
      subst hsame
      exact absurd (stored_of_proceed hm hcall) hstore

theorem callers_step (hown : s.OnOwnLoop e) (th : Thread ι α) : t.Called th (t.calling th) := by
  have hset := settled_of_moves hm
  have hcalls := calls_of_moves hm th
  generalize hx : t.calling th = x at hcalls ⊢
  -- a caller that has found its connection connected
  have hfound : ∀ c, c < s.count → s.Called th x → s.calling th = x → x.conn = some c →
      t.Called th x := by
    intro c hc hcalled hsame hconn
    cases x with
    | idle => trivial
    | sendFound d data =>
        cases hconn
        refine ⟨hcalled.1.trans (by rw [hset.home c hc]), ?_⟩
        exact h.connected_stays hm hc hcalled.1 (by simp [hsame]) (by simp [hx]) hcalled.2
    | shutdownFound d =>
        cases hconn
        refine ⟨hcalled.1.trans (by rw [hset.home c hc]), ?_⟩
        exact h.connected_stays hm hc hcalled.1 (by simp [hsame]) (by simp [hx]) hcalled.2
    | shutdownStored d =>
        cases hconn
        exact Eq.trans hcalled (by rw [hset.home c hc])
  cases hcalls with
  | keep _ =>
      have hcalled := h.callers th
      cases hconn : (s.calling th).conn with
      | none =>
          cases hcall : s.calling th <;> simp [hcall, Calling.conn] at hconn
          trivial
      | some c => exact hfound c (h.steady.homed.calling th c hconn) hcalled rfl hconn
  | done _ => trivial
  | send c data huser hstate =>
      have hc : c < s.count := h.steady.homed.users _ huser
      refine ⟨Eq.trans hown (by rw [hset.home c hc]), ?_⟩
      have hturns : s.Turns c (.send th c data) (t.state c) := turns_of_moves hm hc
      generalize t.state c = x at hturns ⊢
      cases hturns
      exact hstate
  | shutdown c huser hstate =>
      have hc : c < s.count := h.steady.homed.users _ huser
      refine ⟨Eq.trans hown (by rw [hset.home c hc]), ?_⟩
      have hturns : s.Turns c (.shutdown th c) (t.state c) := turns_of_moves hm hc
      generalize t.state c = x at hturns ⊢
      cases hturns
      exact hstate
  | store w c hcall =>
      have hc : c < s.count := h.steady.homed.calling th c (by simp [hcall, Calling.conn])
      show th = .loop (t.conn c).home
      rw [hset.home c hc]
      exact (h.called_of_shutdown hcall).1

/-- No functor of `send` or `shutdown` is queued. -/
theorem raw_step (l : ι) :
    (∀ f ∈ (t.loops l).waiting, f.raw = none) ∧ ∀ k ∈ t.todo l, k.raw = none := by
  constructor
  · intro f hf
    rcases waiting_of_moves h.steady.homed hm hf with hold | hnew
    · exact (h.raw l).1 f hold
    · cases hnew with
      | sent th w c data hcall hth => exact absurd (h.called_of_send hcall).1 hth
      | shut th w c hcall hth =>
          have hcalled := h.callers th
          rw [hcall] at hcalled
          exact absurd hcalled hth
      | _ => rfl
  · intro k hk
    rcases task_of_moves h.steady.homed hm hk with hold | hnew
    · exact (h.raw l).2 k hold
    · cases hnew with
      | started _ ready f _ hf htodo hactive hmem =>
          by_contra hraw
          obtain ⟨c, hc⟩ := Option.ne_none_iff_exists'.mp hraw
          have hfraw := ServerFunctor.raw_tasks hmem hc
          rw [(h.raw l).1 f hf] at hfraw
          cases hfraw
      | event _ c revents rest _ hactive htodo hmem => exact raw_eventTasks hmem
      | next _ env m c rest _ htodo hmem => exact Member.raw_next hmem
      | erased _ _ _ _ _ => rfl
      | tested _ env c rest htodo => split <;> rfl
      | closed _ env c rest _ htodo hkind => rcases hkind with rfl | rfl <;> rfl
      | accepted sockfd wc hw mark _ hkind => rcases hkind with rfl | rfl <;> rfl
      | destructor => rfl
      | torn d _ hhead hkind => rcases hkind with rfl | rfl <;> rfl

/-! ### One step: handlers -/

/-- `connectDestroyed` does not remove a channel whose event is handled. -/
theorem index_handled {k : Task} (hk : k ∈ s.todo l) (hc : k.handles = some c) :
    (t.channel c).index_ ≠ .kNew := by
  obtain ⟨hhome, hi⟩ := h.handled l k hk c hc
  rcases h.index_stays hm hhome.1 hi with hi | ⟨l', env, rest, -, htodo⟩
  · exact hi
  · have hcall : .call .removeChannel c ∈ s.todo l' := by simp [htodo]
    have hl : l' = l := (h.home_of_call hcall).2.symm.trans hhome.2
    subst hl
    rw [(h.apart l' _ hcall c rfl).2 k hk] at hc
    cases hc

theorem index_active {p : ChannelPtr × Mask} (hp : p ∈ s.active l) :
    (t.channel p.1).index_ ≠ .kNew := by
  have hhome := h.steady.homed.active l p hp
  rcases h.index_stays hm hhome.1 (h.active l p hp) with hi | ⟨l', env, rest, -, htodo⟩
  · exact hi
  · have hcall : .call .removeChannel p.1 ∈ s.todo l' := by simp [htodo]
    have hl : l' = l := (h.home_of_call hcall).2.symm.trans hhome.2
    subst hl
    rw [(h.apart l' _ hcall p.1 rfl).1] at hp
    cases hp

theorem active_step (l : ι) (p : ChannelPtr × Mask) (hp : p ∈ t.active l) :
    (t.channel p.1).index_ ≠ .kNew := by
  rcases active_of_moves hm hp with hold | ⟨-, ⟨b, ready, rfl⟩, fd, m, hentry⟩
  · exact h.index_active hm hold
  · obtain ⟨hhome, -, hi⟩ := h.entries l fd p.1 (.inr ⟨m, hentry⟩)
    refine (h.index_stays hm hhome.1 hi).resolve_right ?_
    rintro ⟨_, _, _, he, -⟩
    cases he

theorem handled_step (l : ι) (k : Task) (hk : k ∈ t.todo l) (c : Nat) (hc : k.handles = some c) :
    t.ConnHome l c ∧ (t.channel c).index_ ≠ .kNew := by
  have hset := settled_of_moves hm
  have hold : ∀ k' ∈ s.todo l, k'.handles = some c →
      t.ConnHome l c ∧ (t.channel c).index_ ≠ .kNew := fun k' hk' hc' =>
    ⟨.settled hset (h.handled l k' hk' c hc').1, h.index_handled hm hk' hc'⟩
  rcases task_of_moves h.steady.homed hm hk with hmem | hnew
  · exact hold k hmem hc
  · cases hnew with
    | started _ ready f _ hf htodo hactive hmem =>
        rw [ServerFunctor.handles_of_task hmem] at hc
        cases hc
    | event _ d revents rest _ hactive htodo hmem =>
        rcases eventTasks_kind hmem with ⟨hd, -⟩ | rfl
        · have hdc : d = c := Option.some.inj (hd.symm.trans hc)
          subst hdc
          have hp : (d, revents) ∈ s.active l := by simp [hactive]
          exact ⟨.settled hset (h.steady.homed.active l _ hp), h.index_active hm hp⟩
        · cases hc
    | next _ env m d rest _ htodo hmem =>
        rcases Member.next_kind hmem with ⟨rfl, rfl⟩ | ⟨hd, rfl | rfl⟩
        · cases hc
        · cases hc
          exact hold (.call m c) (by simp [htodo]) hd
        · cases hc
          exact hold (.call m c) (by simp [htodo]) hd
    | erased _ _ _ _ _ => cases hc
    | tested _ env d rest htodo => split at hc <;> cases hc
    | closed _ env d rest _ htodo hkind => rcases hkind with rfl | rfl <;> cases hc
    | accepted sockfd wc hw mark _ hkind => rcases hkind with rfl | rfl <;> cases hc
    | destructor => cases hc
    | torn d _ hhead hkind => rcases hkind with rfl | rfl <;> cases hc

omit hm [DecidableEq ι] [DecidableEq α] in
/-- `connectDestroyed` goes on where no event is handled. -/
theorem destroys_newTask {k : Task} (hnew : s.NewTask e l k) (hc : k.destroys = some c) :
    (s.active l = [] ∧ ∀ k' ∈ s.todo l, k'.handles = none) ∧
      ∀ b ready, e ≠ .loop l (.poll b) ready := by
  cases hnew with
  | started _ ready f _ hf htodo hactive hmem =>
      exact ⟨⟨hactive, by simp [htodo]⟩, by simp⟩
  | event _ d revents rest _ hactive htodo hmem =>
      rcases eventTasks_kind hmem with ⟨hd, hretires⟩ | rfl
      · rw [Task.retires_of_destroys hc] at hretires
        cases hretires
      · cases hc
  | next _ env m d rest _ htodo hmem =>
      rcases Member.next_kind hmem with ⟨rfl, rfl⟩ | ⟨-, rfl | rfl⟩
      · exact ⟨h.apart l (.call .markDestroyed d) (by simp [htodo]) d rfl, by simp⟩
      · cases hc
      · cases hc
  | erased _ _ _ _ _ => cases hc
  | tested _ env d rest htodo =>
      exact ⟨h.apart l (.testDestroyed d) (by simp [htodo]) d rfl, by simp⟩
  | closed _ env d rest _ htodo hkind => rcases hkind with rfl | rfl <;> cases hc
  | accepted sockfd wc hw mark _ hkind => rcases hkind with rfl | rfl <;> cases hc
  | destructor => cases hc
  | torn d _ hhead hkind => exact absurd (List.mem_of_mem_head? hhead) (h.steady.standing s.base)

theorem apart_step (l : ι) (k : Task) (hk : k ∈ t.todo l) (c : Nat) (hc : k.destroys = some c) :
    t.active l = [] ∧ ∀ k' ∈ t.todo l, k'.handles = none := by
  obtain ⟨⟨hactive, hhandles⟩, hpoll⟩ : (s.active l = [] ∧ ∀ k' ∈ s.todo l, k'.handles = none) ∧
      (s.todo l ≠ [] ∨ ∀ b ready, e ≠ .loop l (.poll b) ready) := by
    rcases task_of_moves h.steady.homed hm hk with hold | hnew
    · exact ⟨h.apart l k hold c hc, .inl (List.ne_nil_of_mem hold)⟩
    · exact (h.destroys_newTask hnew hc).imp id .inr
  constructor
  · refine List.eq_nil_iff_forall_not_mem.mpr fun p hp => ?_
    rcases active_of_moves hm hp with hold | ⟨htodo, ⟨b, ready, he⟩, -⟩
    · rw [hactive] at hold
      cases hold
    · exact hpoll.elim (fun hne => hne htodo) fun hne => hne b ready he
  · intro k' hk'
    by_contra hne
    obtain ⟨d, hd⟩ := Option.ne_none_iff_exists'.mp hne
    rcases task_of_moves h.steady.homed hm hk' with hold | hnew
    · exact hne (hhandles k' hold)
    · rcases hnew.handles_before hd with hactive' | ⟨k'', hk'', hd''⟩
      · exact hactive' hactive
      · rw [hhandles k'' hk''] at hd''
        cases hd''

/-! ### One step: channels -/

/-- The functors hand the connection on until its channel is removed. -/
theorem leaving_stays (hleaving : s.Leaving c) :
    t.Leaving c ∨ (t.channel c).index_ = .kNew := by
  rcases hleaving with ⟨l, hk⟩ | ⟨l, hf⟩ | ⟨l, k, hk, hdestroys⟩
  · rcases task_stays h.steady hm hk with hstays | ⟨env, rest, rfl, htodo⟩
    · exact .inl (.inl ⟨l, hstays⟩)
    · exact .inl (.inr (.inl ⟨_, connectDestroyed_of_queue hm htodo⟩))
  · rcases waiting_stays h.steady hm hf with hstays | hstarted
    · exact .inl (.inr (.inl ⟨l, hstays⟩))
    · exact .inl (.inr (.inr ⟨l, .testDestroyed c, hstarted _ (List.mem_singleton_self _), rfl⟩))
  · rcases task_stays h.steady hm hk with hstays | ⟨env, rest, rfl, htodo⟩
    · exact .inl (.inr (.inr ⟨l, k, hstays, hdestroys⟩))
    · cases k with
      | testDestroyed d =>
          cases hdestroys
          rcases call_of_testDestroyed hm htodo with hmark | hremove
          · exact .inl (.inr (.inr ⟨l, _, hmark, rfl⟩))
          · exact .inl (.inr (.inr ⟨l, _, hremove, rfl⟩))
      | call m d =>
          cases m with
          | markDestroyed =>
              cases hdestroys
              exact .inl (.inr (.inr ⟨l, _, removeChannel_of_mark hm htodo, rfl⟩))
          | removeChannel =>
              cases hdestroys
              exact .inr (kNew_of_remove hm htodo)
          | _ => cases hdestroys
      | _ => cases hdestroys

theorem owned_step (he : s.InService e) (hc : c < t.count)
    (hi : (t.channel c).index_ ≠ .kNew) : t.InTable c ∨ t.Leaving c := by
  rcases count_of_moves hm hc with hlt | ⟨rfl, sockfd, wc, hw, mark, -, rfl⟩
  · have htable : s.InTable c → t.InTable c ∨ t.Leaving c := by
      intro htable
      rcases inTable_of_moves h.steady he hm hlt htable with hstays | ⟨l, env, rest, rfl, htodo⟩
      · exact .inl hstays
      · exact .inr (.inl ⟨l, queueDestroyed_of_erase hm htodo⟩)
    by_cases hs : (s.channel c).index_ = .kNew
    · rcases h.index_before hm hlt hs hi with hin | ⟨l, env, rest, rfl, htodo⟩
      · exact htable hin
      · exact .inr (.inr (.inr ⟨l, _, removeChannel_of_mark hm htodo, rfl⟩))
    · rcases h.owned c hlt hs with hin | hleaving
      · exact htable hin
      · exact .inr ((h.leaving_stays hm hleaving).resolve_right hi)
  · obtain ⟨p, htcp⟩ := accept_tcp s sockfd wc hw mark
    refine absurd ?_ hi
    rw [channel, htcp]
    rfl

theorem descriptors_step (he : s.InService e) (hfree : s.DescriptorFree e) (hc : c < t.count)
    {d : Nat} (hd : d < t.count) (hownc : t.Owned c) (hownd : t.Owned d)
    (hfd : (t.channel c).fd_ = (t.channel d).fd_) : c = d := by
  -- an old connection and the new one
  have hnew : ∀ c < s.count, t.Owned c → ∀ sockfd wc hw mark, e = .accept sockfd wc hw mark →
      t = s.accept sockfd wc hw mark → (t.channel c).fd_ ≠ (t.channel s.count).fd_ := by
    rintro c hlt hown sockfd wc hw mark rfl rfl
    obtain ⟨p, htcp⟩ := accept_tcp s sockfd wc hw mark
    have hfd : ((s.accept sockfd wc hw mark).channel s.count).fd_ = sockfd := by
      rw [channel, htcp]
      rfl
    rw [hfd, fd_of_moves hm hlt]
    exact hfree c hlt (h.owned_before hm he hlt hown).held
  rcases count_of_moves hm hc with hltc | ⟨rfl, sockfd, wc, hw, mark, heq, ht⟩
  · rcases count_of_moves hm hd with hltd | ⟨rfl, sockfd, wc, hw, mark, heq, ht⟩
    · refine h.descriptors c hltc d hltd (h.owned_before hm he hltc hownc)
        (h.owned_before hm he hltd hownd) ?_
      rwa [← fd_of_moves hm hltc, ← fd_of_moves hm hltd]
    · exact absurd hfd (hnew c hltc hownc sockfd wc hw mark heq ht)
  · rcases count_of_moves hm hd with hltd | ⟨rfl, -⟩
    · exact absurd hfd.symm (hnew d hltd hownd sockfd wc hw mark heq ht)
    · rfl

/-- The poller after a member function has the channel recorded. -/
theorem poller_of_works {ok : ChannelOp → Prop} (hworker : s.Worker c e ok)
    (hworks : (s.tcp c).Works ok (t.tcp c)) :
    t.poller (s.conn c).home = (s.poller (s.conn c).home).record (t.channel c) := by
  obtain ⟨hown, hc⟩ := h.owned_of_worker hm hworker
  have hrecorded := (hworks.recorded (h.mirrored c hc hown)).1
  rwa [tcp_poller, tcp_poller, (settled_of_moves hm).home c hc] at hrecorded

theorem mirrored_step (he : s.InService e) (hfree : s.DescriptorFree e) (hc : c < t.count)
    (hown : t.Owned c) : (t.channel c).Mirrored (t.poller (t.conn c).home) := by
  rcases count_of_moves hm hc with hlt | ⟨rfl, sockfd, wc, hw, mark, rfl, rfl⟩
  · have hs := h.owned_before hm he hlt hown
    have hmirrored := h.mirrored c hlt hs
    rw [(settled_of_moves hm).home c hlt]
    cases rewires_of_moves hm with
    | keep hchannel hpoller _ => rwa [channel, hchannel c hlt, hpoller]
    | accept _ _ _ _ _ hconn _ hpoller _ => rwa [channel, hconn c hlt, hpoller]
    | work d ok hworker hworks hframe hpoller _ =>
        obtain ⟨hownd, hd⟩ := h.owned_of_worker hm hworker
        have hp := h.poller_of_works hm hworker hworks
        by_cases hcd : c = d
        · subst hcd
          rw [hp]
          exact Channel.mirrored_record
        · rw [channel, hframe c hcd]
          by_cases hl : (s.conn c).home = (s.conn d).home
          · rw [hl, hp]
            rw [hl] at hmirrored
            refine hmirrored.frame fun hfd => hcd ?_
            exact h.descriptors c hlt d hd hs hownd (hfd.trans (fd_of_moves hm hd))
          · rw [hpoller _ hl]
            exact hmirrored
  · -- no entry is left at a descriptor that is handed out
    have hnone : ∀ l, (s.poller l).channels_ sockfd = none ∧ (s.poller l).epollSet sockfd = none := by
      intro l
      have hentry : ∀ d, ¬ ((s.poller l).channels_ sockfd = some d ∨
          ∃ m, (s.poller l).epollSet sockfd = some (m, d)) := by
        intro d hd
        obtain ⟨hhome, hfd, hi⟩ := h.entries l sockfd d hd
        exact hfree d hhome.1 (h.owned_of_index hhome.1 hi).held hfd
      refine ⟨?_, ?_⟩
      · exact Option.eq_none_iff_forall_not_mem.mpr fun d hd => hentry d (.inl hd)
      · exact Option.eq_none_iff_forall_not_mem.mpr fun p hp => hentry p.2 (.inr ⟨p.1, hp⟩)
    obtain ⟨p, htcp⟩ := accept_tcp s sockfd wc hw mark
    have hpoller : (s.accept sockfd wc hw mark).poller = s.poller := by
      rw [accept, runInLoop_poller]
      rfl
    rw [channel, htcp, hpoller]
    exact ⟨(hnone _).1, (hnone _).2⟩

theorem entries_step (l : ι) (fd : Int) (c : Nat)
    (ht : (t.poller l).channels_ fd = some c ∨ ∃ m, (t.poller l).epollSet fd = some (m, c)) :
    t.ConnHome l c ∧ (t.channel c).fd_ = fd ∧ (t.channel c).index_ ≠ .kNew := by
  have hset := settled_of_moves hm
  -- an old entry, of a channel on which the step does not work
  have hold : ((s.poller l).channels_ fd = some c ∨ ∃ m, (s.poller l).epollSet fd = some (m, c)) →
      (c < s.count → t.channel c = s.channel c) →
      t.ConnHome l c ∧ (t.channel c).fd_ = fd ∧ (t.channel c).index_ ≠ .kNew := by
    intro hentry hsame
    obtain ⟨hhome, hfd, hi⟩ := h.entries l fd c hentry
    rw [hsame hhome.1]
    exact ⟨.settled hset hhome, hfd, hi⟩
  cases rewires_of_moves hm with
  | keep hchannel hpoller _ =>
      rw [hpoller] at ht
      exact hold ht (hchannel c)
  | accept _ _ _ _ _ hconn _ hpoller _ =>
      rw [hpoller] at ht
      exact hold ht fun hc => by rw [channel, hconn c hc]
  | work d ok hworker hworks hframe hpoller _ =>
      obtain ⟨hownd, hd⟩ := h.owned_of_worker hm hworker
      have hp := h.poller_of_works hm hworker hworks
      have hself : (t.channel d).self = d := hworks.entries.1.trans (h.steady.homed.self d hd)
      by_cases hl : l = (s.conn d).home
      · subst hl
        rw [hp] at ht
        rcases EPollPoller.entry_record ht with ⟨hfd, hentry⟩ | ⟨rfl, hcd, hi⟩
        · refine hold hentry fun hc => ?_
          have hcd : c ≠ d := by
            rintro rfl
            exact hfd ((h.entries _ fd c hentry).2.1.symm.trans (fd_of_moves hm hd).symm)
          rw [channel, hframe c hcd]
        · -- the record of the channel itself
          obtain rfl : c = d := hcd.trans hself
          exact ⟨.settled hset ⟨hd, rfl⟩, rfl, hi⟩
      · rw [hpoller l hl] at ht
        refine hold ht fun hc => ?_
        have hcd : c ≠ d := by
          rintro rfl
          exact hl (h.entries l fd c ht).1.2.symm
        rw [channel, hframe c hcd]

/-- **A step keeps the custody of every connection.** -/
theorem step (he : s.InService e) (hown : s.OnOwnLoop e) (hfree : s.DescriptorFree e) :
    t.Custody where
  steady := h.steady.step he hm
  live _ := h.live_step hm he
  fresh _ := h.fresh_step hm
  established := h.established_step hm (h.steady.step he hm)
  once := h.once_step hm
  retired := h.retired_step hm
  callers := h.callers_step hm hown
  raw := h.raw_step hm
  active := h.active_step hm
  handled := h.handled_step hm
  apart := h.apart_step hm
  owned _ := h.owned_step hm he
  mirrored _ := h.mirrored_step hm he hfree
  descriptors _ hc _ hd := h.descriptors_step hm he hfree hc hd
  entries := h.entries_step hm

end Custody

theorem custody_of_init (h : (serverMachine ι α).init s) : s.Custody := by
  have hsteady := steady_of_init h
  obtain ⟨-, -, hcount, hloops, hpoller, hactive, htodo, -, hcalling⟩ := h
  have hwaiting : ∀ l, (s.loops l).waiting = [] := fun l => by
    rw [hloops]
    rfl
  have hnone : ∀ l c, s.establishing l c = 0 := fun l c => by
    simp [establishing, hwaiting, htodo]
  constructor
  · exact hsteady
  all_goals simp [hcount, hpoller, hactive, htodo, hcalling, hwaiting, hnone, Called,
    EPollPoller.new]

/-! ### Registered channels -/

/-- **Registered channels are owned.**  While the server is in service, its users
call `send` and `shutdown` on the loop thread, and the kernel hands out no open
descriptor, every channel in `channels_` belongs to a connection to which
`connections_`, a functor of the server or the guard of a handler has a pointer.
So the channels that the kernel can return, those that are still ahead in
`activeChannels_` and those whose event is being handled exist; and when the last
pointer to a connection goes, and its descriptor is closed, its channel has been
removed from the poller. -/
theorem registered_owned {es : List (ServerEvent ι α)} (hinit : (serverMachine ι α).init s)
    (hservice : (serverMachine ι α).Along InService s es)
    (hown : (serverMachine ι α).Along OnOwnLoop s es)
    (hfree : (serverMachine ι α).Along DescriptorFree s es)
    (hrun : (serverMachine ι α).run s es = some t) :
    (∀ l fd c, (t.poller l).channels_ fd = some c → t.Owned c) ∧
    (∀ l fd m c, (t.poller l).epollSet fd = some (m, c) → t.Owned c ∧ t.Held c) ∧
    (∀ l, ∀ p ∈ t.active l, t.Owned p.1 ∧ t.Held p.1) ∧
    (∀ l, ∀ k ∈ t.todo l, ∀ c, k.handles = some c → t.Owned c ∧ t.Held c) ∧
    ∀ c < t.count, ¬ t.Held c → (t.channel c).index_ = .kNew ∧
      ∀ l fd, (t.poller l).channels_ fd ≠ some c ∧ ∀ m, (t.poller l).epollSet fd ≠ some (m, c) := by
  have h : t.Custody := by
    refine Machine.run_invariant (I := Custody) (fun s e t hs he ht => ?_)
      (hservice.and (hown.and hfree)) hrun (custody_of_init hinit)
    exact hs.step (moves_of_next ht) he.1 he.2.1 he.2.2
  have hentry : ∀ l fd c, ((t.poller l).channels_ fd = some c ∨
      ∃ m, (t.poller l).epollSet fd = some (m, c)) → t.Owned c := by
    intro l fd c hc
    obtain ⟨hhome, -, hi⟩ := h.entries l fd c hc
    exact h.owned_of_index hhome.1 hi
  refine ⟨fun l fd c hc => hentry l fd c (.inl hc), fun l fd m c hc => ?_, fun l p hp => ?_,
    fun l k hk c hc => ?_, fun c hc hheld => ⟨?_, fun l fd => ⟨fun hmap => ?_, fun m hset => ?_⟩⟩⟩
  · have howned := hentry l fd c (.inr ⟨m, hc⟩)
    exact ⟨howned, howned.held⟩
  · exact ⟨h.owned_of_active hp, (h.owned_of_active hp).held⟩
  · exact ⟨h.owned_of_handles hk hc, (h.owned_of_handles hk hc).held⟩
  · by_contra hi
    exact hheld (h.owned_of_index hc hi).held
  · exact hheld (hentry l fd c (.inl hmap)).held
  · exact hheld (hentry l fd c (.inr ⟨m, hset⟩)).held

/-! ### A run -/

instance (s : ServerSystem ι α) : (e : ServerEvent ι α) → Decidable (s.OnOwnLoop e)
  | .send th c _ | .shutdown th c => decEq th (.loop (s.conn c).home)
  | .loop .. | .dispatch _ | .task .. | .accept .. | .proceed .. | .copy .. | .release ..
  | .retrieve .. | .call .. | .destroy | .destroyEntry _ | .destroyed => instDecidableTrue

instance [Fintype ι] (s : ServerSystem ι α) :
    (e : ServerEvent ι α) → Decidable (s.DescriptorFree e)
  | .accept sockfd _ _ _ =>
      inferInstanceAs (Decidable (∀ c < s.count, s.Held c → (s.channel c).fd_ ≠ sockfd))
  | .loop .. | .dispatch _ | .task .. | .send .. | .shutdown .. | .proceed .. | .copy ..
  | .release .. | .retrieve .. | .call .. | .destroy | .destroyEntry _ | .destroyed =>
      instDecidableTrue

/-- The channel is still in the poller's map, and the connection owned. -/
theorem registered_owned_peerCloses :
    ∃ t : ServerSystem Bool Unit, (t.poller true).channels_ 7 = some 0 ∧ t.Owned 0 := by
  have hend : ((serverMachine Bool Unit).run
      (start ['s'] ⟨(127, 0, 0, 1), 80⟩ (.started false [true])) peerCloses).any fun t =>
        decide ((t.poller true).channels_ 7 = some 0) := by
    decide +kernel
  obtain ⟨t, hrun, hmap⟩ := (Option.any_eq_true _ _).mp hend
  have howned := registered_owned (init_start ..) (by decide +kernel) (by decide +kernel)
    (by decide +kernel) hrun
  exact ⟨t, of_decide_eq_true hmap, howned.1 true 7 0 (of_decide_eq_true hmap)⟩

end ServerSystem

end Mymuduo
