/-
Mymuduo/SendQueue.lean

Where a send is between its load of `state_` and its `sendInLoop`.

Every send that found the connection connected has been delivered, or is still in
the hands of its thread, or waits as a functor (`Queueing.placed`).  A thread
queues its `shutdownInLoop` behind all its sends, and no send finds the connection
connected after that, so the sends of that thread wait in front of it
(`Queueing.fifo`): when it runs, they have all been delivered.
-/
import Mymuduo.SendPath

namespace Mymuduo

open Transition SendSystem TcpConnection

variable {Tid : Type*}

/-! ### Calls and queues that grow at the end -/

/-- The functor is the `sendInLoop` of call `i`. -/
def ConnFunctor.SendsFor (f : ConnFunctor Tid) (i : Nat) : Prop := ∃ p n, f = .sendInLoop i p n

/-- The calls whose `sendInLoop` has run. -/
def SendSystem.delivered (s : SendSystem Tid) : List Nat := s.deliveries.map Delivery.call

theorem SendSystem.mem_delivered_deliver {s : SendSystem Tid} {i j : Nat}
    {data : Option (List Byte)} {a : Answer} :
    j ∈ (s.deliver i data a).delivered ↔ j ∈ s.delivered ∨ j = i := by
  simp [deliver, delivered]

theorem get_of_concat {calls : List (ApiCall Tid)} {i : Nat} {c x : ApiCall Tid}
    (h : (calls ++ [c])[i]? = some x) : calls[i]? = some x ∨ (i = calls.length ∧ x = c) := by
  rcases Nat.lt_trichotomy i calls.length with hlt | heq | hgt
  · rw [List.getElem?_append_left hlt] at h
    exact Or.inl h
  · subst heq
    rw [get_concat_length] at h
    exact Or.inr ⟨rfl, (Option.some.inj h).symm⟩
  · rw [List.getElem?_eq_none (by simp; omega)] at h
    cases h

/-- A split of a queue that has grown is a split of the queue before, or of what
was added. -/
theorem split_of_append {α : Type*} {xs qs ys zs : List α} {y : α}
    (h : xs ++ qs = ys ++ y :: zs) :
    (∃ zs', xs = ys ++ y :: zs') ∨ ∃ qs', ys = xs ++ qs' ∧ qs = qs' ++ y :: zs := by
  rcases List.append_eq_append_iff.mp h with ⟨qs', hys, hqs⟩ | ⟨zs', hxs, hzs⟩
  · exact Or.inr ⟨qs', hys, hqs⟩
  · cases zs' with
    | nil => exact Or.inr ⟨[], by rw [List.append_nil, hxs, List.append_nil], hzs.symm⟩
    | cons z zs' =>
        obtain ⟨rfl, -⟩ := List.cons.inj hzs
        exact Or.inl ⟨zs', hxs⟩

/-! ### The invariant -/

structure Queueing (s : SendSystem Tid) : Prop where
  calling : ∀ t i p, s.caller t = .sendFound i p →
    t ≠ s.loop.threadId_ ∧ ∃ buf, s.calls[i]? = some (.send t buf)
  waiting : ∀ q ∈ backlog s.loop, ∀ i, q.functor.SendsFor i →
    ∃ t buf, t ≠ s.loop.threadId_ ∧ s.calls[i]? = some (.send t buf)
  placed : ∀ i t buf, s.calls[i]? = some (.send t buf) →
    i ∈ s.delivered ∨ (∃ p, s.caller t = .sendFound i p) ∨
      ∃ q ∈ backlog s.loop, q.functor.SendsFor i
  closed : ((∃ t, s.caller t = .shutdownStored) ∨
    ∃ q ∈ backlog s.loop, ∃ t, q.functor = .shutdownInLoop t) → s.conn.state_ ≠ .kConnected
  fifo : ∀ qs q rest t, backlog s.loop = qs ++ q :: rest → q.functor = .shutdownInLoop t →
    ∀ i buf, s.calls[i]? = some (.send t buf) → i ∈ s.delivered ∨ ∃ q' ∈ qs, q'.functor.SendsFor i

theorem queueing_of_init {s : SendSystem Tid} (h : Init s) : Queueing s where
  calling := fun t i p hcaller => by
    rw [h.caller t] at hcaller
    cases hcaller
  waiting := fun q hq i hf => by
    obtain ⟨p, n, hf⟩ := hf
    rw [h.loop q hq] at hf
    cases hf
  placed := fun i t buf hget => by
    rw [h.calls] at hget
    cases hget
  closed := by
    rintro (⟨t, ht⟩ | ⟨q, hq, t, hf⟩)
    · rw [h.caller t] at ht
      cases ht
    · rw [h.loop q hq] at hf
      cases hf
  fifo := fun qs q rest t hlog hf i buf hget => by
    rw [h.calls] at hget
    cases hget

variable {s s' : SendSystem Tid}

/-- The sends of the loop thread are delivered at once. -/
theorem Queueing.delivered_of_loopThread (h : Queueing s) {i : Nat} {buf : List Byte}
    (hget : s.calls[i]? = some (.send s.loop.threadId_ buf)) : i ∈ s.delivered := by
  rcases h.placed i _ buf hget with hdel | ⟨p, hcaller⟩ | ⟨q, hq, hf⟩
  · exact hdel
  · exact absurd rfl (h.calling _ i p hcaller).1
  · obtain ⟨t, buf', hne, hget'⟩ := h.waiting q hq i hf
    rw [hget] at hget'
    obtain ⟨rfl, -⟩ := ApiCall.send.inj (Option.some.inj hget')
    exact absurd rfl hne

/-- When a `shutdownInLoop` is the next functor, the sends of its thread have been
delivered. -/
theorem Queueing.delivered_of_head (h : Queueing s) {q : Queued (ConnFunctor Tid)}
    {rest : List (Queued (ConnFunctor Tid))} {t : Tid} (hlog : backlog s.loop = q :: rest)
    (hf : q.functor = .shutdownInLoop t) {i : Nat} {buf : List Byte}
    (hget : s.calls[i]? = some (.send t buf)) : i ∈ s.delivered := by
  rcases h.fifo [] q rest t hlog hf i buf hget with hdel | ⟨q', hq', -⟩
  · exact hdel
  · cases hq'

/-! ### Steps -/

theorem deliver_state (hconn : Established s.conn) (i : Nat) (data : Option (List Byte))
    (a : Answer) : (s.deliver i data a).conn.state_ = s.conn.state_ :=
  (sendInLoop_spec hconn _ _).2.1

/-- `shutdownInLoop` issues a FIN exactly when nothing is left to write. -/
theorem shutdownInLoop_cases (hconn : Established s.conn) :
    (s.conn.outputBuffer_.readable = [] ∧
      s.shutdownInLoop = { s with conn := s.conn.emit .shutdownWrite
                                  fins := s.fins ++ [⟨s.kept, s.conn.trace⟩] }) ∨
    (s.conn.outputBuffer_.readable ≠ [] ∧ s.shutdownInLoop = s) := by
  unfold SendSystem.shutdownInLoop
  rcases shutdownInLoop_spec hconn with ⟨hnil, heq⟩ | ⟨hne, heq⟩
  · have hoff := hconn.not_isWriting.mpr hnil
    exact Or.inl ⟨hnil, by rw [heq, hoff]; rfl⟩
  · have hon := hconn.isWriting.mpr hne
    exact Or.inr ⟨hne, by rw [heq, hon]; rfl⟩

theorem shutdownInLoop_state (hconn : Established s.conn) :
    s.shutdownInLoop.conn.state_ = s.conn.state_ := by
  rcases shutdownInLoop_cases hconn with ⟨-, heq⟩ | ⟨-, heq⟩ <;> rw [heq]
  rfl

/-- Steps that make no call and move no functor. -/
theorem Queueing.congr (h : Queueing s) (hcalls : s'.calls = s.calls)
    (hdel : s'.delivered = s.delivered) (hcaller : s'.caller = s.caller)
    (ht : s'.loop.threadId_ = s.loop.threadId_) (hlog : backlog s'.loop = backlog s.loop)
    (hstate : s.conn.state_ ≠ .kConnected → s'.conn.state_ ≠ .kConnected) : Queueing s' := by
  obtain ⟨hcalling, hwaiting, hplaced, hclosed, hfifo⟩ := h
  refine ⟨?_, ?_, ?_, ?_, ?_⟩
  · rw [hcaller, ht, hcalls]
    exact hcalling
  · rw [hlog, ht, hcalls]
    exact hwaiting
  · rw [hcalls, hdel, hcaller, hlog]
    exact hplaced
  · rw [hcaller, hlog]
    exact fun hshut => hstate (hclosed hshut)
  · rw [hlog, hcalls, hdel]
    exact hfifo

/-- Functors go into the queue: the sends of other threads, and a `shutdownInLoop`
behind all the sends of its thread. -/
theorem Queueing.queued (h : Queueing s) {l : EventLoop (ConnFunctor Tid) Tid}
    {qs : List (Queued (ConnFunctor Tid))} (ht : l.threadId_ = s.loop.threadId_)
    (hlog : backlog l = backlog s.loop ++ qs)
    (hsend : ∀ q ∈ qs, ∀ i, q.functor.SendsFor i →
      ∃ t buf, t ≠ s.loop.threadId_ ∧ s.calls[i]? = some (.send t buf))
    (hshut : ∀ q ∈ qs, ∀ t, q.functor = .shutdownInLoop t → s.conn.state_ ≠ .kConnected ∧
      ∀ i buf, s.calls[i]? = some (.send t buf) →
        i ∈ s.delivered ∨ ∃ q' ∈ backlog s.loop, q'.functor.SendsFor i) :
    Queueing { s with loop := l } := by
  have hmem : ∀ q, q ∈ backlog l ↔ q ∈ backlog s.loop ∨ q ∈ qs := by
    intro q
    rw [hlog, List.mem_append]
  refine ⟨?_, ?_, ?_, ?_, ?_⟩
  · intro t i p hcaller
    show t ≠ l.threadId_ ∧ _
    rw [ht]
    exact h.calling t i p hcaller
  · intro q hq
    show ∀ i, _ → ∃ t buf, t ≠ l.threadId_ ∧ _
    rw [ht]
    exact ((hmem q).mp hq).elim (h.waiting q) (hsend q)
  · intro i t buf hget
    refine (h.placed i t buf hget).imp_right (Or.imp_right ?_)
    rintro ⟨q, hq, hf⟩
    exact ⟨q, (hmem q).mpr (Or.inl hq), hf⟩
  · rintro (hcaller | ⟨q, hq, t, hf⟩)
    · exact h.closed (Or.inl hcaller)
    · rcases (hmem q).mp hq with hq | hq
      · exact h.closed (Or.inr ⟨q, hq, t, hf⟩)
      · exact (hshut q hq t hf).1
  · intro ys q rest t hsplit hf i buf hget
    rcases split_of_append (hlog.symm.trans hsplit) with ⟨rest', hold⟩ | ⟨qs', rfl, rfl⟩
    · exact h.fifo ys q rest' t hold hf i buf hget
    · -- the functor is new, and all that waited before is in front of it
      have hq : q ∈ qs' ++ q :: rest := List.mem_append_right qs' List.mem_cons_self
      apply ((hshut q hq t hf).2 i buf hget).imp_right
      rintro ⟨q', hq', hf'⟩
      exact ⟨q', List.mem_append_left qs' hq', hf'⟩

/-- The functor at the head of the queue leaves it; if it was a `sendInLoop`, its
call is delivered. -/
theorem Queueing.popped (h : Queueing s) {q : Queued (ConnFunctor Tid)}
    (hlog : backlog s.loop = q :: backlog s'.loop) (hcalls : s'.calls = s.calls)
    (hcaller : s'.caller = s.caller) (ht : s'.loop.threadId_ = s.loop.threadId_)
    (hstate : s'.conn.state_ = s.conn.state_) (hkeep : ∀ i ∈ s.delivered, i ∈ s'.delivered)
    (hrun : ∀ i, q.functor.SendsFor i → i ∈ s'.delivered) : Queueing s' := by
  have hmem : ∀ q' ∈ backlog s'.loop, q' ∈ backlog s.loop := by
    intro q' hq'
    rw [hlog]
    exact List.mem_cons_of_mem q hq'
  refine ⟨?_, ?_, ?_, ?_, ?_⟩
  · rw [hcaller, ht, hcalls]
    exact h.calling
  · rw [ht, hcalls]
    exact fun q' hq' => h.waiting q' (hmem q' hq')
  · rw [hcalls, hcaller]
    intro i t buf hget
    rcases h.placed i t buf hget with hdel | hcall | ⟨q', hq', hf⟩
    · exact Or.inl (hkeep i hdel)
    · exact Or.inr (Or.inl hcall)
    · rw [hlog] at hq'
      rcases List.mem_cons.mp hq' with rfl | hq'
      -- it leaves as a delivery
      · exact Or.inl (hrun i hf)
      · exact Or.inr (Or.inr ⟨q', hq', hf⟩)
  · rw [hcaller, hstate]
    intro hshut
    refine h.closed (hshut.imp_right ?_)
    rintro ⟨q', hq', hf⟩
    exact ⟨q', hmem q' hq', hf⟩
  · rw [hcalls]
    intro qs q' rest t hsplit hf i buf hget
    -- before, the functor that leaves stood in front
    have hold : backlog s.loop = (q :: qs) ++ q' :: rest := by rw [hlog, hsplit]; rfl
    rcases h.fifo (q :: qs) q' rest t hold hf i buf hget with hdel | ⟨q₀, hq₀, hf₀⟩
    · exact Or.inl (hkeep i hdel)
    · rcases List.mem_cons.mp hq₀ with rfl | hq₀
      · exact Or.inl (hrun i hf₀)
      · exact Or.inr ⟨q₀, hq₀, hf₀⟩

/-- A call of `shutdown` is noted. -/
theorem Queueing.recordShutdown (h : Queueing s) (t : Tid) :
    Queueing (s.record (.shutdown t)) := by
  have hold : ∀ (i : Nat) t' buf, (s.record (.shutdown t)).calls[i]? = some (.send t' buf) →
      s.calls[i]? = some (.send t' buf) := by
    intro i t' buf hget
    apply (get_of_concat hget).resolve_right
    rintro ⟨-, hsend⟩
    cases hsend
  refine ⟨?_, ?_, ?_, h.closed, ?_⟩
  · intro t' i p hcaller
    obtain ⟨hne, buf, hget⟩ := h.calling t' i p hcaller
    exact ⟨hne, buf, get_concat hget _⟩
  · intro q hq i hf
    obtain ⟨t', buf, hne, hget⟩ := h.waiting q hq i hf
    exact ⟨t', buf, hne, get_concat hget _⟩
  · exact fun i t' buf hget => h.placed i t' buf (hold i t' buf hget)
  · intro qs q rest t' hsplit hf i buf hget
    exact h.fifo qs q rest t' hsplit hf i buf (hold i t' buf hget)

/-- A send finds the connection connected, and is delivered or left to its thread. -/
theorem Queueing.recordSend (h : Queueing s) {t : Tid} {buf : List Byte}
    (hstate : s.conn.state_ = .kConnected) (hcalls : s'.calls = s.calls ++ [.send t buf])
    (hloop : s'.loop = s.loop) (hkeep : ∀ i ∈ s.delivered, i ∈ s'.delivered)
    (hstored : ∀ t', s'.caller t' = .shutdownStored → s.caller t' = .shutdownStored)
    (hcalling : ∀ t' i p, s'.caller t' = .sendFound i p → s.caller t' = .sendFound i p ∨
      (t' = t ∧ i = s.calls.length ∧ t ≠ s.loop.threadId_))
    (hsame : ∀ t' i p, s.caller t' = .sendFound i p → s'.caller t' = .sendFound i p)
    (hplaced : s.calls.length ∈ s'.delivered ∨ ∃ p, s'.caller t = .sendFound s.calls.length p) :
    Queueing s' := by
  have hopen : ¬ ((∃ t', s'.caller t' = .shutdownStored) ∨
      ∃ q ∈ backlog s.loop, ∃ t', q.functor = .shutdownInLoop t') := by
    rintro (⟨t', ht'⟩ | hq)
    -- a `shutdown` under way or queued has changed `state_`
    · exact h.closed (Or.inl ⟨t', hstored t' ht'⟩) hstate
    · exact h.closed (Or.inr hq) hstate
  refine ⟨?_, ?_, ?_, ?_, ?_⟩
  · rw [hcalls, hloop]
    intro t' i p hcaller
    rcases hcalling t' i p hcaller with hcaller | ⟨rfl, rfl, hne⟩
    · obtain ⟨hne, buf', hget⟩ := h.calling t' i p hcaller
      exact ⟨hne, buf', get_concat hget _⟩
    · exact ⟨hne, buf, get_concat_length _⟩
  · rw [hcalls, hloop]
    intro q hq i hf
    obtain ⟨t', buf', hne, hget⟩ := h.waiting q hq i hf
    exact ⟨t', buf', hne, get_concat hget _⟩
  · rw [hcalls, hloop]
    intro i t' buf' hget
    rcases get_of_concat hget with hget | ⟨rfl, hnew⟩
    · rcases h.placed i t' buf' hget with hdel | ⟨p, hcaller⟩ | hq
      · exact Or.inl (hkeep i hdel)
      · exact Or.inr (Or.inl ⟨p, hsame t' i p hcaller⟩)
      · exact Or.inr (Or.inr hq)
    · obtain ⟨rfl, -⟩ := ApiCall.send.inj hnew
      exact hplaced.imp_right Or.inl
  · rw [hloop]
    exact fun hshut => absurd hshut hopen
  · -- no `shutdownInLoop` waits while the connection is connected
    rw [hloop]
    intro qs q rest t' hsplit hf
    refine absurd (Or.inr ⟨q, ?_, t', hf⟩) hopen
    rw [hsplit]
    exact List.mem_append_right qs List.mem_cons_self

/-- The functor at the head of the queue runs. -/
theorem Queueing.runFunctor (h : Queueing s) (hconn : Established s.conn) {a : Answer}
    {l : EventLoop (ConnFunctor Tid) Tid} {q : Queued (ConnFunctor Tid)}
    (ht : l.threadId_ = s.loop.threadId_) (hlog : backlog s.loop = q :: backlog l) :
    Queueing ({ s with loop := l }.runFunctor a q.functor) := by
  cases hf : q.functor with
  | sendInLoop i p n =>
      refine h.popped hlog rfl rfl ht (deliver_state (s := { s with loop := l }) hconn _ _ _) ?_ ?_
      · exact fun _ hj => mem_delivered_deliver.mpr (Or.inl hj)
      · rintro j ⟨p', n', hj⟩
        rw [hf] at hj
        obtain ⟨rfl, -, -⟩ := ConnFunctor.sendInLoop.inj hj
        exact mem_delivered_deliver.mpr (Or.inr rfl)
  | shutdownInLoop t =>
      refine h.popped hlog rfl rfl ht (shutdownInLoop_state (s := { s with loop := l }) hconn) ?_ ?_
      · exact fun _ hj => hj
      · rintro j ⟨p, n, hj⟩
        rw [hf] at hj
        cases hj
  | other =>
      refine h.popped hlog rfl rfl ht rfl ?_ ?_
      · exact fun _ hj => hj
      · rintro j ⟨p, n, hj⟩
        rw [hf] at hj
        cases hj

variable [DecidableEq Tid]

/-- A thread goes on: a `send` of it has been queued, and what it turns to is not
a `send`. -/
theorem Queueing.setCaller (h : Queueing s) (t : Tid) {k : Caller}
    (hk : ∀ i p, k ≠ .sendFound i p)
    (hplaced : ∀ i p, s.caller t = .sendFound i p →
      ∃ q ∈ backlog s.loop, q.functor.SendsFor i)
    (hclosed : k = .shutdownStored → s.conn.state_ ≠ .kConnected) :
    Queueing (s.setCaller t k) := by
  refine ⟨?_, h.waiting, ?_, ?_, h.fifo⟩
  · exact fun t' i p hcaller => h.calling t' i p (calling_of_setCaller hk hcaller)
  · intro i t' buf hget
    rcases h.placed i t' buf hget with hdel | ⟨p, hcaller⟩ | hq
    · exact Or.inl hdel
    · by_cases heq : t' = t
      · subst heq
        exact Or.inr (Or.inr (hplaced i p hcaller))
      · exact Or.inr (Or.inl ⟨p, (setCaller_of_ne s heq k).trans hcaller⟩)
    · exact Or.inr (Or.inr hq)
  · rintro (⟨t', hcaller⟩ | hq)
    · by_cases heq : t' = t
      · subst heq
        exact hclosed ((setCaller_self s t' k).symm.trans hcaller)
      · exact h.closed (Or.inl ⟨t', (setCaller_of_ne s heq k).symm.trans hcaller⟩)
    · exact h.closed (Or.inr hq)

/-- A thread that is in no `send` goes on. -/
theorem Queueing.goOn (h : Queueing s) {t : Tid} {k₀ : Caller} (hcaller : s.caller t = k₀)
    (hk₀ : ∀ i p, k₀ ≠ .sendFound i p) {k : Caller} (hk : ∀ i p, k ≠ .sendFound i p)
    (hclosed : k = .shutdownStored → s.conn.state_ ≠ .kConnected) :
    Queueing (s.setCaller t k) := by
  apply h.setCaller t hk
  · intro i p hsend
    exact absurd (hcaller.symm.trans hsend) (hk₀ i p)
  · exact hclosed

/-- The functor of a `send` goes into the queue. -/
theorem Queueing.sendQueue (h : Queueing s) {t : Tid} {i : Nat} {p : Addr}
    {l : EventLoop (ConnFunctor Tid) Tid} {q : Queued (ConnFunctor Tid)} {n : Nat}
    (hcaller : s.caller t = .sendFound i p) (ht : l.threadId_ = s.loop.threadId_)
    (hlog : backlog l = backlog s.loop ++ [q]) (hq : q.functor = .sendInLoop i p n) :
    Queueing ({ s with loop := l }.setCaller t .idle) := by
  have hqueued : Queueing { s with loop := l } := by
    apply h.queued ht hlog
    · rintro q' hq' j ⟨p', n', hf⟩
      obtain rfl := List.mem_singleton.mp hq'
      rw [hq] at hf
      obtain ⟨rfl, -, -⟩ := ConnFunctor.sendInLoop.inj hf
      obtain ⟨hne, buf, hget⟩ := h.calling t i p hcaller
      exact ⟨t, buf, hne, hget⟩
    · intro q' hq' t' hf
      obtain rfl := List.mem_singleton.mp hq'
      rw [hq] at hf
      cases hf
  apply hqueued.setCaller t (by simp)
  · -- the send that the thread had in its hands now waits
    intro j p' hcaller'
    obtain ⟨rfl, rfl⟩ := Caller.sendFound.inj (hcaller.symm.trans hcaller')
    refine ⟨q, ?_, p, n, hq⟩
    show q ∈ backlog l
    rw [hlog]
    exact List.mem_append_right _ (List.mem_singleton_self q)
  · simp

/-- The functor of a `shutdown` goes into the queue, behind the sends of its
thread. -/
theorem Queueing.shutdownQueue (h : Queueing s) {t : Tid}
    {l : EventLoop (ConnFunctor Tid) Tid} {q : Queued (ConnFunctor Tid)}
    (hcaller : s.caller t = .shutdownStored) (ht : l.threadId_ = s.loop.threadId_)
    (hlog : backlog l = backlog s.loop ++ [q]) (hq : q.functor = .shutdownInLoop t) :
    Queueing ({ s with loop := l }.setCaller t .idle) := by
  have hqueued : Queueing { s with loop := l } := by
    apply h.queued ht hlog
    · rintro q' hq' i ⟨p, n, hf⟩
      obtain rfl := List.mem_singleton.mp hq'
      rw [hq] at hf
      cases hf
    · intro q' hq' t' hf
      obtain rfl := List.mem_singleton.mp hq'
      rw [hq] at hf
      obtain rfl := ConnFunctor.shutdownInLoop.inj hf
      refine ⟨h.closed (Or.inl ⟨t, hcaller⟩), fun i buf hget => ?_⟩
      -- no send of the thread is in its hands
      refine (h.placed i t buf hget).imp_right (Or.resolve_left · ?_)
      rintro ⟨p, hcaller'⟩
      rw [hcaller] at hcaller'
      cases hcaller'
  exact hqueued.goOn hcaller (by simp) (by simp) (by simp)

/-- A `send` of another thread finds the connection connected. -/
theorem Queueing.sendFound (h : Queueing s) {t : Tid} {buf : List Byte} {p : Addr}
    (hstate : s.conn.state_ = .kConnected) (hout : s.loop.isInLoopThread t = false)
    (hidle : s.caller t = .idle) :
    Queueing ((s.record (.send t buf)).setCaller t (.sendFound s.calls.length p)) := by
  have hne : t ≠ s.loop.threadId_ := of_decide_eq_false hout
  refine h.recordSend hstate rfl rfl ?_ ?_ ?_ ?_ ?_
  · exact fun _ hi => hi
  · intro t' hcaller
    by_cases heq : t' = t
    · subst heq
      rw [setCaller_self] at hcaller
      cases hcaller
    · exact (setCaller_of_ne _ heq _).symm.trans hcaller
  · intro t' i p' hcaller
    by_cases heq : t' = t
    · subst heq
      rw [setCaller_self] at hcaller
      obtain ⟨rfl, rfl⟩ := Caller.sendFound.inj hcaller
      exact Or.inr ⟨rfl, rfl, hne⟩
    · exact Or.inl ((setCaller_of_ne _ heq _).symm.trans hcaller)
  · intro t' i p' hcaller
    refine (setCaller_of_ne _ ?_ _).trans hcaller
    rintro rfl
    rw [hidle] at hcaller
    cases hcaller
  · exact Or.inr ⟨p, setCaller_self _ _ _⟩

/-- Every step of an established connection keeps the sends in their places. -/
theorem Queueing.step {e : SystemEvent Tid} (h : Queueing s) (hconn : Established s.conn)
    (hstep : Step s e s') : Queueing s' := by
  cases hstep with
  | loop e a l he ht hlog => exact h.congr rfl rfl rfl ht hlog id
  | start a l q rest ht hdraining hpc hlog => exact h.runFunctor hconn ht hlog
  | call t c l qs ht hlog hqs =>
      apply h.queued ht hlog
      · rintro q hq i ⟨p, n, hf⟩
        rw [hqs q hq] at hf
        cases hf
      · intro q hq t' hf
        rw [hqs q hq] at hf
        cases hf
  | modify t p block => exact h.congr rfl rfl rfl rfl rfl id
  | sendReturn t p w => exact h
  | sendFound t p buf w hmem hstate hout hidle => exact h.sendFound hstate hout hidle
  | sendInline t p buf w hstate hin hidle hdraining =>
      exact h.recordSend hstate rfl rfl (fun _ hi => mem_delivered_deliver.mpr (Or.inl hi))
        (fun _ hcaller => hcaller) (fun _ _ _ hcaller => Or.inl hcaller)
        (fun _ _ _ hcaller => hcaller) (Or.inl (mem_delivered_deliver.mpr (Or.inr rfl)))
  | sendQueue t i p l q hcaller ht hlog hq => exact h.sendQueue hcaller ht hlog hq
  | shutdownReturn t hstate hidle => exact h.recordShutdown t
  | shutdownFound t hstate hidle =>
      exact (h.recordShutdown t).goOn hidle (by simp) (by simp) (by simp)
  | shutdownStore t hcaller =>
      have hstored : Queueing { s with conn := s.conn.setState .kDisconnecting } :=
        h.congr rfl rfl rfl rfl rfl (fun _ => nofun)
      exact hstored.goOn hcaller (by simp) (by simp) (fun _ => nofun)
  | shutdownQueue t l q hcaller hout ht hlog hq => exact h.shutdownQueue hcaller ht hlog hq
  | shutdownInline t hcaller hin =>
      have hshut : Queueing s.shutdownInLoop :=
        h.congr rfl rfl rfl rfl rfl (by rw [shutdownInLoop_state hconn]; exact id)
      exact hshut.goOn hcaller (by simp) (by simp) (by simp)
  | writeOut w => exact h.congr rfl rfl rfl rfl rfl (by rw [(writeOut_spec hconn w).2.1]; exact id)
  | finish hdraining hstate =>
      refine h.congr rfl rfl rfl rfl rfl ?_
      show _ → s.shutdownInLoop.conn.state_ ≠ _
      rw [shutdownInLoop_state hconn]
      exact id
  | finishQuiet hdraining hstate => exact h.congr rfl rfl rfl rfl rfl id

end Mymuduo
