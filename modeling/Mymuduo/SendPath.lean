/-
Mymuduo/SendPath.lean

`send` from another thread: what the functor reads when it runs.

On the loop thread `send(buf)` hands the bytes of `buf` to `sendInLoop` at once.
From another thread it binds `buf.c_str()` and `buf.size()` into a functor, and
nothing keeps the string alive or unchanged until the functor runs.  As long as
no modification of a string touches what a functor still has to read
(`Intact`), both paths hand over the bytes of the call
(`send_carries_call_bytes`); a caller that reuses its string after `send` has
returned changes, or destroys, what is sent.
-/
import Mymuduo.SendSystem

namespace Mymuduo

open Transition SendSystem TcpConnection

variable {Tid : Type*}

/-! ### The bytes of a call -/

/-- The bytes that the string of a call held when it was made. -/
def callBytes (calls : List (ApiCall Tid)) (i : Nat) : List Byte :=
  match calls[i]? with
  | some (.send _ buf) => buf
  | _ => []

/-- Every `sendInLoop` that has run has read the bytes of its call, and these are
the data that `sendInLoop` got, in order. -/
structure CarriesCallBytes (s : SendSystem Tid) : Prop where
  read : ∀ d ∈ s.deliveries, ∃ t buf, s.calls[d.call]? = some (.send t buf) ∧ d.data = some buf
  passed : sent s.conn.trace = s.deliveries.map fun d => callBytes s.calls d.call

theorem callBytes_of_get {calls : List (ApiCall Tid)} {i : Nat} {t : Tid} {buf : List Byte}
    (h : calls[i]? = some (.send t buf)) : callBytes calls i = buf := by
  unfold callBytes
  rw [h]

theorem get_concat {calls : List (ApiCall Tid)} {i : Nat} {c : ApiCall Tid}
    (h : calls[i]? = some c) (c' : ApiCall Tid) : (calls ++ [c'])[i]? = some c := by
  obtain ⟨hi, -⟩ := List.getElem?_eq_some_iff.mp h
  rw [List.getElem?_append_left hi, h]

theorem get_concat_length {calls : List (ApiCall Tid)} (c : ApiCall Tid) :
    (calls ++ [c])[calls.length]? = some c := by
  simp

/-- A call that was made keeps its bytes. -/
theorem callBytes_concat {calls : List (ApiCall Tid)} {i : Nat} {t : Tid} {buf : List Byte}
    (h : calls[i]? = some (.send t buf)) (c : ApiCall Tid) :
    callBytes (calls ++ [c]) i = callBytes calls i := by
  rw [callBytes_of_get h, callBytes_of_get (get_concat h c)]

theorem CarriesCallBytes.congr {s s' : SendSystem Tid} (h : CarriesCallBytes s)
    (hcalls : s'.calls = s.calls) (hdel : s'.deliveries = s.deliveries)
    (hsent : sent s'.conn.trace = sent s.conn.trace) : CarriesCallBytes s' := by
  refine ⟨?_, ?_⟩
  · rw [hcalls, hdel]
    exact h.read
  · rw [hcalls, hdel, hsent]
    exact h.passed

theorem CarriesCallBytes.record {s : SendSystem Tid} (h : CarriesCallBytes s)
    (c : ApiCall Tid) : CarriesCallBytes (s.record c) := by
  refine ⟨?_, ?_⟩
  · intro d hd
    obtain ⟨t, buf, hget, hdata⟩ := h.read d hd
    exact ⟨t, buf, get_concat hget c, hdata⟩
  · show sent s.conn.trace = _
    rw [h.passed]
    apply List.map_congr_left
    intro d hd
    obtain ⟨t, buf, hget, -⟩ := h.read d hd
    exact (callBytes_concat hget c).symm

/-- A `sendInLoop` that reads the bytes of its call. -/
theorem CarriesCallBytes.deliver {s : SendSystem Tid} (h : CarriesCallBytes s) {i : Nat} {t : Tid}
    {buf : List Byte} (hget : s.calls[i]? = some (.send t buf)) (a : Answer) :
    CarriesCallBytes (s.deliver i (some buf) a) := by
  refine ⟨?_, ?_⟩
  · intro d hd
    rcases List.mem_append.mp hd with hd | hd
    · exact h.read d hd
    · obtain rfl := List.mem_singleton.mp hd
      exact ⟨t, buf, hget, rfl⟩
  · show sent (s.conn.sendInLoop buf a.write).trace = _
    rw [sent_sendInLoop, h.passed]
    show _ = (s.deliveries ++ [(⟨i, some buf⟩ : Delivery)]).map
      fun d => callBytes s.calls d.call
    rw [List.map_append, List.map_singleton, callBytes_of_get hget]

/-! ### What waits still reads the bytes of its call -/

/-- Every send under way will read the bytes of its call, as memory is now. -/
structure Bound (s : SendSystem Tid) : Prop where
  waiting : ∀ q ∈ backlog s.loop, ∀ i p n, q.functor = .sendInLoop i p n →
    ∃ t buf, s.calls[i]? = some (.send t buf) ∧ fetch s.memory p n = some buf
  calling : ∀ t i p, s.caller t = .sendFound i p →
    ∃ t' buf, s.calls[i]? = some (.send t' buf) ∧ s.memory p = some buf
  carried : CarriesCallBytes s

/-- The modification leaves alone what the waiting functors read, and the strings
of the calls under way. -/
def Intact (s : SendSystem Tid) : SystemEvent Tid → Prop
  | .modify _ p block =>
      (∀ q ∈ backlog s.loop, ∀ i p' n, q.functor = .sendInLoop i p' n →
        fetch (Function.update s.memory p block) p' n = fetch s.memory p' n) ∧
      ∀ t i p', s.caller t = .sendFound i p' → p' ≠ p
  | _ => True

theorem Bound.record {s : SendSystem Tid} (h : Bound s) (c : ApiCall Tid) :
    Bound (s.record c) := by
  refine ⟨?_, ?_, h.carried.record c⟩
  · intro q hq i p n hf
    obtain ⟨t, buf, hget, hfetch⟩ := h.waiting q hq i p n hf
    exact ⟨t, buf, get_concat hget c, hfetch⟩
  · intro t i p hcaller
    obtain ⟨t', buf, hget, hmem⟩ := h.calling t i p hcaller
    exact ⟨t', buf, get_concat hget c, hmem⟩

variable {s s' : SendSystem Tid} {e : SystemEvent Tid}

/-- Steps that queue functors: the new ones read the bytes of their calls. -/
theorem Bound.queued (h : Bound s) {l : EventLoop (ConnFunctor Tid) Tid}
    {qs : List (Queued (ConnFunctor Tid))} (hlog : backlog l = backlog s.loop ++ qs)
    (hqs : ∀ q ∈ qs, ∀ i p n, q.functor = .sendInLoop i p n →
      ∃ t buf, s.calls[i]? = some (.send t buf) ∧ fetch s.memory p n = some buf) :
    Bound { s with loop := l } := by
  refine ⟨?_, h.calling, h.carried.congr rfl rfl rfl⟩
  intro q hq
  rw [hlog] at hq
  exact (List.mem_append.mp hq).elim (h.waiting q) (hqs q)

/-- Steps of the connection that are not calls of `sendInLoop`. -/
theorem Bound.conn (h : Bound s) (c : TcpConnection) (hsent : sent c.trace = sent s.conn.trace)
    {b : Bool} {fs : List FinRecord} :
    Bound { s with conn := c, draining := b, fins := fs } :=
  ⟨h.waiting, h.calling, h.carried.congr rfl rfl hsent⟩

theorem Bound.shutdownInLoop (h : Bound s) : Bound s.shutdownInLoop :=
  ⟨h.waiting, h.calling, h.carried.congr rfl rfl (sent_shutdownInLoop s.conn)⟩

/-- A functor runs, and if it is a `sendInLoop` it reads the bytes of its call. -/
theorem Bound.run (h : Bound s) {l : EventLoop (ConnFunctor Tid) Tid}
    {q : Queued (ConnFunctor Tid)} (hlog : backlog s.loop = q :: backlog l) (a : Answer) :
    Bound ({ s with loop := l }.runFunctor a q.functor) := by
  have hq : q ∈ backlog s.loop := by rw [hlog]; exact List.mem_cons_self
  have hrest : Bound { s with loop := l } := by
    refine ⟨fun q' hq' => h.waiting q' ?_, h.calling, h.carried.congr rfl rfl rfl⟩
    rw [hlog]
    exact List.mem_cons_of_mem q hq'
  cases hf : q.functor with
  | sendInLoop i p n =>
      obtain ⟨t, buf, hget, hfetch⟩ := h.waiting q hq i p n hf
      show Bound ({ s with loop := l }.deliver i (fetch s.memory p n) a)
      rw [hfetch]
      exact ⟨hrest.waiting, hrest.calling, hrest.carried.deliver hget a⟩
  | shutdownInLoop t => exact hrest.shutdownInLoop
  | other => exact hrest

theorem bound_of_init (h : Init s) : Bound s := by
  obtain ⟨self, fd, wc, hw, mark, p, hp, hconn⟩ := h.conn
  refine ⟨?_, ?_, ?_, ?_⟩
  · intro q hq i p n hf
    rw [h.loop q hq] at hf
    cases hf
  · intro t i p hcaller
    rw [h.caller t] at hcaller
    cases hcaller
  · intro d hd
    rw [h.deliveries] at hd
    cases hd
  · rw [hconn, (fresh_connectEstablished hp).trace, h.deliveries]
    rfl

variable [DecidableEq Tid]

/-- A thread that does not hold a string for a `send`. -/
theorem calling_of_setCaller {t t' : Tid} {k : Caller} {i : Nat} {p : Addr}
    (hk : ∀ i p, k ≠ .sendFound i p) (h : (s.setCaller t k).caller t' = .sendFound i p) :
    s.caller t' = .sendFound i p :=
  eq_of_update (hk i p) h

theorem Bound.setCaller (h : Bound s) (t : Tid) {k : Caller}
    (hk : ∀ i p, k ≠ .sendFound i p) : Bound (s.setCaller t k) :=
  ⟨h.waiting, fun _ i p hcaller => h.calling _ i p (calling_of_setCaller hk hcaller),
    h.carried.congr rfl rfl rfl⟩

/-- Every step that leaves the strings intact keeps the sends bound. -/
theorem Bound.step (h : Bound s) (hP : Intact s e) (hstep : Step s e s') : Bound s' := by
  cases hstep with
  | loop e a l he ht hlog =>
      exact h.queued (by rw [hlog, List.append_nil]) (by simp)
  | start a l q rest ht hdraining hpc hlog => exact h.run hlog a
  | call t c l qs ht hlog hqs =>
      apply h.queued hlog
      intro q hq i p n hf
      rw [hqs q hq] at hf
      cases hf
  | modify t p block =>
      obtain ⟨hwaiting, hcalling⟩ := hP
      refine ⟨?_, ?_, h.carried.congr rfl rfl rfl⟩
      · intro q hq i p' n hf
        obtain ⟨t', buf, hget, hfetch⟩ := h.waiting q hq i p' n hf
        exact ⟨t', buf, hget, (hwaiting q hq i p' n hf).trans hfetch⟩
      · intro t' i p' hcaller
        obtain ⟨t'', buf, hget, hmem⟩ := h.calling t' i p' hcaller
        refine ⟨t'', buf, hget, ?_⟩
        show Function.update s.memory p block p' = some buf
        rw [Function.update_of_ne (hcalling t' i p' hcaller), hmem]
  | sendReturn t p w => exact h
  | sendFound t p buf w hmem hstate hout hidle =>
      have hrec := h.record (.send t buf)
      refine ⟨hrec.waiting, ?_, hrec.carried.congr rfl rfl rfl⟩
      intro t' i p' hcaller
      by_cases heq : t' = t
      · -- the string is read off where it is at the call
        subst heq
        rw [setCaller_self] at hcaller
        obtain ⟨rfl, rfl⟩ := Caller.sendFound.inj hcaller
        exact ⟨t', buf, get_concat_length _, hmem⟩
      · rw [setCaller_of_ne _ heq] at hcaller
        exact hrec.calling t' i p' hcaller
  | sendInline t p buf w hstate hin hidle hdraining =>
      have hrec := h.record (.send t buf)
      exact ⟨hrec.waiting, hrec.calling, hrec.carried.deliver (get_concat_length _) _⟩
  | sendQueue t i p l q hcaller ht hlog hq =>
      obtain ⟨t', buf, hget, hmem⟩ := h.calling t i p hcaller
      refine Bound.setCaller (h.queued hlog ?_) t (by simp)
      intro q' hq' i' p' n hf
      obtain rfl := List.mem_singleton.mp hq'
      rw [hq, hmem] at hf
      obtain ⟨rfl, rfl, rfl⟩ := ConnFunctor.sendInLoop.inj hf
      exact ⟨t', buf, hget, fetch_length hmem⟩
  | shutdownReturn t hstate hidle => exact h.record _
  | shutdownFound t hstate hidle => exact (h.record _).setCaller t (by simp)
  | shutdownStore t hcaller =>
      have hstore : Bound { s with conn := s.conn.setState .kDisconnecting } :=
        h.conn (s.conn.setState .kDisconnecting) rfl
      exact hstore.setCaller t (by simp)
  | shutdownQueue t l q hcaller hout ht hlog hq =>
      refine Bound.setCaller (h.queued hlog ?_) t (by simp)
      intro q' hq' i p n hf
      obtain rfl := List.mem_singleton.mp hq'
      rw [hq] at hf
      cases hf
  | shutdownInline t hcaller hin => exact h.shutdownInLoop.setCaller t (by simp)
  | writeOut w => exact h.conn _ (sent_writeOut s.conn w)
  | finish hdraining hstate => exact h.shutdownInLoop.conn _ rfl
  | finishQuiet hdraining hstate => exact h.conn _ rfl

/-- **The cross-thread send path.**  In every run in which no modification of a
string touches what a waiting functor, or a `send` under way, still has to read,
every `sendInLoop` gets exactly the bytes that the string held when `send` was
called, on whichever thread. -/
theorem send_carries_call_bytes {es : List (SystemEvent Tid)}
    (hinit : (sendMachine Tid).init s) (hintact : (sendMachine Tid).Along Intact s es)
    (hrun : (sendMachine Tid).run s es = some s') : CarriesCallBytes s' := by
  refine Bound.carried (Machine.run_invariant ?_ hintact hrun (bound_of_init hinit))
  intro s e t hs hP hnext
  exact hs.step hP (step_of_next hnext)

/-! ### Concrete runs -/

/-- Thread 1 sends "hi", and the loop runs the functor. -/
def sendThenRun : List (SystemEvent Nat) :=
  [.send 1 100 (.accept 0), .sendQueue 1, .call 1 .wakeup,
    .loop .enterLoop ⟨.accept 0, []⟩] ++ iteration ⟨.accept 2, []⟩

theorem send_carries_call_bytes_undisturbed :
    ∃ s, (sendMachine Nat).run firstSystem sendThenRun = some s ∧ CarriesCallBytes s := by
  have hrun : ((sendMachine Nat).run firstSystem sendThenRun).isSome := by decide +kernel
  refine ⟨_, (Option.some_get hrun).symm, ?_⟩
  refine send_carries_call_bytes init_firstSystem (Machine.along_of_forall ?_)
    (Option.some_get hrun).symm
  intro s e he
  simp only [sendThenRun, iteration, List.cons_append, List.nil_append, List.mem_cons,
    List.not_mem_nil, or_false] at he
  rcases he with rfl | rfl | rfl | rfl | rfl | rfl | rfl | rfl | rfl | rfl <;> trivial

/-- Thread 1 sends "hi", and when `send` has returned it changes its string. -/
def sendThenModify (block : Option (List Byte)) : List (SystemEvent Nat) :=
  [.send 1 100 (.accept 0), .sendQueue 1, .call 1 .wakeup, .modify 1 100 block,
    .loop .enterLoop ⟨.accept 0, []⟩] ++ iteration ⟨.accept 2, []⟩

/-- An overwritten string is sent with its new bytes, and a destroyed one is read
where there is nothing. -/
theorem send_carries_other_bytes :
    (∃ s, (sendMachine Nat).run firstSystem (sendThenModify (some [120, 120])) = some s ∧
      s.calls = [.send 1 [104, 105]] ∧ sent s.conn.trace = [[120, 120]] ∧
        ¬ CarriesCallBytes s) ∧
    ∃ s, (sendMachine Nat).run firstSystem (sendThenModify none) = some s ∧
      s.calls = [.send 1 [104, 105]] ∧ s.deliveries = [⟨0, none⟩] ∧ ¬ CarriesCallBytes s := by
  constructor
  · have hrun : ((sendMachine Nat).run firstSystem
        (sendThenModify (some [120, 120]))).isSome := by decide +kernel
    have hcalls : (Option.get _ hrun).calls = [.send 1 [104, 105]] := by
      decide +kernel +revert
    have hsent : sent (Option.get _ hrun).conn.trace = [[120, 120]] := by
      decide +kernel +revert
    have hdel : (Option.get _ hrun).deliveries = [⟨0, some [120, 120]⟩] := by
      decide +kernel +revert
    refine ⟨_, (Option.some_get hrun).symm, hcalls, hsent, fun h => ?_⟩
    have hpassed := h.passed
    rw [hsent, hdel, hcalls] at hpassed
    revert hpassed
    decide
  · have hrun : ((sendMachine Nat).run firstSystem (sendThenModify none)).isSome := by
      decide +kernel
    have hcalls : (Option.get _ hrun).calls = [.send 1 [104, 105]] := by
      decide +kernel +revert
    have hdel : (Option.get _ hrun).deliveries = [⟨0, none⟩] := by
      decide +kernel +revert
    refine ⟨_, (Option.some_get hrun).symm, hcalls, hdel, fun h => ?_⟩
    obtain ⟨t, buf, -, hdata⟩ := h.read ⟨0, none⟩ (by rw [hdel]; exact List.mem_cons_self)
    cases hdata

end Mymuduo
