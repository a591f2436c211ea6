/-
Mymuduo/FlushBeforeFin.lean

Flush before FIN: when a thread sends and then shuts down, does the FIN wait for
its bytes?

`shutdown` stores kDisconnecting at once and queues `shutdownInLoop` behind the
sends of its thread, so its own functor never comes too early.  But `handleWrite`
calls `shutdownInLoop` as well, as soon as it has drained the output buffer in
state kDisconnecting, and so does the functor of any other thread.  A `sendInLoop`
that still waits in the queue is then overtaken: its bytes are written after the
FIN, or never.  And a `sendInLoop` whose direct write has failed may have given its
bytes up on a connection that stays open; then the FIN goes out without them.

A run flushes before the FIN exactly when no such step finds a send waiting, or
given up, that its thread has followed by `shutdown` (`flush_before_fin_iff`).
-/
import Mymuduo.SendQueue

namespace Mymuduo

open Transition SendSystem TcpConnection

variable {Tid : Type*}

/-! ### The property -/

/-- Call `i` is a send of some bytes, and its thread has called `shutdown` after
it. -/
def Followed (calls : List (ApiCall Tid)) (i : Nat) : Prop :=
  ∃ t buf j, calls[i]? = some (.send t buf) ∧ buf ≠ [] ∧ i < j ∧ calls[j]? = some (.shutdown t)

/-- When that `shutdownWrite` was executed, the kernel had accepted the data of
call `i`, behind those of the calls kept before it. -/
def AcceptedAt (calls : List (ApiCall Tid)) (f : FinRecord) (i : Nat) : Prop :=
  ∃ k, f.kept[k]? = some i ∧
    ((f.kept.take (k + 1)).map (callBytes calls)).flatten <+: written f.trace

/-- Every `shutdownWrite` came after all the bytes of every send that its thread
has followed by `shutdown`. -/
def FlushBeforeFin (s : SendSystem Tid) : Prop :=
  ∀ i, Followed s.calls i → ∀ f ∈ s.fins, AcceptedAt s.calls f i

/-! ### What the runs are assumed to do, and when they go right -/

/-- The functor that `startFunctor` would start. -/
def SendSystem.starting (s : SendSystem Tid) : Option (ConnFunctor Tid) :=
  match s.loop.pc with
  | .batch (q :: _) => some q.functor
  | _ => none

/-- A `sendInLoop` finds the bytes of its call. -/
def ConnFunctor.Finds (s : SendSystem Tid) : ConnFunctor Tid → Prop
  | .sendInLoop i p n => fetch s.memory p n = some (callBytes s.calls i)
  | _ => True

/-- A functor that starts finds the bytes of its call. -/
def Carried (s : SendSystem Tid) : SystemEvent Tid → Prop
  | .loop .startFunctor _ => ∀ f ∈ s.starting, f.Finds s
  | _ => True

instance (s : SendSystem Tid) (f : ConnFunctor Tid) : Decidable (f.Finds s) := by
  unfold ConnFunctor.Finds
  split <;> infer_instance

instance (s : SendSystem Tid) (e : SystemEvent Tid) : Decidable (Carried s e) := by
  unfold Carried
  split <;> infer_instance

/-- Call `i` has been followed by `shutdown`, and its `sendInLoop` has not run yet, or
has given its bytes up. -/
def Overtakable (s : SendSystem Tid) (i : Nat) : Prop := Followed s.calls i ∧ i ∉ s.kept

/-- No followed send has been given up, and none of a thread other than `t` waits for
its `sendInLoop`. -/
def OnlyOwn (s : SendSystem Tid) (t : Tid) : Prop :=
  ∀ i, Overtakable s i → i ∉ s.delivered ∧ ∃ buf, s.calls[i]? = some (.send t buf)

/-- The steps that do not let a FIN overtake a send: `handleWrite` drains the
buffer in state kDisconnecting only when no followed send waits or was given up,
`shutdownInLoop` runs on an empty buffer only when none was given up and none of
another thread waits, and no thread calls `shutdown` after a FIN that went without one
of its sends. -/
def NotOvertaking [DecidableEq Tid] (s : SendSystem Tid) : SystemEvent Tid → Prop
  | .finishWrite => s.conn.state_ = .kDisconnecting → ∀ i, ¬ Overtakable s i
  | .loop .startFunctor _ => s.conn.channel_.isWriting = false →
      ∀ t, s.starting = some (.shutdownInLoop t) → OnlyOwn s t
  | .shutdownRun t => s.loop.isInLoopThread t = true → s.conn.channel_.isWriting = false →
      OnlyOwn s t
  | .shutdown t => ∀ i buf, s.calls[i]? = some (.send t buf) → buf ≠ [] →
      ∀ f ∈ s.fins, i ∈ f.kept
  | _ => True

/-! ### The books -/

/-- All these calls are sends. -/
def AreSends (calls : List (ApiCall Tid)) (is : List Nat) : Prop :=
  ∀ i ∈ is, ∃ t buf, calls[i]? = some (.send t buf)

/-- The calls kept before a FIN are sends, and the kernel has accepted all their
bytes. -/
structure FinRecord.Balanced (f : FinRecord) (calls : List (ApiCall Tid)) : Prop where
  sends : AreSends calls f.kept
  accepted : written f.trace = (f.kept.map (callBytes calls)).flatten

/-- The books of a run: the stream, which holds the bytes of the calls kept, and what
was accepted at each FIN. -/
structure Ledger (s : SendSystem Tid) : Prop where
  conn : Established s.conn
  drained : s.draining = true → s.conn.outputBuffer_.readable = []
  sends : AreSends s.calls s.kept
  stream : written s.conn.trace ++ s.conn.outputBuffer_.readable
    = (s.kept.map (callBytes s.calls)).flatten
  fins : ∀ f ∈ s.fins, f.Balanced s.calls

theorem AreSends.concat {calls : List (ApiCall Tid)} {is : List Nat} (h : AreSends calls is)
    (c : ApiCall Tid) : AreSends (calls ++ [c]) is := by
  intro i hi
  obtain ⟨t, buf, hget⟩ := h i hi
  exact ⟨t, buf, get_concat hget c⟩

/-- Calls that were made keep their bytes. -/
theorem AreSends.map_callBytes {calls : List (ApiCall Tid)} {is : List Nat}
    (h : AreSends calls is) (c : ApiCall Tid) :
    is.map (callBytes calls) = is.map (callBytes (calls ++ [c])) := by
  apply List.map_congr_left
  intro i hi
  obtain ⟨t, buf, hget⟩ := h i hi
  exact (callBytes_concat hget c).symm

theorem FinRecord.Balanced.concat {f : FinRecord} {calls : List (ApiCall Tid)}
    (h : f.Balanced calls) (c : ApiCall Tid) : f.Balanced (calls ++ [c]) where
  sends := h.sends.concat c
  accepted := by rw [h.accepted, h.sends.map_callBytes c]

/-- In balanced books a call was accepted exactly if it had been kept. -/
theorem FinRecord.Balanced.acceptedAt_iff {f : FinRecord} {calls : List (ApiCall Tid)}
    (h : f.Balanced calls) {i : Nat} : AcceptedAt calls f i ↔ i ∈ f.kept := by
  constructor
  · rintro ⟨k, hk, -⟩
    exact List.mem_of_getElem? hk
  · intro hi
    obtain ⟨k, hk⟩ := List.mem_iff_getElem?.mp hi
    refine ⟨k, hk, ?_⟩
    rw [h.accepted]
    -- the rest is what was kept after call `i`
    refine ⟨((f.kept.drop (k + 1)).map (callBytes calls)).flatten, ?_⟩
    rw [← List.flatten_append, ← List.map_append, List.take_append_drop]

variable {s s' : SendSystem Tid} {e : SystemEvent Tid}

/-- When nothing is left to write, the books balance. -/
theorem Ledger.balanced (h : Ledger s) (hnil : s.conn.outputBuffer_.readable = []) :
    FinRecord.Balanced ⟨s.kept, s.conn.trace⟩ s.calls := by
  refine ⟨h.sends, ?_⟩
  have hstream := h.stream
  rwa [hnil, List.append_nil] at hstream

theorem ledger_of_init (h : Init s) : Ledger s := by
  obtain ⟨self, fd, wc, hw, mark, p, hp, hconn⟩ := h.conn
  have hfresh : Fresh ((TcpConnection.new self fd wc hw mark p).connectEstablished []) :=
    fresh_connectEstablished hp
  refine ⟨?_, ?_, ?_, ?_, ?_⟩
  · rw [hconn]
    exact hfresh.established
  · intro hdraining
    rw [h.draining] at hdraining
    cases hdraining
  · rw [h.kept]
    exact List.forall_mem_nil _
  · rw [hconn, hfresh.trace, hfresh.output, h.kept]
    rfl
  · rw [h.fins]
    exact List.forall_mem_nil _

/-- What is not in the books does not matter. -/
theorem Ledger.congr (h : Ledger s) (hconn : s'.conn = s.conn)
    (hdraining : s'.draining = true → s.draining = true) (hcalls : s'.calls = s.calls)
    (hkept : s'.kept = s.kept) (hfins : s'.fins = s.fins) : Ledger s' := by
  refine ⟨?_, ?_, ?_, ?_, ?_⟩
  · rw [hconn]
    exact h.conn
  · rw [hconn]
    exact fun hdr => h.drained (hdraining hdr)
  · rw [hcalls, hkept]
    exact h.sends
  · rw [hconn, hcalls, hkept]
    exact h.stream
  · rw [hfins, hcalls]
    exact h.fins

theorem Ledger.record (h : Ledger s) (c : ApiCall Tid) : Ledger (s.record c) where
  conn := h.conn
  drained := h.drained
  sends := h.sends.concat c
  stream := h.stream.trans (congrArg _ (h.sends.map_callBytes c))
  fins := fun f hf => (h.fins f hf).concat c

/-- A `sendInLoop` that gets the bytes of its call keeps the books, outside
`handleWrite`. -/
theorem Ledger.deliver (h : Ledger s) {i : Nat} {t : Tid} {buf : List Byte} {a : Answer}
    (hget : s.calls[i]? = some (.send t buf)) (hdraining : s.draining = false) :
    Ledger (s.deliver i (some buf) a) := by
  obtain ⟨hest, -, es, htrace, -, hout⟩ := sendInLoop_spec h.conn buf a.write
  have hbytes : written (.sendInLoop buf :: es) = written es := rfl
  have hstream : written (s.conn.sendInLoop buf a.write).trace
        ++ (s.conn.sendInLoop buf a.write).outputBuffer_.readable
      = (s.kept.map (callBytes s.calls)).flatten ++ s.conn.kept buf a.write := by
    rw [htrace, written_append, hbytes, List.append_assoc, hout, ← List.append_assoc, h.stream]
  have hdrained : s.draining = true →
      (s.conn.sendInLoop buf a.write).outputBuffer_.readable = [] := by
    intro hdr
    rw [hdr] at hdraining
    cases hdraining
  rw [TcpConnection.kept] at hstream
  unfold SendSystem.deliver
  rw [Option.getD_some]
  by_cases hgives : s.conn.GivesUp a.write
  · rw [if_pos hgives, List.append_nil] at hstream
    simp only [if_pos hgives]
    exact ⟨hest, hdrained, h.sends, hstream, h.fins⟩
  · rw [if_neg hgives] at hstream
    simp only [if_neg hgives]
    refine ⟨hest, hdrained, ?_, ?_, h.fins⟩
    · exact List.forall_mem_append.mpr ⟨h.sends, List.forall_mem_singleton.mpr ⟨t, buf, hget⟩⟩
    · show _ = ((s.kept ++ [i]).map (callBytes s.calls)).flatten
      rw [List.map_append, List.map_singleton, callBytes_of_get hget, List.flatten_concat]
      exact hstream

/-- `shutdownInLoop` keeps the books: a FIN is issued when nothing is left. -/
theorem Ledger.shutdownInLoop (h : Ledger s) : Ledger s.shutdownInLoop := by
  rcases shutdownInLoop_cases h.conn with ⟨hnil, heq⟩ | ⟨-, heq⟩ <;> rw [heq]
  · refine ⟨h.conn.emit _, fun _ => hnil, h.sends, ?_, ?_⟩
    · show written (s.conn.trace ++ [.shutdownWrite]) ++ _ = _
      rw [written_append]
      exact (congrArg (· ++ _) (List.append_nil _)).trans h.stream
    · intro f hf
      rcases List.mem_append.mp hf with hf | hf
      · exact h.fins f hf
      · obtain rfl := List.mem_singleton.mp hf
        exact h.balanced hnil
  · exact h

/-- A functor that finds what it was queued for keeps the books. -/
theorem Ledger.runFunctor (h : Ledger s) (hqueue : Queueing s) {a : Answer}
    {l : EventLoop (ConnFunctor Tid) Tid} {q : Queued (ConnFunctor Tid)}
    {rest : List (Queued (ConnFunctor Tid))} (hdraining : s.draining = false)
    (hpc : s.loop.pc = .batch (q :: rest)) (hlog : backlog s.loop = q :: backlog l)
    (hC : Carried s (.loop .startFunctor a)) :
    Ledger ({ s with loop := l }.runFunctor a q.functor) := by
  have hl : Ledger { s with loop := l } := h.congr rfl id rfl rfl rfl
  have hstart : s.starting = some q.functor := by rw [SendSystem.starting, hpc]
  have hfinds : q.functor.Finds s := hC _ hstart
  cases hf : q.functor with
  | sendInLoop i p n =>
      have hq : q ∈ backlog s.loop := by rw [hlog]; exact List.mem_cons_self
      obtain ⟨t, buf, -, hget⟩ := hqueue.waiting q hq i ⟨p, n, hf⟩
      rw [hf] at hfinds
      have hdata : fetch s.memory p n = some buf := by
        rw [← callBytes_of_get hget]
        exact hfinds
      show Ledger ({ s with loop := l }.deliver i (fetch s.memory p n) a)
      rw [hdata]
      exact hl.deliver hget hdraining
  | shutdownInLoop t => exact hl.shutdownInLoop
  | other => exact hl

/-! ### The FINs and the followed sends -/

/-- Every FIN came after the `sendInLoop` of every followed send, which has kept the bytes. -/
def Flushed (s : SendSystem Tid) : Prop :=
  ∀ i, Followed s.calls i → ∀ f ∈ s.fins, i ∈ f.kept

theorem Ledger.flushBeforeFin_iff (h : Ledger s) : FlushBeforeFin s ↔ Flushed s := by
  refine forall₂_congr fun i _ => forall₂_congr fun f hf => ?_
  exact (h.fins f hf).acceptedAt_iff

/-- A new send has not been followed yet. -/
theorem followed_concat_send {calls : List (ApiCall Tid)} {t : Tid} {buf : List Byte} {i : Nat} :
    Followed (calls ++ [.send t buf]) i ↔ Followed calls i := by
  constructor
  · rintro ⟨t', buf', j, hi, hne, hij, hj⟩
    rcases get_of_concat hj with hj | ⟨-, hj⟩
    · rcases get_of_concat hi with hi | ⟨rfl, -⟩
      · exact ⟨t', buf', j, hi, hne, hij, hj⟩
      · exact absurd (List.getElem?_eq_some_iff.mp hj).1 (Nat.not_lt.mpr hij.le)
    · cases hj
  · rintro ⟨t', buf', j, hi, hne, hij, hj⟩
    exact ⟨t', buf', j, get_concat hi _, hne, hij, get_concat hj _⟩

/-- A new `shutdown` follows the sends of its thread. -/
theorem followed_concat_shutdown {calls : List (ApiCall Tid)} {t : Tid} {i : Nat} :
    Followed (calls ++ [.shutdown t]) i ↔
      Followed calls i ∨ ∃ buf, calls[i]? = some (.send t buf) ∧ buf ≠ [] := by
  constructor
  · rintro ⟨t', buf, j, hi, hne, hij, hj⟩
    have hi' : calls[i]? = some (.send t' buf) := by
      apply (get_of_concat hi).resolve_right
      rintro ⟨-, hsend⟩
      cases hsend
    rcases get_of_concat hj with hj | ⟨-, hj⟩
    · exact Or.inl ⟨t', buf, j, hi', hne, hij, hj⟩
    · obtain rfl := ApiCall.shutdown.inj hj
      exact Or.inr ⟨buf, hi', hne⟩
  · rintro (⟨t', buf, j, hi, hne, hij, hj⟩ | ⟨buf, hi, hne⟩)
    · exact ⟨t', buf, j, get_concat hi _, hne, hij, get_concat hj _⟩
    -- the new `shutdown` is the call that follows
    · have hlt := (List.getElem?_eq_some_iff.mp hi).1
      exact ⟨t, buf, calls.length, get_concat hi _, hne, hlt, get_concat_length _⟩

theorem flushed_recordSend {t : Tid} {buf : List Byte} :
    Flushed (s.record (.send t buf)) ↔ Flushed s :=
  forall_congr' fun _ => imp_congr_left followed_concat_send

theorem flushed_recordShutdown {t : Tid} :
    Flushed (s.record (.shutdown t)) ↔ Flushed s ∧
      ∀ i buf, s.calls[i]? = some (.send t buf) → buf ≠ [] → ∀ f ∈ s.fins, i ∈ f.kept := by
  constructor
  · intro h
    refine ⟨fun i hi => h i (followed_concat_shutdown.mpr (Or.inl hi)), ?_⟩
    exact fun i buf hget hne => h i (followed_concat_shutdown.mpr (Or.inr ⟨buf, hget, hne⟩))
  · rintro ⟨h, hnew⟩ i hi
    rcases followed_concat_shutdown.mp hi with hi | ⟨buf, hget, hne⟩
    · exact h i hi
    · exact hnew i buf hget hne

/-- A FIN that is issued goes without the sends that wait or were given up. -/
theorem flushed_shutdownInLoop (hconn : Established s.conn) :
    Flushed s.shutdownInLoop ↔
      Flushed s ∧ (s.conn.channel_.isWriting = false → ∀ i, ¬ Overtakable s i) := by
  rcases shutdownInLoop_cases hconn with ⟨hnil, heq⟩ | ⟨hne, heq⟩ <;> rw [heq]
  · have hoff := hconn.not_isWriting.mpr hnil
    constructor
    · intro h
      refine ⟨fun i hi f hf => h i hi f (List.mem_append_left _ hf), ?_⟩
      rintro - i ⟨hi, hwaits⟩
      -- the new record does not have `i`
      exact hwaits (h i hi _ (List.mem_append_right _ (List.mem_singleton_self _)))
    · rintro ⟨h, hnone⟩ i hi f hf
      rcases List.mem_append.mp hf with hf | hf
      · exact h i hi f hf
      · obtain rfl := List.mem_singleton.mp hf
        by_contra hwaits
        exact hnone hoff i ⟨hi, hwaits⟩
  · have hon := hconn.isWriting.mpr hne
    refine (and_iff_left ?_).symm
    intro hoff
    rw [hon] at hoff
    cases hoff

/-- Where the sends of `t` have been delivered, only those of other threads can wait. -/
theorem onlyOwn_iff {t : Tid}
    (hown : ∀ i buf, s.calls[i]? = some (.send t buf) → i ∈ s.delivered) :
    OnlyOwn s t ↔ ∀ i, ¬ Overtakable s i := by
  constructor
  · intro h i hi
    obtain ⟨hwaits, buf, hget⟩ := h i hi
    exact hwaits (hown i buf hget)
  · exact fun h i hi => absurd hi (h i)

/-! ### Steps -/

variable [DecidableEq Tid]

theorem Ledger.step (h : Ledger s) (hqueue : Queueing s) (hC : Carried s e)
    (hstep : Step s e s') : Ledger s' := by
  cases hstep with
  | loop e a l he ht hlog => exact h.congr rfl id rfl rfl rfl
  | start a l q rest ht hdraining hpc hlog => exact h.runFunctor hqueue hdraining hpc hlog hC
  | call t c l qs ht hlog hqs => exact h.congr rfl id rfl rfl rfl
  | modify t p block => exact h.congr rfl id rfl rfl rfl
  | sendReturn t p w => exact h
  | sendFound t p buf w hmem hstate hout hidle => exact (h.record _).congr rfl id rfl rfl rfl
  | sendInline t p buf w hstate hin hidle hdraining =>
      exact (h.record _).deliver (get_concat_length _) hdraining
  | sendQueue t i p l q hcaller ht hlog hq => exact h.congr rfl id rfl rfl rfl
  | shutdownReturn t hstate hidle => exact h.record _
  | shutdownFound t hstate hidle => exact (h.record _).congr rfl id rfl rfl rfl
  | shutdownStore t hcaller =>
      have hmove : Move (fun _ => True) s.conn (s.conn.setState .kDisconnecting) :=
        .disconnecting s.conn
      have hstored := h.conn.move hmove
      exact ⟨hstored, h.drained, h.sends, h.stream, h.fins⟩
  | shutdownQueue t l q hcaller hout ht hlog hq => exact h.congr rfl id rfl rfl rfl
  | shutdownInline t hcaller hin => exact h.shutdownInLoop.congr rfl id rfl rfl rfl
  | writeOut w =>
      obtain ⟨hest, -, ⟨es, htrace, -, hbytes⟩, hdrained⟩ := writeOut_spec h.conn w
      refine ⟨hest, hdrained, h.sends, ?_, h.fins⟩
      show written (s.conn.writeOut w).1.trace ++ (s.conn.writeOut w).1.outputBuffer_.readable = _
      rw [htrace, written_append, List.append_assoc, hbytes]
      exact h.stream
  | finish hdraining hstate => exact h.shutdownInLoop.congr rfl nofun rfl rfl rfl
  | finishQuiet hdraining hstate => exact h.congr rfl nofun rfl rfl rfl

/-- A step keeps the followed sends in front of the FINs exactly when it does not
let a FIN overtake one. -/
theorem flushed_step (h : Ledger s) (hqueue : Queueing s) (hstep : Step s e s') :
    Flushed s' ↔ Flushed s ∧ NotOvertaking s e := by
  have hsame {P : Prop} (hP : P) : Flushed s ↔ Flushed s ∧ P := (and_iff_left hP).symm
  cases hstep with
  | loop e a l he ht hlog =>
      apply hsame
      cases e with
      | startFunctor => exact absurd rfl he
      | _ => trivial
  | start a l q rest ht hdraining hpc hlog =>
      have hstart : s.starting = some q.functor := by rw [SendSystem.starting, hpc]
      have hquiet (hq : ∀ t, q.functor ≠ .shutdownInLoop t) :
          NotOvertaking s (.loop .startFunctor a) := by
        intro _ t ht
        rw [hstart] at ht
        exact absurd (Option.some.inj ht) (hq t)
      cases hf : q.functor with
      | sendInLoop i p n => exact hsame (hquiet (by rw [hf]; nofun))
      | other => exact hsame (hquiet (by rw [hf]; nofun))
      | shutdownInLoop t =>
          have hown := onlyOwn_iff fun i buf hget => hqueue.delivered_of_head hlog hf (i := i) hget
          apply (flushed_shutdownInLoop (s := { s with loop := l }) h.conn).trans
          apply and_congr_right
          intro _
          constructor
          · intro hnone hoff t' ht'
            rw [hstart, hf] at ht'
            obtain rfl := ConnFunctor.shutdownInLoop.inj (Option.some.inj ht')
            exact hown.mpr (hnone hoff)
          · intro hguard hoff
            exact hown.mp (hguard hoff t (by rw [hstart, hf]))
  | call t c l qs ht hlog hqs => exact hsame trivial
  | modify t p block => exact hsame trivial
  | sendReturn t p w => exact hsame trivial
  | sendFound t p buf w hmem hstate hout hidle => exact flushed_recordSend.trans (hsame trivial)
  | sendInline t p buf w hstate hin hidle hdraining =>
      exact flushed_recordSend.trans (hsame trivial)
  | sendQueue t i p l q hcaller ht hlog hq => exact hsame trivial
  | shutdownReturn t hstate hidle => exact flushed_recordShutdown
  | shutdownFound t hstate hidle => exact flushed_recordShutdown
  | shutdownStore t hcaller => exact hsame trivial
  | shutdownQueue t l q hcaller hout ht hlog hq =>
      apply hsame
      intro hin
      rw [hout] at hin
      cases hin
  | shutdownInline t hcaller hin =>
      obtain rfl : t = s.loop.threadId_ := of_decide_eq_true hin
      have hown := onlyOwn_iff fun i buf hget => hqueue.delivered_of_loopThread (i := i) hget
      refine (flushed_shutdownInLoop h.conn).trans (and_congr_right fun _ => ?_)
      exact ⟨fun hnone _ hoff => hown.mpr (hnone hoff), fun hg hoff => hown.mp (hg hin hoff)⟩
  | writeOut w => exact hsame trivial
  | finish hdraining hstate =>
      -- the buffer is drained, so the FIN goes out
      have hoff := h.conn.not_isWriting.mpr (h.drained hdraining)
      refine (flushed_shutdownInLoop h.conn).trans (and_congr_right fun _ => ?_)
      exact ⟨fun hnone _ => hnone hoff, fun hguard _ => hguard hstate⟩
  | finishQuiet hdraining hstate => exact hsame fun h => absurd h hstate

/-! ### Runs -/

/-- The books are kept and the sends are in their places. -/
structure Accounted (s : SendSystem Tid) : Prop where
  ledger : Ledger s
  queueing : Queueing s

/-- A FIN has overtaken a followed send. -/
structure Overtaken (s : SendSystem Tid) : Prop where
  accounted : Accounted s
  overtaken : ¬ Flushed s

theorem Accounted.step (h : Accounted s) (hC : Carried s e) (hstep : Step s e s') : Accounted s' :=
  ⟨h.ledger.step h.queueing hC hstep, h.queueing.step h.ledger.conn hstep⟩

omit [DecidableEq Tid] in
theorem accounted_of_init (h : Init s) : Accounted s := ⟨ledger_of_init h, queueing_of_init h⟩

/-- **Flush before FIN.**  In every run whose queued `sendInLoop`s find the bytes of
their calls, every `shutdownWrite` comes after all the bytes of the sends that their
threads have followed by `shutdown` exactly when no step lets a FIN overtake such a
send. -/
theorem flush_before_fin_iff {es : List (SystemEvent Tid)} (hinit : (sendMachine Tid).init s)
    (hcarried : (sendMachine Tid).Along Carried s es)
    (hrun : (sendMachine Tid).run s es = some s') :
    FlushBeforeFin s' ↔ (sendMachine Tid).Along NotOvertaking s es := by
  have hstart : Accounted s ∧ Flushed s := by
    refine ⟨accounted_of_init hinit, fun i _ f hf => ?_⟩
    rw [hinit.fins] at hf
    cases hf
  have haccounted : Accounted s' := by
    refine Machine.run_invariant (I := Accounted) ?_ hcarried hrun hstart.1
    exact fun s e t hs hC hnext => hs.step hC (step_of_next hnext)
  have hexact : ¬ Overtaken s' ↔ (sendMachine Tid).Along NotOvertaking s es := by
    -- the guard is exact: `flushed_step` decides every step
    refine Machine.not_bad_iff_along (I := fun s => Accounted s ∧ Flushed s) ?_ ?_ ?_ ?_ hcarried
      hrun hstart
    · rintro s e t ⟨hs, hflush⟩ hC hguard hnext
      have hstep := step_of_next hnext
      exact ⟨hs.step hC hstep, (flushed_step hs.ledger hs.queueing hstep).mpr ⟨hflush, hguard⟩⟩
    · rintro s e t ⟨hs, -⟩ hC hguard hnext
      have hstep := step_of_next hnext
      refine ⟨hs.step hC hstep, fun hflush => hguard ?_⟩
      exact ((flushed_step hs.ledger hs.queueing hstep).mp hflush).2
    · rintro s e t ⟨hs, hbad⟩ hC hnext
      have hstep := step_of_next hnext
      refine ⟨hs.step hC hstep, fun hflush => hbad ?_⟩
      exact ((flushed_step hs.ledger hs.queueing hstep).mp hflush).1
    · rintro s ⟨-, hflush⟩ ⟨-, hbad⟩
      exact hbad hflush
  rw [haccounted.ledger.flushBeforeFin_iff, ← hexact]
  constructor
  · exact fun hflush hbad => hbad.overtaken hflush
  · intro hgood
    by_contra hflush
    exact hgood ⟨haccounted, hflush⟩

/-! ### Concrete runs -/

/-- An answer that takes one byte. -/
def oneByte : Answer := ⟨.accept 1, []⟩

/-- Thread 1 sends "hi" and shuts down; the kernel takes one byte when the send
runs, and the other at the writable event. -/
def sendThenShutdown : List (SystemEvent Nat) :=
  [.send 1 100 (.accept 0), .sendQueue 1, .call 1 .wakeup, .shutdown 1, .shutdownStore 1,
    .shutdownRun 1, .call 1 .wakeup, .loop .enterLoop oneByte] ++ iteration oneByte ++
  [.loop .functorDone oneByte, .loop .startFunctor oneByte, .loop .functorDone oneByte,
    .loop .batchDone oneByte, .loop .testQuit oneByte, .loop (.poll false) oneByte,
    .writeOut (.accept 1), .finishWrite]

/-- The same, but thread 1 sends once more before it shuts down, while the loop
waits for the writable event of the first message. -/
def sendBehindBacklog : List (SystemEvent Nat) :=
  [.send 1 100 (.accept 0), .sendQueue 1, .call 1 .wakeup, .loop .enterLoop oneByte] ++
  iteration oneByte ++
  [.loop .functorDone oneByte, .loop .batchDone oneByte, .loop .testQuit oneByte,
    .send 1 100 (.accept 0), .sendQueue 1, .call 1 .wakeup, .shutdown 1, .shutdownStore 1,
    .shutdownRun 1, .call 1 .wakeup, .loop (.poll true) oneByte, .writeOut (.accept 1),
    .finishWrite]

theorem flush_before_fin_short_writes :
    ∃ s, (sendMachine Nat).run firstSystem sendThenShutdown = some s ∧ s.fins.length = 1 ∧
      FlushBeforeFin s ∧ (sendMachine Nat).Along NotOvertaking firstSystem sendThenShutdown := by
  have hrun : ((sendMachine Nat).run firstSystem sendThenShutdown).isSome := by decide +kernel
  have hcalls : (Option.get _ hrun).calls = [.send 1 [104, 105], .shutdown 1] := by
    decide +kernel +revert
  have hone : (Option.get _ hrun).fins.length = 1 := by decide +kernel +revert
  have hfins : ∀ f ∈ (Option.get _ hrun).fins, f.kept = [0] ∧
      written f.trace = [104, 105] := by decide +kernel +revert
  have hflush : FlushBeforeFin (Option.get _ hrun) := by
    intro i hi f hf
    obtain ⟨hkept, hwritten⟩ := hfins f hf
    obtain ⟨t, buf, j, hget, hne, hij, hj⟩ := hi
    rw [hcalls] at hget ⊢
    have hlast : ([ApiCall.send 1 [104, 105]] ++ [.shutdown 1])[i]? = some (.send t buf) := hget
    obtain rfl : i = 0 := by
      rcases get_of_concat hlast with hget | ⟨-, hget⟩
      · exact Nat.lt_one_iff.mp (List.getElem?_eq_some_iff.mp hget).1
      · cases hget
    refine ⟨0, by rw [hkept]; rfl, ?_⟩
    rw [hkept, hwritten]
    exact List.prefix_rfl
  exact ⟨_, (Option.some_get hrun).symm, hone, hflush,
    (flush_before_fin_iff init_firstSystem (by decide +kernel) (Option.some_get hrun).symm).mp
      hflush⟩

omit [DecidableEq Tid] in
/-- A FIN without a followed send breaks the order. -/
theorem not_flushBeforeFin {i : Nat} {f : FinRecord} (hi : Followed s.calls i)
    (hf : f ∈ s.fins) (hwithout : i ∉ f.kept) : ¬ FlushBeforeFin s := by
  intro hflush
  obtain ⟨k, hk, -⟩ := hflush i hi f hf
  exact hwithout (List.mem_of_getElem? hk)

/-- The FIN goes out while the second message waits in the queue. -/
theorem fin_overtakes_send :
    ∃ s, (sendMachine Nat).run firstSystem sendBehindBacklog = some s ∧
      (sendMachine Nat).Along Carried firstSystem sendBehindBacklog ∧
      s.calls = [.send 1 [104, 105], .send 1 [104, 105], .shutdown 1] ∧
      s.fins.map (fun f => written f.trace) = [[104, 105]] ∧ ¬ FlushBeforeFin s := by
  have hrun : ((sendMachine Nat).run firstSystem sendBehindBacklog).isSome := by decide +kernel
  have hcalls : (Option.get _ hrun).calls =
      [.send 1 [104, 105], .send 1 [104, 105], .shutdown 1] := by
    decide +kernel +revert
  have hfins : (Option.get _ hrun).fins.map (fun f => written f.trace) = [[104, 105]] := by
    decide +kernel +revert
  have hfirst : ∃ f ∈ (Option.get _ hrun).fins, 1 ∉ f.kept := by decide +kernel +revert
  have hsecond : Followed (Option.get _ hrun).calls 1 := by
    rw [hcalls]
    exact ⟨1, [104, 105], 2, rfl, by simp, by decide, rfl⟩
  obtain ⟨f, hf, hwithout⟩ := hfirst
  exact ⟨_, (Option.some_get hrun).symm, by decide +kernel, hcalls, hfins,
    not_flushBeforeFin hsecond hf hwithout⟩

/-- A direct write fails for want of buffers, and its log line leaves EPIPE. -/
def noBuffers : Answer := ⟨.fail ENOBUFS EPIPE, []⟩

/-- Thread 1 sends "hi" and shuts down, and the direct write fails. -/
def lostThenShutdown : List (SystemEvent Nat) :=
  [.send 1 100 (.accept 0), .sendQueue 1, .call 1 .wakeup, .shutdown 1, .shutdownStore 1,
    .shutdownRun 1, .call 1 .wakeup, .loop .enterLoop noBuffers] ++ iteration noBuffers ++
  [.loop .functorDone noBuffers, .loop .startFunctor noBuffers]

/-- The FIN goes out without the message, which `sendInLoop` has given up. -/
theorem fin_without_lost_send :
    ∃ s, (sendMachine Nat).run firstSystem lostThenShutdown = some s ∧
      (sendMachine Nat).Along Carried firstSystem lostThenShutdown ∧
      s.calls = [.send 1 [104, 105], .shutdown 1] ∧
      s.fins.map (fun f => written f.trace) = [[]] ∧ ¬ FlushBeforeFin s := by
  have hrun : ((sendMachine Nat).run firstSystem lostThenShutdown).isSome := by decide +kernel
  have hcalls : (Option.get _ hrun).calls = [.send 1 [104, 105], .shutdown 1] := by
    decide +kernel +revert
  have hfins : (Option.get _ hrun).fins.map (fun f => written f.trace) = [[]] := by
    decide +kernel +revert
  have hfirst : ∃ f ∈ (Option.get _ hrun).fins, 0 ∉ f.kept := by decide +kernel +revert
  have hsent : Followed (Option.get _ hrun).calls 0 := by
    rw [hcalls]
    exact ⟨1, [104, 105], 1, rfl, by simp, by decide, rfl⟩
  obtain ⟨f, hf, hwithout⟩ := hfirst
  exact ⟨_, (Option.some_get hrun).symm, by decide +kernel, hcalls, hfins,
    not_flushBeforeFin hsent hf hwithout⟩

end Mymuduo
