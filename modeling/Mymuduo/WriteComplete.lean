/-
Mymuduo/WriteComplete.lean

How often the write-complete callback is queued.

A *busy period* begins with a call of `sendInLoop` that finds every byte passed so far
accepted by the kernel, and ends when the kernel has accepted the last one.  The two
places that queue the callback, the direct write of `sendInLoop` and the end of a
backlog in `handleWrite`, together queue it once for each period, at its end
(`write_complete_accounting`).  A block that `sendInLoop` gives up stays outstanding, and
then the callbacks after it are not prompt (`write_complete_after_lost_block`).

The invariant `Balanced` is about the log: `completions` and `busyPeriods` count in it, and
`Outstanding` compares what was written with what was sent.  The log holds the data of the
calls of the run, and `callPeriods` counts among these.
-/
import Mymuduo.SendCalls

namespace Mymuduo

open Transition TcpConnection

/-! ### Reading a trace -/

/-- Some byte passed to `sendInLoop` has not been accepted by the kernel yet. -/
def Outstanding (es : List Effect) : Prop := written es ≠ (sent es).flatten

instance (es : List Effect) : Decidable (Outstanding es) :=
  inferInstanceAs (Decidable (written es ≠ (sent es).flatten))

/-- The write-complete callbacks queued. -/
def completions (es : List Effect) : Nat := es.count (.queueInLoop .writeComplete)

/-- The calls of `sendInLoop` in `es` that find no byte outstanding, after the effects
`before`. -/
def busyPeriodsAfter : List Effect → List Effect → Nat
  | _, [] => 0
  | before, e :: es =>
      (if e.message.isSome ∧ ¬ Outstanding before then 1 else 0)
        + busyPeriodsAfter (before ++ [e]) es

/-- The calls of `sendInLoop` made when no byte was outstanding. -/
def busyPeriods (es : List Effect) : Nat := busyPeriodsAfter [] es

@[simp] theorem completions_append (es fs : List Effect) :
    completions (es ++ fs) = completions es + completions fs := List.count_append

theorem busyPeriodsAfter_append (before es fs : List Effect) :
    busyPeriodsAfter before (es ++ fs)
      = busyPeriodsAfter before es + busyPeriodsAfter (before ++ es) fs := by
  induction es generalizing before with
  | nil => simp [busyPeriodsAfter]
  | cons e es ih =>
      rw [List.cons_append, busyPeriodsAfter, busyPeriodsAfter, ih, List.append_assoc,
        List.singleton_append, Nat.add_assoc]

/-- Effects without a call begin no period. -/
theorem busyPeriodsAfter_of_sent (before : List Effect) {es : List Effect}
    (h : sent es = []) : busyPeriodsAfter before es = 0 := by
  induction es generalizing before with
  | nil => rfl
  | cons e es ih =>
      obtain ⟨hnone, hrest⟩ := List.forall_mem_cons.mp (List.filterMap_eq_nil_iff.mp h)
      rw [busyPeriodsAfter, ih _ (List.filterMap_eq_nil_iff.mpr hrest)]
      simp [hnone]

/-- Effects of writing are such. -/
theorem busyPeriodsAfter_of_isOutput (before : List Effect) {es : List Effect}
    (h : ∀ e ∈ es, e.isOutput = true) : busyPeriodsAfter before es = 0 := by
  refine busyPeriodsAfter_of_sent before (List.filterMap_eq_nil_iff.mpr fun e he => ?_)
  have hout := h e he
  cases e <;> simp_all [Effect.isOutput, Effect.message]

theorem busyPeriods_of_isOutput (es : List Effect) {fs : List Effect}
    (h : ∀ e ∈ fs, e.isOutput = true) : busyPeriods (es ++ fs) = busyPeriods es := by
  rw [busyPeriods, busyPeriodsAfter_append, busyPeriodsAfter_of_isOutput _ h, Nat.add_zero,
    busyPeriods]

/-- Whenever a write-complete callback is queued, no byte is outstanding. -/
def Prompt (es : List Effect) : Prop :=
  ∀ before after, es = before ++ .queueInLoop .writeComplete :: after → ¬ Outstanding before

/-- Promptness is checked at the effects added. -/
theorem Prompt.append {es fs : List Effect} (h : Prompt es)
    (hfs : ∀ before after, fs = before ++ .queueInLoop .writeComplete :: after →
      ¬ Outstanding (es ++ before)) : Prompt (es ++ fs) := by
  intro before after heq
  rcases List.append_eq_append_iff.mp heq with ⟨mid, rfl, hfs'⟩ | ⟨mid, rfl, hmid⟩
  · exact hfs mid after hfs'
  · cases mid with
    | nil =>
        have hnow := hfs [] after (by simpa using hmid.symm)
        simpa using hnow
    | cons e mid =>
        obtain ⟨rfl, -⟩ := List.cons.inj hmid
        exact h before mid rfl

theorem Prompt.quiet {es fs : List Effect} (h : Prompt es)
    (hfs : .queueInLoop .writeComplete ∉ fs) : Prompt (es ++ fs) :=
  h.append fun before after heq => absurd (by rw [heq]; simp) hfs

/-- A callback queued once everything is written is prompt. -/
theorem Prompt.completed {es fs : List Effect} (h : Prompt es)
    (hfs : .queueInLoop .writeComplete ∉ fs) (hdone : ¬ Outstanding (es ++ fs)) :
    Prompt (es ++ (fs ++ [.queueInLoop .writeComplete])) := by
  apply h.append
  intro before after heq
  rcases List.append_eq_append_iff.mp heq with ⟨mid, rfl, hlast⟩ | ⟨mid, rfl, hmid⟩
  · -- the callback is the last effect
    cases mid with
    | nil => rwa [List.append_nil]
    | cons e mid => simp at hlast
  · cases mid with
    | nil => rwa [List.append_nil] at hdone
    | cons e mid =>
        obtain ⟨rfl, -⟩ := List.cons.inj hmid
        exact absurd (by simp) hfs

namespace TcpConnection

variable {c c' : TcpConnection}

/-! ### What the two writes queue -/

/-- What is left of a block keeps the backlog from being empty, and queues no
write-complete callback. -/
theorem queueRest_leaves {data : List Byte} {w : WriteResult} {a : Attempt}
    (ha : Attempted c data w a) (hw : ¬ w.Fault) (hpos : 0 < a.remaining) :
    (queueRest a data).outputBuffer_.readable ≠ [] ∧
      ∃ es, (queueRest a data).trace = a.conn.trace ++ es ∧
        .queueInLoop .writeComplete ∉ es := by
  have hfault : a.faultError = false := by
    cases hf : a.faultError with
    | false => rfl
    | true => exact absurd (ha.fault.mp hf).2.2 hw
  obtain ⟨es, htrace, hmarks⟩ := queueRest_marks a data
  refine ⟨?_, es, htrace, fun hmem => ?_⟩
  · rw [queueRest_readable, hfault, if_neg Bool.false_ne_true, ha.rest]
    intro hnil
    have hdrop := (List.append_eq_nil_iff.mp hnil).2
    rw [List.drop_eq_nil_iff] at hdrop
    have hremaining := ha.remaining
    omega
  · obtain ⟨len, hlen⟩ := hmarks _ hmem
    cases hlen

/-- On an established connection, `sendInLoop` either writes all of its data at once and
queues the callback, or leaves a backlog and does not. -/
theorem sendInLoop_completes (h : Established c) (hcb : c.writeCompeleteCallback_ = true)
    {data : List Byte} (hdata : data ≠ []) {w : WriteResult} (hw : ¬ w.Fault) :
    (∃ bs, c.outputBuffer_.readable = [] ∧ (c.sendInLoop data w).outputBuffer_.readable = [] ∧
      (c.sendInLoop data w).trace
        = c.trace ++ ([.sendInLoop data, .write bs] ++ [.queueInLoop .writeComplete])) ∨
    (∃ fs, (c.sendInLoop data w).outputBuffer_.readable ≠ [] ∧ (c.sendInLoop data w).trace
      = c.trace ++ .sendInLoop data :: fs ∧ .queueInLoop .writeComplete ∉ fs) := by
  have halive : (c.emit (.sendInLoop data)).state_ ≠ .kDisconnected := by
    rcases h.alive with hs | hs <;> simp [hs]
  have hlength := List.length_pos_iff.mpr hdata
  have ha := tryWrite_spec (c.emit (.sendInLoop data)) data w
  have htried := tryWrite_cases (c.emit (.sendInLoop data)) data w
  rw [sendInLoop, if_neg halive]
  generalize (c.emit (.sendInLoop data)).tryWrite data w = a at ha htried ⊢
  have hleft : ∀ gs, a.conn.trace = c.trace ++ .sendInLoop data :: gs →
      .queueInLoop .writeComplete ∉ gs → 0 < a.remaining →
      ∃ fs, (queueRest a data).outputBuffer_.readable ≠ [] ∧
        (queueRest a data).trace = c.trace ++ .sendInLoop data :: fs ∧
          .queueInLoop .writeComplete ∉ fs := by
    intro gs hgs hquiet hpos
    obtain ⟨hne, es, htrace, hes⟩ := queueRest_leaves ha hw hpos
    refine ⟨gs ++ es, hne, by rw [htrace, hgs]; simp, ?_⟩
    exact List.not_mem_append hquiet hes
  generalize write w data = call at htried
  cases htried with
  | queued hbusy => exact Or.inr (hleft [] (by simp) (by simp) hlength)
  | completed hidle hret hall hcb' =>
      refine Or.inl ⟨call.taken, hidle, ?_⟩
      rw [queueRest_done hall]
      exact ⟨hidle, by simp⟩
  | took hidle hret hrest =>
      have hpos : 0 < data.length - call.ret.toNat := by
        by_contra hzero
        have hoff := hrest (Nat.eq_zero_of_not_pos hzero)
        exact absurd (hcb.symm.trans hoff) Bool.noConfusion
      exact Or.inr (hleft [.write call.taken] (by simp) (by simp) hpos)
  | failed hoff hidle hneg hlog =>
      exact Or.inr (hleft [.write call.taken, .logError .directWrite] (by simp) (by simp) hlength)
  | blocked hidle hneg hblock => exact Or.inr (hleft [.write call.taken] (by simp) (by simp) hlength)

/-- `handleWrite` either ends the backlog and queues the callback, or does not end it and
queues none. -/
theorem writeOut_completes (h : Established c) (hcb : c.writeCompeleteCallback_ = true)
    (w : WriteResult) :
    (∃ bs, c.outputBuffer_.readable ≠ [] ∧ (c.writeOut w).1.outputBuffer_.readable = [] ∧
      (c.writeOut w).1.trace = c.trace ++ ([.write bs] ++ [.queueInLoop .writeComplete])) ∨
    (∃ fs, ((c.writeOut w).1.outputBuffer_.readable = [] ↔ c.outputBuffer_.readable = []) ∧
      (c.writeOut w).1.trace = c.trace ++ fs ∧ .queueInLoop .writeComplete ∉ fs) := by
  have hwrote := writeOut_cases c w
  generalize write w c.outputBuffer_.readable = call at hwrote
  generalize c.writeOut w = r at hwrote ⊢
  cases hwrote with
  | idle hoff => exact Or.inr ⟨[.logError .noMoreWriting], Iff.rfl, rfl, by simp⟩
  | nothing hon hret => exact Or.inr ⟨[.write call.taken], Iff.rfl, rfl, by simp⟩
  | partly hon hret hrest =>
      refine Or.inr ⟨[.write call.taken, .logError .handleWrite], ?_, by simp, by simp⟩
      exact iff_of_false hrest (h.isWriting.mp hon)
  | drained hon hret hall hcb' => exact absurd (hcb.symm.trans hcb') Bool.noConfusion
  | completed hon hret hall hcb' =>
      exact Or.inl ⟨call.taken, h.isWriting.mp hon, hall, by simp⟩

end TcpConnection

variable {c c' : TcpConnection}

/-! ### Runs -/

/-- What holds of an open connection with the callback set: each busy period so far has
queued it once, but for the one under way. -/
structure Balanced (c : TcpConnection) : Prop where
  streamed : Streamed c
  callback : c.writeCompeleteCallback_ = true
  balance : completions c.trace + (if Outstanding c.trace then 1 else 0) = busyPeriods c.trace
  prompt : Prompt c.trace

theorem Streamed.outstanding_iff (h : Streamed c) :
    Outstanding c.trace ↔ c.outputBuffer_.readable ≠ [] := by
  rw [Outstanding, ← h.stream, Ne, Ne, List.self_eq_append_right]

/-- Effects that neither begin nor end a period. -/
theorem Balanced.quiet (h : Balanced c) {fs : List Effect} (hc' : Streamed c')
    (hcb : c'.writeCompeleteCallback_ = c.writeCompeleteCallback_)
    (ht : c'.trace = c.trace ++ fs) (hfs : .queueInLoop .writeComplete ∉ fs)
    (hbusy : busyPeriodsAfter c.trace fs = 0)
    (hout : c'.outputBuffer_.readable = [] ↔ c.outputBuffer_.readable = []) :
    Balanced c' where
  streamed := hc'
  callback := hcb.trans h.callback
  balance := by
    have hsame : Outstanding c'.trace ↔ Outstanding c.trace := by
      rw [hc'.outstanding_iff, h.streamed.outstanding_iff]
      exact not_congr hout
    have hnone : completions fs = 0 := List.count_eq_zero.mpr hfs
    have hbalance := h.balance
    rw [if_congr hsame rfl rfl]
    rw [ht, completions_append, hnone, busyPeriods, busyPeriodsAfter_append, List.nil_append,
      hbusy]
    exact hbalance
  prompt := ht ▸ h.prompt.quiet hfs

/-- A call of `sendInLoop` begins a period if nothing is outstanding. -/
theorem busyPeriods_sendInLoop (es : List Effect) (data : List Byte) {fs : List Effect}
    (hfs : ∀ e ∈ fs, e.isOutput = true) :
    busyPeriods (es ++ .sendInLoop data :: fs)
      = busyPeriods es + if Outstanding es then 0 else 1 := by
  rw [busyPeriods, busyPeriodsAfter_append, List.nil_append, busyPeriodsAfter,
    busyPeriodsAfter_of_isOutput _ hfs, busyPeriods]
  by_cases hout : Outstanding es <;> simp [hout, Effect.message]

/-- The callback itself is no byte. -/
theorem outstanding_writeComplete (es : List Effect) :
    Outstanding (es ++ [.queueInLoop .writeComplete]) ↔ Outstanding es := by
  have hbyte : written [.queueInLoop .writeComplete] = [] := rfl
  have hmessage : sent [.queueInLoop .writeComplete] = [] := rfl
  rw [Outstanding, Outstanding, written_append, sent_append, hbyte, hmessage, List.append_nil,
    List.append_nil]

theorem Balanced.sendInLoop (h : Balanced c) {data : List Byte} (hdata : data ≠ [])
    {w : WriteResult} (hw : ¬ w.Fault) : Balanced (c.sendInLoop data w) := by
  have hstreamed := h.streamed.sendInLoop data hw
  have hcb := (sameSettings_sendInLoop c data w).writeComplete.trans h.callback
  have hbalance := h.balance
  rcases sendInLoop_completes h.streamed.established h.callback hdata hw with
    ⟨bs, hidle, hnil, htrace⟩ | ⟨fs, hrest, htrace, hfs⟩
  · -- a period of one call
    have hbefore : ¬ Outstanding c.trace := by
      rw [h.streamed.outstanding_iff, not_not]
      exact hidle
    have hafter : ¬ Outstanding (c.sendInLoop data w).trace := by
      rw [hstreamed.outstanding_iff, not_not]
      exact hnil
    refine ⟨hstreamed, hcb, ?_, ?_⟩
    · rw [if_neg hafter, htrace]
      rw [if_neg hbefore] at hbalance
      have hbusy : busyPeriods (c.trace ++ .sendInLoop data ::
          [.write bs, .queueInLoop .writeComplete]) = _ :=
        busyPeriods_sendInLoop c.trace data (by simp [Effect.isOutput])
      have hone : completions ([.sendInLoop data, .write bs] ++ [.queueInLoop .writeComplete])
          = 1 := by simp [completions]
      rw [if_neg hbefore] at hbusy
      rw [completions_append, hone]
      show _ = busyPeriods (c.trace ++ .sendInLoop data :: [.write bs, .queueInLoop .writeComplete])
      omega
    · rw [htrace]
      apply h.prompt.completed (by simp)
      rwa [htrace, ← List.append_assoc, outstanding_writeComplete] at hafter
  · -- a period begins, or goes on
    have hafter : Outstanding (c.sendInLoop data w).trace := hstreamed.outstanding_iff.mpr hrest
    obtain ⟨es, htrace', hout⟩ := sendInLoop_trace c data w
    obtain ⟨-, rfl⟩ := List.cons.inj (List.append_cancel_left (htrace.symm.trans htrace'))
    have hquiet : .queueInLoop .writeComplete ∉ Effect.sendInLoop data :: fs := by simpa using hfs
    refine ⟨hstreamed, hcb, ?_, htrace ▸ h.prompt.quiet hquiet⟩
    rw [if_pos hafter, htrace, completions_append, busyPeriods_sendInLoop c.trace data hout]
    have hnone : completions (.sendInLoop data :: fs) = 0 := List.count_eq_zero.mpr hquiet
    rw [hnone]
    split at hbalance
    · rw [if_pos ‹_›]
      omega
    · rw [if_neg ‹_›]
      omega

theorem Balanced.writeOut (h : Balanced c) (w : WriteResult) : Balanced (c.writeOut w).1 := by
  have hstreamed := h.streamed.writeOut w
  have hcb := (sameSettings_writeOut c w).writeComplete
  have hbalance := h.balance
  obtain ⟨gs, htrace', hout⟩ := writeOut_trace c w
  rcases writeOut_completes h.streamed.established h.callback w with
    ⟨bs, hne, hnil, htrace⟩ | ⟨fs, hsame, htrace, hfs⟩
  · -- the period ends
    have hafter : ¬ Outstanding (c.writeOut w).1.trace := by
      rw [hstreamed.outstanding_iff, not_not]
      exact hnil
    refine ⟨hstreamed, hcb.trans h.callback, ?_, ?_⟩
    · rw [if_pos (h.streamed.outstanding_iff.mpr hne)] at hbalance
      have hone : completions ([.write bs] ++ [.queueInLoop .writeComplete]) = 1 := by
        simp [completions]
      rw [if_neg hafter, htrace, completions_append, hone,
        busyPeriods_of_isOutput c.trace (by simp [Effect.isOutput])]
      exact hbalance
    · rw [htrace]
      apply h.prompt.completed (by simp)
      rwa [htrace, ← List.append_assoc, outstanding_writeComplete] at hafter
  · obtain rfl := List.append_cancel_left (htrace.symm.trans htrace')
    exact h.quiet hstreamed hcb htrace hfs (busyPeriodsAfter_of_isOutput _ hout) hsame

/-- Every move keeps the account, if the data it sends is not empty. -/
theorem Balanced.move (h : Balanced c) (hm : Move Benign c c')
    (hdata : ∀ data ∈ sent c'.trace, data ≠ []) : Balanced c' := by
  have hstreamed := h.streamed.move (fun _ hw => hw) hm
  cases hm with
  | emit e he =>
      apply h.quiet hstreamed rfl (emit_trace e) _ _ Iff.rfl
      · cases e <;> simp_all [Effect.isNeutral]
      · cases e <;> simp_all [Effect.isNeutral, busyPeriodsAfter, Effect.message]
  | revents m =>
      exact h.quiet hstreamed rfl (List.append_nil _).symm List.not_mem_nil rfl Iff.rfl
  | input b => exact h.quiet hstreamed rfl (List.append_nil _).symm List.not_mem_nil rfl Iff.rfl
  | poller p hp =>
      exact h.quiet hstreamed rfl (List.append_nil _).symm List.not_mem_nil rfl Iff.rfl
  | disconnecting =>
      exact h.quiet hstreamed rfl (List.append_nil _).symm List.not_mem_nil rfl Iff.rfl
  | sendInLoop data w hw =>
      refine h.sendInLoop (hdata data ?_) hw
      rw [sent_sendInLoop]
      simp
  | writeOut w => exact h.writeOut w

theorem Balanced.moves (h : Balanced c) (hm : Moves Benign c c')
    (hdata : ∀ data ∈ sent c'.trace, data ≠ []) : Balanced c' := by
  induction hm with
  | refl => exact h
  | tail _ hstep ih =>
      have hbefore := (hstep.grows.filterMap Effect.message).subset
      exact (ih fun data hmem => hdata data (hbefore hmem)).move hstep hdata

theorem Fresh.balanced (h : Fresh c) (hcb : c.writeCompeleteCallback_ = true) : Balanced c where
  streamed := h.streamed
  callback := hcb
  balance := by
    rw [h.trace]
    decide
  prompt := by
    rw [h.trace]
    have hnil : Prompt [] := fun before after heq => by simp at heq
    exact hnil.quiet (by simp)

/-! ### The calls of a run -/

/-- The calls among `ks` that find every byte of those before them accepted, after the
calls `before`. -/
def callPeriodsAfter : List SendCall → List SendCall → Nat
  | _, [] => 0
  | before, k :: ks =>
      (if written k.conn.trace = before.flatMap SendCall.data then 1 else 0)
        + callPeriodsAfter (before ++ [k]) ks

/-- The calls made when no byte was outstanding. -/
def callPeriods (ks : List SendCall) : Nat := callPeriodsAfter [] ks

theorem callPeriodsAfter_append (before ks ls : List SendCall) :
    callPeriodsAfter before (ks ++ ls)
      = callPeriodsAfter before ks + callPeriodsAfter (before ++ ks) ls := by
  induction ks generalizing before with
  | nil => simp [callPeriodsAfter]
  | cons k ks ih =>
      rw [List.cons_append, callPeriodsAfter, callPeriodsAfter, ih, List.append_assoc,
        List.singleton_append, Nat.add_assoc]

theorem callPeriods_concat (ks : List SendCall) (k : SendCall) :
    callPeriods (ks ++ [k]) = callPeriods ks
      + if written k.conn.trace = ks.flatMap SendCall.data then 1 else 0 := by
  rw [callPeriods, callPeriodsAfter_append, List.nil_append, callPeriodsAfter,
    callPeriodsAfter, Nat.add_zero, callPeriods]

/-- What the log says is outstanding is what the calls have passed on. -/
theorem Sending.outstanding_iff {ks : List SendCall} (hs : Sending c ks c') (h : Fresh c) :
    Outstanding c'.trace ↔ written c'.trace ≠ ks.flatMap SendCall.data := by
  rw [Outstanding, hs.sent_eq h.established, h.nothing_sent, List.nil_append, List.flatMap_def]

/-- The periods of the log are those of the calls. -/
theorem Sending.busyPeriods_eq {ks : List SendCall} (hs : Sending c ks c') (h : Fresh c) :
    busyPeriods c'.trace = callPeriods ks := by
  induction hs with
  | refl =>
      rw [h.trace]
      decide
  | @quiet ks c' c'' hs hm ih =>
      obtain ⟨fs, hfs⟩ := hm.grows
      have hsent := (hm.account (hs.established h.established)).1
      rw [← hfs, sent_append, List.append_right_eq_self] at hsent
      rw [← ih, ← hfs, busyPeriods, busyPeriodsAfter_append, List.nil_append,
        busyPeriodsAfter_of_sent _ hsent, Nat.add_zero, busyPeriods]
  | @call ks c' hs data w ih =>
      obtain ⟨fs, htrace, hout⟩ := sendInLoop_trace c' data w
      rw [htrace, busyPeriods_sendInLoop c'.trace data hout, ih, callPeriods_concat]
      by_cases hdone : Outstanding c'.trace
      · rw [if_pos hdone, if_neg ((hs.outstanding_iff h).mp hdone)]
      · rw [if_neg hdone, if_pos (not_not.mp (mt (hs.outstanding_iff h).mpr hdone))]

/-- **The write-complete callback is queued once for each busy period.**  In every run
with the callback set whose calls of `sendInLoop` pass some data and do not give it up,
as long as the connection is open, the callbacks queued and the period under way are as
many as the calls that found every byte before them accepted, and when one is queued no
byte is outstanding by the log, which holds the data of the calls. -/
theorem write_complete_accounting {es : List ConnEvent} (hfresh : Fresh c)
    (hcb : c.writeCompeleteCallback_ = true)
    (hrun : (connMachine fun _ => True).run c es = some c') (hopen : Open c')
    (hcalls : ∀ k ∈ runSends c es, k.data ≠ [] ∧ ¬ k.GivesUp) :
    completions c'.trace
        + (if written c'.trace ≠ (runSends c es).flatMap SendCall.data then 1 else 0)
      = callPeriods (runSends c es) ∧
    sent c'.trace = (runSends c es).map SendCall.data ∧
    ∀ before after, c'.trace = before ++ .queueInLoop .writeComplete :: after →
      ¬ Outstanding before := by
  have hsends := sending_of_run hrun hopen
  have hsent := hsends.sent_eq hfresh.established
  rw [hfresh.nothing_sent, List.nil_append] at hsent
  have hdata : ∀ data ∈ sent c'.trace, data ≠ [] := by
    rw [hsent]
    exact List.forall_mem_map.mpr fun k hk => (hcalls k hk).1
  have hmoves := hsends.moves fun k hk => (hcalls k hk).2
  have h := (hfresh.balanced hcb).moves hmoves hdata
  refine ⟨?_, hsent, h.prompt⟩
  rw [← hsends.busyPeriods_eq hfresh, ← h.balance]
  exact congrArg _ (if_congr (hsends.outstanding_iff hfresh).symm rfl rfl)

/-- A message taken at once, one that needs two events, and one under way. -/
def threePeriods : List ConnEvent :=
  [.sendInLoop [1] (.accept 1), .sendInLoop [2, 3] (.fail EWOULDBLOCK EWOULDBLOCK),
    .handleEvent EPOLLOUT (quietEnv (.accept 1)), .sendInLoop [4] (.accept 1),
    .handleEvent EPOLLOUT (quietEnv (.accept 9)), .sendInLoop [5, 6] (.accept 1)]

theorem write_complete_three_periods :
    ∃ c', (connMachine fun _ => True).run firstConnection threePeriods = some c' ∧
      written c'.trace = [1, 2, 3, 4, 5] ∧ completions c'.trace = 2 ∧
      callPeriods (runSends firstConnection threePeriods) = 3 := by
  have hend : ((connMachine fun _ => True).run firstConnection threePeriods).any fun c' =>
      decide (Open c' ∧ written c'.trace = [1, 2, 3, 4, 5] ∧ completions c'.trace = 2) := by
    decide +kernel
  have hcalls : ∀ k ∈ runSends firstConnection threePeriods, k.data ≠ [] ∧ ¬ k.GivesUp := by
    decide +kernel
  have hpassed : (runSends firstConnection threePeriods).flatMap SendCall.data
      = [1, 2, 3, 4, 5, 6] := by
    decide +kernel
  obtain ⟨c', hrun, hc'⟩ := (Option.any_eq_true _ _).mp hend
  obtain ⟨hopen, hwritten, htwo⟩ := of_decide_eq_true hc'
  have hfresh : Fresh firstConnection := fresh_connectEstablished rfl
  obtain ⟨hbalance, -⟩ := write_complete_accounting hfresh rfl hrun hopen hcalls
  refine ⟨c', hrun, hwritten, htwo, ?_⟩
  rw [hwritten, htwo, hpassed] at hbalance
  exact hbalance.symm

/-- After the block of `lostBlock` is given up, the callback for the next one is queued
with a byte outstanding, and the count is off by one. -/
theorem write_complete_after_lost_block :
    ∃ c', (connMachine fun _ => True).run firstConnection lostBlock = some c' ∧ Open c' ∧
      completions c'.trace = 1 ∧
      written c'.trace ≠ (runSends firstConnection lostBlock).flatMap SendCall.data ∧
      callPeriods (runSends firstConnection lostBlock) = 1 := by
  have hend : ((connMachine fun _ => True).run firstConnection lostBlock).any fun c' =>
      decide (Open c' ∧ completions c'.trace = 1 ∧
        written c'.trace ≠ (runSends firstConnection lostBlock).flatMap SendCall.data ∧
        callPeriods (runSends firstConnection lostBlock) = 1) := by
    decide +kernel
  obtain ⟨c', hrun, hc'⟩ := (Option.any_eq_true _ _).mp hend
  exact ⟨c', hrun, of_decide_eq_true hc'⟩

end Mymuduo
