/-
Mymuduo/OutputEvents.lean

The output path of a connection under the two things that drive it, in any order and
with any answers of the kernel: calls of `sendInLoop` and writable events.

The high-water mark is an edge detector on the length of the backlog.  `risingEdges` is
that purpose, stated over the list of lengths that a run goes through; the callbacks
queued are its edges, in order (`high_water_marks`).

`handleWrite` logs an error after a write that took a part of the backlog, and none
after a write that failed: the `else` of the log belongs to the inner `if`.  What it
does is what error reporting asks for exactly when `::write` took nothing without
failing, or everything (`write_errors_reported_iff`).
-/
import Mymuduo.ConnectionRun

namespace Mymuduo

open Transition TcpConnection

/-! ### The purpose of the mark -/

/-- The values at which a sequence reaches `mark` from below. -/
def risingEdges (mark : Nat) : List Nat → List Nat
  | old :: new :: later =>
      (if old < mark ∧ mark ≤ new then [new] else []) ++ risingEdges mark (new :: later)
  | _ => []

/-! ### The machine -/

/-- What drives the output path. -/
inductive OutputEvent
  | sendInLoop (data : List Byte) (w : WriteResult)
  | writable (w : WriteResult)
  deriving DecidableEq, Repr

def outputStep (c : TcpConnection) : OutputEvent → TcpConnection
  | .sendInLoop data w => c.sendInLoop data w
  | .writable w => c.handleWrite w

/-- Any connection, driven by sends and writable events. -/
def outputMachine : Machine TcpConnection OutputEvent where
  init _ := True
  next c e := some (outputStep c e)

/-- The length of the backlog before the first event and after each. -/
def backlogs (c : TcpConnection) : List OutputEvent → List Nat
  | [] => [c.outputBuffer_.readableBytes]
  | e :: es => c.outputBuffer_.readableBytes :: backlogs (outputStep c e) es

namespace Effect

/-- The backlog that a high-water callback carries. -/
def mark : Effect → Option Nat
  | .queueInLoop (.highWaterMark len) => some len
  | _ => none

end Effect

/-- The backlogs of the high-water callbacks that were queued, in order. -/
def marks (es : List Effect) : List Nat := es.filterMap Effect.mark

@[simp] theorem marks_append (es fs : List Effect) : marks (es ++ fs) = marks es ++ marks fs :=
  List.filterMap_append

namespace TcpConnection

variable {c c' : TcpConnection} {data : List Byte} {w : WriteResult}

/-! ### The high-water mark -/

/-- What a function may do about the mark: queue a callback exactly when the backlog has
reached it from below. -/
def MarksRise (c c' : TcpConnection) : Prop :=
  c.highWaterMarkCallback_ = true → marks c'.trace = marks c.trace ++
    risingEdges c.highWaterMark_ [c.outputBuffer_.readableBytes, c'.outputBuffer_.readableBytes]

theorem risingEdges_falling {mark old new : Nat} (h : new ≤ old) :
    risingEdges mark [old, new] = [] := by
  simp only [risingEdges, List.append_nil, ite_eq_right_iff]
  omega

/-- A backlog that does not grow needs no callback. -/
theorem MarksRise.of_falling (htrace : marks c'.trace = marks c.trace)
    (hfall : c'.outputBuffer_.readableBytes ≤ c.outputBuffer_.readableBytes) :
    MarksRise c c' := by
  intro _
  rw [risingEdges_falling hfall, List.append_nil, htrace]

/-- What does not touch the backlog may come before. -/
theorem MarksRise.head {c₀ : TcpConnection} (h : MarksRise c c') (hsame : SameSettings c₀ c)
    (htrace : marks c.trace = marks c₀.trace) (hout : c.outputBuffer_ = c₀.outputBuffer_) :
    MarksRise c₀ c' := by
  intro hset
  rw [h (hsame.highWaterMarkCallback.trans hset), htrace, hsame.highWaterMark, hout]

theorem MarksRise.emit (h : MarksRise c c') {e : Effect} (he : e.mark = none) :
    MarksRise c (c'.emit e) := by
  intro hset
  rw [emit_trace, marks_append, h hset]
  simp [marks, he]

theorem MarksRise.ite_channel {b : Prop} [Decidable b] (h : MarksRise c c')
    (r : Channel × EPollPoller) : MarksRise c (if b then c'.withChannel r else c') := by
  split
  · exact h
  · exact h

/-- The direct write leaves the backlog alone and queues no high-water callback. -/
theorem tryWrite_quiet (c : TcpConnection) (data : List Byte) (w : WriteResult) :
    marks (c.tryWrite data w).conn.trace = marks c.trace ∧
      (c.tryWrite data w).conn.outputBuffer_ = c.outputBuffer_ := by
  have htried := tryWrite_cases c data w
  generalize c.tryWrite data w = a at htried
  cases htried with
  | _ => exact ⟨by simp [marks, Effect.mark], rfl⟩

/-- The length that `queueRest` compares with the mark is the one it leaves. -/
theorem marksRise_queueRest {a : Attempt}
    (hrest : ((data.drop a.nwrote).take a.remaining).length = a.remaining) :
    MarksRise a.conn (queueRest a data) := by
  have hnew : (a.conn.outputBuffer_.append ((data.drop a.nwrote).take a.remaining)).readableBytes
      = a.conn.outputBuffer_.readableBytes + a.remaining := by
    rw [ValidBuffer.readableBytes_eq, ValidBuffer.readable_append, List.length_append, hrest,
      ValidBuffer.readableBytes_eq]
  unfold queueRest
  dsimp only
  generalize hold : a.conn.outputBuffer_.readableBytes = old at hnew ⊢
  split
  · apply MarksRise.ite_channel
    split
    · -- the mark is crossed
      rename_i hcross
      intro _
      show marks (a.conn.trace ++ [.queueInLoop (.highWaterMark (old + a.remaining))])
        = marks a.conn.trace ++ risingEdges a.conn.highWaterMark_
            [a.conn.outputBuffer_.readableBytes, (a.conn.outputBuffer_.append
              ((data.drop a.nwrote).take a.remaining)).readableBytes]
      rw [hold, hnew, marks_append, risingEdges, if_pos ⟨hcross.2.1, hcross.1⟩]
      rfl
    · rename_i hstay
      intro hset
      show marks a.conn.trace = marks a.conn.trace ++ risingEdges a.conn.highWaterMark_
        [a.conn.outputBuffer_.readableBytes, (a.conn.outputBuffer_.append
          ((data.drop a.nwrote).take a.remaining)).readableBytes]
      have hnone : ¬ (old < a.conn.highWaterMark_ ∧
          a.conn.highWaterMark_ ≤ old + a.remaining) :=
        fun hcross => hstay ⟨hcross.2, hcross.1, hset⟩
      rw [hold, hnew, risingEdges, if_neg hnone]
      exact (List.append_nil _).symm
  · exact .of_falling rfl (Nat.le_refl _)

theorem marksRise_sendInLoop (c : TcpConnection) (data : List Byte) (w : WriteResult) :
    MarksRise c (c.sendInLoop data w) := by
  unfold sendInLoop
  dsimp only
  split
  · exact .of_falling (by simp [marks, Effect.mark]) (Nat.le_refl _)
  · obtain ⟨htrace, hout⟩ := tryWrite_quiet (c.emit (.sendInLoop data)) data w
    have ha := tryWrite_spec (c.emit (.sendInLoop data)) data w
    have hrest : ((data.drop ((c.emit (.sendInLoop data)).tryWrite data w).nwrote).take
        ((c.emit (.sendInLoop data)).tryWrite data w).remaining).length
          = ((c.emit (.sendInLoop data)).tryWrite data w).remaining := by
      rw [ha.rest, List.length_drop, ha.remaining]
    have hemit : SameSettings c (c.emit (.sendInLoop data)) := ⟨rfl, rfl, rfl⟩
    refine (marksRise_queueRest hrest).head (hemit.trans (sameSettings_tryWrite _ data w)) ?_ hout
    rw [htrace]
    simp [marks, Effect.mark]

theorem marksRise_writeOut (c : TcpConnection) (w : WriteResult) :
    MarksRise c (c.writeOut w).1 := by
  have hwrote := writeOut_cases c w
  generalize c.writeOut w = r at hwrote
  generalize write w c.outputBuffer_.readable = call at hwrote
  have hfall : (c.outputBuffer_.retrieve call.ret.toNat).readableBytes
      ≤ c.outputBuffer_.readableBytes := by
    rw [ValidBuffer.readableBytes_eq, ValidBuffer.readable_retrieve, List.length_drop,
      ValidBuffer.readableBytes_eq]
    exact Nat.sub_le _ _
  cases hwrote with
  | idle hoff => exact .of_falling (by simp [marks, Effect.mark]) (Nat.le_refl _)
  | nothing hon hret => exact .of_falling (by simp [marks, Effect.mark]) (Nat.le_refl _)
  | partly hon hret hrest => exact .of_falling (by simp [marks, Effect.mark]) hfall
  | drained hon hret hall hcb => exact .of_falling (by simp [marks, Effect.mark]) hfall
  | completed hon hret hall hcb => exact .of_falling (by simp [marks, Effect.mark]) hfall

theorem marksRise_handleWrite (c : TcpConnection) (w : WriteResult) :
    MarksRise c (c.handleWrite w) := by
  have hout := marksRise_writeOut c w
  unfold handleWrite finishWrite shutdownInLoop
  dsimp only
  split
  · split
    · split
      · exact hout.emit rfl
      · exact hout
    · exact hout
  · exact hout

end TcpConnection

variable {c : TcpConnection} {es : List OutputEvent}

theorem marksRise_step (c : TcpConnection) (e : OutputEvent) : MarksRise c (outputStep c e) := by
  cases e with
  | sendInLoop data w => exact marksRise_sendInLoop c data w
  | writable w => exact marksRise_handleWrite c w

theorem sameSettings_step (c : TcpConnection) (e : OutputEvent) :
    SameSettings c (outputStep c e) := by
  cases e with
  | sendInLoop data w => exact sameSettings_sendInLoop c data w
  | writable w => exact sameSettings_handleWrite c w

/-- The edges of a run are those of its first step and those of the rest. -/
theorem risingEdges_backlogs_cons (mark : Nat) (c : TcpConnection) (e : OutputEvent)
    (es : List OutputEvent) :
    risingEdges mark (backlogs c (e :: es)) =
      risingEdges mark [c.outputBuffer_.readableBytes, (outputStep c e).outputBuffer_.readableBytes]
        ++ risingEdges mark (backlogs (outputStep c e) es) := by
  cases es with
  | nil => simp [backlogs, risingEdges]
  | cons e' es => simp [backlogs, risingEdges]

/-- **The high-water callback fires on rising edges only.**  From any connection with the
callback set, any events drive the output path through to the end, and the callbacks
queued carry, in order, the lengths at which the backlog reached the mark from below. -/
theorem high_water_marks (c : TcpConnection) (es : List OutputEvent)
    (hset : c.highWaterMarkCallback_ = true) :
    ∃ c', outputMachine.run c es = some c' ∧ c'.highWaterMark_ = c.highWaterMark_ ∧
      marks c'.trace = marks c.trace ++ risingEdges c.highWaterMark_ (backlogs c es) := by
  induction es generalizing c with
  | nil => exact ⟨c, rfl, rfl, by simp [backlogs, risingEdges]⟩
  | cons e es ih =>
      have hsame := sameSettings_step c e
      obtain ⟨c', hrun, hmark, hmarks⟩ :=
        ih (outputStep c e) (hsame.highWaterMarkCallback.trans hset)
      refine ⟨c', Machine.run_cons_some.mpr ⟨_, rfl, hrun⟩, hmark.trans hsame.highWaterMark, ?_⟩
      rw [hmarks, marksRise_step c e hset, hsame.highWaterMark, risingEdges_backlogs_cons,
        List.append_assoc]

/-- Above the mark (4), below it again, exactly at it. -/
def waves : List OutputEvent :=
  [.sendInLoop [1, 2, 3, 4, 5, 6] (.accept 1), .sendInLoop [7] (.accept 0),
    .writable (.accept 4), .sendInLoop [8, 9] (.fail EPIPE EPIPE), .writable (.accept 9)]

theorem high_water_marks_waves :
    ∃ c', outputMachine.run firstConnection waves = some c' ∧
      marks c'.trace = [5, 4] := by
  obtain ⟨c', hrun, -, hmarks⟩ := high_water_marks firstConnection waves rfl
  refine ⟨c', hrun, hmarks.trans ?_⟩
  decide +kernel

/-! ### Write errors -/

/-- `handleWrite` took its error-reporting path from `c` to `c'`. -/
def LogsWriteError (c c' : TcpConnection) : Prop :=
  ∃ fs, c'.trace = c.trace ++ fs ∧ .logError .handleWrite ∈ fs

theorem logsWriteError_iff {c' : TcpConnection} {fs : List Effect}
    (h : c'.trace = c.trace ++ fs) : LogsWriteError c c' ↔ .logError .handleWrite ∈ fs := by
  constructor
  · rintro ⟨fs', h', hmem⟩
    rwa [List.append_cancel_left (h.symm.trans h')]
  · exact fun hmem => ⟨fs, h, hmem⟩

/-- What `handleWrite` should make of the result of its `::write`: report exactly the
failures, change nothing then, and keep what a partial write has left. -/
structure Reported (c : TcpConnection) (call : WriteCall) (c' : TcpConnection) : Prop where
  logged : LogsWriteError c c' ↔ call.ret < 0
  failed : call.ret < 0 → c'.outputBuffer_ = c.outputBuffer_ ∧
    c'.channel_.events_ = c.channel_.events_ ∧ c'.state_ = c.state_
  partly : 0 ≤ call.ret → call.ret < c.outputBuffer_.readableBytes →
    c'.outputBuffer_.readable = c.outputBuffer_.readable.drop call.ret.toNat ∧
      c'.channel_.events_ = c.channel_.events_ ∧ c'.state_ = c.state_

/-- `::write` took nothing without failing, or everything. -/
def NothingOrAll (c : TcpConnection) (call : WriteCall) : Prop :=
  call.ret = 0 ∨ call.ret = c.outputBuffer_.readableBytes

instance (c : TcpConnection) (call : WriteCall) : Decidable (NothingOrAll c call) :=
  inferInstanceAs (Decidable (_ ∨ _))

/-- A writable event with write interest and a backlog is reported. -/
def WriteReported (c : TcpConnection) (e : OutputEvent) (c' : TcpConnection) : Prop :=
  ∀ w, e = .writable w → c.channel_.isWriting = true → c.outputBuffer_.readable ≠ [] →
    Reported c (write w c.outputBuffer_.readable) c'

/-- A writable event with write interest and a backlog finds a kernel that takes
nothing without failing, or everything. -/
def AllOrNothing (c : TcpConnection) (e : OutputEvent) : Prop :=
  ∀ w, e = .writable w → c.channel_.isWriting = true → c.outputBuffer_.readable ≠ [] →
    NothingOrAll c (write w c.outputBuffer_.readable)

/-- The second half of `handleWrite` reports nothing. -/
theorem finishWrite_logs {c c' : TcpConnection} (h : ¬ LogsWriteError c c')
    (hgrows : c.trace <+: c'.trace) : ¬ LogsWriteError c c'.finishWrite := by
  obtain ⟨fs, htrace⟩ := hgrows
  have hmem := (logsWriteError_iff htrace.symm).not.mp h
  unfold finishWrite shutdownInLoop
  split
  · split
    · have hfin : (c'.emit .shutdownWrite).trace = c.trace ++ (fs ++ [.shutdownWrite]) := by
        rw [emit_trace, ← htrace, List.append_assoc]
      rw [logsWriteError_iff hfin]
      simpa using hmem
    · exact h
  · exact h

/-- `handleWrite` reports what it should exactly when its `::write` took nothing without
failing, or everything: a partial write is logged, and a failed one is not. -/
theorem reported_iff {c : TcpConnection} {w : WriteResult} (hon : c.channel_.isWriting = true)
    (hne : c.outputBuffer_.readable ≠ []) :
    Reported c (write w c.outputBuffer_.readable) (c.handleWrite w) ↔
      NothingOrAll c (write w c.outputBuffer_.readable) := by
  have hle := write_ret_le w c.outputBuffer_.readable
  have hlength : c.outputBuffer_.readableBytes = c.outputBuffer_.readable.length :=
    c.outputBuffer_.readableBytes_eq
  have hpos := List.length_pos_iff.mpr hne
  have hwrote := writeOut_cases c w
  unfold handleWrite
  generalize write w c.outputBuffer_.readable = call at hle hwrote ⊢
  generalize c.writeOut w = r at hwrote ⊢
  have hdrained : ∀ c' : TcpConnection, ¬ LogsWriteError c c' → c.trace <+: c'.trace →
      0 < call.ret → (c.outputBuffer_.retrieve call.ret.toNat).readable = [] →
      (Reported c call c'.finishWrite ↔ NothingOrAll c call) := by
    intro c' hquiet hgrows hret hall
    rw [ValidBuffer.readable_retrieve, List.drop_eq_nil_iff] at hall
    refine iff_of_true ⟨iff_of_false (finishWrite_logs hquiet hgrows) (by omega), by omega, ?_⟩ ?_
    · intro _ hlt
      omega
    · exact Or.inr (by omega)
  cases hwrote with
  | idle hoff => exact absurd hon (by simp [hoff])
  | nothing hon hret =>
      have hlogs : ¬ LogsWriteError c (c.emit (.write call.taken)) := by
        rw [logsWriteError_iff (emit_trace _)]
        simp
      constructor
      · intro hgood
        have hnot := hgood.logged.not.mp hlogs
        exact Or.inl (by omega)
      · rintro (hzero | hall)
        · refine ⟨iff_of_false hlogs (by omega), by omega, fun _ _ => ⟨?_, rfl, rfl⟩⟩
          rw [hzero]
          rfl
        · omega
  | partly hon hret hrest =>
      have hlogs : LogsWriteError c ((c.afterWrite call).emit (.logError .handleWrite)) :=
        ⟨[.write call.taken, .logError .handleWrite], by simp, by simp⟩
      rw [Ne, ValidBuffer.readable_retrieve, List.drop_eq_nil_iff] at hrest
      refine iff_of_false (fun hgood => ?_) ?_
      · have hfailed := hgood.logged.mp hlogs
        omega
      · rintro (hzero | hall) <;> omega
  | drained hon hret hall hcb =>
      have htrace : ((c.afterWrite call).withChannel
          (c.channel_.disableWriting c.poller_)).trace = c.trace ++ [.write call.taken] := by simp
      refine hdrained _ ?_ (by simp) hret hall
      rw [logsWriteError_iff htrace]
      simp
  | completed hon hret hall hcb =>
      have htrace : (((c.afterWrite call).withChannel
          (c.channel_.disableWriting c.poller_)).emit (.queueInLoop .writeComplete)).trace
            = c.trace ++ [.write call.taken, .queueInLoop .writeComplete] := by simp
      refine hdrained _ ?_ (by simp) hret hall
      rw [logsWriteError_iff htrace]
      simp

/-- **`handleWrite` reports partial writes and not failures.**  Along every run, the
writable events with write interest and a backlog are reported as they should be
exactly when in each of them `::write` took nothing without failing, or everything. -/
theorem write_errors_reported_iff (c : TcpConnection) (es : List OutputEvent) :
    outputMachine.Every WriteReported c es ↔ outputMachine.Along AllOrNothing c es := by
  obtain ⟨t, hrun⟩ : ∃ t, outputMachine.run c es = some t := by
    induction es generalizing c with
    | nil => exact ⟨c, rfl⟩
    | cons e es ih =>
        obtain ⟨t, ht⟩ := ih (outputStep c e)
        exact ⟨t, Machine.run_cons_some.mpr ⟨_, rfl, ht⟩⟩
  refine Machine.every_iff_along (I := fun _ => True) (A := fun _ _ => True) ?_
    (fun _ _ _ _ _ _ _ => trivial) (Machine.along_of_forall fun _ _ _ => trivial) hrun trivial
  rintro c e t - - ht
  obtain rfl := Option.some.inj ht
  refine forall_congr' fun w => ?_
  constructor
  · rintro h rfl hon hne
    exact (reported_iff hon hne).mp (h rfl hon hne)
  · rintro h rfl hon hne
    exact (reported_iff hon hne).mpr (h rfl hon hne)

/-- Two bytes wait.  A `::write` that takes one of them is logged as an error, and one
that fails with ECONNRESET is not. -/
theorem write_errors_misreported :
    ¬ outputMachine.Every WriteReported firstConnection
      [.sendInLoop [1, 2, 3] (.accept 1), .writable (.accept 1)] ∧
    ¬ outputMachine.Every WriteReported firstConnection
      [.sendInLoop [1, 2, 3] (.accept 1), .writable (.fail ECONNRESET ECONNRESET)] := by
  let c := outputStep firstConnection (.sendInLoop [1, 2, 3] (.accept 1))
  have hon : c.channel_.isWriting = true := by decide +kernel
  have hne : c.outputBuffer_.readable ≠ [] := by decide +kernel
  have hmis : ∀ w, ¬ NothingOrAll c (write w c.outputBuffer_.readable) →
      ¬ outputMachine.Every WriteReported firstConnection
        [.sendInLoop [1, 2, 3] (.accept 1), .writable w] := by
    intro w hw hevery
    obtain ⟨hreport, -⟩ := (hevery c rfl).2 _ rfl
    exact hw ((reported_iff hon hne).mp (hreport w rfl hon hne))
  exact ⟨hmis _ (by decide +kernel), hmis _ (by decide +kernel)⟩

end Mymuduo
