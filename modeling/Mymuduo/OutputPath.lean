/-
Mymuduo/OutputPath.lean

What the output path of an open connection keeps over whole runs: the stream
(what the kernel took, then what the output buffer holds, is what was sent) and
the write interest (EPOLLOUT is armed exactly while there is a backlog).

Both are invariants of the moves of an open connection.  The write interest is
part of `Established` and survives every answer of the kernel; the stream needs
that no failed direct write finds EPIPE or ECONNRESET in `errno` after its log line,
for then `sendInLoop` drops its data.
-/
import Mymuduo.ConnectionRun

namespace Mymuduo

open Transition TcpConnection

variable {ok : WriteResult → Prop} {c c' : TcpConnection} {es : List ConnEvent}

/-! ### The output stream -/

/-- The bytes taken by the kernel, followed by the backlog, are the data of the
`sendInLoop` calls in call order. -/
structure Streamed (c : TcpConnection) : Prop where
  established : Established c
  stream : written c.trace ++ c.outputBuffer_.readable = (sent c.trace).flatten

theorem Fresh.streamed (h : Fresh c) : Streamed c where
  established := h.established
  stream := by rw [h.trace, h.output]; rfl

/-- Effects other than writes and calls of `sendInLoop` leave the stream as it
is. -/
theorem Streamed.quiet (h : Streamed c) {fs : List Effect} (hc' : Established c')
    (ht : c'.trace = c.trace ++ fs) (hwritten : written fs = []) (hsent : sent fs = [])
    (ho : c'.outputBuffer_ = c.outputBuffer_) : Streamed c' where
  established := hc'
  stream := by
    rw [ht, ho, written_append, sent_append, hwritten, hsent, List.append_nil, List.append_nil]
    exact h.stream

theorem Streamed.sendInLoop (h : Streamed c) (data : List Byte) {w : WriteResult}
    (hw : ¬ w.Fault) : Streamed (c.sendInLoop data w) := by
  obtain ⟨hest, -, es, htrace, hout, hstream⟩ := sendInLoop_spec h.established data w
  refine ⟨hest, ?_⟩
  have hcall : sent (.sendInLoop data :: es) = [data] := by
    show data :: sent es = [data]
    rw [sent_of_isOutput hout]
  have hbytes : written (.sendInLoop data :: es) = written es := rfl
  calc written (c.sendInLoop data w).trace ++ (c.sendInLoop data w).outputBuffer_.readable
      = written c.trace ++ (written es ++ (c.sendInLoop data w).outputBuffer_.readable) := by
        rw [htrace, written_append, hbytes, List.append_assoc]
    _ = (written c.trace ++ c.outputBuffer_.readable) ++ data := by
        rw [hstream, kept_of_not_fault hw, List.append_assoc]
    _ = (sent (c.sendInLoop data w).trace).flatten := by
        rw [h.stream, htrace, sent_append, hcall, List.flatten_append, List.flatten_singleton]

theorem Streamed.writeOut (h : Streamed c) (w : WriteResult) : Streamed (c.writeOut w).1 := by
  obtain ⟨hest, -, ⟨es, htrace, hout, hstream⟩, -⟩ := writeOut_spec h.established w
  refine ⟨hest, ?_⟩
  calc written (c.writeOut w).1.trace ++ (c.writeOut w).1.outputBuffer_.readable
      = written c.trace ++ (written es ++ (c.writeOut w).1.outputBuffer_.readable) := by
        rw [htrace, written_append, List.append_assoc]
    _ = (sent c.trace).flatten := by rw [hstream, h.stream]
    _ = (sent (c.writeOut w).1.trace).flatten := by
        rw [htrace, sent_append, sent_of_isOutput hout, List.append_nil]

/-- Every move within `ok` keeps the stream. -/
theorem Streamed.move (hok : ∀ w, ok w → ¬ w.Fault) (h : Streamed c) (hm : Move ok c c') :
    Streamed c' := by
  have hest := h.established.move hm
  cases hm with
  | emit e he =>
      refine h.quiet hest (emit_trace e) ?_ ?_ rfl
      · cases e <;> simp_all [Effect.isNeutral, Effect.bytes]
      · cases e <;> simp_all [Effect.isNeutral, sent, Effect.message]
  | revents m => exact h.quiet hest (List.append_nil _).symm rfl rfl rfl
  | input b => exact h.quiet hest (List.append_nil _).symm rfl rfl rfl
  | poller p hp => exact h.quiet hest (List.append_nil _).symm rfl rfl rfl
  | disconnecting => exact h.quiet hest (List.append_nil _).symm rfl rfl rfl
  | sendInLoop data w hw => exact h.sendInLoop data (hok w hw)
  | writeOut w => exact h.writeOut w

theorem Streamed.moves (hok : ∀ w, ok w → ¬ w.Fault) (h : Streamed c) (hm : Moves ok c c') :
    Streamed c' := by
  induction hm with
  | refl => exact h
  | tail _ hstep ih => exact ih.move hok hstep

/-- The kernel answers that `sendInLoop` survives. -/
def Benign (w : WriteResult) : Prop := ¬ w.Fault

instance (w : WriteResult) : Decidable (Benign w) := inferInstanceAs (Decidable (¬ w.Fault))

/-- Two messages, the first taken in part, the second behind it, then a writable
event that leaves one byte. -/
def shortWrites : List ConnEvent :=
  [.sendInLoop [97, 98, 99] (.accept 1), .sendInLoop [100] (.accept 1),
    .handleEvent EPOLLOUT (quietEnv (.accept 2))]

/-! ### Write interest -/

/-- **Write interest follows the backlog.**  In every run, as long as the
connection is open, the kernel holds the connection's fd with its channel and
the mask EPOLLIN|EPOLLPRI, plus EPOLLOUT exactly when the output buffer is not
empty. -/
theorem write_interest_follows_backlog (hinit : JustEstablished (fun _ => True) c)
    (hrun : (connMachine fun _ => True).run c es = some c') (hopen : Open c') :
    c'.poller_.epollSet c'.channel_.fd_ =
      some (if 0 < c'.outputBuffer_.readableBytes then EPOLLIN ||| EPOLLPRI ||| EPOLLOUT
        else EPOLLIN ||| EPOLLPRI, c'.channel_.self) := by
  have hes : ∀ e ∈ es, e.Meets fun _ => True := fun e _ => e.meets_true
  obtain ⟨c₀, hfresh, -, hmoves⟩ := run_advances hinit hes hrun
  have hest := hfresh.established.moves (hmoves hopen)
  rw [hest.registered.kernel, hest.mask, interest, ValidBuffer.readableBytes_eq]
  split
  · rename_i hnil
    rw [hnil, if_neg (by simp)]
    rfl
  · rename_i hne
    rw [if_pos (List.length_pos_iff.mpr hne)]
    rfl

theorem write_interest_short_writes :
    ∃ c', (connMachine fun _ => True).run firstConnection shortWrites = some c' ∧
      c'.poller_.epollSet c'.channel_.fd_ =
        some (if 0 < c'.outputBuffer_.readableBytes then EPOLLIN ||| EPOLLPRI ||| EPOLLOUT
          else EPOLLIN ||| EPOLLPRI, c'.channel_.self) := by
  have hrun : ((connMachine fun _ => True).run firstConnection shortWrites).isSome := by
    decide +kernel
  refine ⟨_, (Option.some_get hrun).symm, ?_⟩
  exact write_interest_follows_backlog justEstablished_firstConnection
    (Option.some_get hrun).symm (by decide +kernel +revert)

end Mymuduo
