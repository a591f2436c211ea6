/-
Mymuduo/SendCalls.lean

The calls of `sendInLoop` in a run, and the output stream.

A step of the loop thread makes the calls `sendCalls`: its own, or those of the user code
that it runs.  Work on an open connection is quiet moves with these calls in between
(`Sending`), so over a run the trace has their data in call order, and what the kernel
has taken and what the output buffer holds is what each of them has kept.

A call keeps nothing if its direct write fails with an error that `sendInLoop` logs, and
the log line leaves EPIPE or ECONNRESET in `errno`: the second test reads `errno` again.
The stream is whole exactly when no call with data gives it up
(`output_stream_integrity_iff`).
-/
import Mymuduo.Ledger
import Mymuduo.OutputPath

namespace Mymuduo

open Transition TcpConnection

/-! ### Calls -/

/-- A call of `sendInLoop`: the connection it finds, and its arguments. -/
structure SendCall where
  conn : TcpConnection
  data : List Byte
  answer : WriteResult

namespace SendCall

def GivesUp (k : SendCall) : Prop := k.conn.GivesUp k.answer

instance (k : SendCall) : Decidable k.GivesUp := inferInstanceAs (Decidable (k.conn.GivesUp _))

/-- What the call keeps of its data. -/
def kept (k : SendCall) : List Byte := k.conn.kept k.data k.answer

theorem kept_eq_iff {k : SendCall} : k.kept = k.data ↔ (k.GivesUp → k.data = []) := by
  rw [kept, TcpConnection.kept]
  split
  · rename_i hgives
    exact ⟨fun h _ => h.symm, fun h => (h hgives).symm⟩
  · rename_i hkeeps
    exact ⟨fun _ h => absurd h hkeeps, fun _ => rfl⟩

theorem length_kept_le (k : SendCall) : k.kept.length ≤ k.data.length := by
  rw [kept, TcpConnection.kept]
  split
  · exact Nat.zero_le _
  · exact Nat.le_refl _

end SendCall

namespace TcpConnection

/-- The calls of `sendInLoop` that user code makes: `send` does nothing on a connection
that is not connected. -/
def userSends (c : TcpConnection) : List UserCall → List SendCall
  | [] => []
  | .send data w :: us =>
      (if c.state_ = .kConnected then [⟨c, data, w⟩] else []) ++ (c.send data w).userSends us
  | u :: us => (c.userCall u).userSends us

/-- Those of `messageCallback_` in `handleRead`. -/
def readSends (c : TcpConnection) (env : Env) : List SendCall :=
  let (input, _, ret) := c.inputBuffer_.readFd env.readv 0
  let n := ret.getD (env.indeterminate (readv env.readv c.inputBuffer_.iovRoom).ret)
  let c := { c with inputBuffer_ := input }
  if 0 < n then (c.emit (.messageCallback input.readable)).userSends env.onMessage else []

/-- Those of `handleEventWithGuard`.  The callbacks of `handleClose` find the connection
closed. -/
def guardSends (c : TcpConnection) (env : Env) : List SendCall :=
  let revents := c.channel_.revents_
  let c := if hasAny revents EPOLLHUP ∧ !hasAny revents EPOLLIN then c.handleClose env else c
  let c := if hasAny revents EPOLLERR then c.handleError 0 else c
  if hasAny revents (EPOLLIN ||| EPOLLPRI) then c.readSends env else []

def eventSends (c : TcpConnection) (revents : Mask) (env : Env) : List SendCall :=
  { c with channel_ := { c.channel_ with revents_ := revents } }.guardSends env

end TcpConnection

/-- The calls of `sendInLoop` that a step makes. -/
def sendCalls (c : TcpConnection) : ConnEvent → List SendCall
  | .handleEvent revents env => c.eventSends revents env
  | .sendInLoop data w => [⟨c, data, w⟩]
  | .user u => c.userSends [u]
  | _ => []

/-! ### Work with calls in it -/

/-- Moves without a call of `sendInLoop`. -/
abbrev QuietMove : TcpConnection → TcpConnection → Prop := Move fun _ => False

abbrev QuietMoves : TcpConnection → TcpConnection → Prop := Moves fun _ => False

/-- Work on an open connection that makes the calls. -/
inductive Sending (c : TcpConnection) : List SendCall → TcpConnection → Prop
  | refl : Sending c [] c
  | quiet {ks : List SendCall} {c' c'' : TcpConnection} (h : Sending c ks c')
      (hm : QuietMove c' c'') : Sending c ks c''
  | call {ks : List SendCall} {c' : TcpConnection} (h : Sending c ks c') (data : List Byte)
      (w : WriteResult) : Sending c (ks ++ [⟨c', data, w⟩]) (c'.sendInLoop data w)

variable {c c' c'' : TcpConnection} {ks ls : List SendCall}

theorem Sending.of_moves (h : QuietMoves c c') : Sending c [] c' := by
  induction h with
  | refl => exact .refl
  | tail _ hstep ih => exact ih.quiet hstep

theorem Sending.trans (h : Sending c ks c') (h' : Sending c' ls c'') :
    Sending c (ks ++ ls) c'' := by
  induction h' with
  | refl =>
      rw [List.append_nil]
      exact h
  | quiet _ hm ih => exact ih.quiet hm
  | call _ data w ih =>
      rw [← List.append_assoc]
      exact ih.call data w

/-- Quiet moves pass no data on, and neither do they take any away. -/
theorem QuietMove.account (hm : QuietMove c c') (h : Established c) :
    sent c'.trace = sent c.trace ∧ written c'.trace ++ c'.outputBuffer_.readable
      = written c.trace ++ c.outputBuffer_.readable := by
  cases hm with
  | emit e he =>
      rw [emit_trace, emit_output, sent_append, written_append]
      cases e <;> simp_all [Effect.isNeutral, Effect.bytes, sent, Effect.message]
  | sendInLoop data w hw => exact hw.elim
  | writeOut w =>
      obtain ⟨-, -, ⟨es, htrace, -, hstream⟩, -⟩ := writeOut_spec h w
      exact ⟨sent_writeOut c w, by rw [htrace, written_append, List.append_assoc, hstream]⟩
  | _ => exact ⟨rfl, rfl⟩

theorem Sending.established (hs : Sending c ks c') (h : Established c) : Established c' := by
  induction hs with
  | refl => exact h
  | quiet _ hm ih => exact ih.move hm
  | call _ data w ih => exact (sendInLoop_spec ih data w).1

/-- The log of the calls is right. -/
theorem Sending.sent_eq (hs : Sending c ks c') (h : Established c) :
    sent c'.trace = sent c.trace ++ ks.map SendCall.data := by
  induction hs with
  | refl => simp
  | quiet hs hm ih => rw [(hm.account (hs.established h)).1, ih]
  | call hs data w ih => rw [sent_sendInLoop, ih, List.map_append, List.append_assoc]; rfl

theorem Fresh.nothing_sent (h : Fresh c) : sent c.trace = [] := by
  rw [h.trace]
  rfl

theorem Fresh.nothing_written (h : Fresh c) : written c.trace = [] := by
  rw [h.trace]
  rfl

/-- The bytes that the kernel has taken and those in the buffer are those the calls have
kept, in call order. -/
theorem Sending.stream (hs : Sending c ks c') (h : Established c) :
    written c'.trace ++ c'.outputBuffer_.readable
      = written c.trace ++ c.outputBuffer_.readable ++ ks.flatMap SendCall.kept := by
  induction hs with
  | refl => simp
  | quiet hs hm ih => rw [(hm.account (hs.established h)).2, ih]
  | @call ks c' hs data w ih =>
      obtain ⟨-, -, es, htrace, -, hstream⟩ := sendInLoop_spec (hs.established h) data w
      have hbytes : written (.sendInLoop data :: es) = written es := rfl
      calc written (c'.sendInLoop data w).trace ++ (c'.sendInLoop data w).outputBuffer_.readable
          = written c'.trace ++ (written es ++ (c'.sendInLoop data w).outputBuffer_.readable) := by
            rw [htrace, written_append, hbytes, List.append_assoc]
        _ = (written c'.trace ++ c'.outputBuffer_.readable) ++ c'.kept data w := by
            rw [hstream, List.append_assoc]
        _ = _ := by
            rw [ih, List.flatMap_append, List.flatMap_singleton, List.append_assoc]
            rfl

/-- A call that keeps its data does not see what the kernel would answer, or is answered
without a fault. -/
theorem TcpConnection.sendInLoop_of_not_givesUp {w : WriteResult} (h : ¬ c.GivesUp w)
    (data : List Byte) : ∃ w', Benign w' ∧ c.sendInLoop data w = c.sendInLoop data w' := by
  by_cases hw : w.Fault
  · refine ⟨.accept 0, id, ?_⟩
    unfold TcpConnection.sendInLoop
    dsimp only
    split
    · rfl
    · rename_i halive
      -- the block goes behind a backlog
      have hbusy : ¬ (!c.channel_.isWriting ∧ c.outputBuffer_.readableBytes = 0) := by
        intro hdirect
        exact h ⟨halive, by simpa using hdirect.1, hdirect.2, hw⟩
      rw [tryWrite, tryWrite, emit_channel, emit_output, if_neg hbusy, if_neg hbusy]
  · exact ⟨w, hw, rfl⟩

/-- If every call keeps its data, the work is benign moves. -/
theorem Sending.moves (hs : Sending c ks c') (hkeeps : ∀ k ∈ ks, ¬ k.GivesUp) :
    Moves Benign c c' := by
  induction hs with
  | refl => exact Relation.ReflTransGen.refl
  | quiet _ hm ih =>
      refine (ih hkeeps).tail ?_
      cases hm with
      | emit e he => exact .emit _ e he
      | revents m => exact .revents _ m
      | input b => exact .input _ b
      | poller p hp => exact .poller _ p hp
      | disconnecting => exact .disconnecting _
      | sendInLoop data w hw => exact hw.elim
      | writeOut w => exact .writeOut _ w
  | @call ks c' _ data w ih =>
      have hkeep : ¬ c'.GivesUp w := hkeeps ⟨c', data, w⟩ (by simp)
      obtain ⟨w', hw', heq⟩ := sendInLoop_of_not_givesUp hkeep data
      rw [heq]
      exact (ih fun k hk => hkeeps k (List.mem_append_left _ hk)).tail (.sendInLoop _ data w' hw')

/-! ### Steps and runs -/

/-- The trace has grown, and if the connection is still open then it got here by work that
made the calls. -/
def AdvancesBy (ks : List SendCall) (c c' : TcpConnection) : Prop :=
  c.trace <+: c'.trace ∧ (Open c' → Sending c ks c')

theorem AdvancesBy.of_advances (h : Advances (fun _ => False) c c') : AdvancesBy [] c c' :=
  ⟨h.1, fun ho => .of_moves (h.2 ho)⟩

theorem AdvancesBy.trans (h : AdvancesBy ks c c') (h' : AdvancesBy ls c' c'') :
    AdvancesBy (ks ++ ls) c c'' :=
  ⟨h.1.trans h'.1, fun ho => (h.2 (Open.earlier ho h'.1)).trans (h'.2 ho)⟩

/-- Work without calls comes before, or after. -/
theorem AdvancesBy.after (h : AdvancesBy ks c' c'') (h' : Advances (fun _ => False) c c') :
    AdvancesBy ks c c'' :=
  (of_advances h').trans h

theorem AdvancesBy.before (h : AdvancesBy ks c c') (h' : Advances (fun _ => False) c' c'') :
    AdvancesBy ks c c'' :=
  List.append_nil ks ▸ h.trans (of_advances h')

theorem advancesBy_userSends (c : TcpConnection) (us : List UserCall) :
    AdvancesBy (c.userSends us) c (c.userCalls us) := by
  induction us generalizing c with
  | nil => exact .of_advances (.refl c)
  | cons u us ih =>
      cases u with
      | send data w =>
          have hfirst : AdvancesBy (if c.state_ = .kConnected then [⟨c, data, w⟩] else []) c
              (c.send data w) := by
            rw [TcpConnection.send]
            split
            · exact ⟨(sends_sendInLoop c data w).grows, fun _ => Sending.refl.call data w⟩
            · exact .of_advances (.refl c)
          exact hfirst.trans (ih _)
      | shutdown =>
          have hdown : QuietMoves c (c.userCall .shutdown) := moves_userCall c trivial
          exact (ih _).after (Moves.advances hdown)
      | retrieve len =>
          have hinput : QuietMoves c (c.userCall (.retrieve len)) := moves_userCall c trivial
          exact (ih _).after (Moves.advances hinput)

theorem advancesBy_readSends (c : TcpConnection) (env : Env) :
    AdvancesBy (c.readSends env) c (c.handleRead env) := by
  have hread : QuietMoves c { c with inputBuffer_ := (c.inputBuffer_.readFd env.readv 0).1 } :=
    Relation.ReflTransGen.single (.input c _)
  unfold readSends handleRead
  dsimp only
  split
  · have hshow (c' : TcpConnection) (shown : List Byte) :
        Advances (fun _ => False) c' (c'.emit (.messageCallback shown)) :=
      (Move.emit c' (.messageCallback shown) rfl).advances
    exact (advancesBy_userSends _ env.onMessage).after ((Moves.advances hread).trans (hshow _ _))
  · split
    · exact .of_advances (Advances.trans (Moves.advances hread) (advances_handleClose _ env))
    · have hlogged : QuietMoves c _ := hread.tail (.emit _ (.logError .handleRead) rfl)
      exact .of_advances (Moves.advances (hlogged.trans (moves_handleError _ _)))

theorem advancesBy_guardSends (c : TcpConnection) (env : Env) :
    AdvancesBy (c.guardSends env) c (c.handleEventWithGuard env) := by
  unfold guardSends handleEventWithGuard
  extract_lets revents c₁ c₂ c₃
  have h₁ : Advances (fun _ => False) c c₁ := Advances.ite (advances_handleClose c env)
  have h₂ : Advances (fun _ => False) c₁ c₂ := Advances.ite (moves_handleError c₁ 0).advances
  have h₃ : AdvancesBy (if hasAny revents (EPOLLIN ||| EPOLLPRI) then c₂.readSends env else [])
      c₂ c₃ := by
    unfold c₃
    split
    · exact advancesBy_readSends c₂ env
    · exact .of_advances (.refl c₂)
  exact (h₃.after (h₁.trans h₂)).before (Advances.ite (moves_handleWrite c₃ env.write).advances)

/-- One step of the loop thread. -/
theorem advancesBy_next {e : ConnEvent} (h : connNext c e = some c') :
    AdvancesBy (sendCalls c e) c c' := by
  cases e with
  | handleEvent revents env =>
      simp only [connNext, Option.ite_none_right_eq_some, Option.some.injEq] at h
      obtain ⟨-, rfl⟩ := h
      exact (advancesBy_guardSends _ env).after (Move.revents c revents).advances
  | sendInLoop data w =>
      obtain rfl := Option.some.inj h
      exact ⟨(sends_sendInLoop c data w).grows, fun _ => Sending.refl.call data w⟩
  | user u =>
      obtain rfl := Option.some.inj h
      exact advancesBy_userSends c [u]
  | otherChannels p => exact .of_advances (advances_next (e := .otherChannels p) trivial h)
  | shutdownInLoop => exact .of_advances (advances_next (e := .shutdownInLoop) trivial h)
  | setDisconnecting => exact .of_advances (advances_next (e := .setDisconnecting) trivial h)
  | connectDestroyed us =>
      exact .of_advances (advances_next (e := .connectDestroyed us) trivial h)

/-- What the connection callback calls may be the first events of a run. -/
theorem run_connectEstablished (c : TcpConnection) (us : List UserCall) :
    (connMachine fun _ => True).run (c.connectEstablished []) (us.map .user)
      = some (c.connectEstablished us) := by
  have hrun : ∀ d : TcpConnection,
      (connMachine fun _ => True).run d (us.map .user) = some (d.userCalls us) := by
    induction us with
    | nil => exact fun d => rfl
    | cons u us ih => exact fun d => Machine.run_cons_some.mpr ⟨d.userCall u, rfl, ih _⟩
  exact hrun _

/-- The calls of `sendInLoop` in a run, in order. -/
def runSends (c : TcpConnection) (es : List ConnEvent) : List SendCall :=
  (connMachine fun _ => True).gather sendCalls c es

theorem sending_of_run {es : List ConnEvent}
    (hrun : (connMachine fun _ => True).run c es = some c') (hopen : Open c') :
    Sending c (runSends c es) c' := by
  have hadvances : AdvancesBy (runSends c es) c c' := by
    induction es generalizing c with
    | nil =>
        obtain rfl := Option.some.inj hrun
        exact .of_advances (.refl c)
    | cons e es ih =>
        obtain ⟨u, hu, hrest⟩ := Machine.run_cons_some.mp hrun
        rw [runSends, Machine.gather_cons_of_next hu]
        exact (advancesBy_next hu).trans (ih hrest)
  exact hadvances.2 hopen

/-! ### The output stream -/

/-- Pieces that are no longer than others make up the same whole only if they are the
same. -/
theorem flatMap_eq_iff_of_length_le {α β : Type*} {f g : α → List β}
    (h : ∀ x, (f x).length ≤ (g x).length) (xs : List α) :
    xs.flatMap f = xs.flatMap g ↔ ∀ x ∈ xs, f x = g x := by
  refine ⟨fun heq => ?_, List.flatMap_congr⟩
  induction xs with
  | nil => exact List.forall_mem_nil _
  | cons x xs ih =>
      have hrest : (xs.flatMap f).length ≤ (xs.flatMap g).length := by
        rw [List.length_flatMap, List.length_flatMap]
        exact List.sum_le_sum fun y _ => h y
      rw [List.flatMap_cons, List.flatMap_cons] at heq
      have hlength := congrArg List.length heq
      rw [List.length_append, List.length_append] at hlength
      obtain ⟨hx, hxs⟩ := List.append_inj heq (by have := h x; omega)
      exact List.forall_mem_cons.mpr ⟨hx, ih hxs⟩

/-- **Output stream integrity.**  In every run of a connection, as long as it is open, the
bytes the kernel has accepted followed by the readable bytes of `outputBuffer_` are the
data of all calls of `sendInLoop`, in call order, exactly when no call with data gives it
up. -/
theorem output_stream_integrity_iff {es : List ConnEvent} (hfresh : Fresh c)
    (hrun : (connMachine fun _ => True).run c es = some c') (hopen : Open c') :
    written c'.trace ++ c'.outputBuffer_.readable = (runSends c es).flatMap SendCall.data ↔
      ∀ k ∈ runSends c es, k.GivesUp → k.data = [] := by
  have hstream := (sending_of_run hrun hopen).stream hfresh.established
  rw [hfresh.nothing_written, hfresh.output, List.nil_append, List.nil_append] at hstream
  rw [hstream, flatMap_eq_iff_of_length_le SendCall.length_kept_le]
  exact forall₂_congr fun k _ => SendCall.kept_eq_iff

/-- "abc" is taken in part, "d" goes behind it, and a writable event leaves one byte. -/
theorem output_stream_integrity_short_writes :
    ∃ c', (connMachine fun _ => True).run firstConnection shortWrites = some c' ∧
      written c'.trace = [97, 98, 99] ∧ c'.outputBuffer_.readable = [100] ∧
      ∀ k ∈ runSends firstConnection shortWrites, k.GivesUp → k.data = [] := by
  have hend : ((connMachine fun _ => True).run firstConnection shortWrites).any fun c' =>
      decide (Open c' ∧ written c'.trace = [97, 98, 99] ∧ c'.outputBuffer_.readable = [100]) := by
    decide +kernel
  obtain ⟨c', hrun, hc'⟩ := (Option.any_eq_true _ _).mp hend
  obtain ⟨hopen, hwritten, hrest⟩ := of_decide_eq_true hc'
  refine ⟨c', hrun, hwritten, hrest, ?_⟩
  apply (output_stream_integrity_iff (fresh_connectEstablished rfl) hrun hopen).mp
  rw [hwritten, hrest]
  decide +kernel

/-- A direct write fails for want of buffers, and the log line that tells so finds the
reader of the log gone. -/
def lostBlock : List ConnEvent :=
  [.sendInLoop [97] (.fail ENOBUFS EPIPE), .sendInLoop [98] (.accept 1)]

/-- The first byte is lost on an open connection. -/
theorem output_stream_loses_block :
    ∃ c', (connMachine fun _ => True).run firstConnection lostBlock = some c' ∧ Open c' ∧
      (runSends firstConnection lostBlock).map SendCall.data = [[97], [98]] ∧
      written c'.trace ++ c'.outputBuffer_.readable = [98] := by
  have hend : ((connMachine fun _ => True).run firstConnection lostBlock).any fun c' =>
      decide (Open c' ∧ (runSends firstConnection lostBlock).map SendCall.data = [[97], [98]] ∧
        written c'.trace ++ c'.outputBuffer_.readable = [98]) := by
    decide +kernel
  obtain ⟨c', hrun, hc'⟩ := (Option.any_eq_true _ _).mp hend
  exact ⟨c', hrun, of_decide_eq_true hc'⟩

end Mymuduo
