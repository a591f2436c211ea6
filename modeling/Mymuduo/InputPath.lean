/-
Mymuduo/InputPath.lean

The input of every connection of a server, over whole runs.

The bytes that `::readv` stores go through `inputBuffer_` to the user, who takes them
out in his callbacks.  Two threads are never at one input buffer (Confinement.lean);
here it is a queue from the socket to the user, in every run and for every number of
connections: `server_input_integrity`.  Nothing is asked of the users, the kernel or
the order of the steps.

What `handleRead` shows the user is also settled here: all that has been received and
not taken out, and that in the step that received it, unless the missing `return` of
`readFd` spoils the branch.
-/
import Mymuduo.ConnectionStep
import Mymuduo.Ledger

namespace Mymuduo

open Transition

/-! ### Member functions -/

namespace TcpConnection

theorem added_filled (c : TcpConnection) (env : Env) (e : Effect) :
    added c ((c.filled env).emit e) = [e] :=
  added_of_trace_eq rfl

theorem handleRead_input (c : TcpConnection) (env : Env) :
    (c.handleRead env.withoutUser).inputBuffer_ = (c.filled env).inputBuffer_ := by
  rcases handleRead_withoutUser c env with ⟨-, heq⟩ | ⟨-, heq⟩ | ⟨-, heq⟩ <;> rw [heq] <;> rfl

theorem tryWrite_input (c : TcpConnection) (data : List Byte) (w : WriteResult) :
    (c.tryWrite data w).conn.inputBuffer_ = c.inputBuffer_ := by
  unfold tryWrite
  split
  · dsimp only
    split
    · dsimp only
      split <;> rfl
    · split <;> rfl
  · rfl

theorem queueRest_input (a : Attempt) (data : List Byte) :
    (queueRest a data).inputBuffer_ = a.conn.inputBuffer_ := by
  unfold queueRest
  dsimp only
  split
  · split <;> split <;> rfl
  · rfl

theorem sendInLoop_input (c : TcpConnection) (data : List Byte) (w : WriteResult) :
    (c.sendInLoop data w).inputBuffer_ = c.inputBuffer_ := by
  unfold sendInLoop
  dsimp only
  split
  · rfl
  · rw [queueRest_input, tryWrite_input]
    rfl

theorem shutdownInLoop_input (c : TcpConnection) :
    c.shutdownInLoop.inputBuffer_ = c.inputBuffer_ := by
  unfold shutdownInLoop
  split <;> rfl

theorem writeOut_input (c : TcpConnection) (w : WriteResult) :
    (c.writeOut w).1.inputBuffer_ = c.inputBuffer_ := by
  unfold writeOut
  split
  · dsimp only
    split
    · split
      · dsimp only
        split <;> rfl
      · rfl
    · rfl
  · rfl

end TcpConnection

/-- What `::readv` stores when the member function runs on `c`. -/
def Member.input (env : TaskEnv) (c : TcpConnection) : Member → List Byte
  | .handleRead => (readv env.readv c.inputBuffer_.iovRoom).bytes
  | _ => []

theorem Member.run_input (m : Member) (env : TaskEnv) (c : TcpConnection) :
    (m.run env c).inputBuffer_.readable = c.inputBuffer_.readable ++ m.input env c := by
  have hkeep : ∀ {b : ValidBuffer}, b = c.inputBuffer_ →
      b.readable = c.inputBuffer_.readable ++ [] := by
    rintro b rfl
    exact (List.append_nil _).symm
  cases m with
  | connectEstablished => exact hkeep rfl
  | markDestroyed => exact hkeep rfl
  | removeChannel => exact hkeep rfl
  | sendInLoop len => exact hkeep (c.sendInLoop_input _ _)
  | shutdownInLoop => exact hkeep c.shutdownInLoop_input
  | handleClose => exact hkeep rfl
  | handleError => exact hkeep rfl
  | handleRead =>
      show (c.handleRead env.toEnv.withoutUser).inputBuffer_.readable = _
      rw [TcpConnection.handleRead_input]
      exact c.inputBuffer_.readFd_readable env.readv 0
  | handleWrite => exact hkeep (c.writeOut_input env.write)
  | finishWrite =>
      refine hkeep ?_
      show c.finishWrite.inputBuffer_ = _
      unfold TcpConnection.finishWrite
      split
      · exact c.shutdownInLoop_input
      · rfl

/-- Sending shows the user nothing. -/
theorem TcpConnection.Sends.shows_nothing {c c' : TcpConnection} (h : c.Sends c')
    (input : List Byte) : .messageCallback input ∉ added c c' := by
  obtain ⟨es, htrace, hes⟩ := h
  rw [added_of_trace_eq htrace]
  exact fun hmem => nomatch hes _ hmem

/-- The message callback is called only by a `handleRead`, and is given all that is then
in the input buffer. -/
theorem Member.shows_unread {m : Member} {env : TaskEnv} {c : TcpConnection} {input : List Byte}
    (h : .messageCallback input ∈ added c (m.run env c)) :
    input = c.inputBuffer_.readable ++ m.input env c := by
  have hnot : ∀ {l : List Effect}, (m.run env c).trace = c.trace ++ l →
      (∀ data, .messageCallback data ∉ l) → False := by
    intro l ht hl
    rw [added_of_trace_eq ht] at h
    exact hl input h
  cases m with
  | connectEstablished => exact (hnot (l := [.connectionCallback true]) rfl (by simp)).elim
  | markDestroyed => exact (hnot (l := [.connectionCallback false]) rfl (by simp)).elim
  | removeChannel => exact (hnot (l := [.connectDestroyed]) rfl (by simp)).elim
  | sendInLoop len => exact absurd h ((TcpConnection.sends_sendInLoop c _ _).shows_nothing input)
  | shutdownInLoop => exact absurd h ((TcpConnection.sends_shutdownInLoop c).shows_nothing input)
  | handleClose => exact (hnot (c.handleClose_withoutUser env.toEnv) (by simp)).elim
  | handleError => exact (hnot (l := [.handleError 0]) rfl (by simp)).elim
  | handleRead =>
      have hrun : Member.run env .handleRead c = c.handleRead env.toEnv.withoutUser := rfl
      rw [hrun] at h hnot
      rcases TcpConnection.handleRead_withoutUser c env.toEnv with ⟨-, heq⟩ | ⟨-, heq⟩ | ⟨-, heq⟩
      · rw [heq, TcpConnection.added_filled] at h
        obtain rfl := Effect.messageCallback.inj (List.mem_singleton.mp h)
        exact c.inputBuffer_.readFd_readable env.readv 0
      · exact (hnot (by rw [heq]; exact (c.filled _).handleClose_withoutUser _) (by simp)).elim
      · exact (hnot (by rw [heq]; exact (c.filled _).readError_trace _) (by simp)).elim
  | handleWrite => exact absurd h ((TcpConnection.sends_writeOut c env.write).shows_nothing input)
  | finishWrite => exact absurd h (c.sends_finishWrite.shows_nothing input)

/-- If `handleRead` finds the result of `::readv` in the place of the one that `readFd`
does not return, then nothing is received behind the user's back. -/
theorem Member.shows_input {m : Member} {env : TaskEnv} {c : TcpConnection}
    (hid : env.indeterminate = id) (h : m.input env c ≠ []) :
    ∃ input, .messageCallback input ∈ added c (m.run env c) := by
  cases m with
  | handleRead =>
      have hbytes : (readv env.readv c.inputBuffer_.iovRoom).bytes ≠ [] := h
      have hresult : readResult c env.toEnv = (readv env.readv c.inputBuffer_.iovRoom).ret := by
        rw [readResult, hid, id_eq]
      have hpos : 0 < readResult c env.toEnv := by
        rw [hresult]
        rcases readv_cases env.readv c.inputBuffer_.iovRoom with ⟨-, hnil⟩ | hret
        · exact absurd hnil hbytes
        · rw [hret]
          exact Int.natCast_pos.mpr (List.length_pos_iff.mpr hbytes)
      refine ⟨(c.filled env.toEnv).inputBuffer_.readable, ?_⟩
      show _ ∈ added c (c.handleRead env.toEnv.withoutUser)
      rcases TcpConnection.handleRead_withoutUser c env.toEnv with ⟨-, heq⟩ | ⟨hz, -⟩ | ⟨hz, -⟩
      · rw [heq, TcpConnection.added_filled]
        exact List.mem_singleton_self _
      · omega
      · omega
  | _ => exact absurd rfl h

namespace ServerSystem

variable {ι α : Type*} [DecidableEq ι] [DecidableEq α]

/-! ### Bytes in and out -/

/-- What `::readv` stores for connection `c` in a step. -/
def received (c : Nat) (s : ServerSystem ι α) : ServerEvent ι α → List Byte
  | .task l env =>
      match s.todo l with
      | .call m d :: _ => if d = c then m.input env (s.tcp c) else []
      | _ => []
  | _ => []

/-- What user code takes out of the input buffer of connection `c` in a step. -/
def retrieved (c : Nat) (s : ServerSystem ι α) : ServerEvent ι α → List Byte
  | .retrieve _ d len => if d = c then (s.tcp c).inputBuffer_.readable.take len else []
  | _ => []

/-- What is left for the user; nothing, if there is no connection `c` yet. -/
def unread (c : Nat) (s : ServerSystem ι α) : List Byte :=
  if c < s.count then (s.tcp c).inputBuffer_.readable else []

variable {s t : ServerSystem ι α} {e : ServerEvent ι α} {c : Nat}

omit [DecidableEq ι] [DecidableEq α] in
/-- Nothing goes in or out of the buffer of a connection that is still to come. -/
theorem Homed.received_of_le (hs : s.Homed) (hc : s.count ≤ c) : s.received c e = [] := by
  cases e with
  | task l env =>
      unfold received
      dsimp only
      split
      · rename_i m d rest htodo
        have hd : d < s.count := (hs.task l (.call m d) (by simp [htodo])).1
        exact if_neg (by omega)
      · rfl
  | _ => rfl

theorem Homed.retrieved_of_le (hs : s.Homed) (hm : s.Moves e t) (hc : s.count ≤ c) :
    s.retrieved c e = [] := by
  cases hm with
  | retrieve l d len hidle hguard =>
      have hd : d < s.count := (hs.task l (.guard d) hguard).1
      exact if_neg (by omega)
  | _ => rfl

/-- The buffer of a new connection is empty. -/
theorem unread_of_le (hm : s.Moves e t) (hc : s.count ≤ c) : t.unread c = [] := by
  unfold unread
  split
  · rename_i hct
    rcases count_of_moves hm hct with hlt | ⟨rfl, sockfd, wc, hw, mark, -, rfl⟩
    · omega
    · obtain ⟨p, htcp⟩ := accept_tcp s sockfd wc hw mark
      rw [tcp, htcp]
      exact ValidBuffer.readable_new _
  · rfl

omit [DecidableEq ι] [DecidableEq α] in
theorem received_of_not_concerns (h : ¬ s.Concerns c e) : s.received c e = [] := by
  cases e with
  | task l env =>
      unfold received
      dsimp only
      split
      · rename_i m d rest htodo
        refine if_neg ?_
        rintro rfl
        exact h ⟨m, by rw [htodo, List.head?_cons]⟩
      · rfl
  | _ => rfl

omit [DecidableEq ι] [DecidableEq α] in
theorem retrieved_of_not_concerns (h : ¬ s.Concerns c e) : s.retrieved c e = [] := by
  cases e with
  | retrieve l d len => exact if_neg h
  | _ => rfl

/-- **A step keeps the balance of every input buffer.** -/
theorem unread_step (hs : s.Homed) (hm : s.Moves e t) (c : Nat) :
    s.unread c ++ s.received c e = s.retrieved c e ++ t.unread c := by
  rcases Nat.lt_or_ge c s.count with hc | hc
  swap
  · rw [hs.received_of_le hc, hs.retrieved_of_le hm hc, unread_of_le hm hc, unread,
      if_neg (Nat.not_lt.mpr hc)]
  rw [unread, unread, if_pos hc, if_pos (hc.trans_le (settled_of_moves hm).count)]
  have htouches := touches_of_moves hm hc
  generalize t.tcp c = x at htouches
  cases htouches with
  | aside _ p hnot =>
      rw [received_of_not_concerns hnot, retrieved_of_not_concerns hnot]
      exact List.append_nil _
  | member l env m rest htodo =>
      simp only [received, retrieved, htodo, if_true, List.nil_append]
      exact (m.run_input env (s.tcp c)).symm
  | sent th w data hcall =>
      rw [TcpConnection.sendInLoop_input]
      exact List.append_nil _
  | shut th w hcall =>
      rw [TcpConnection.shutdownInLoop_input]
      exact List.append_nil _
  | retrieved l len hguard =>
      show _ ++ [] = (if c = c then _ else []) ++ ((s.tcp c).inputBuffer_.retrieve len).readable
      rw [if_pos rfl, ValidBuffer.readable_retrieve, List.take_append_drop, List.append_nil]
  | _ => exact List.append_nil _

/-! ### Whole runs -/

/-- A step that calls the message callback of a connection shows the user what he has
not taken out, with what the step has received. -/
theorem shown_of_moves (hm : s.Moves e t) (hc : c < s.count) {input : List Byte}
    (h : .messageCallback input ∈ added (s.tcp c) (t.tcp c)) :
    input = s.unread c ++ s.received c e := by
  have htouches := touches_of_moves hm hc
  have hnone : ∀ {x : TcpConnection}, x.trace = (s.tcp c).trace →
      .messageCallback input ∉ added (s.tcp c) x := by
    intro x ht
    rw [added_of_trace_eq (ht.trans (List.append_nil _).symm)]
    exact List.not_mem_nil
  generalize t.tcp c = x at h htouches
  cases htouches with
  | member l env m rest htodo =>
      rw [unread, if_pos hc]
      simp only [received, htodo, if_true]
      exact Member.shows_unread h
  | sent th w data hcall =>
      exact absurd h ((TcpConnection.sends_sendInLoop _ data w).shows_nothing input)
  | shut th w hcall =>
      exact absurd h ((TcpConnection.sends_shutdownInLoop _).shows_nothing input)
  | _ => exact absurd h (hnone rfl)

/-- What a step receives, its message callback is called with. -/
theorem shows_of_received (hm : s.Moves e t) (hc : c < s.count)
    (hid : ∀ l env, e = .task l env → env.indeterminate = id) (h : s.received c e ≠ []) :
    ∃ input, .messageCallback input ∈ added (s.tcp c) (t.tcp c) := by
  have htouches := touches_of_moves hm hc
  generalize t.tcp c = x at htouches
  cases htouches with
  | aside _ p hnot => exact absurd (received_of_not_concerns hnot) h
  | member l env m rest htodo =>
      simp only [received, htodo, if_true] at h
      exact Member.shows_input (hid l env rfl) h
  | _ => exact absurd rfl h

/-- **The input of every connection of a server.**  In every run, for every connection:
what user code has taken out of the input buffer, followed by what is left in it, is
what `::readv` has stored, in order.  Every call of the message callback is shown all
that has been received and not taken out at that time; and a step that receives bytes
makes such a call, if `handleRead` finds the result of `::readv`. -/
theorem server_input_integrity {es : List (ServerEvent ι α)} (hinit : (serverMachine ι α).init s)
    (hrun : (serverMachine ι α).run s es = some t) (c : Nat) (hc : c < t.count) :
    (serverMachine ι α).gather (retrieved c) s es ++ (t.tcp c).inputBuffer_.readable
        = (serverMachine ι α).gather (received c) s es ∧
      ∀ e u, (serverMachine ι α).next t e = some u →
        (∀ input, .messageCallback input ∈ added (t.tcp c) (u.tcp c) →
          (serverMachine ι α).gather (retrieved c) s es ++ input
            = (serverMachine ι α).gather (received c) s (es ++ [e])) ∧
        ((∀ l env, e = .task l env → env.indeterminate = id) → t.received c e ≠ [] →
          ∃ input, .messageCallback input ∈ added (t.tcp c) (u.tcp c)) := by
  have hbalance := Machine.conserved' (I := Homed)
    (fun s e t hs ht => hs.step (moves_of_next ht))
    (fun s e t hs ht => unread_step hs (moves_of_next ht) c) hrun (homed_of_init hinit)
  have hstart : s.unread c = [] := by
    obtain ⟨-, -, hcount, -⟩ := hinit
    exact if_neg (by omega)
  rw [hstart, List.nil_append] at hbalance
  refine ⟨?_, fun e u hu => ⟨fun input hinput => ?_, ?_⟩⟩
  · rw [hbalance, unread, if_pos hc]
  · rw [Machine.gather_concat hrun hu, hbalance, List.append_assoc,
      ← shown_of_moves (moves_of_next hu) hc hinput]
  · exact shows_of_received (moves_of_next hu) hc

/-- A connection is accepted and established; three bytes arrive, and user code takes
out two of them. -/
def listens : List (ServerEvent Bool Unit) :=
  List.flatten
    [ServerEvent.turns false [.enterLoop, .testQuit, .poll false], [.accept 7 false false 0],
      ServerEvent.turns true [.enterLoop, .testQuit, .poll true, .handleRead, .handlersDone,
        .swapFunctors, .startFunctor],
      [.task true quietTask],
      ServerEvent.turns true [.functorDone, .batchDone, .testQuit],
      [.loop true (.poll false) [(7, EPOLLIN)], .dispatch true,
        .task true { quietTask with readv := .deliver [1, 2, 3] }, .retrieve true 0 2]]

/-- The third byte is left. -/
theorem server_input_integrity_listens : ∃ t, (serverMachine Bool Unit).run
      (start ['s'] ⟨(127, 0, 0, 1), 80⟩ (.started false [true])) listens = some t ∧
    [1, 2] ++ (t.tcp 0).inputBuffer_.readable = [1, 2, 3] := by
  have hend : ((serverMachine Bool Unit).run
      (start ['s'] ⟨(127, 0, 0, 1), 80⟩ (.started false [true])) listens).any fun t =>
        decide (0 < t.count) := by
    decide +kernel
  obtain ⟨t, hrun, hcount⟩ := (Option.any_eq_true _ _).mp hend
  have hbalance := (server_input_integrity (init_start ..) hrun 0 (of_decide_eq_true hcount)).1
  refine ⟨t, hrun, ?_⟩
  rwa [show (serverMachine Bool Unit).gather (retrieved 0) _ listens = [1, 2] by decide +kernel,
    show (serverMachine Bool Unit).gather (received 0) _ listens = [1, 2, 3] by decide +kernel]
    at hbalance

end ServerSystem

end Mymuduo
