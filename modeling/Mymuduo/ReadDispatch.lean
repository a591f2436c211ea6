/-
Mymuduo/ReadDispatch.lean

`handleRead` and the value of `readFd`.

`handleRead` chooses between three actions by the value of
`inputBuffer_.readFd`.  `handleRead_dispatch` says which effects each choice
has, whatever that value is.  If it were what `::readv` returned, the choice
would be the right one (`dispatched_of_id`); but `readFd` ends without a
`return`, so the caller finds an indeterminate value, and there is no
connection and no result of `::readv` for which the dispatch can be relied on.
-/
import Mymuduo.ConnectionRun

namespace Mymuduo

open TcpConnection

variable {c c' : TcpConnection} {env : Env}

/-! ### What `handleRead` adds to the trace -/

/-- The value on which `handleRead` decides. -/
def readResult (c : TcpConnection) (env : Env) : Int :=
  env.indeterminate (readv env.readv c.inputBuffer_.iovRoom).ret

/-- The effects that `c'` has beyond those of `c`. -/
def added (c c' : TcpConnection) : List Effect := c'.trace.drop c.trace.length

theorem added_of_trace_eq {es : List Effect} (h : c'.trace = c.trace ++ es) :
    added c c' = es := by
  rw [added, h, List.drop_left]

/-- `handleClose` announces the end and reports the close. -/
theorem handleClose_trace (c : TcpConnection) (env : Env) :
    ∃ es, (c.handleClose env).trace
        = c.trace ++ (.handleClose :: .connectionCallback false :: es ++ [.closeCallback]) ∧
      ∀ e ∈ es, e.isSending = true := by
  unfold handleClose
  extract_lets c₁ c₂ c₃ c₄
  obtain ⟨es, htrace, hes⟩ := sends_userCalls (c₃.emit (.connectionCallback c₃.connected))
    env.onConnection
  refine ⟨es, ?_, hes⟩
  have hconn : c₃.connected = false := rfl
  rw [emit_trace, htrace, hconn]
  simp [c₃, c₂, c₁]

/-- What `handleRead` adds to the trace, by the value it decides on. -/
theorem handleRead_dispatch (c : TcpConnection) (env : Env) :
    (0 < readResult c env ∧ ∃ input es,
      (c.handleRead env).trace = c.trace ++ .messageCallback input :: es ∧
        ∀ e ∈ es, e.isSending = true) ∨
    (readResult c env = 0 ∧ ∃ es,
      (c.handleRead env).trace
        = c.trace ++ (.handleClose :: .connectionCallback false :: es ++ [.closeCallback]) ∧
        ∀ e ∈ es, e.isSending = true) ∨
    (readResult c env < 0 ∧ (c.handleRead env).trace
      = c.trace ++ [.logError .handleRead,
          .handleError (c.inputBuffer_.readFd env.readv 0).2.1]) := by
  unfold handleRead
  dsimp only
  rw [ValidBuffer.readFd_ret, Option.getD_none]
  split
  · rename_i hpos
    refine Or.inl ⟨hpos, (c.inputBuffer_.readFd env.readv 0).1.readable, ?_⟩
    obtain ⟨es, htrace, hes⟩ := sends_userCalls
      (emit { c with inputBuffer_ := (c.inputBuffer_.readFd env.readv 0).1 } _) env.onMessage
    refine ⟨es, htrace.trans ?_, hes⟩
    simp
  · rename_i hpos
    change ¬ 0 < readResult c env at hpos
    split
    · rename_i hzero
      exact Or.inr (Or.inl ⟨hzero, handleClose_trace _ env⟩)
    · rename_i hzero
      change readResult c env ≠ 0 at hzero
      exact Or.inr (Or.inr ⟨by omega, by simp [handleError]⟩)

/-! ### Right dispatch -/

/-- The three actions of `handleRead` go with the three results of `::readv`. -/
structure Dispatched (c : TcpConnection) (env : Env) : Prop where
  message : (∃ input, .messageCallback input ∈ added c (c.handleRead env)) ↔
    (c.inputBuffer_.readFd env.readv 0).1.readable ≠ c.inputBuffer_.readable
  close : .handleClose ∈ added c (c.handleRead env) ↔
    (readv env.readv c.inputBuffer_.iovRoom).ret = 0
  error : ∀ errno, .handleError errno ∈ added c (c.handleRead env) ↔
    (readv env.readv c.inputBuffer_.iovRoom).ret < 0 ∧
      errno = (readv env.readv c.inputBuffer_.iovRoom).errno

theorem not_mem_of_isSending {es : List Effect} {e : Effect}
    (hes : ∀ e ∈ es, e.isSending = true) (he : e.isSending = false) : e ∉ es :=
  fun hmem => by simpa [he] using hes e hmem

/-- With the value that `::readv` returned, `handleRead` does the right thing in
every case. -/
theorem dispatched_of_id (c : TcpConnection) (env : Env) (h : env.indeterminate = id) :
    Dispatched c env := by
  have hresult : readResult c env = (readv env.readv c.inputBuffer_.iovRoom).ret := by
    rw [readResult, h, id_eq]
  have hread := c.inputBuffer_.readFd_readable env.readv 0
  have herrno := c.inputBuffer_.readFd_saveErrno env.readv 0
  have hcases := readv_cases env.readv c.inputBuffer_.iovRoom
  rcases handleRead_dispatch c env with
    ⟨hn, input, es, htrace, hes⟩ | ⟨hn, es, htrace, hes⟩ | ⟨hn, htrace⟩
  all_goals rw [hresult] at hn; have hadded := added_of_trace_eq htrace
  · -- bytes
    have hbytes : (readv env.readv c.inputBuffer_.iovRoom).bytes ≠ [] := by
      rcases hcases with ⟨hneg, -⟩ | hret
      · omega
      · exact List.length_pos_iff.mp (by omega)
    refine ⟨?_, ?_, fun errno => ?_⟩
    · rw [hadded, hread]
      simp [hbytes]
    · rw [hadded]
      simp [not_mem_of_isSending hes (e := .handleClose) rfl]
      omega
    · rw [hadded]
      simp [not_mem_of_isSending hes (e := .handleError errno) rfl]
      omega
  · -- the end of the stream
    have hbytes : (readv env.readv c.inputBuffer_.iovRoom).bytes = [] := by
      rcases hcases with ⟨hneg, -⟩ | hret
      · omega
      · exact List.eq_nil_of_length_eq_zero (by omega)
    refine ⟨?_, ?_, fun errno => ?_⟩
    · rw [hadded, hread, hbytes]
      simp only [List.cons_append, List.mem_cons, List.mem_append, reduceCtorEq, false_or, or_false,
        List.not_mem_nil, ne_eq, List.append_nil, not_true_eq_false, iff_false, not_exists]
      exact fun input => not_mem_of_isSending hes rfl
    · rw [hadded]
      simp [hn]
    · rw [hadded]
      simp [not_mem_of_isSending hes (e := .handleError errno) rfl, hn]
  · -- a failure
    have hbytes : (readv env.readv c.inputBuffer_.iovRoom).bytes = [] := by
      rcases hcases with ⟨-, hnil⟩ | hret
      · exact hnil
      · omega
    refine ⟨?_, ?_, fun errno => ?_⟩
    · rw [hadded, hread, hbytes]
      simp
    · rw [hadded]
      simp
      omega
    · rw [hadded, herrno, if_pos hn]
      simp [hn]

/-! ### The dispatch as it is -/

/-- The value that `readFd` yields is the one `::readv` returned. -/
def ReadReturned (c : TcpConnection) (r : ReadvResult) : Prop :=
  (c.inputBuffer_.readFd r 0).2.2 = some (readv r c.inputBuffer_.iovRoom).ret

/-- Whatever the caller finds as the value of `readFd`, it does the right
thing. -/
def ReadDispatched (c : TcpConnection) (r : ReadvResult) : Prop :=
  ∀ env : Env, env.readv = r → Dispatched c env

/-- An event that reads `r` and finds `n` as the value of `readFd`. -/
def foundEnv (r : ReadvResult) (n : Int) : Env where
  readv := r
  indeterminate := fun _ => n
  write := .accept 0
  onConnection := []
  onMessage := []

/-- **The read dispatch is never right.**  Whatever the connection and the result
of `::readv`, `readFd` yields no value, and there is a value to find on which
`handleRead` takes a wrong action. -/
theorem read_dispatch_never (c : TcpConnection) (r : ReadvResult) :
    ¬ ReadReturned c r ∧ ¬ ReadDispatched c r := by
  refine ⟨by simp [ReadReturned], fun h => ?_⟩
  by_cases hret : (readv r c.inputBuffer_.iovRoom).ret = 0
  · -- the stream is at its end, and the caller finds a positive number
    have hclose := (h (foundEnv r 1) rfl).close.mpr hret
    rcases handleRead_dispatch c (foundEnv r 1) with
      ⟨-, input, es, htrace, hes⟩ | ⟨hn, -⟩ | ⟨hn, -⟩
    · rw [added_of_trace_eq htrace] at hclose
      simp [not_mem_of_isSending hes (e := .handleClose) rfl] at hclose
    · simp [readResult, foundEnv] at hn
    · simp [readResult, foundEnv] at hn
  · -- bytes or a failure, and the caller finds zero
    refine hret ((h (foundEnv r 0) rfl).close.mp ?_)
    rcases handleRead_dispatch c (foundEnv r 0) with ⟨hn, -⟩ | ⟨-, es, htrace, -⟩ | ⟨hn, -⟩
    · simp [readResult, foundEnv] at hn
    · rw [added_of_trace_eq htrace]
      simp
    · simp [readResult, foundEnv] at hn

/-- A byte arrives at a new connection: nothing is returned, and a caller that
finds zero closes the connection. -/
theorem read_dispatch_closes_live_connection :
    ¬ ReadReturned firstConnection (.deliver [65]) ∧
      .handleClose ∈ added firstConnection
        (firstConnection.handleRead (foundEnv (.deliver [65]) 0)) ∧
      ¬ ReadDispatched firstConnection (.deliver [65]) := by
  have hclose : .handleClose ∈ added firstConnection
      (firstConnection.handleRead (foundEnv (.deliver [65]) 0)) := by decide +kernel
  refine ⟨by simp [ReadReturned], hclose, fun h => ?_⟩
  have hzero := (h _ rfl).close.mp hclose
  revert hzero
  decide +kernel

end Mymuduo
