/-
Mymuduo/Delivery.lean

The callbacks of a connection reach the user.

A connection hands its write-complete and high-water-mark callbacks to
`loop_->queueInLoop`, among the functors of all the other connections of the loop and
of the application.  In every run, each is run once, on the loop of the connection,
in the order in which the connection handed them over (`callbacks_delivered`): what
has been run and what is waiting make up what was handed over, and no other loop has
any of them.
-/
import Mymuduo.FunctorQueue
import Mymuduo.Hosted
import Mymuduo.WriteComplete

namespace Mymuduo

open Transition

/-! ### Logs of a loop -/

namespace EventLoop

variable {F Tid : Type*}

/-- Everything ever queued, in order. -/
def log (l : EventLoop F Tid) : List F := l.history.map Queued.functor

/-- The functors that have been run, in order. -/
def ran (l : EventLoop F Tid) : List F := l.executed.map fun p => p.1.functor

theorem log_eq {l : EventLoop F Tid} (h : QueueOrder l) : l.log = l.ran ++ l.rest ++ l.pending := by
  rw [log, h.order, List.map_append, List.map_append, List.map_map]
  rfl

variable [DecidableEq Tid]

@[simp] theorem post_log (l : EventLoop F Tid) (t : Tid) (f : F) :
    (l.post t f).log = l.log ++ [f] := by
  unfold post
  dsimp only
  split <;> simp [log, wakeup, entry]

theorem posts_log (l : EventLoop F Tid) (t : Tid) (fs : List F) :
    (l.posts t fs).log = l.log ++ fs := by
  induction fs generalizing l with
  | nil => exact (List.append_nil _).symm
  | cons f fs ih => rw [posts_cons, ih, post_log, List.append_assoc, List.singleton_append]

/-- A complete call keeps the order of the queue. -/
theorem queueOrder_post {l : EventLoop F Tid} (h : QueueOrder l) (t : Tid) (f : F) :
    QueueOrder (l.post t f) := by
  refine (h.push t f).congr ?_ ?_ ?_ ?_ ?_ <;> rw [queueInLoop_eq] <;> unfold post <;> dsimp only <;>
    split <;> rfl

theorem queueOrder_posts {l : EventLoop F Tid} (h : QueueOrder l) (t : Tid) (fs : List F) :
    QueueOrder (l.posts t fs) := by
  induction fs generalizing l with
  | nil => exact h
  | cons f fs ih => exact ih (queueOrder_post h t f)

/-- A step of the loop itself queues nothing. -/
theorem log_of_loop {l l' : EventLoop F Tid} {e : LoopStep} (h : Step l (.loop e) l') :
    l'.log = l.log := by
  cases h <;> rfl

end EventLoop

/-! ### Callbacks in the logs -/

/-- The callback of connection `c` that the functor is. -/
def ServerFunctor.callbackOf (c : Nat) : ServerFunctor → Option QueuedCallback
  | .callback d cb => if d = c then some cb else none
  | _ => none

theorem queuedCallbacks_append (es fs : List Effect) :
    queuedCallbacks (es ++ fs) = queuedCallbacks es ++ queuedCallbacks fs :=
  List.filterMap_append

/-- The callbacks that a function hands over, in the trace. -/
theorem queuedCallbacks_grows {c c' : TcpConnection} (h : c.trace <+: c'.trace) :
    queuedCallbacks c'.trace = queuedCallbacks c.trace ++ queuedCallbacks (added c c') := by
  obtain ⟨es, htrace⟩ := h
  rw [added_of_trace_eq htrace.symm, ← htrace, queuedCallbacks_append]

theorem filterMap_callbackOf (c d : Nat) (cbs : List QueuedCallback) :
    (cbs.map (ServerFunctor.callback d)).filterMap (ServerFunctor.callbackOf c)
      = if d = c then cbs else [] := by
  rw [List.filterMap_map]
  split
  · rename_i h
    simp [ServerFunctor.callbackOf, h]
  · rename_i h
    simp [Function.comp_def, ServerFunctor.callbackOf, h]

namespace ServerSystem

variable {ι α : Type*}

/-- The callbacks of connection `c` in the log of loop `l`. -/
def logged (s : ServerSystem ι α) (l : ι) (c : Nat) : List QueuedCallback :=
  (s.loops l).log.filterMap (ServerFunctor.callbackOf c)

/-- The callbacks that the loop has got from connection `c`. -/
def handed [DecidableEq ι] (s : ServerSystem ι α) (l : ι) (c : Nat) : List QueuedCallback :=
  if c < s.count ∧ (s.conn c).home = l then queuedCallbacks (s.conn c).tcp.trace else []

/-- The loops are in order, and their logs have the callbacks of their own connections. -/
structure Logged [DecidableEq ι] (s : ServerSystem ι α) : Prop where
  order : ∀ l, QueueOrder (s.loops l)
  callbacks : ∀ l c, s.logged l c = s.handed l c

variable [DecidableEq ι] {s t : ServerSystem ι α} {e : ServerEvent ι α}

/-- What a loop gets that is no callback does not matter. -/
theorem Logged.quiet (h : s.Logged) (hcount : t.count = s.count) (hconn : t.conn = s.conn)
    (horder : ∀ l, QueueOrder (t.loops l)) (hlog : ∀ l c, t.logged l c = s.logged l c) :
    t.Logged := by
  refine ⟨horder, fun l c => ?_⟩
  rw [hlog, handed, hcount, hconn]
  exact h.callbacks l c

theorem Logged.same (h : s.Logged) (hcount : t.count = s.count) (hconn : t.conn = s.conn)
    (hloops : t.loops = s.loops) : t.Logged := by
  refine h.quiet hcount hconn (fun l => ?_) fun l c => ?_
  · rw [hloops]
    exact h.order l
  · rw [logged, logged, hloops]

theorem Logged.setLoop (h : s.Logged) {l : ι} {x : EventLoop ServerFunctor (Thread ι α)}
    (horder : QueueOrder x) (hlog : ∀ c, x.log.filterMap (ServerFunctor.callbackOf c) = s.logged l c) :
    (s.setLoop l x).Logged := by
  refine h.quiet rfl rfl (fun l' => ?_) fun l' c => ?_
  · show QueueOrder (Function.update s.loops l x l')
    by_cases hl : l' = l
    · subst hl
      rwa [Function.update_self]
    · rw [Function.update_of_ne hl]
      exact h.order l'
  · show (Function.update s.loops l x l').log.filterMap _ = _
    by_cases hl : l' = l
    · subst hl
      rw [Function.update_self]
      exact hlog c
    · rw [Function.update_of_ne hl]
      rfl

/-- A new connection has handed over nothing. -/
theorem Logged.construct (h : s.Logged) (sockfd : Int) (wc hw : Bool) (mark : Nat) :
    (s.construct sockfd wc hw mark).Logged := by
  refine ⟨h.order, fun l c => (h.callbacks l c).trans ?_⟩
  by_cases hc : c = s.count
  · subst hc
    have hnew : ((s.construct sockfd wc hw mark).conn s.count).tcp.trace = [] := by
      show ((Function.update s.conn s.count _) s.count).tcp.trace = []
      rw [Function.update_self]
      rfl
    rw [handed, handed, hnew, if_neg fun hlt => Nat.lt_irrefl _ hlt.1]
    exact (ite_self _).symm
  · have hold : (s.construct sockfd wc hw mark).conn c = s.conn c := Function.update_of_ne hc _ _
    have hlt : c < (s.construct sockfd wc hw mark).count ↔ c < s.count :=
      ⟨fun hlt => Nat.lt_of_le_of_ne (Nat.le_of_lt_succ hlt) hc, Nat.lt_succ_of_lt⟩
    rw [handed, handed, hold, if_congr (and_congr_left' hlt) rfl rfl]

theorem Logged.setState (h : s.Logged) (d : Nat) (x : StateE) :
    (s.setTcp d ((s.conn d).tcp.setState x)).Logged := by
  refine ⟨h.order, fun l c => (h.callbacks l c).trans ?_⟩
  have htrace : ((s.setTcp d ((s.conn d).tcp.setState x)).conn c).tcp.trace
      = (s.conn c).tcp.trace := by
    by_cases hc : c = d
    · subst hc
      rw [setTcp_tcp]
      rfl
    · rw [setTcp_conn_ne s hc]
  rw [handed, handed, htrace, setTcp_home]
  rfl

variable [DecidableEq α]

theorem Logged.post (h : s.Logged) (l : ι) (th : Thread ι α) {f : ServerFunctor}
    (hf : ∀ c, f.callbackOf c = none) : (s.post l th f).Logged := by
  refine h.setLoop (EventLoop.queueOrder_post (h.order l) th f) fun c => ?_
  rw [EventLoop.post_log, List.filterMap_append, List.filterMap_cons_none (hf c)]
  exact List.append_nil _

theorem Logged.runInLoop (h : s.Logged) (l : ι) (th : Thread ι α) {f : ServerFunctor}
    (hf : ∀ c, f.callbackOf c = none) : (s.runInLoop l th f).Logged := by
  unfold ServerSystem.runInLoop
  split
  · exact h.same rfl rfl rfl
  · exact h.post l th hf

/-- A function that runs on a connection hands its callbacks to its loop. -/
theorem Logged.runConn (h : s.Logged) (th : Thread ι α) {d : Nat} (hd : d < s.count)
    {f : TcpConnection → TcpConnection} (hf : (s.tcp d).trace <+: (f (s.tcp d)).trace) :
    (s.runConn th d f).Logged := by
  refine ⟨fun l => ?_, fun l c => ?_⟩
  · show QueueOrder (Function.update s.loops _ _ l)
    by_cases hl : l = (s.conn d).home
    · subst hl
      rw [Function.update_self]
      exact EventLoop.queueOrder_posts (h.order _) th _
    · rw [Function.update_of_ne hl]
      exact h.order l
  · have hlog : (s.runConn th d f).logged l c = s.logged l c ++
        if l = (s.conn d).home ∧ d = c then queuedCallbacks (added (s.tcp d) (f (s.tcp d)))
        else [] := by
      show (Function.update s.loops _ _ l).log.filterMap _ = _
      by_cases hl : l = (s.conn d).home
      · subst hl
        rw [Function.update_self, EventLoop.posts_log, List.filterMap_append, filterMap_callbackOf,
          logged]
        simp only [true_and]
      · rw [Function.update_of_ne hl, if_neg fun hc => hl hc.1, List.append_nil]
        rfl
    rw [hlog, h.callbacks]
    by_cases hcd : c = d
    · subst hcd
      rw [handed, handed, runConn_home, runConn_conn_tcp, queuedCallbacks_grows hf]
      by_cases hl : l = (s.conn c).home
      · subst hl
        have hd' : c < (s.runConn th c f).count := hd
        rw [if_pos ⟨hd, rfl⟩, if_pos ⟨rfl, rfl⟩, if_pos ⟨hd', rfl⟩]
        rfl
      · rw [if_neg (fun hc => hl hc.2.symm), if_neg (fun hc => hl hc.1),
          if_neg (fun hc => hl hc.2.symm)]
        rfl
    · rw [if_neg (fun hc => hcd hc.2.symm), List.append_nil, handed, handed,
        runConn_conn_ne _ _ _ _ hcd]
      rfl

/-- A call that queues nothing of the server queues no callback. -/
theorem log_of_foreign {x x' : EventLoop ServerFunctor (Thread ι α)} {th : Thread ι α}
    {k : Call ServerFunctor} (hk : k.isForeign = true) (h : EventLoop.Step x (.call th k) x')
    (c : Nat) : x'.log.filterMap (ServerFunctor.callbackOf c)
      = x.log.filterMap (ServerFunctor.callbackOf c) := by
  cases h with
  | push t f k hc huser hidle =>
      have hf : f = .other := by
        rcases hc with rfl | ⟨rfl, -⟩
        · cases f <;> first | rfl | cases hk
        · cases hk
      subst hf
      rw [EventLoop.queueInLoop_eq]
      simp [EventLoop.log, EventLoop.entry, ServerFunctor.callbackOf]
  | _ => rfl

theorem Logged.task (h : s.Logged) (hs : s.Homed) {l : ι} {env : TaskEnv} {k : Task}
    {rest : List Task} (htodo : s.todo l = k :: rest) :
    ((s.setTodo l rest).runTask l env k).Logged := by
  have hrest : (s.setTodo l rest).Logged := h.same rfl rfl rfl
  cases k with
  | call m d =>
      have hd : d < s.count := (hs.task l (.call m d) (by simp [htodo])).1
      exact (hrest.runConn (.loop l) hd (m.run_grows env _)).same rfl rfl rfl
  | queueDestroyed d => exact hrest.post _ (.loop l) fun _ => rfl
  | closeCallback d => exact hrest.runInLoop _ (.loop l) fun _ => rfl
  | _ => exact hrest.same rfl rfl rfl

theorem Logged.step (h : s.Logged) (hs : s.Homed) (hm : s.Moves e t) : t.Logged := by
  cases hm with
  | loop l e ready x hidle htodo hactive hx =>
      have hstep := EventLoop.step_of_next hx
      refine (h.setLoop (x := x) ((h.order l).step hstep) fun c => ?_).same rfl rfl rfl
      rw [EventLoop.log_of_loop hstep, logged]
  | dispatch l d revents rest hidle htodo hactive =>
      have hd : d < s.count := (hs.active l (d, revents) (by simp [hactive])).1
      exact (h.runConn (.loop l) hd (f := (·.setRevents revents)) List.prefix_rfl).same rfl rfl rfl
  | task l env k rest hidle htodo hk => exact h.task hs htodo
  | accept sockfd wc hw mark hphase htodo =>
      exact (h.construct sockfd wc hw mark).runInLoop _ (.loop s.base) fun _ => rfl
  | sendHere th w d data hcall hin =>
      have hd : d < s.count := hs.calling th d (by rw [hcall]; rfl)
      exact (h.same (t := s.setCalling th .idle) rfl rfl rfl).runConn th hd
        (TcpConnection.sends_sendInLoop _ data w).grows
  | sendThere th w d data hcall hout =>
      exact (h.same (t := s.setCalling th .idle) rfl rfl rfl).post _ th fun _ => rfl
  | store th w d hcall => exact (h.setState d .kDisconnecting).same rfl rfl rfl
  | shutdownHere th w d hcall hin =>
      have hd : d < s.count := hs.calling th d (by rw [hcall]; rfl)
      exact (h.same (t := s.setCalling th .idle) rfl rfl rfl).runConn th hd
        (TcpConnection.sends_shutdownInLoop _).grows
  | shutdownThere th w d hcall hout =>
      exact (h.same (t := s.setCalling th .idle) rfl rfl rfl).post _ th fun _ => rfl
  | retrieve l d len hidle hguard =>
      have hd : d < s.count := (hs.task l (.guard d) hguard).1
      exact h.runConn (.loop l) hd List.prefix_rfl
  | call l th c x hc hx =>
      have hstep := EventLoop.step_of_next hx
      exact h.setLoop ((h.order l).step hstep) (log_of_foreign hc hstep)
  | destroyEntry d hidle hhead hcount htable =>
      exact (h.same (t := { s with server := s.server.erase (s.conn d).name }) rfl rfl rfl).runInLoop
        _ _ fun _ => rfl
  | _ => exact h.same rfl rfl rfl

theorem logged_of_reachable (h : (serverMachine ι α).Reachable s) : s.Homed ∧ s.Logged := by
  refine h.invariant (I := fun s => s.Homed ∧ s.Logged) (fun s hinit => ?_) fun s e t hs ht => ?_
  · refine ⟨homed_of_init hinit, ?_⟩
    obtain ⟨-, -, hcount, hloops, -⟩ := hinit
    refine ⟨fun l => ?_, fun l c => ?_⟩
    · rw [hloops]
      exact queueOrder_new _
    · rw [logged, handed, hloops, hcount, if_neg fun hc => Nat.not_lt_zero _ hc.1]
      rfl
  · exact ⟨hs.1.step (moves_of_next ht), hs.2.step hs.1 (moves_of_next ht)⟩

/-! ### Delivery -/

/-- The callbacks of connection `c` that loop `l` has run, in order. -/
def delivered (s : ServerSystem ι α) (l : ι) (c : Nat) : List QueuedCallback :=
  (s.loops l).ran.filterMap (ServerFunctor.callbackOf c)

/-- The callbacks of connection `c` that loop `l` has still to run, in order. -/
def undelivered (s : ServerSystem ι α) (l : ι) (c : Nat) : List QueuedCallback :=
  ((s.loops l).rest ++ (s.loops l).pending).filterMap (ServerFunctor.callbackOf c)

omit [DecidableEq α] in
theorem Logged.split (h : s.Logged) (l : ι) (c : Nat) :
    s.delivered l c ++ s.undelivered l c = s.handed l c := by
  rw [← h.callbacks, delivered, undelivered, ← List.filterMap_append, logged,
    EventLoop.log_eq (h.order l), List.append_assoc]

/-- **Every callback is delivered once and in order.**  In every reachable state, the
callbacks of a connection that its loop has run, followed by those in its batch and its
queue, are those that the connection has handed over, in order; and no other loop has
run one or has one to run. -/
theorem callbacks_delivered (h : (serverMachine ι α).Reachable s) {c : Nat} (hc : c < s.count) :
    s.delivered (s.conn c).home c ++ s.undelivered (s.conn c).home c
        = queuedCallbacks (s.tcp c).trace ∧
      ∀ l, l ≠ (s.conn c).home → s.delivered l c = [] ∧ s.undelivered l c = [] := by
  have hlogged := (logged_of_reachable h).2
  refine ⟨?_, fun l hl => ?_⟩
  · rw [hlogged.split, handed, if_pos ⟨hc, rfl⟩]
    rfl
  · have hsplit := hlogged.split l c
    rw [handed, if_neg fun hc => hl hc.2.symm] at hsplit
    exact List.append_eq_nil_iff.mp hsplit

/-- A connection accepted with a write-complete callback sends three bytes; one is left
for a writable event, and the callback is run after it. -/
def completes : List (ServerEvent Bool Unit) :=
  List.flatten
    [ServerEvent.turns false [.enterLoop, .testQuit, .poll false], [.accept 7 true false 0],
      ServerEvent.turns true [.enterLoop, .testQuit, .poll true, .handleRead, .handlersDone,
        .swapFunctors, .startFunctor],
      [.task true quietTask, .copy (.loop true) (.loop true) 0, .send (.loop true) 0 [1, 2, 3],
        .proceed (.loop true) (.accept 2)],
      ServerEvent.turns true [.functorDone, .batchDone, .testQuit],
      [.loop true (.poll false) [(7, EPOLLOUT)], .dispatch true,
        .task true { quietTask with write := .accept 9 }, .task true quietTask,
        .task true quietTask],
      ServerEvent.turns true [.handlersDone, .swapFunctors, .startFunctor]]

/-- The callback has been run, by the loop of the connection only. -/
theorem callbacks_delivered_completes : ∃ s : ServerSystem Bool Unit,
    s.delivered true 0 ++ s.undelivered true 0 = [.writeComplete] ∧ s.delivered false 0 = [] := by
  have hend : ((serverMachine Bool Unit).run
      (start ['s'] ⟨(127, 0, 0, 1), 80⟩ (.started false [true])) completes).any fun t =>
        decide (0 < t.count ∧ (t.conn 0).home = true ∧
          queuedCallbacks (t.tcp 0).trace = [.writeComplete]) := by
    decide +kernel
  obtain ⟨t, hrun, ht⟩ := (Option.any_eq_true _ _).mp hend
  obtain ⟨hcount, hhome, hqueued⟩ := of_decide_eq_true ht
  obtain ⟨hown, hother⟩ := callbacks_delivered ⟨_, completes, init_start .., hrun⟩ hcount
  rw [hhome, hqueued] at hown
  exact ⟨t, hown, (hother false (by simp [hhome])).1⟩

theorem count_queuedCallbacks (es : List Effect) :
    (queuedCallbacks es).count .writeComplete = completions es := by
  rw [queuedCallbacks, List.count_filterMap, completions, List.count]
  refine List.countP_congr fun e _ => ?_
  cases e <;> simp

/-- **The user hears of every busy period of every connection.**  In every regular run in
which no failed direct write finds EPIPE or ECONNRESET in `errno` after its log line, for
a connection with the callback set that sends no empty message and is not closed: the
write-complete callbacks that its loop has run, those it has still to run, and the period
under way are as many as the calls of `sendInLoop` that found no byte outstanding. -/
theorem write_complete_delivered {es : List (ServerEvent ι α)}
    (hinit : (serverMachine ι α).init s) (hregular : (serverMachine ι α).Along (Regular Benign) s es)
    (hrun : (serverMachine ι α).run s es = some t) {c : Nat} (hc : c < t.count)
    (hopen : t.state c = .kConnected ∨ t.state c = .kDisconnecting)
    (hset : (t.tcp c).writeCompeleteCallback_ = true)
    (hdata : ∀ data ∈ sent (t.tcp c).trace, data ≠ []) :
    (t.delivered (t.conn c).home c).count .writeComplete
        + (t.undelivered (t.conn c).home c).count .writeComplete
        + (if (t.tcp c).outputBuffer_.readable ≠ [] then 1 else 0)
      = busyPeriods (t.tcp c).trace := by
  have hhosted := hosted_of_run hinit hregular hrun
  obtain ⟨c₀, hfresh, hm⟩ := hhosted.moved hc hopen
  have hset₀ : c₀.writeCompeleteCallback_ = true := hm.sameSettings.writeComplete.symm.trans hset
  have hbalanced := (hfresh.balanced hset₀).moves hm hdata
  have hlogged := (logged_of_reachable ⟨s, es, hinit, hrun⟩).2
  have hsplit := hlogged.split (t.conn c).home c
  rw [handed, if_pos ⟨hc, rfl⟩] at hsplit
  rw [← List.count_append, hsplit, count_queuedCallbacks, ← hbalanced.balance,
    if_congr hbalanced.streamed.outstanding_iff.symm rfl rfl]
  rfl

/-- One period, and one callback. -/
theorem write_complete_delivered_completes : ∃ s : ServerSystem Bool Unit,
    (s.delivered true 0).count .writeComplete + (s.undelivered true 0).count .writeComplete = 1 := by
  have hend : ((serverMachine Bool Unit).run
      (start ['s'] ⟨(127, 0, 0, 1), 80⟩ (.started false [true])) completes).any fun t =>
        decide (0 < t.count ∧ (t.conn 0).home = true ∧ t.state 0 = .kConnected ∧
          (t.tcp 0).writeCompeleteCallback_ = true ∧ sent (t.tcp 0).trace = [[1, 2, 3]] ∧
          (t.tcp 0).outputBuffer_.readable = [] ∧ busyPeriods (t.tcp 0).trace = 1) := by
    decide +kernel
  obtain ⟨t, hrun, ht⟩ := (Option.any_eq_true _ _).mp hend
  obtain ⟨hcount, hhome, hstate, hset, hsent, hrest, hperiods⟩ := of_decide_eq_true ht
  have hbalance := write_complete_delivered (init_start ..) (by decide +kernel) hrun hcount
    (.inl hstate) hset (by simp [hsent])
  rw [hhome, hperiods, hrest, if_neg (not_not.mpr rfl)] at hbalance
  exact ⟨t, hbalance⟩

end ServerSystem

end Mymuduo
