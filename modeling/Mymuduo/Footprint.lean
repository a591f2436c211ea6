/-
Mymuduo/Footprint.lean

What one step of the server does to the connections.

A step turns the state of a connection in one of four ways (`turns_of_moves`),
works on at most one channel and on the poller of that channel's loop
(`rewires_of_moves`), and takes a connection out of `connections_` only by its
own `removeConnectionInLoop` (`inTable_of_moves`).  Handovers.lean says where the
tasks and functors of a state come from; here the other direction is added: a
task stays until it is run, and a functor until it is started.
-/
import Mymuduo.Handovers

namespace Mymuduo

open Transition

/-! ### Member functions -/

/-- Only four member functions store a state. -/
theorem Member.run_state (m : Member) (env : TaskEnv) (c : TcpConnection) :
    (m.run env c).state_ = c.state_ ∨
      m = .connectEstablished ∧ (m.run env c).state_ = .kConnected ∨
      (m = .markDestroyed ∨ m = .handleClose ∨ m = .handleRead) ∧
        (m.run env c).state_ = .kDisconnected := by
  cases m with
  | connectEstablished => exact .inr (.inl ⟨rfl, rfl⟩)
  | markDestroyed => exact .inr (.inr ⟨.inl rfl, rfl⟩)
  | removeChannel => exact .inl rfl
  | sendInLoop len => exact .inl (TcpConnection.sameState_sendInLoop ..).state
  | shutdownInLoop => exact .inl (TcpConnection.sameState_shutdownInLoop c).state
  | handleClose => exact .inr (.inr ⟨.inr (.inl rfl), rfl⟩)
  | handleError => exact .inl rfl
  | handleRead =>
      rcases c.handleRead_state env.toEnv with hsame | hclosed
      · exact .inl hsame.state
      · exact .inr (.inr ⟨.inr (.inr rfl), hclosed⟩)
  | handleWrite => exact .inl (c.sameState_writeOut env.write).state
  | finishWrite => exact .inl c.sameState_finishWrite.state

/-- After a member function that leads to `closeCallback_` the connection is
disconnected. -/
theorem Member.closed_of_next {m : Member} {env : TaskEnv} {c d : Nat} {k : TcpConnection}
    (h : .closeCallback d ∈ m.next env c k) :
    d = c ∧ (m = .handleClose ∨ m = .handleRead) ∧ (m.run env k).state_ = .kDisconnected := by
  cases m with
  | handleClose => exact ⟨by simpa [Member.next] using h, .inl rfl, rfl⟩
  | handleRead =>
      rw [Member.next, List.mem_ite_nil_right] at h
      obtain ⟨hzero, hmem⟩ := h
      refine ⟨by simpa using hmem, .inr rfl, ?_⟩
      show (k.handleRead env.toEnv.withoutUser).state_ = _
      have hz : env.toEnv.withoutUser.indeterminate
          (readv env.toEnv.withoutUser.readv k.inputBuffer_.iovRoom).ret = 0 := hzero
      unfold TcpConnection.handleRead
      dsimp only
      rw [ValidBuffer.readFd_ret, Option.getD_none, if_neg (by rw [hz]; simp), if_pos hz]
      rfl
  | handleWrite =>
      rw [Member.next, List.mem_ite_nil_right] at h
      simp at h
  | _ => simp [Member.next] at h

/-- Every member function but `removeChannel` leaves the channel in the poller's
map. -/
theorem Member.works_stays {m : Member} (hm : m ≠ .removeChannel) (env : TaskEnv)
    (c : TcpConnection) : c.Works ChannelOp.Stays (m.run env c) := by
  cases m with
  | connectEstablished => exact c.works_connectEstablished
  | markDestroyed => exact c.works_markDestroyed
  | removeChannel => exact absurd rfl hm
  | sendInLoop len => exact c.works_sendInLoop _ _
  | shutdownInLoop => exact c.works_shutdownInLoop
  | handleClose => exact c.works_handleClose _
  | handleError => exact .refl rfl rfl
  | handleRead => exact c.works_handleRead _
  | handleWrite => exact c.works_writeOut _
  | finishWrite => exact c.works_finishWrite

theorem TcpConnection.shutdownInLoop_channel (c : TcpConnection) :
    c.shutdownInLoop.channel_ = c.channel_ ∧ c.shutdownInLoop.poller_ = c.poller_ := by
  unfold TcpConnection.shutdownInLoop
  split <;> exact ⟨rfl, rfl⟩

namespace ServerSystem

variable {ι α : Type*}

/-! ### The connection objects -/

abbrev state (s : ServerSystem ι α) (c : Nat) : StateE := (s.conn c).tcp.state_

abbrev channel (s : ServerSystem ι α) (c : Nat) : Channel := (s.conn c).tcp.channel_

theorem setTcp_conn_ne (s : ServerSystem ι α) {c d : Nat} (h : d ≠ c) (k : TcpConnection) :
    (s.setTcp c k).conn d = s.conn d :=
  Function.update_of_ne h _ _

theorem setTcp_tcp (s : ServerSystem ι α) (c : Nat) (k : TcpConnection) :
    ((s.setTcp c k).conn c).tcp = k := by
  show (Function.update s.conn c _ c).tcp = k
  rw [Function.update_self]

variable [DecidableEq ι] [DecidableEq α]

section RunConn

variable (s : ServerSystem ι α) (th : Thread ι α) (c : Nat) (f : TcpConnection → TcpConnection)

theorem runConn_conn_ne {d : Nat} (h : d ≠ c) : (s.runConn th c f).conn d = s.conn d :=
  setTcp_conn_ne s h _

theorem runConn_conn_tcp : ((s.runConn th c f).conn c).tcp = f (s.tcp c) :=
  setTcp_tcp s c _

theorem runConn_home (d : Nat) : ((s.runConn th c f).conn d).home = (s.conn d).home :=
  setTcp_home s c d _

theorem runConn_poller : (s.runConn th c f).poller (s.conn c).home = (f (s.tcp c)).poller_ :=
  Function.update_self ..

theorem runConn_poller_ne {l : ι} (h : l ≠ (s.conn c).home) :
    (s.runConn th c f).poller l = s.poller l :=
  Function.update_of_ne h _ _

/-- The connection is what the member function has made of it. -/
theorem runConn_tcp : (s.runConn th c f).tcp c = f (s.tcp c) := by
  show { ((s.runConn th c f).conn c).tcp with
    poller_ := (s.runConn th c f).poller ((s.runConn th c f).conn c).home } = _
  rw [runConn_conn_tcp, runConn_home, runConn_poller]

end RunConn

variable {s t : ServerSystem ι α} {e : ServerEvent ι α} {l : ι}

/-! ### States -/

/-- What a step makes of the state of connection `c`. -/
inductive Turns (s : ServerSystem ι α) (c : Nat) : ServerEvent ι α → StateE → Prop
  | keep (e : ServerEvent ι α) : Turns s c e (s.conn c).tcp.state_
  | established (l : ι) (env : TaskEnv) (rest : List Task) (hidle : s.calling (.loop l) = .idle)
      (htodo : s.todo l = .call .connectEstablished c :: rest) :
      Turns s c (.task l env) .kConnected
  | disconnected (l : ι) (env : TaskEnv) (m : Member) (rest : List Task)
      (hidle : s.calling (.loop l) = .idle) (htodo : s.todo l = .call m c :: rest)
      (hm : m = .markDestroyed ∨ m = .handleClose ∨ m = .handleRead) :
      Turns s c (.task l env) .kDisconnected
  | shut (th : Thread ι α) (w : WriteResult) (hcall : s.calling th = .shutdownFound c) :
      Turns s c (.proceed th w) .kDisconnecting

omit [DecidableEq ι] [DecidableEq α] in
theorem Turns.of_eq {c : Nat} {x : StateE} (h : x = (s.conn c).tcp.state_) : Turns s c e x := by
  rw [h]
  exact .keep e

/-- A function that stores no state. -/
theorem runConn_state (s : ServerSystem ι α) (th : Thread ι α) {c : Nat} (d : Nat)
    {f : TcpConnection → TcpConnection} (hf : (f (s.tcp c)).state_ = (s.tcp c).state_) :
    ((s.runConn th c f).conn d).tcp.state_ = (s.conn d).tcp.state_ := by
  by_cases hd : d = c
  · subst hd
    rw [runConn_conn_tcp, hf]
    rfl
  · rw [runConn_conn_ne s th c f hd]

theorem turns_of_moves (hm : s.Moves e t) {c : Nat} (hc : c < s.count) :
    s.Turns c e (t.state c) := by
  cases hm with
  | dispatch l c' revents rest hidle htodo hactive =>
      exact .of_eq (runConn_state s (.loop l) c (f := (·.setRevents revents)) rfl)
  | task l env k rest hidle htodo hk =>
      cases k with
      | call m c' =>
          show Turns s c _ (((s.setTodo l rest).runConn (.loop l) c' (m.run env)).conn c).tcp.state_
          by_cases hcc : c = c'
          · subst hcc
            rw [runConn_conn_tcp]
            rcases m.run_state env ((s.setTodo l rest).tcp c) with hsame | ⟨rfl, hconn⟩ | ⟨hm, hdisc⟩
            · exact .of_eq hsame
            · rw [hconn]
              exact .established l env rest hidle htodo
            · rw [hdisc]
              exact .disconnected l env m rest hidle htodo hm
          · rw [runConn_conn_ne _ _ _ _ hcc]
            exact .keep _
      | closeCallback c' =>
          show Turns s c _ ((runInLoop _ _ _ _).conn c).tcp.state_
          rw [runInLoop_conn]
          exact .keep _
      | _ => exact .keep _
  | accept sockfd wc hw mark hphase htodo =>
      apply Turns.of_eq
      show ((runInLoop _ _ _ _).conn c).tcp.state_ = _
      rw [runInLoop_conn]
      show (Function.update s.conn s.count _ c).tcp.state_ = _
      rw [Function.update_of_ne (Nat.ne_of_lt hc)]
  | sendHere th w c' data hcall hin =>
      exact .of_eq (runConn_state (s.setCalling th .idle) th c
        (TcpConnection.sameState_sendInLoop _ data w).state)
  | store th w c' hcall =>
      show Turns s c _ ((s.setTcp c' _).conn c).tcp.state_
      by_cases hcc : c = c'
      · subst hcc
        rw [setTcp_tcp]
        exact .shut th w hcall
      · rw [setTcp_conn_ne s hcc]
        exact .keep _
  | shutdownHere th w c' hcall hin =>
      exact .of_eq (runConn_state (s.setCalling th .idle) th c
        (TcpConnection.sameState_shutdownInLoop _).state)
  | retrieve l c' len hidle hguard =>
      exact .of_eq (runConn_state s (.loop l) c (f := (·.userCall (.retrieve len))) rfl)
  | destroyEntry c' hidle hhead hcount htable =>
      show Turns s c _ ((runInLoop _ _ _ _).conn c).tcp.state_
      rw [runInLoop_conn]
      exact .keep _
  | _ => exact .keep _

/-! ### Channels -/

/-- The thread that works on the channel of connection `c` in a step, and what it
may do there. -/
inductive Worker (s : ServerSystem ι α) (c : Nat) : ServerEvent ι α → (ChannelOp → Prop) → Prop
  | event (l : ι) (revents : Mask) (rest : List (ChannelPtr × Mask))
      (hactive : s.active l = (c, revents) :: rest) : Worker s c (.dispatch l) ChannelOp.Stays
  | member (l : ι) (env : TaskEnv) (m : Member) (rest : List Task)
      (htodo : s.todo l = .call m c :: rest) (hm : m ≠ .removeChannel) :
      Worker s c (.task l env) ChannelOp.Stays
  | removal (l : ι) (env : TaskEnv) (rest : List Task)
      (htodo : s.todo l = .call .removeChannel c :: rest) : Worker s c (.task l env) (· = .remove)
  | sender (th : Thread ι α) (w : WriteResult) (data : List Byte)
      (hcall : s.calling th = .sendFound c data) : Worker s c (.proceed th w) ChannelOp.Stays

/-- What a step does to the channels and the pollers. -/
inductive Rewires (s : ServerSystem ι α) (e : ServerEvent ι α) (t : ServerSystem ι α) : Prop
  | keep (hchannel : ∀ c < s.count, (t.conn c).tcp.channel_ = (s.conn c).tcp.channel_)
      (hpoller : t.poller = s.poller) (hcount : t.count = s.count)
  | accept (sockfd : Int) (wc hw : Bool) (mark : Nat) (he : e = .accept sockfd wc hw mark)
      (hconn : ∀ c < s.count, t.conn c = s.conn c)
      (hnew : (t.conn s.count).tcp.channel_ = Channel.new s.count sockfd)
      (hpoller : t.poller = s.poller) (hcount : t.count = s.count + 1)
  | work (c : Nat) (ok : ChannelOp → Prop) (hworker : s.Worker c e ok)
      (hworks : (s.tcp c).Works ok (t.tcp c)) (hframe : ∀ d ≠ c, t.conn d = s.conn d)
      (hpoller : ∀ l ≠ (s.conn c).home, t.poller l = s.poller l) (hcount : t.count = s.count)

omit [DecidableEq ι] [DecidableEq α] in
theorem Rewires.congr (h : Rewires s e t) {t' : ServerSystem ι α} (hconn : t'.conn = t.conn)
    (hpoller : t'.poller = t.poller) (hcount : t'.count = t.count) : Rewires s e t' := by
  have htcp : ∀ c, t'.tcp c = t.tcp c := fun c => by rw [tcp, tcp, hconn, hpoller]
  cases h with
  | keep hchannel hp hn => exact .keep (by rwa [hconn]) (hpoller.trans hp) (hcount.trans hn)
  | accept sockfd wc hw mark he hold hnew hp hn =>
      exact .accept sockfd wc hw mark he (by rwa [hconn]) (by rwa [hconn]) (hpoller.trans hp)
        (hcount.trans hn)
  | work c ok hworker hworks hframe hp hn =>
      exact .work c ok hworker (by rwa [htcp]) (by rwa [hconn]) (by rwa [hpoller])
        (hcount.trans hn)

/-- A function that does not touch the channel. -/
theorem rewires_keep {th : Thread ι α} {c : Nat} {f : TcpConnection → TcpConnection}
    (hchannel : (f (s.tcp c)).channel_ = (s.tcp c).channel_)
    (hpoller : (f (s.tcp c)).poller_ = (s.tcp c).poller_) :
    Rewires s e (s.runConn th c f) := by
  refine .keep (fun d _ => ?_) ?_ rfl
  · by_cases hd : d = c
    · subst hd
      rw [runConn_conn_tcp, hchannel]
      rfl
    · rw [runConn_conn_ne s th c f hd]
  · funext l
    by_cases hl : l = (s.conn c).home
    · subst hl
      rw [runConn_poller, hpoller]
      rfl
    · rw [runConn_poller_ne s th c f hl]

/-- A function that works on the channel. -/
theorem rewires_runConn {th : Thread ι α} {c : Nat} {f : TcpConnection → TcpConnection}
    {ok : ChannelOp → Prop} (hworker : s.Worker c e ok)
    (hworks : (s.tcp c).Works ok (f (s.tcp c))) : Rewires s e (s.runConn th c f) := by
  refine .work c ok hworker ?_ (fun d hd => runConn_conn_ne s th c f hd)
    (fun l hl => runConn_poller_ne s th c f hl) rfl
  rw [runConn_tcp]
  exact hworks

theorem rewires_of_moves (hm : s.Moves e t) : s.Rewires e t := by
  cases hm with
  | dispatch l c revents rest hidle htodo hactive =>
      have h : s.Rewires (.dispatch l) (s.runConn (.loop l) c (·.setRevents revents)) :=
        rewires_runConn (.event l revents rest hactive) ((s.tcp c).works_setRevents revents)
      exact h.congr rfl rfl rfl
  | task l env k rest hidle htodo hk =>
      have hkeep : s.Rewires (.task l env) (s.setTodo l rest) := .keep (fun _ _ => rfl) rfl rfl
      cases k with
      | call m c =>
          have h : s.Rewires (.task l env) (s.runConn (.loop l) c (m.run env)) := by
            by_cases hm : m = .removeChannel
            · subst hm
              exact rewires_runConn (.removal l env rest htodo) (s.tcp c).works_removeChannel
            · exact rewires_runConn (.member l env m rest htodo hm) (Member.works_stays hm env _)
          exact h.congr rfl rfl rfl
      | closeCallback c =>
          exact hkeep.congr (runInLoop_conn ..) (runInLoop_poller ..) (runInLoop_count ..)
      | _ => exact hkeep.congr rfl rfl rfl
  | accept sockfd wc hw mark hphase htodo =>
      have h : s.Rewires (.accept sockfd wc hw mark) (s.construct sockfd wc hw mark) := by
        refine .accept sockfd wc hw mark rfl (fun c hc => ?_) ?_ rfl rfl
        · exact Function.update_of_ne (Nat.ne_of_lt hc) _ _
        · show (Function.update s.conn s.count _ s.count).tcp.channel_ = _
          rw [Function.update_self]
          rfl
      exact h.congr (runInLoop_conn ..) (runInLoop_poller ..) (runInLoop_count ..)
  | sendHere th w c data hcall hin =>
      have h : s.Rewires (.proceed th w) (s.runConn th c (·.sendInLoop data w)) :=
        rewires_runConn (.sender th w data hcall) ((s.tcp c).works_sendInLoop data w)
      exact h.congr rfl rfl rfl
  | store th w c hcall =>
      refine .keep (fun d _ => ?_) rfl rfl
      show ((s.setTcp c _).conn d).tcp.channel_ = _
      by_cases hd : d = c
      · subst hd
        rw [setTcp_tcp]
        rfl
      · rw [setTcp_conn_ne s hd]
  | shutdownHere th w c hcall hin =>
      obtain ⟨hchannel, hpoller⟩ := (s.tcp c).shutdownInLoop_channel
      have h : s.Rewires (.proceed th w) (s.runConn th c TcpConnection.shutdownInLoop) :=
        rewires_keep hchannel hpoller
      exact h.congr rfl rfl rfl
  | retrieve l c len hidle hguard => exact rewires_keep rfl rfl
  | destroyEntry c hidle hhead hcount htable =>
      have h : s.Rewires (.destroyEntry c) { s with server := s.server.erase (s.conn c).name } :=
        .keep (fun _ _ => rfl) rfl rfl
      exact h.congr (runInLoop_conn ..) (runInLoop_poller ..) (runInLoop_count ..)
  | _ => exact .keep (fun _ _ => rfl) rfl rfl

/-- No step changes the descriptor of a connection. -/
theorem fd_of_moves (hm : s.Moves e t) {c : Nat} (hc : c < s.count) :
    (t.channel c).fd_ = (s.channel c).fd_ := by
  cases rewires_of_moves hm with
  | keep hchannel _ _ => rw [channel, hchannel c hc]
  | accept _ _ _ _ _ hconn _ _ _ => rw [channel, hconn c hc]
  | work d ok hworker hworks hframe _ _ =>
      by_cases hcd : c = d
      · subst hcd
        exact hworks.entries.2.1
      · rw [channel, hframe c hcd]

/-! ### The table -/

/-- A connection stays in `connections_` until its removal runs. -/
theorem inTable_of_moves (hs : s.Steady) (he : s.InService e) (hm : s.Moves e t) {c : Nat}
    (hc : c < s.count) (htable : s.InTable c) :
    t.InTable c ∨ ∃ l env rest, e = .task l env ∧ s.todo l = .erase c :: rest := by
  have hname := (settled_of_moves hm).name c hc
  -- most steps do not touch the table
  have hkeep : t.server.connections_ = s.server.connections_ → t.InTable c := by
    intro h
    rw [InTable, h, hname]
    exact htable
  cases hm with
  | task l env k rest hidle htodo hk =>
      cases k with
      | erase c' =>
          by_cases hcc : c' = c
          · subst hcc
            exact .inr ⟨l, env, rest, rfl, htodo⟩
          · -- the names differ, so the entry of `c` stays
            have hhome := hs.homed.task l (.erase c') (by simp [htodo])
            have hne : (s.conn c).name ≠ (s.conn c').name := fun hname =>
              hcc (hs.named.name_inj hs.bound hc hhome.1 hname).symm
            left
            show Function.update s.server.connections_ (s.conn c').name none (s.conn c).name = some c
            rw [Function.update_of_ne hne]
            exact htable
      | closeCallback c' => exact .inl (hkeep (by rw [runTask, runInLoop_server]; rfl))
      | _ => exact .inl (hkeep rfl)
  | accept sockfd wc hw mark hphase htodo =>
      left
      have hcongr : (s.construct sockfd wc hw mark).InTable c := by
        rw [InTable, (settled_construct s sockfd wc hw mark).name c hc]
        show Function.update s.server.connections_ s.server.connName _ (s.conn c).name = some c
        rw [Function.update_of_ne (hs.named.name_ne_next he hc)]
        exact htable
      rw [InTable, accept, runInLoop_server, runInLoop_conn]
      exact hcongr
  | destroyEntry c' hidle hhead hcount htable' =>
      exact absurd (List.mem_of_mem_head? hhead) (hs.standing s.base)
  | _ => exact .inl (hkeep rfl)

/-- No step puts an old connection into the table. -/
theorem inTable_before (hm : s.Moves e t) {c : Nat} (hc : c < s.count) (ht : t.InTable c) :
    s.InTable c := by
  have hname := (settled_of_moves hm).name c hc
  rw [InTable, hname] at ht
  have hkeep : t.server.connections_ = s.server.connections_ → s.InTable c := by
    intro h
    rwa [h] at ht
  have herase : ∀ nm, t.server.connections_ = Function.update s.server.connections_ nm none →
      s.InTable c := by
    intro nm h
    rw [h] at ht
    by_cases hnm : (s.conn c).name = nm
    · rw [hnm, Function.update_self] at ht
      cases ht
    · rwa [Function.update_of_ne hnm] at ht
  cases hm with
  | task l env k rest hidle htodo hk =>
      cases k with
      | erase c' => exact herase (s.conn c').name rfl
      | closeCallback c' => exact hkeep (by rw [runTask, runInLoop_server]; rfl)
      | _ => exact hkeep rfl
  | accept sockfd wc hw mark hphase htodo =>
      rw [accept, runInLoop_server] at ht
      change Function.update s.server.connections_ s.server.connName _ (s.conn c).name = _ at ht
      by_cases hnm : (s.conn c).name = s.server.connName
      · rw [hnm, Function.update_self] at ht
        exact absurd hc (Nat.not_lt.mpr (Option.some.inj ht).le)
      · rwa [Function.update_of_ne hnm] at ht
  | destroyEntry c' hidle hhead hcount htable =>
      exact herase (s.conn c').name (by rw [runInLoop_server]; rfl)
  | _ => exact hkeep rfl

/-- A new connection is what the constructor makes. -/
theorem accept_tcp (s : ServerSystem ι α) (sockfd : Int) (wc hw : Bool) (mark : Nat) :
    ∃ p, ((s.accept sockfd wc hw mark).conn s.count).tcp
      = TcpConnection.new s.count sockfd wc hw mark p := by
  refine ⟨s.poller s.server.threadPool_.getNextLoop.1, ?_⟩
  rw [accept, runInLoop_conn]
  show (Function.update s.conn s.count _ s.count).tcp = _
  rw [Function.update_self]
  rfl

/-- A new connection is in the table. -/
theorem inTable_accept (s : ServerSystem ι α) (sockfd : Int) (wc hw : Bool) (mark : Nat) :
    (s.accept sockfd wc hw mark).InTable s.count := by
  have hname : ((s.construct sockfd wc hw mark).conn s.count).name = s.server.connName := by
    show (Function.update s.conn s.count _ s.count).name = _
    rw [Function.update_self]
  rw [InTable, accept, runInLoop_server, runInLoop_conn, hname]
  exact Function.update_self ..

/-! ### Active channels and callers -/

/-- An active channel was active before, or `epoll_wait` has returned it. -/
theorem active_of_moves (hm : s.Moves e t) {p : ChannelPtr × Mask} (hp : p ∈ t.active l) :
    p ∈ s.active l ∨ s.todo l = [] ∧ (∃ b ready, e = .loop l (.poll b) ready) ∧
      ∃ fd m, (s.poller l).epollSet fd = some (m, p.1) := by
  cases hm with
  | loop l' e ready x hidle htodo hactive hx =>
      change p ∈ Function.update s.active l' _ l at hp
      by_cases hl : l = l'
      · subst hl
        rw [Function.update_self] at hp
        unfold activeAfter at hp
        split at hp
        · rename_i hfills
          obtain ⟨r, -, hr⟩ := List.mem_filterMap.mp hp
          obtain ⟨⟨m, c⟩, hentry, rfl⟩ := Option.map_eq_some_iff.mp hr
          refine .inr ⟨htodo, ?_, r.1, m, hentry⟩
          cases e with
          | poll b => exact ⟨b, ready, rfl⟩
          | _ => cases hfills
        · exact .inl hp
      · rw [Function.update_of_ne hl] at hp
        exact .inl hp
  | dispatch l' c revents rest hidle htodo hactive =>
      change p ∈ Function.update s.active l' rest l at hp
      left
      by_cases hl : l = l'
      · subst hl
        rw [Function.update_self] at hp
        rw [hactive]
        exact List.mem_cons_of_mem _ hp
      · rwa [Function.update_of_ne hl] at hp
  | task l' env k rest hidle htodo hk =>
      cases k with
      | closeCallback c => rw [runTask, runInLoop_active] at hp; exact .inl hp
      | _ => exact .inl hp
  | accept sockfd wc hw mark hphase htodo => rw [accept, runInLoop_active] at hp; exact .inl hp
  | destroyEntry c hidle hhead hcount htable => rw [runInLoop_active] at hp; exact .inl hp
  | _ => exact .inl hp

/-- What a step makes of the call that thread `th` is in. -/
inductive Calls (s : ServerSystem ι α) (th : Thread ι α) : ServerEvent ι α → Calling → Prop
  | keep (e : ServerEvent ι α) : Calls s th e (s.calling th)
  | done (e : ServerEvent ι α) : Calls s th e .idle
  | send (c : Nat) (data : List Byte) (huser : (th, c) ∈ s.users)
      (hstate : s.state c = .kConnected) : Calls s th (.send th c data) (.sendFound c data)
  | shutdown (c : Nat) (huser : (th, c) ∈ s.users) (hstate : s.state c = .kConnected) :
      Calls s th (.shutdown th c) (.shutdownFound c)
  | store (w : WriteResult) (c : Nat) (hcall : s.calling th = .shutdownFound c) :
      Calls s th (.proceed th w) (.shutdownStored c)

theorem calls_of_moves (hm : s.Moves e t) (th : Thread ι α) : s.Calls th e (t.calling th) := by
  -- a step of another thread's call
  have hset : ∀ (th' : Thread ι α) (k : Calling), s.Calls th' e k →
      s.Calls th e (Function.update s.calling th' k th) := by
    intro th' k hk
    by_cases hth : th = th'
    · subst hth
      rw [Function.update_self]
      exact hk
    · rw [Function.update_of_ne hth]
      exact .keep e
  cases hm with
  | task l' env k rest hidle htodo hk =>
      cases k with
      | closeCallback c => rw [runTask, runInLoop_calling]; exact .keep _
      | _ => exact .keep _
  | accept sockfd wc hw mark hphase htodo => rw [accept, runInLoop_calling]; exact .keep _
  | send th' c data hidle huser =>
      apply hset
      split
      · rename_i hstate
        exact .send c data huser hstate
      · exact .done _
  | shutdown th' c hidle huser =>
      apply hset
      split
      · rename_i hstate
        exact .shutdown c huser hstate
      · exact .done _
  | sendHere th' w c data hcall hin => exact hset th' .idle (.done _)
  | sendThere th' w c data hcall hout => exact hset th' .idle (.done _)
  | store th' w c hcall => exact hset th' _ (.store w c hcall)
  | shutdownHere th' w c hcall hin => exact hset th' .idle (.done _)
  | shutdownThere th' w c hcall hout => exact hset th' .idle (.done _)
  | destroyEntry c hidle hhead hcount htable => rw [runInLoop_calling]; exact .keep _
  | _ => exact .keep _

/-- The store of `shutdown` is done by the next step of its thread. -/
theorem stored_of_proceed {th : Thread ι α} {w : WriteResult} {c : Nat}
    (hm : s.Moves (.proceed th w) t) (hcall : s.calling th = .shutdownFound c) :
    t.calling th = .shutdownStored c := by
  cases hm with
  | store _ _ c' hcall' =>
      rw [hcall] at hcall'
      cases hcall'
      exact Function.update_self ..
  | sendHere _ _ c' data hcall' hin => rw [hcall] at hcall'; cases hcall'
  | sendThere _ _ c' data hcall' hout => rw [hcall] at hcall'; cases hcall'
  | shutdownHere _ _ c' hcall' hin => rw [hcall] at hcall'; cases hcall'
  | shutdownThere _ _ c' hcall' hout => rw [hcall] at hcall'; cases hcall'

/-! ### One task -/

/-- What has been done when the first task of a loop thread has run. -/
inductive Runs (s : ServerSystem ι α) (l : ι) (env : TaskEnv) (rest : List Task) :
    Task → ServerSystem ι α → Prop
  | run (k : Task) : Runs s l env rest k ((s.setTodo l rest).runTask l env k)

theorem runs_of_moves {env : TaskEnv} {k : Task} {rest : List Task}
    (hm : s.Moves (.task l env) t) (htodo : s.todo l = k :: rest) : s.Runs l env rest k t := by
  cases hm with
  | task _ _ k' rest' hidle htodo' hk =>
      rw [htodo] at htodo'
      cases htodo'
      exact .run k

omit [DecidableEq α] in
theorem mem_setTodo_self {ks : List Task} {k : Task} (hk : k ∈ ks) : k ∈ (s.setTodo l ks).todo l := by
  show k ∈ Function.update s.todo l ks l
  rwa [Function.update_self]

section Task

variable {env : TaskEnv} {c : Nat} {rest : List Task} (hm : s.Moves (.task l env) t)
include hm

theorem queueDestroyed_of_erase (htodo : s.todo l = .erase c :: rest) :
    .queueDestroyed c ∈ t.todo l := by
  cases runs_of_moves hm htodo
  exact mem_setTodo_self List.mem_cons_self

theorem connectDestroyed_of_queue (htodo : s.todo l = .queueDestroyed c :: rest) :
    .connectDestroyed c ∈ (t.loops (s.conn c).home).waiting := by
  cases runs_of_moves hm htodo
  show _ ∈ (((s.setTodo l rest).post (s.conn c).home (.loop l)
    (.connectDestroyed c)).loops (s.conn c).home).waiting
  rw [post_self, EventLoop.waiting, EventLoop.post_pending]
  simp

theorem call_of_testDestroyed (htodo : s.todo l = .testDestroyed c :: rest) :
    .call .markDestroyed c ∈ t.todo l ∨ .call .removeChannel c ∈ t.todo l := by
  cases runs_of_moves hm htodo
  have hmem : .call (if (s.tcp c).state_ = .kConnected then .markDestroyed else .removeChannel) c ∈
      ((s.setTodo l rest).runTask l env (.testDestroyed c)).todo l :=
    mem_setTodo_self List.mem_cons_self
  split at hmem
  · exact .inl hmem
  · exact .inr hmem

theorem removeChannel_of_mark (htodo : s.todo l = .call .markDestroyed c :: rest) :
    .call .removeChannel c ∈ t.todo l := by
  cases runs_of_moves hm htodo
  exact mem_setTodo_self List.mem_cons_self

theorem kNew_of_remove (htodo : s.todo l = .call .removeChannel c :: rest) :
    (t.conn c).tcp.channel_.index_ = .kNew := by
  cases runs_of_moves hm htodo
  show (((s.setTodo l rest).runConn (.loop l) c TcpConnection.removeChannel).conn c).tcp.channel_.index_
    = _
  rw [runConn_conn_tcp]
  rfl

end Task

/-! ### `connectEstablished` comes once -/

/-- How often loop `l` has still to run `connectEstablished` of connection `c`. -/
def establishing (s : ServerSystem ι α) (l : ι) (c : Nat) : Nat :=
  (s.loops l).waiting.count (.connectEstablished c) +
    (s.todo l).count (.call .connectEstablished c)

section Establishing

variable {c : Nat}

omit [DecidableEq ι] [DecidableEq α] in
theorem establishing_eq_zero (hs : s.Homed) (l : ι) : s.establishing l s.count = 0 := by
  have hwaiting : (s.loops l).waiting.count (.connectEstablished s.count) = 0 := by
    refine List.count_eq_zero_of_not_mem fun hmem => ?_
    exact absurd (hs.functor l _ (EventLoop.mem_functors_of_waiting hmem)).1 (Nat.lt_irrefl _)
  have htodo : (s.todo l).count (.call .connectEstablished s.count) = 0 := by
    refine List.count_eq_zero_of_not_mem fun hmem => ?_
    exact absurd (hs.task l _ hmem).1 (Nat.lt_irrefl _)
  rw [establishing, hwaiting, htodo]

omit [DecidableEq α] in
/-- Other tasks may come to loop `l'`, and tasks may go. -/
theorem establishing_setTodo {l' : ι} {ks : List Task}
    (hks : ks.count (.call .connectEstablished c)
      ≤ (s.todo l').count (.call .connectEstablished c)) :
    (s.setTodo l' ks).establishing l c ≤ s.establishing l c := by
  show _ + (Function.update s.todo l' ks l).count _ ≤ _
  by_cases hl : l = l'
  · subst hl
    rw [Function.update_self]
    exact Nat.add_le_add_left hks _
  · rw [Function.update_of_ne hl]
    exact Nat.le_refl _

theorem establishing_posts {l' : ι} {th : Thread ι α} {fs : List ServerFunctor}
    (hfs : .connectEstablished c ∉ fs) :
    (s.setLoop l' ((s.loops l').posts th fs)).establishing l c = s.establishing l c := by
  have hp := (s.loops l').posted_posts th fs
  show (Function.update s.loops l' _ l).waiting.count _ + (s.todo l).count _ = _
  by_cases hl : l = l'
  · subst hl
    rw [Function.update_self, EventLoop.waiting, hp.pending, hp.rest, establishing,
      EventLoop.waiting]
    simp only [List.count_append, List.count_eq_zero_of_not_mem hfs]
    omega
  · rw [Function.update_of_ne hl]
    rfl

theorem establishing_post {l' : ι} {th : Thread ι α} {f : ServerFunctor}
    (hf : f ≠ .connectEstablished c) :
    (s.post l' th f).establishing l c = s.establishing l c := by
  have hfs : .connectEstablished c ∉ [f] := by simpa using hf.symm
  exact establishing_posts hfs

theorem establishing_runConn (th : Thread ι α) (d : Nat) (g : TcpConnection → TcpConnection) :
    (s.runConn th d g).establishing l c = s.establishing l c := by
  refine (establishing_posts (s := (s.setTcp d (g (s.tcp d))).setPoller (s.conn d).home
    (g (s.tcp d)).poller_) fun hmem => ?_).trans rfl
  obtain ⟨cb, -, heq⟩ := List.mem_map.mp hmem
  cases heq

/-- The tasks of a functor establish what the functor does. -/
theorem count_tasks (f : ServerFunctor) (c : Nat) :
    f.tasks.count (.call .connectEstablished c) = [f].count (.connectEstablished c) := by
  cases f <;> simp [ServerFunctor.tasks, List.count_cons]

theorem count_scope (f : ServerFunctor) (c : Nat) :
    f.scope.count (.call .connectEstablished c) = 0 := by
  unfold ServerFunctor.scope
  split <;> simp

theorem establishing_runInLoop {l' : ι} {th : Thread ι α} {f : ServerFunctor} :
    (s.runInLoop l' th f).establishing l c ≤
      s.establishing l c + [f].count (.connectEstablished c) := by
  unfold runInLoop
  split
  · show (s.loops l).waiting.count _ + (Function.update s.todo l' _ l).count _ ≤ _
    by_cases hl : l = l'
    · subst hl
      rw [Function.update_self, establishing]
      simp only [List.count_append, count_tasks, count_scope]
      omega
    · rw [Function.update_of_ne hl]
      exact Nat.le_add_right _ _
  · have hp := (s.loops l').posted_posts th [f]
    show (Function.update s.loops l' ((s.loops l').posts th [f]) l).waiting.count _ +
      (s.todo l).count _ ≤ _
    by_cases hl : l = l'
    · subst hl
      rw [Function.update_self, EventLoop.waiting, hp.pending, hp.rest, establishing,
        EventLoop.waiting]
      simp only [List.count_append]
      omega
    · rw [Function.update_of_ne hl]
      exact Nat.le_add_right _ _

theorem count_next (m : Member) (env : TaskEnv) (d : Nat) (k : TcpConnection) (c : Nat) :
    (m.next env d k).count (.call .connectEstablished c) = 0 := by
  refine List.count_eq_zero_of_not_mem fun hmem => ?_
  unfold Member.next at hmem
  split at hmem <;> simp at hmem

/-- A task that is run leads to no other `connectEstablished`. -/
theorem establishing_runTask (l' : ι) (env : TaskEnv) (k : Task) :
    (s.runTask l' env k).establishing l c ≤ s.establishing l c := by
  cases k with
  | call m d =>
      refine (establishing_setTodo (s := s.runConn (.loop l') d (m.run env)) ?_).trans ?_
      · rw [List.count_append, count_next, Nat.zero_add]
        exact Nat.le_refl _
      · rw [establishing_runConn]
  | erase d =>
      refine (establishing_setTodo (s := { s with server := s.server.erase _ }) ?_).trans ?_
      · simp
      · exact Nat.le_refl _
  | queueDestroyed d => exact (establishing_post (by simp)).le
  | testDestroyed d =>
      refine establishing_setTodo ?_
      rw [List.count_cons_of_ne (by split <;> simp)]
  | closeCallback d =>
      refine establishing_runInLoop.trans ?_
      simp
  | guard d => exact Nat.le_refl _
  | scope d => exact Nat.le_refl _
  | destructor => exact Nat.le_refl _

omit [DecidableEq ι] [DecidableEq α] in
/-- A step of the loop hands a functor from the queue to its tasks. -/
theorem count_started {x x' : EventLoop ServerFunctor (Thread ι α)} {e : LoopStep}
    (hx : x.Hands (.loop e) x') (c : Nat) :
    x'.waiting.count (.connectEstablished c) +
        (startedTasks e x').count (.call .connectEstablished c)
      ≤ x.waiting.count (.connectEstablished c) + 0 := by
  have hnone : e ≠ .startFunctor → startedTasks e x' = [] := by
    intro he
    cases e <;> first | rfl | exact absurd rfl he
  unfold EventLoop.waiting
  cases hx with
  | keep _ _ hpending _ hrest _ he =>
      rw [hnone (by rintro rfl; exact he rfl), hpending, hrest]
      simp
  | swap _ hrest hpending' _ hrest' _ =>
      rw [hnone (by simp), hpending', hrest', hrest]
      simp
  | start q _ rest hpc hpending _ hrest _ =>
      have hrunning : x'.running = some q.functor := by simp only [EventLoop.running, hpc]
      have hstarted : startedTasks .startFunctor x' = q.functor.tasks := by
        simp only [startedTasks, hrunning, Option.map_some, Option.getD_some]
      rw [hstarted, count_tasks, hpending, hrest]
      simp only [List.count_append, List.count_cons, List.count_nil]
      omega
  | endBatch _ hrest hpending _ hrest' _ =>
      rw [hnone (by simp), hpending, hrest', hrest]
      simp

/-- `connectEstablished` of a connection is handed on, and never again. -/
theorem establishing_of_moves (hs : s.Steady) (hm : s.Moves e t) :
    t.establishing l c ≤ s.establishing l c + [s.count].count c := by
  cases hm with
  | loop l' e ready x hidle htodo hactive hx =>
      refine Nat.le_add_right_of_le ?_
      have hhands := EventLoop.hands_of_step (hs.homed.kempt l') (EventLoop.step_of_next hx)
      show (Function.update s.loops l' x l).waiting.count _ +
        (Function.update s.todo l' (startedTasks e x) l).count _ ≤ _
      by_cases hl : l = l'
      · subst hl
        rw [Function.update_self, Function.update_self, establishing, htodo]
        exact count_started hhands c
      · rw [Function.update_of_ne hl, Function.update_of_ne hl]
        exact Nat.le_refl _
  | dispatch l' d revents rest hidle htodo hactive =>
      refine Nat.le_add_right_of_le ((establishing_setTodo (s := (s.runConn (.loop l') d
        (·.setRevents revents)).setActive l' rest) ?_).trans ?_)
      · rw [List.count_eq_zero_of_not_mem (by simp [eventTasks])]
        exact Nat.zero_le _
      · exact (establishing_runConn (.loop l') d (·.setRevents revents)).le
  | task l' env k rest hidle htodo hk =>
      refine Nat.le_add_right_of_le ((establishing_runTask l' env k).trans ?_)
      refine establishing_setTodo ?_
      rw [htodo]
      exact List.count_le_count_cons
  | accept sockfd wc hw mark hphase htodo =>
      refine (establishing_runInLoop (s := s.construct sockfd wc hw mark)).trans ?_
      refine Nat.add_le_add_left ?_ _
      simp [List.count_cons]
  | sendHere th w d data hcall hin =>
      exact Nat.le_add_right_of_le (establishing_runConn (s := s.setCalling th .idle) th d
        (·.sendInLoop data w)).le
  | sendThere th w d data hcall hout =>
      exact Nat.le_add_right_of_le (establishing_post (s := s.setCalling th .idle) (by simp)).le
  | shutdownHere th w d hcall hin =>
      exact Nat.le_add_right_of_le (establishing_runConn (s := s.setCalling th .idle) th d
        TcpConnection.shutdownInLoop).le
  | shutdownThere th w d hcall hout =>
      exact Nat.le_add_right_of_le (establishing_post (s := s.setCalling th .idle) (by simp)).le
  | retrieve l' d len hidle hguard =>
      exact Nat.le_add_right_of_le (establishing_runConn (.loop l') d (·.userCall (.retrieve len))).le
  | call l' th d x hforeign hx =>
      refine Nat.le_add_right_of_le ?_
      have hhands := EventLoop.hands_of_step (hs.homed.kempt l') (EventLoop.step_of_next hx)
      show (Function.update s.loops l' x l).waiting.count _ + (s.todo l).count _ ≤ _
      by_cases hl : l = l'
      · subst hl
        rw [Function.update_self]
        refine Nat.add_le_add_right ?_ _
        cases hhands with
        | keep _ _ hpending _ hrest _ _ =>
            rw [EventLoop.waiting, hpending, hrest]
            exact Nat.le_refl _
        | push f _ _ _ hpush hpending _ hrest _ =>
            have hf : f = .other := by
              rcases hpush with rfl | rfl
              · cases f with
                | other => rfl
                | _ => cases hforeign
              · cases hforeign
            rw [EventLoop.waiting, hpending, hrest, hf, EventLoop.waiting]
            simp
      · rw [Function.update_of_ne hl]
        exact Nat.le_refl _
  | destroy hphase =>
      refine Nat.le_add_right_of_le (establishing_setTodo (s := { s with phase := .tearing }) ?_)
      simp
  | destroyEntry d hidle hhead hcount htable =>
      exact absurd (List.mem_of_mem_head? hhead) (hs.standing s.base)
  | destroyed hhead => exact absurd (List.mem_of_mem_head? hhead) (hs.standing s.base)
  | _ => exact Nat.le_add_right _ _

/-- When it has run, it is gone. -/
theorem establishing_run {env : TaskEnv} {rest : List Task} (hm : s.Moves (.task l env) t)
    (htodo : s.todo l = .call .connectEstablished c :: rest) :
    t.establishing l c + 1 ≤ s.establishing l c := by
  have hrest : (s.setTodo l rest).establishing l c + 1 = s.establishing l c := by
    show (s.loops l).waiting.count _ + (Function.update s.todo l rest l).count _ + 1 = _
    rw [Function.update_self, establishing, htodo, List.count_cons_self]
    rfl
  cases runs_of_moves hm htodo
  rw [← hrest]
  exact Nat.add_le_add_right (establishing_runTask l env _) 1

end Establishing

end ServerSystem

end Mymuduo
