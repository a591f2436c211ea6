/-
Mymuduo/ConnectionTable.lean

`connections_` over any history of accepts and removals.

The `c`-th connection (from 0) is accepted with `nextConnId_` equal to `c + 1`
modulo 2^32, and its name determines that number.  So `connections_` is exact as
long as no two connections whose accept numbers agree modulo 2^32 are in the
way of each other: none is accepted while an older one is in the table, and no
removal is repeated while a newer one is (`connections_exact_iff`).
-/
import Mathlib.Data.Nat.ModEq
import Mymuduo.Transition
import Mymuduo.TcpServer

namespace Mymuduo

open Transition

variable {Loop : Type*}

/-! ### Histories -/

/-- A server, the names of the connections in the order of their accepts, and the
connections whose removal has been processed.  A connection is known by its
place in that order. -/
structure ConnectionTable (Loop : Type*) where
  server : TcpServer Nat Loop
  accepted : List Text
  removed : List Nat

/-- `newConnection`, and a `removeConnectionInLoop` for a connection, which may be
repeated. -/
inductive TableEvent
  | newConnection
  | removeConnectionInLoop (conn : Nat)
  deriving DecidableEq, Repr

namespace ConnectionTable

def next (s : ConnectionTable Loop) : TableEvent → Option (ConnectionTable Loop)
  | .newConnection =>
      let (_, connName, server) := s.server.newConnection s.accepted.length
      some { s with server := server, accepted := s.accepted ++ [connName] }
  | .removeConnectionInLoop conn =>
      match s.accepted[conn]? with
      | some connName =>
          some { s with server := s.server.erase connName, removed := conn :: s.removed }
      | none => none

/-- Accepted, and the removal has not been processed. -/
def Live (s : ConnectionTable Loop) (conn : Nat) : Prop :=
  conn < s.accepted.length ∧ conn ∉ s.removed

/-- `connections_` holds exactly the live connections, under their names. -/
def Exact (s : ConnectionTable Loop) : Prop :=
  ∀ nm conn, s.server.connections_ nm = some conn ↔
    s.accepted[conn]? = some nm ∧ conn ∉ s.removed

/-- What a step should do: accept under a name that is not in the table, erase
the connection's own entry or nothing, and leave an exact table. -/
structure Faithful (s : ConnectionTable Loop) (e : TableEvent) (t : ConnectionTable Loop) :
    Prop where
  unused : e = .newConnection → ∀ nm conn, s.server.connections_ nm = some conn →
    nm ≠ s.server.connName
  own : ∀ conn nm, e = .removeConnectionInLoop conn → s.accepted[conn]? = some nm →
    s.server.connections_ nm = some conn ∨ s.server.connections_ nm = none
  exact : t.Exact

/-- No connection is accepted while a live one has the same number modulo 2^32,
and no removal is repeated while a live one has that connection's. -/
def NumbersApart (s : ConnectionTable Loop) : TableEvent → Prop
  | .newConnection =>
      ∀ conn < s.accepted.length, conn ∉ s.removed → ¬ conn ≡ s.accepted.length [MOD 2 ^ 32]
  | .removeConnectionInLoop conn =>
      conn ∈ s.removed →
        ∀ other < s.accepted.length, other ∉ s.removed → ¬ other ≡ conn [MOD 2 ^ 32]

instance (s : ConnectionTable Loop) (e : TableEvent) : Decidable (s.NumbersApart e) := by
  unfold NumbersApart
  split <;> infer_instance

end ConnectionTable

/-- Histories of a server that starts with an empty table. -/
def tableMachine (Loop : Type*) : Machine (ConnectionTable Loop) TableEvent where
  init s := ∃ name addr pool, s = ⟨TcpServer.new name addr pool, [], []⟩
  next := ConnectionTable.next

namespace ConnectionTable

variable {s t : ConnectionTable Loop} {e : TableEvent} {conn : Nat} {nm : Text}

/-! ### Names and numbers -/

/-- Every connection has the name that goes with its number. -/
structure Numbered (s : ConnectionTable Loop) : Prop where
  counter : s.server.nextConnId_ = BitVec.ofNat 32 (s.accepted.length + 1)
  address : ∃ addr : InetAddress, s.server.ipPort_ = addr.toIpPort
  names : ∀ conn nm, s.accepted[conn]? = some nm →
    nm = connName s.server.name_ s.server.ipPort_ (BitVec.ofNat 32 (conn + 1))

theorem ofNat_eq_iff {a b : Nat} :
    BitVec.ofNat 32 (a + 1) = BitVec.ofNat 32 (b + 1) ↔ a ≡ b [MOD 2 ^ 32] := by
  rw [← BitVec.toNat_inj, BitVec.toNat_ofNat, BitVec.toNat_ofNat]
  exact ⟨fun h => Nat.ModEq.add_right_cancel' 1 h, fun h => Nat.ModEq.add_right 1 h⟩

/-- Two connections have one name exactly when their numbers agree. -/
theorem Numbered.name_eq_iff (h : s.Numbered) {a b : Nat} {nm' : Text}
    (ha : s.accepted[a]? = some nm) (hb : s.accepted[b]? = some nm') :
    nm = nm' ↔ a ≡ b [MOD 2 ^ 32] := by
  obtain ⟨addr, haddr⟩ := h.address
  rw [h.names a nm ha, h.names b nm' hb, haddr, connName_inj, ofNat_eq_iff]

/-- The next name is that of a connection exactly when their numbers agree. -/
theorem Numbered.next_name_eq_iff (h : s.Numbered) (hc : s.accepted[conn]? = some nm) :
    nm = s.server.connName ↔ conn ≡ s.accepted.length [MOD 2 ^ 32] := by
  obtain ⟨addr, haddr⟩ := h.address
  rw [h.names conn nm hc, TcpServer.connName, h.counter, haddr, connName_inj, ofNat_eq_iff]

theorem getElem?_append_last (names : List Text) (last : Text) :
    (names ++ [last])[conn]? = some nm ↔
      names[conn]? = some nm ∨ conn = names.length ∧ nm = last := by
  rw [List.getElem?_append]
  split
  · rename_i hlt
    exact ⟨.inl, fun h => h.elim id fun h => absurd h.1 (Nat.ne_of_lt hlt)⟩
  · rename_i hge
    rw [List.getElem?_singleton, List.getElem?_eq_none (l := names) (by omega)]
    split
    · simp only [reduceCtorEq, false_or, Option.some.injEq]
      exact ⟨fun h => ⟨by omega, h.symm⟩, fun h => h.2.symm⟩
    · simp only [reduceCtorEq, false_or, false_iff, not_and]
      omega

/-- The two kinds of step. -/
inductive Changes (s : ConnectionTable Loop) : TableEvent → ConnectionTable Loop → Prop
  | accept (server : TcpServer Nat Loop)
      (hs : server = (s.server.newConnection s.accepted.length).2.2) :
      Changes s .newConnection
        { s with server := server, accepted := s.accepted ++ [s.server.connName] }
  | remove (conn : Nat) (nm : Text) (hc : s.accepted[conn]? = some nm) :
      Changes s (.removeConnectionInLoop conn)
        { s with server := s.server.erase nm, removed := conn :: s.removed }

theorem changes_of_next (h : (tableMachine Loop).next s e = some t) : s.Changes e t := by
  cases e with
  | newConnection =>
      obtain rfl := Option.some.inj h
      exact .accept _ rfl
  | removeConnectionInLoop conn =>
      simp only [tableMachine, next] at h
      split at h
      · rename_i nm hc
        obtain rfl := Option.some.inj h
        exact .remove conn nm hc
      · cases h

theorem Numbered.next (h : s.Numbered) (hstep : s.Changes e t) : t.Numbered := by
  cases hstep with
  | accept server hs =>
      subst hs
      refine ⟨?_, h.address, fun conn nm hc => ?_⟩
      · show s.server.nextConnId_ + 1 = _
        rw [h.counter, List.length_append]
        exact (BitVec.ofNat_add _ 1).symm
      · rcases (getElem?_append_last _ _).mp hc with hc | ⟨rfl, rfl⟩
        · exact h.names conn nm hc
        · show connName _ _ s.server.nextConnId_ = _
          rw [h.counter]
          rfl
  | remove conn nm hc => exact ⟨h.counter, h.address, h.names⟩

/-! ### One step -/

theorem Exact.live_of_entry (h : s.Exact) (hentry : s.server.connections_ nm = some conn) :
    s.accepted[conn]? = some nm ∧ conn < s.accepted.length ∧ conn ∉ s.removed := by
  obtain ⟨hc, hlive⟩ := (h nm conn).mp hentry
  exact ⟨hc, (List.getElem?_eq_some_iff.mp hc).1, hlive⟩

/-- The guard of an accept is that the next name is not in the table. -/
theorem Exact.apart_accept_iff (h : s.Exact) (hn : s.Numbered) :
    s.NumbersApart .newConnection ↔
      ∀ nm conn, s.server.connections_ nm = some conn → nm ≠ s.server.connName := by
  constructor
  · intro hapart nm conn hentry hname
    obtain ⟨hc, hlt, hlive⟩ := h.live_of_entry hentry
    exact hapart conn hlt hlive ((hn.next_name_eq_iff hc).mp hname)
  · intro hunused conn hlt hlive hmod
    have hc := List.getElem?_eq_getElem hlt
    exact hunused _ conn ((h _ conn).mpr ⟨hc, hlive⟩) ((hn.next_name_eq_iff hc).mpr hmod)

/-- The guard of a removal is that the connection's name stands for the
connection itself or is not in the table. -/
theorem Exact.apart_remove_iff (h : s.Exact) (hn : s.Numbered)
    (hc : s.accepted[conn]? = some nm) :
    s.NumbersApart (.removeConnectionInLoop conn) ↔
      s.server.connections_ nm = some conn ∨ s.server.connections_ nm = none := by
  by_cases hlive : conn ∈ s.removed
  · have hnot : s.server.connections_ nm ≠ some conn := fun hentry =>
      ((h nm conn).mp hentry).2 hlive
    rw [or_iff_right hnot, Option.eq_none_iff_forall_ne_some]
    constructor
    · intro hapart other hentry
      obtain ⟨ho, hlt, holive⟩ := h.live_of_entry hentry
      exact hapart hlive other hlt holive ((hn.name_eq_iff ho hc).mp rfl)
    · intro hnone _ other hlt holive hmod
      have ho := List.getElem?_eq_getElem hlt
      refine hnone other ((h nm other).mpr ⟨?_, holive⟩)
      rw [ho, (hn.name_eq_iff ho hc).mpr hmod]
  · exact iff_of_true (fun hmem => absurd hmem hlive) (.inl ((h nm conn).mpr ⟨hc, hlive⟩))

/-- An accept under an unused name keeps the table exact. -/
theorem Exact.accept (h : s.Exact) (hremoved : ∀ c ∈ s.removed, c < s.accepted.length)
    (hunused : ∀ nm conn, s.server.connections_ nm = some conn → nm ≠ s.server.connName) :
    Exact { s with server := (s.server.newConnection s.accepted.length).2.2
                   accepted := s.accepted ++ [s.server.connName] } := by
  intro nm conn
  rw [getElem?_append_last]
  show Function.update s.server.connections_ s.server.connName _ nm = _ ↔ _
  by_cases hnm : nm = s.server.connName
  · subst hnm
    rw [Function.update_self, Option.some.injEq]
    constructor
    · rintro rfl
      exact ⟨.inr ⟨rfl, rfl⟩, fun hmem => Nat.lt_irrefl _ (hremoved _ hmem)⟩
    · rintro ⟨hc | ⟨rfl, -⟩, hlive⟩
      · exact absurd rfl (hunused _ conn ((h _ conn).mpr ⟨hc, hlive⟩))
      · rfl
  · rw [Function.update_of_ne hnm, h nm conn]
    simp [hnm]

/-- A removal that erases its own entry or nothing keeps the table exact. -/
theorem Exact.remove (h : s.Exact) (hc : s.accepted[conn]? = some nm)
    (hown : s.server.connections_ nm = some conn ∨ s.server.connections_ nm = none) :
    Exact { s with server := s.server.erase nm, removed := conn :: s.removed } := by
  intro nm' other
  show Function.update s.server.connections_ nm none nm' = _ ↔ _
  rw [List.mem_cons, not_or]
  by_cases hnm : nm' = nm
  · subst hnm
    rw [Function.update_self]
    refine iff_of_false nofun ?_
    rintro ⟨ho, hne, hlive⟩
    rw [(h nm' other).mpr ⟨ho, hlive⟩] at hown
    rcases hown with heq | heq
    · exact hne (Option.some.inj heq)
    · cases heq
  · rw [Function.update_of_ne hnm, h nm' other]
    refine and_congr_right fun ho => (and_iff_right ?_).symm
    rintro rfl
    exact hnm (Option.some.inj (ho.symm.trans hc))

/-- What a history keeps while the numbers are apart. -/
structure Kept (s : ConnectionTable Loop) : Prop where
  exact : s.Exact
  numbered : s.Numbered
  removed : ∀ conn ∈ s.removed, conn < s.accepted.length

theorem kept_init (h : (tableMachine Loop).init s) : s.Kept := by
  obtain ⟨name, addr, pool, rfl⟩ := h
  refine ⟨fun nm conn => by simp [TcpServer.new], ⟨rfl, ⟨addr, rfl⟩, ?_⟩, nofun⟩
  intro conn nm hc
  simp at hc

theorem Kept.next (h : s.Kept) (he : s.NumbersApart e) (hstep : s.Changes e t) : t.Kept := by
  have hnumbered := h.numbered.next hstep
  cases hstep with
  | accept server hs =>
      subst hs
      refine ⟨h.exact.accept h.removed ((h.exact.apart_accept_iff h.numbered).mp he),
        hnumbered, fun conn hconn => ?_⟩
      rw [List.length_append]
      exact (h.removed conn hconn).trans (Nat.lt_succ_self _)
  | remove conn nm hc =>
      refine ⟨h.exact.remove hc ((h.exact.apart_remove_iff h.numbered hc).mp he), hnumbered, ?_⟩
      intro other hother
      rcases List.mem_cons.mp hother with rfl | hother
      · exact (List.getElem?_eq_some_iff.mp hc).1
      · exact h.removed other hother

/-- The numbers decide whether the table is treated faithfully. -/
theorem Kept.faithful_iff (h : s.Kept) (hstep : s.Changes e t) :
    s.Faithful e t ↔ s.NumbersApart e := by
  constructor
  · intro hf
    cases hstep with
    | accept server hs => exact (h.exact.apart_accept_iff h.numbered).mpr (hf.unused rfl)
    | remove conn nm hc =>
        exact (h.exact.apart_remove_iff h.numbered hc).mpr (hf.own conn nm rfl hc)
  · intro he
    refine ⟨?_, ?_, (h.next he hstep).exact⟩
    · rintro rfl
      exact (h.exact.apart_accept_iff h.numbered).mp he
    · rintro conn nm rfl hc
      exact (h.exact.apart_remove_iff h.numbered hc).mp he

end ConnectionTable

variable {s t : ConnectionTable Loop}

/-- **The connection table is exact as long as the numbers are apart.**  Every
step of a history accepts under an unused name, erases its own entry or nothing,
and leaves the table exact, exactly when no connection is accepted, and no
removal repeated, while another connection whose accept number agrees with its
own modulo 2^32 is in the table. -/
theorem connections_exact_iff {es : List TableEvent} (hinit : (tableMachine Loop).init s)
    (hrun : (tableMachine Loop).run s es = some t) :
    (tableMachine Loop).Every ConnectionTable.Faithful s es ↔
      (tableMachine Loop).Along ConnectionTable.NumbersApart s es := by
  refine Machine.every_iff_along (I := ConnectionTable.Kept) (A := fun _ _ => True) ?_ ?_
    (Machine.along_of_forall fun _ _ _ => trivial) hrun (ConnectionTable.kept_init hinit)
  · exact fun s e t hs _ ht => hs.faithful_iff (ConnectionTable.changes_of_next ht)
  · exact fun s e t hs _ he ht => hs.next he (ConnectionTable.changes_of_next ht)

/-! ### Concrete histories -/

/-- A server at 10.0.0.1:8000 with one loop. -/
def ConnectionTable.start : ConnectionTable Unit :=
  ⟨TcpServer.new ['e', 'c', 'h', 'o'] ⟨(10, 0, 0, 1), 8000⟩ (.started () []), [], []⟩

theorem ConnectionTable.init_start : (tableMachine Unit).init ConnectionTable.start :=
  ⟨_, _, _, rfl⟩

/-- Three accepts and two removals, one of them processed twice. -/
theorem connections_exact_repeated :
    (tableMachine Unit).Every ConnectionTable.Faithful ConnectionTable.start
      [.newConnection, .newConnection, .removeConnectionInLoop 0, .newConnection,
        .removeConnectionInLoop 0, .removeConnectionInLoop 2] := by
  refine (connections_exact_iff ConnectionTable.init_start rfl).mpr ?_
  decide +kernel

/-- Up to 2^32 accepts without a removal are faithful. -/
theorem ConnectionTable.accepts {n : Nat} (hn : n ≤ 2 ^ 32) :
    ∃ s, (tableMachine Unit).run ConnectionTable.start (List.replicate n .newConnection)
        = some s ∧ s.Kept ∧ s.accepted.length = n ∧ s.removed = [] := by
  induction n with
  | zero => exact ⟨_, rfl, kept_init init_start, rfl, rfl⟩
  | succ n ih =>
      obtain ⟨s, hrun, hkept, hlen, hremoved⟩ := ih (Nat.le_of_succ_le hn)
      have hstep : s.Changes .newConnection _ := .accept _ rfl
      refine ⟨_, ?_, hkept.next ?_ hstep, by simp [hlen], hremoved⟩
      · rw [List.replicate_succ', Machine.run_append, hrun]
        rfl
      · intro conn hlt _ hmod
        have heq := Nat.ModEq.eq_of_lt_of_lt hmod (hlt.trans_le (hlen.trans_le ?_)) ?_
        · omega
        · omega
        · omega

/-- After 2^32 accepts the counter is back at the value of the first connection,
which is still in the table: the next accept takes its entry. -/
theorem wrapped_counter_overwrites :
    ∃ s t nm, (tableMachine Unit).run ConnectionTable.start
        (List.replicate (2 ^ 32) .newConnection) = some s ∧
      s.server.connections_ nm = some 0 ∧ s.server.connName = nm ∧
      (tableMachine Unit).next s .newConnection = some t ∧ t.Live 0 ∧
      t.server.connections_ nm = some (2 ^ 32) ∧ ¬ t.Exact := by
  obtain ⟨s, hrun, hkept, hlen, hremoved⟩ := ConnectionTable.accepts (Nat.le_refl _)
  have hpos : 0 < s.accepted.length := by omega
  have hc := List.getElem?_eq_getElem hpos
  have hname := (hkept.numbered.next_name_eq_iff hc).mpr (by rw [hlen]; rfl)
  have hentry : Function.update s.server.connections_ s.server.connName
      (some s.accepted.length) s.accepted[0] = some (2 ^ 32) := by
    rw [hname, Function.update_self, hlen]
  refine ⟨s, _, s.accepted[0], hrun, ?_, hname.symm, rfl, ⟨?_, ?_⟩, hentry, fun hexact => ?_⟩
  · exact (hkept.exact _ 0).mpr ⟨hc, by simp [hremoved]⟩
  · rw [List.length_append]
    omega
  · simp [hremoved]
  · have hfirst : (s.accepted ++ [s.server.connName])[0]? = some s.accepted[0] := by
      rw [List.getElem?_append_left hpos, hc]
    have hzero := (hexact s.accepted[0] 0).mpr ⟨hfirst, by simp [hremoved]⟩
    cases hentry.symm.trans hzero

end Mymuduo
