/-
Mymuduo/Handshake.lean

Whether `~EventLoopThread` ever goes through a null pointer or into a destroyed
loop.

The destructor tests `loop_` and reads it again, both without the mutex; and
`quit()` writes to `wakeupFd_` after the store that lets the loop thread leave.
So `threadFunc` must not clear `loop_` between the two reads, nor destroy the
loop between the second read and the end of the write.  `handshake_iff` says that
these two windows are all.
-/
import Mymuduo.EventLoopThread

namespace Mymuduo

open Transition EventLoop

variable {F Tid : Type*}

namespace EventLoopThread

variable {s s' : EventLoopThread F Tid} {e : ThreadEvent F Tid}

/-- The steps of the destructor go through a pointer that is not null, to a loop
that is an object. -/
def ThroughLive (s : EventLoopThread F Tid) (e : ThreadEvent F Tid)
    (_ : EventLoopThread F Tid) : Prop :=
  match e with
  | .dtorRead => s.loop_ = true ∧ s.func.alive = true
  | .dtorStore | .dtorWakeup => s.func.alive = true
  | _ => True

/-- `threadFunc` does not clear `loop_` between the destructor's two reads of it,
and does not destroy the loop while the destructor is in `quit()`. -/
def Waits (s : EventLoopThread F Tid) : ThreadEvent F Tid → Prop
  | .clear => s.dtor ≠ .tested
  | .destroy => s.dtor ≠ .quitting ∧ s.dtor ≠ .stored
  | _ => True

instance (s : EventLoopThread F Tid) (e : ThreadEvent F Tid) : Decidable (s.Waits e) := by
  unfold Waits
  split <;> infer_instance

/-- The destructor is between its test of `loop_` and the end of `quit()`. -/
def Quitting (s : EventLoopThread F Tid) : Prop :=
  s.dtor = .tested ∨ s.dtor = .quitting ∨ s.dtor = .stored

/-- `loop_` says whether the loop is published. -/
def Linked (s : EventLoopThread F Tid) : Prop := s.loop_ = s.func.linked

/-- What holds as long as `threadFunc` waits. -/
structure Shaking (s : EventLoopThread F Tid) : Prop where
  linked : s.Linked
  tested : s.dtor = .tested → s.loop_ = true
  inside : s.dtor = .quitting ∨ s.dtor = .stored → s.func.alive = true
  sound : s.dtor ≠ .crashed

/-- The destructor has crashed, or has a pointer that it will find null or
dangling. -/
structure Shattered (s : EventLoopThread F Tid) : Prop where
  linked : s.Linked
  damage : s.dtor = .crashed ∨ (s.dtor = .tested ∧ (s.func = .cleared ∨ s.func = .destroyed)) ∨
    ((s.dtor = .quitting ∨ s.dtor = .stored) ∧ s.func = .destroyed)

theorem Shaking.not_shattered (h : s.Shaking) : ¬ s.Shattered := by
  rintro ⟨-, hc | ⟨ht, hf | hf⟩ | ⟨hd, hf⟩⟩
  · exact h.sound hc
  · have hlink := h.linked
    rw [Linked, h.tested ht, hf] at hlink
    cases hlink
  · have hlink := h.linked
    rw [Linked, h.tested ht, hf] at hlink
    cases hlink
  · have halive := h.inside hd
    rw [hf] at halive
    cases halive

/-- `loop()` does not touch `loop_`. -/
theorem linked_ofPc (p : LoopPc F) : (FuncPc.ofPc p).linked = true := by
  cases p <;> rfl

variable [DecidableEq Tid]

theorem Linked.next (h : s.Linked) (hact : s.Act e s') : s'.Linked := by
  cases hact with
  | start hd hf => simpa [Linked, hf, FuncPc.linked] using h
  | construct t hf => simpa [Linked, hf, FuncPc.linked] using h
  | publish hf => rfl
  | loop e l hf hstep =>
      show s.loop_ = (FuncPc.ofPc l.pc).linked
      rw [h, linked_ofPc]
      rcases hf with hf | hf <;> rw [hf] <;> rfl
  | clear hf => rfl
  | destroy hf => simpa [Linked, hf, FuncPc.linked] using h
  | _ => exact h

/-- A waiting step keeps the pointers of the destructor valid. -/
theorem Shaking.next (h : s.Shaking) (he : s.Waits e) (hact : s.Act e s') : s'.Shaking := by
  have hlinked := h.linked.next hact
  cases hact with
  | start hd hf => exact ⟨hlinked, by simp [hd], by simp [hd], h.sound⟩
  | startReturn => exact ⟨hlinked, h.tested, h.inside, h.sound⟩
  | construct t hf => exact ⟨hlinked, h.tested, fun _ => rfl, h.sound⟩
  | publish hf => exact ⟨hlinked, fun _ => rfl, fun _ => rfl, h.sound⟩
  | loop e l hf hstep =>
      exact ⟨hlinked, h.tested, fun _ => FuncPc.alive_of_linked (linked_ofPc l.pc), h.sound⟩
  | clear hf => exact ⟨hlinked, fun ht => absurd ht he, fun _ => rfl, h.sound⟩
  | destroy hf =>
      refine ⟨hlinked, h.tested, ?_, h.sound⟩
      rintro (hd | hd)
      · exact absurd hd he.1
      · exact absurd hd he.2
  | call t c l hf hstep => exact ⟨hlinked, h.tested, h.inside, h.sound⟩
  | dtorTest hd =>
      refine ⟨hlinked, fun ht => ?_, fun hq => ?_, ?_⟩
      · cases hl : s.loop_ <;> simp_all
      · cases hl : s.loop_ <;> simp [hl] at hq
      · cases hl : s.loop_ <;> simp
  | dtorRead t l hd hlink hstep =>
      refine ⟨hlinked, nofun, fun _ => FuncPc.alive_of_linked ?_, nofun⟩
      rw [← hlink]
      exact h.linked.symm
  | dtorStore t l hd hf hstep => exact ⟨hlinked, nofun, fun _ => hf, nofun⟩
  | dtorWakeup t l hd hf hstep => exact ⟨hlinked, nofun, by simp, nofun⟩
  | crash e hcase =>
      -- the pointers are valid, so nothing crashes
      exfalso
      rcases hcase with ⟨-, hd, hnull⟩ | ⟨-, hd, hdead⟩ | ⟨-, hd, hdead⟩
      · simp [h.tested hd] at hnull
      · simp [h.inside (.inl hd)] at hdead
      · simp [h.inside (.inr hd)] at hdead
  | dtorJoin hd => exact ⟨hlinked, nofun, by simp, nofun⟩

/-- A step that does not wait takes the pointer away. -/
theorem Shaking.shattered (h : s.Shaking) (he : ¬ s.Waits e) (hact : s.Act e s') :
    s'.Shattered := by
  refine ⟨h.linked.next hact, ?_⟩
  cases hact with
  | clear hf => exact .inr (.inl ⟨not_not.mp he, .inl rfl⟩)
  | destroy hf =>
      refine .inr (.inr ⟨?_, rfl⟩)
      by_contra hd
      exact he (not_or.mp hd)
  | crash e hcase =>
      rcases hcase with ⟨rfl, -⟩ | ⟨rfl, -⟩ | ⟨rfl, -⟩
      · exact absurd trivial he
      · exact absurd trivial he
      · exact absurd trivial he
  | _ => exact absurd trivial he

/-- A pointer that is gone stays gone. -/
theorem Shattered.next (h : s.Shattered) (hact : s.Act e s') : s'.Shattered := by
  refine ⟨h.linked.next hact, ?_⟩
  have hlinked := h.linked
  obtain ⟨-, hdamage⟩ := h
  cases hact with
  | start hd hf => simp [hd] at hdamage
  | startReturn => exact hdamage
  | construct t hf => simpa [hf] using hdamage
  | publish hf => simpa [hf] using hdamage
  | loop e l hf hstep =>
      refine hdamage.imp_right ?_
      rcases hf with hf | hf <;> simp [hf]
  | clear hf => exact .inl (by simpa [hf] using hdamage)
  | destroy hf =>
      rcases hdamage with hc | ⟨ht, -⟩ | ⟨hd, -⟩
      · exact .inl hc
      · exact .inr (.inl ⟨ht, .inr rfl⟩)
      · exact .inr (.inr ⟨hd, rfl⟩)
  | call t c l hf hstep => exact hdamage
  | dtorTest hd => simp [hd] at hdamage
  | dtorRead t l hd hlink hstep =>
      -- `loop_` was cleared, so the second read does not find it
      rw [Linked, hlink] at hlinked
      rcases hdamage with hc | ⟨-, hf | hf⟩ | ⟨hq, -⟩
      · simp [hd] at hc
      · simp [hf, FuncPc.linked] at hlinked
      · simp [hf, FuncPc.linked] at hlinked
      · simp [hd] at hq
  | dtorStore t l hd hf hstep =>
      rcases hdamage with hc | ⟨ht, -⟩ | ⟨-, hdead⟩
      · simp [hd] at hc
      · simp [hd] at ht
      · simp [hdead, FuncPc.alive] at hf
  | dtorWakeup t l hd hf hstep =>
      rcases hdamage with hc | ⟨ht, -⟩ | ⟨-, hdead⟩
      · simp [hd] at hc
      · simp [hd] at ht
      · simp [hdead, FuncPc.alive] at hf
  | crash e hcase => exact .inl rfl
  | dtorJoin hd => simp [hd] at hdamage

/-- With valid pointers the destructor goes to a live loop. -/
theorem Shaking.throughLive (h : s.Shaking) (hact : s.Act e s') : s.ThroughLive e s' := by
  cases hact with
  | dtorRead t l hd hlink hstep =>
      refine ⟨hlink, FuncPc.alive_of_linked ?_⟩
      rw [← hlink]
      exact h.linked.symm
  | dtorStore t l hd hf hstep => exact hf
  | dtorWakeup t l hd hf hstep => exact hf
  | crash e hcase =>
      exfalso
      rcases hcase with ⟨-, hd, hnull⟩ | ⟨-, hd, hdead⟩ | ⟨-, hd, hdead⟩
      · simp [h.tested hd] at hnull
      · simp [h.inside (.inl hd)] at hdead
      · simp [h.inside (.inr hd)] at hdead
  | _ => trivial

/-- A destructor that goes to a live loop does not crash. -/
theorem ThroughLive.sound (h : s.ThroughLive e s') (hs : s.dtor ≠ .crashed)
    (hact : s.Act e s') : s'.dtor ≠ .crashed := by
  cases hact with
  | dtorTest hd => cases hl : s.loop_ <;> simp
  | crash e hcase =>
      exfalso
      rcases hcase with ⟨rfl, -, hnull⟩ | ⟨rfl, -, hdead⟩ | ⟨rfl, -, hdead⟩
      · simp [h.1] at hnull
      · simp [show s.func.alive = true from h] at hdead
      · simp [show s.func.alive = true from h] at hdead
  | dtorRead => nofun
  | dtorStore => nofun
  | dtorWakeup => nofun
  | dtorJoin => nofun
  | _ => exact hs

end EventLoopThread

variable [DecidableEq Tid] {owner loopTid : Tid} {s t : EventLoopThread F Tid}

omit [DecidableEq Tid] in
theorem EventLoopThread.shaking_new :
    (EventLoopThread.new loopTid : EventLoopThread F Tid).Shaking :=
  ⟨rfl, nofun, by simp [EventLoopThread.new], nofun⟩

/-- **The shutdown handshake, exactly.**  If `threadFunc` waits for the destructor
in its two windows, no step of the destructor goes through a null pointer or into
a destroyed loop; and a run that leaves the destructor outside the handshake
with no such step is one in which `threadFunc` waited. -/
theorem handshake_iff {es : List (ThreadEvent F Tid)}
    (hinit : (threadMachine F owner loopTid).init s)
    (hrun : (threadMachine F owner loopTid).run s es = some t) :
    ((threadMachine F owner loopTid).Along EventLoopThread.Waits s es →
      (threadMachine F owner loopTid).Every EventLoopThread.ThroughLive s es) ∧
    (¬ t.Quitting → (threadMachine F owner loopTid).Every EventLoopThread.ThroughLive s es →
      (threadMachine F owner loopTid).Along EventLoopThread.Waits s es) := by
  obtain ⟨rfl, -⟩ := hinit
  constructor
  · intro hwaits
    refine Machine.every_of_along ?_ ?_ hwaits EventLoopThread.shaking_new
    · exact fun s e t hs _ ht => hs.throughLive (EventLoopThread.act_of_next ht)
    · exact fun s e t hs he ht => hs.next he (EventLoopThread.act_of_next ht)
  · intro hquitting hlive
    have hsound : t.dtor ≠ .crashed := by
      refine Machine.run_invariant_of_every (I := fun s => s.dtor ≠ .crashed) ?_ hlive hrun nofun
      exact fun s e t hs he ht => he.sound hs (EventLoopThread.act_of_next ht)
    have hexact : ¬ t.Shattered ↔ (threadMachine F owner loopTid).Along
        EventLoopThread.Waits (.new loopTid) es := by
      refine Machine.not_bad_iff_along (I := EventLoopThread.Shaking) (A := fun _ _ => True)
        ?_ ?_ ?_ ?_ (Machine.along_of_forall fun _ _ _ => trivial) hrun
        EventLoopThread.shaking_new
      · exact fun s e t hs _ he ht => hs.next he (EventLoopThread.act_of_next ht)
      · exact fun s e t hs _ he ht => hs.shattered he (EventLoopThread.act_of_next ht)
      · exact fun s e t hs _ ht => hs.next (EventLoopThread.act_of_next ht)
      · exact fun s hs => hs.not_shattered
    apply hexact.mp
    rintro ⟨-, hc | ⟨ht, -⟩ | ⟨hd, -⟩⟩
    · exact hsound hc
    · exact hquitting (.inl ht)
    · exact hquitting (.inr hd)

/-! ### Concrete runs -/

/-- A destructor whose `quit()` is over before the loop thread leaves `loop()`. -/
def leisurely : List (ThreadEvent Nat Nat) :=
  [.start, .construct, .publish, .startReturn, .loop .enterLoop, .loop .testQuit, .dtorTest,
    .dtorRead, .dtorStore, .dtorWakeup, .loop (.poll true), .loop .handleRead,
    .loop .handlersDone, .loop .swapFunctors, .loop .batchDone, .loop .testQuit, .clear,
    .destroy, .dtorJoin]

theorem handshake_leisurely :
    (threadMachine Nat 1 0).Every EventLoopThread.ThroughLive (.new 0) leisurely := by
  have hrun : ((threadMachine Nat 1 0).run (.new 0) leisurely).isSome := by decide +kernel
  have hguard : (threadMachine Nat 1 0).Along EventLoopThread.Waits (.new 0) leisurely := by
    decide +kernel
  exact (handshake_iff ⟨rfl, by decide⟩ (Option.some_get hrun).symm).1 hguard

/-- The destructor stores `quit_` while the loop thread is about to test it; the
thread leaves and destroys the loop before the wakeup. -/
def hurried : List (ThreadEvent Nat Nat) :=
  [.start, .construct, .publish, .startReturn, .loop .enterLoop, .dtorTest, .dtorRead,
    .dtorStore, .loop .testQuit, .clear, .destroy, .dtorWakeup]

/-- Another thread has called `quit()`, and `threadFunc` clears `loop_` between the
destructor's test of it and its second read. -/
def overtaken : List (ThreadEvent Nat Nat) :=
  [.start, .construct, .publish, .startReturn, .loop .enterLoop, .call 2 .quit,
    .call 2 .storeQuit, .call 2 .wakeup, .loop .testQuit, .dtorTest, .clear, .dtorRead]

/-- In the first run `wakeup()` goes into a destroyed loop, in the second `quit()`
is called through a null pointer. -/
theorem handshake_broken :
    (∃ s t, (threadMachine Nat 1 0).run (.new 0) (hurried.take 11) = some s ∧
      s.func = .destroyed ∧ s.dtor = .stored ∧
      (threadMachine Nat 1 0).next s .dtorWakeup = some t ∧ t.dtor = .crashed) ∧
    (∃ s t, (threadMachine Nat 1 0).run (.new 0) (overtaken.take 11) = some s ∧
      s.loop_ = false ∧ s.dtor = .tested ∧
      (threadMachine Nat 1 0).next s .dtorRead = some t ∧ t.dtor = .crashed) := by
  refine ⟨⟨_, _, rfl, ?_, ?_, rfl, ?_⟩, ⟨_, _, rfl, ?_, ?_, rfl, ?_⟩⟩ <;> decide +kernel

end Mymuduo
