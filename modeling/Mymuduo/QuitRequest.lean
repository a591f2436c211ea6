/-
Mymuduo/QuitRequest.lean

Whether a `quit()` survives until `loop()` returns.

`threadFunc` publishes the loop before it enters `loop()`, and the first thing
`loop()` does is to clear `quit_`.  A request stored in between is lost: the
thread polls on, and the join in `~EventLoopThread` waits for it.
`request_kept_iff` says that nothing else loses one.
-/
import Mymuduo.EventLoopThread
import Mymuduo.Wakeup

namespace Mymuduo

open Transition EventLoop

variable {F Tid : Type*} [DecidableEq Tid]

/-- The entry of `loop()`. -/
def ThreadEvent.entersLoop : ThreadEvent F Tid → Bool
  | .loop .enterLoop => true
  | _ => false

namespace EventLoopThread

variable {s s' : EventLoopThread F Tid} {e : ThreadEvent F Tid}

/-! ### What a request should meet -/

/-- The loop thread, if it is at `epoll_wait`, has something to read there or
will get it. -/
def Awoken (l : EventLoop F Tid) : Prop :=
  l.pc = .poll → l.wakeupFd_ ≠ 0 ∨ ∃ t, l.activity t = .quitStored

/-- What a step should leave: until `loop()` returns, a request finds `quit_` set
and the loop thread awake, so its next test of `quit_` is the last, and the
destructor joins a thread that has the request. -/
structure RequestKept (s : EventLoopThread F Tid) (e : ThreadEvent F Tid)
    (s' : EventLoopThread F Tid) : Prop where
  flag : s'.requested = true → s'.func.early = true → s'.stack.quit_ = true
  awoken : s'.requested = true → s'.func.early = true → Awoken s'.stack
  leaves : s.requested = true → s.func.early = true → e = .loop .testQuit →
    s'.func = .returned
  joined : s'.dtor = .joining → s'.func.early = true → s'.stack.quit_ = true

/-- `loop()` clears a flag that is not set. -/
def EntersUnset (s : EventLoopThread F Tid) (e : ThreadEvent F Tid) : Prop :=
  e.entersLoop = true → s.stack.quit_ = false

instance (s : EventLoopThread F Tid) (e : ThreadEvent F Tid) : Decidable (s.EntersUnset e) :=
  inferInstanceAs (Decidable (_ → _))

/-! ### The invariant -/

/-- What holds as long as `loop()` finds `quit_` unset. -/
structure Asking (s : EventLoopThread F Tid) : Prop where
  flag : s.func.early = true → (s.requested = true ↔ s.stack.quit_ = true)
  awoken : s.requested = true → s.func.early = true → Awoken s.stack
  fresh : s.func.alive = false → s.func.early = true → s.requested = false
  stored : s.dtor = .stored ∨ s.dtor = .joining → s.requested = true

/-- Calls other than the store leave `quit_` as it is. -/
theorem quit_call {l l' : EventLoop F Tid} {t : Tid} {c : Call F}
    (h : Step l (.call t c) l') : l'.quit_ = (l.quit_ || c.isStoreQuit) := by
  cases h with
  | push t f c hc huser hidle =>
      rw [queueInLoop_eq]
      rcases hc with rfl | ⟨rfl, -⟩ <;> simp [Call.isStoreQuit]
  | storeQuit t huser hact => simp [setActivity, Call.isStoreQuit]
  | _ => simp [setActivity, wakeup, Call.isStoreQuit]

/-- The loop thread is at `epoll_wait` after a call only if it was before. -/
theorem pc_call {l l' : EventLoop F Tid} {t : Tid} {c : Call F}
    (h : Step l (.call t c) l') : l'.pc = l.pc := by
  cases h with
  | push t f c hc huser hidle => rw [queueInLoop_eq]
  | _ => rfl

/-- A store of `quit_` owes a wakeup, unless the loop thread makes it. -/
theorem awoken_storeQuit {l l' : EventLoop F Tid} {t : Tid}
    (h : Step l (.call t .storeQuit) l') : Awoken l' := by
  cases h with
  | push t f c hc huser hidle => simp at hc
  | storeQuit t huser hact =>
      intro hpc
      refine .inr ⟨t, ?_⟩
      have hout : l.isInLoopThread t = false := by
        by_contra hin
        have := huser (by simpa using hin)
        rw [show l.pc = .poll from hpc] at this
        cases this
      simp [setActivity, hout]

/-- A call keeps the loop thread awake. -/
theorem Awoken.call {l l' : EventLoop F Tid} {t : Tid} {c : Call F} (h : Awoken l)
    (hstep : Step l (.call t c) l') : Awoken l' := by
  intro hpc
  have hawake := h (by rw [← pc_call hstep, hpc])
  cases hstep with
  | push t f c hc huser hidle =>
      rw [queueInLoop_eq]
      refine hawake.imp id fun ⟨t', ht'⟩ => ⟨t', ?_⟩
      dsimp only
      split
      · -- the pushing thread was idle, so it is not the one
        have hne : t' ≠ t := by
          rintro rfl
          rw [hidle] at ht'
          cases ht'
        rw [Function.update_of_ne hne, ht']
      · exact ht'
  | runInline t f hin huser => exact hawake
  | quit t huser hidle =>
      refine hawake.imp id fun ⟨t', ht'⟩ => ⟨t', ?_⟩
      have hne : t' ≠ t := by
        rintro rfl
        rw [hidle] at ht'
        cases ht'
      simp [setActivity, Function.update_of_ne hne, ht']
  | storeQuit t huser hact =>
      exact awoken_storeQuit (.storeQuit t huser hact) hpc
  | wakeupPushed t n huser hact => exact .inl (wakeup_ne_zero l)
  | wakeupQuit t huser hact => exact .inl (wakeup_ne_zero l)

/-- The store of a call sets the flag and the ghost together. -/
theorem Asking.call (h : s.Asking) {t : Tid} {c : Call F} {l : EventLoop F Tid} {d : DtorPc}
    (hf : c.isStoreQuit = true → s.func.alive = true) (hstep : Step s.stack (.call t c) l)
    (hd : d = .stored ∨ d = .joining → (s.requested || c.isStoreQuit) = true) :
    Asking { s with stack := l, dtor := d, requested := s.requested || c.isStoreQuit } where
  flag hearly := by
    simp only [quit_call hstep, Bool.or_eq_true, h.flag hearly]
  awoken hreq hearly := by
    by_cases hc : c.isStoreQuit = true
    · cases c with
      | storeQuit => exact awoken_storeQuit hstep
      | _ => cases hc
    · exact (h.awoken (by simpa [hc] using hreq) hearly).call hstep
  fresh hdead hearly := by
    rw [h.fresh hdead hearly, Bool.false_or]
    cases hc : c.isStoreQuit with
    | true => simp [hf hc] at hdead
    | false => rfl
  stored := hd

omit [DecidableEq Tid] in
theorem Asking.congr (h : s.Asking) {f : FuncPc} {d : DtorPc} {p : StartPc} {b x : Bool}
    (hf : f.early = true → s.func.early = true)
    (hfresh : f.alive = false → f.early = true → s.func.alive = false)
    (hd : d = .stored ∨ d = .joining → s.dtor = .stored ∨ s.dtor = .joining) :
    Asking { s with func := f, dtor := d, starter := p, loop_ := b, exiting_ := x } where
  flag hearly := h.flag (hf hearly)
  awoken hreq hearly := h.awoken hreq (hf hearly)
  fresh hdead hearly := h.fresh (hfresh hdead hearly) (hf hearly)
  stored hpc := h.stored (hd hpc)

/-- A step of `loop()` that finds `quit_` unset at its entry keeps the flag. -/
theorem Asking.loop (h : s.Asking) {e : LoopStep} {l : EventLoop F Tid}
    (hf : s.func = .published ∨ s.func = .running) (hstep : Step s.stack (.loop e) l)
    (he : s.EntersUnset (.loop e)) :
    Asking { s with stack := l, func := .ofPc l.pc } := by
  have hearly : s.func.early = true := by
    rcases hf with hf | hf <;> rw [hf] <;> rfl
  have hflag := h.flag hearly
  have hlive : ∀ p : LoopPc F, (FuncPc.ofPc p).alive = true := by
    intro p
    cases p <;> rfl
  refine ⟨fun _ => ?_, fun hreq _ hpc => ?_, fun hdead => ?_, h.stored⟩
  · cases hstep with
    | enterLoop hidle hpc =>
        rw [he rfl] at hflag
        exact hflag
    | _ => exact hflag
  · -- `epoll_wait` is entered only after a test that found no request
    cases hstep with
    | goOn hidle hpc' hq =>
        rw [hflag.mp hreq] at hq
        cases hq
    | _ => cases hpc
  · exact absurd (hlive l.pc) (by simp [hdead])

theorem Asking.next (h : s.Asking) (he : s.EntersUnset e) (hact : s.Act e s') : s'.Asking := by
  cases hact with
  | start hd hf => exact h.congr (by simp [hf, FuncPc.early]) (by simp [hf, FuncPc.alive]) id
  | startReturn => exact h.congr id (fun hdead _ => hdead) id
  | construct t hf =>
      have hfresh := h.fresh (by rw [hf]; rfl) (by rw [hf]; rfl)
      refine ⟨fun _ => by simp [hfresh, EventLoop.new], fun hreq => ?_, fun _ _ => hfresh, h.stored⟩
      exact absurd hreq (by simp [hfresh])
  | publish hf => exact h.congr (by simp [hf, FuncPc.early]) (by simp [FuncPc.alive]) id
  | loop e l hf hstep => exact h.loop hf hstep he
  | clear hf => exact h.congr (by simp [FuncPc.early]) (by simp [FuncPc.alive]) id
  | destroy hf => exact h.congr (by simp [FuncPc.early]) (by simp [FuncPc.early]) id
  | call t c l hf hstep =>
      exact h.call (fun _ => hf) hstep fun hd => by rw [h.stored hd]; rfl
  | dtorTest hd =>
      refine h.congr id (fun hdead _ => hdead) fun hpc => ?_
      cases hl : s.loop_ <;> simp [hl] at hpc
  | dtorRead t l hd hlink hstep =>
      have hnext := h.call (d := .quitting) (fun hc => by cases hc) hstep (by simp)
      simpa [Call.isStoreQuit] using hnext
  | dtorStore t l hd hf hstep =>
      have hnext := h.call (d := .stored) (fun _ => hf) hstep (by simp [Call.isStoreQuit])
      simpa [Call.isStoreQuit] using hnext
  | dtorWakeup t l hd hf hstep =>
      have hreq := h.stored (.inl hd)
      have hnext := h.call (d := .joining) (fun hc => by cases hc) hstep (by simp [hreq])
      simpa [Call.isStoreQuit] using hnext
  | crash e hcase => exact h.congr id (fun hdead _ => hdead) (by simp)
  | dtorJoin hd => exact h.congr id (fun hdead _ => hdead) (by simp)

/-! ### Exactness -/

/-- After an entry that clears a request, the request is not kept. -/
theorem Asking.not_kept (h : s.Asking) (he : ¬ s.EntersUnset e) (hact : s.Act e s') :
    ¬ s.RequestKept e s' := by
  intro hkept
  cases hact with
  | loop e l hf hstep =>
      cases hstep with
      | enterLoop hidle hpc =>
          have hearly : s.func.early = true := by
            rcases hf with hf | hf <;> rw [hf] <;> rfl
          have hquit : s.stack.quit_ = true := by
            simpa [EntersUnset, ThreadEvent.entersLoop] using he
          cases hkept.flag ((h.flag hearly).mpr hquit) rfl
      | _ => simp [EntersUnset, ThreadEvent.entersLoop] at he
  | crash e hcase =>
      rcases hcase with ⟨rfl, -⟩ | ⟨rfl, -⟩ | ⟨rfl, -⟩
      · simp [EntersUnset, ThreadEvent.entersLoop] at he
      · simp [EntersUnset, ThreadEvent.entersLoop] at he
      · simp [EntersUnset, ThreadEvent.entersLoop] at he
  | _ => simp [EntersUnset, ThreadEvent.entersLoop] at he

/-- In a state that unset entries lead to, the entry decides whether a request
is kept. -/
theorem Asking.kept_iff (h : s.Asking) (hact : s.Act e s') :
    s.RequestKept e s' ↔ s.EntersUnset e := by
  constructor
  · intro hkept
    by_contra he
    exact h.not_kept he hact hkept
  · intro he
    have hnext := h.next he hact
    refine ⟨fun hreq hearly => (hnext.flag hearly).mp hreq, hnext.awoken, ?_,
      fun hd hearly => (hnext.flag hearly).mp (hnext.stored (.inr hd))⟩
    rintro hreq hearly rfl
    cases hact with
    | loop e l hf hstep =>
        cases hstep with
        | goOn hidle hpc hq =>
            rw [(h.flag hearly).mp hreq] at hq
            cases hq
        | leave hidle hpc hq => rfl
    | crash e hcase => simp at hcase

end EventLoopThread

variable {owner loopTid : Tid} {s t : EventLoopThread F Tid}

/-- **A quit request is lost only at the entry of `loop()`.**  Every step of a
run keeps the requests, until `loop()` returns, exactly when `loop()` is entered
with `quit_` unset. -/
theorem request_kept_iff {es : List (ThreadEvent F Tid)}
    (hinit : (threadMachine F owner loopTid).init s)
    (hrun : (threadMachine F owner loopTid).run s es = some t) :
    (threadMachine F owner loopTid).Every EventLoopThread.RequestKept s es ↔
      (threadMachine F owner loopTid).Along EventLoopThread.EntersUnset s es := by
  refine Machine.every_iff_along (I := EventLoopThread.Asking) (A := fun _ _ => True) ?_ ?_
    (Machine.along_of_forall fun _ _ _ => trivial) hrun ?_
  · exact fun s e t hs _ ht => hs.kept_iff (EventLoopThread.act_of_next ht)
  · exact fun s e t hs _ he ht => hs.next he (EventLoopThread.act_of_next ht)
  · obtain ⟨rfl, -⟩ := hinit
    exact ⟨fun _ => by simp [EventLoopThread.new, EventLoop.new], nofun, fun _ _ => rfl, nofun⟩

/-! ### Concrete runs -/

/-- The owner destroys the object while the loop thread is in `epoll_wait`. -/
def quitWhilePolling : List (ThreadEvent Nat Nat) :=
  [.start, .construct, .publish, .startReturn, .loop .enterLoop, .loop .testQuit, .dtorTest,
    .dtorRead, .dtorStore, .dtorWakeup, .loop (.poll true), .loop .handleRead,
    .loop .handlersDone, .loop .swapFunctors, .loop .batchDone, .loop .testQuit, .clear,
    .destroy, .dtorJoin]

theorem request_kept_while_polling :
    (threadMachine Nat 1 0).Every EventLoopThread.RequestKept (.new 0) quitWhilePolling := by
  have hrun : ((threadMachine Nat 1 0).run (.new 0) quitWhilePolling).isSome := by
    decide +kernel
  have hguard : (threadMachine Nat 1 0).Along EventLoopThread.EntersUnset (.new 0)
      quitWhilePolling := by decide +kernel
  exact (request_kept_iff ⟨rfl, by decide⟩ (Option.some_get hrun).symm).mpr hguard

/-- The owner destroys the object between the publication of the loop and the
entry of `loop()`; the loop thread wakes up once and goes back to
`epoll_wait`. -/
def quitBeforeLoop : List (ThreadEvent Nat Nat) :=
  [.start, .construct, .publish, .startReturn, .dtorTest, .dtorRead, .dtorStore, .dtorWakeup,
    .loop .enterLoop, .loop .testQuit, .loop (.poll true), .loop .handleRead,
    .loop .handlersDone, .loop .swapFunctors, .loop .batchDone, .loop .testQuit]

/-- The request is gone: the thread is at `epoll_wait` with nothing to read and
no wakeup to come, and the owner is in `join`. -/
theorem request_lost_before_loop :
    ∃ t, (threadMachine Nat 1 0).run (.new 0) quitBeforeLoop = some t ∧
      t.requested = true ∧ t.func = .running ∧ t.dtor = .joining ∧ t.stack.pc = .poll ∧
      t.stack.quit_ = false ∧ t.stack.wakeupFd_ = 0 ∧ t.stack.activity 1 = .idle := by
  have hrun : ((threadMachine Nat 1 0).run (.new 0) quitBeforeLoop).isSome := by
    decide +kernel
  refine ⟨_, (Option.some_get hrun).symm, ?_⟩
  decide +kernel +revert

end Mymuduo
