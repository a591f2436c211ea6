/-
Mymuduo/Rest.lean

A server that is left alone comes to rest.

Take any state of a server in service in which nobody has called `quit`, and let no more
connections, events or calls arrive.  The threads then have no more steps than there is
`work` (Work.lean), whatever the kernel answers and in whatever order they run; and as
long as one of the loops is not blocked in `epoll_wait` with an empty queue, or a thread
is in the middle of a call, somebody has a step (`atRest_iff_blocked`).  No lock is
waited for, no functor is stranded, and no two loops keep each other busy.

At the end nothing is left to do, so every connection is all there or all gone.
-/
import Mymuduo.Departure
import Mymuduo.Work

namespace Mymuduo

open Transition

/-! ### One loop -/

namespace EventLoop

variable {F Tid : Type*} [DecidableEq Tid] {l l' : EventLoop F Tid} {e : LoopEvent F Tid}

/-- Nobody has told the loop to quit, and its thread is in a call only where it runs user
code. -/
structure Undisturbed (l : EventLoop F Tid) : Prop where
  quit : l.quit_ = false
  activity : ∀ t, l.activity t = .idle ∨ ∃ n, l.activity t = .pushed n
  idle : l.pc.userCode = false → l.activity l.threadId_ = .idle

/-- A call step leaves the loop thread idle where it runs no user code. -/
theorem Undisturbed.setActivity (h : l.Undisturbed) {t : Tid} {a : Activity}
    (ha : a = .idle ∨ ∃ n, a = .pushed n)
    (huser : l.isInLoopThread t = true → l.pc.userCode = true) :
    (l.setActivity t a).Undisturbed := by
  refine ⟨h.quit, fun t' => ?_, fun hpc => ?_⟩
  · rw [EventLoop.setActivity]
    dsimp only
    by_cases ht : t' = t
    · subst ht
      rwa [Function.update_self]
    · rw [Function.update_of_ne ht]
      exact h.activity t'
  · have hne : l.threadId_ ≠ t := by
      intro heq
      have hcode : l.pc.userCode = true := huser (decide_eq_true heq.symm)
      have hnot : l.pc.userCode = false := hpc
      rw [hcode] at hnot
      cases hnot
    show Function.update l.activity t a l.threadId_ = .idle
    rw [Function.update_of_ne hne]
    exact h.idle hpc

omit [DecidableEq Tid] in
theorem Undisturbed.congr (h : l.Undisturbed) (hquit : l'.quit_ = l.quit_)
    (hact : l'.activity = l.activity) (hthread : l'.threadId_ = l.threadId_) (hpc : l'.pc = l.pc) :
    l'.Undisturbed := by
  refine ⟨hquit.trans h.quit, ?_, ?_⟩
  · rw [hact]
    exact h.activity
  · rw [hact, hthread, hpc]
    exact h.idle

theorem Undisturbed.step (h : l.Undisturbed) (hstep : Step l e l')
    (he : ∀ t, e ≠ .call t .quit) : l'.Undisturbed := by
  have hno : ∀ t a, l.activity t = a → a ≠ .quitting ∧ a ≠ .quitStored := by
    rintro t a rfl
    rcases h.activity t with ht | ⟨n, ht⟩ <;> simp [ht]
  cases hstep with
  | enterLoop hidle hpc => exact ⟨rfl, h.activity, fun _ => hidle⟩
  | goOn hidle hpc hq => exact ⟨h.quit, h.activity, fun _ => hidle⟩
  | leave hidle hpc hq => exact ⟨h.quit, h.activity, fun _ => hidle⟩
  | poll b hidle hpc hready => exact ⟨h.quit, h.activity, fun _ => hidle⟩
  | handleRead hidle hpc => exact ⟨h.quit, h.activity, fun _ => hidle⟩
  | handlersDone hidle hpc => exact ⟨h.quit, h.activity, fun _ => hidle⟩
  | swapFunctors hidle hpc => exact ⟨h.quit, h.activity, fun _ => hidle⟩
  | startFunctor q rest hidle hpc => exact ⟨h.quit, h.activity, fun _ => hidle⟩
  | functorDone q rest hidle hpc => exact ⟨h.quit, h.activity, fun _ => hidle⟩
  | batchDone hidle hpc => exact ⟨h.quit, h.activity, fun _ => hidle⟩
  | push t f c hc huser hidle =>
      rw [queueInLoop_eq]
      split
      · have hpushed := h.setActivity (t := t) (a := .pushed l.history.length) (.inr ⟨_, rfl⟩) huser
        exact hpushed.congr rfl rfl rfl rfl
      · exact h.congr rfl rfl rfl rfl
  | runInline t f hin huser => exact h
  | quit t huser hidle => exact absurd rfl (he t)
  | storeQuit t huser hact => exact absurd rfl (hno t _ hact).1
  | wakeupPushed t n huser hact =>
      exact (h.setActivity (t := t) (.inl rfl) huser).congr rfl rfl rfl rfl
  | wakeupQuit t huser hact => exact absurd rfl (hno t _ hact).2

theorem Undisturbed.posts (h : l.Undisturbed) (t : Tid) (fs : List F) :
    (l.posts t fs).Undisturbed := by
  induction fs generalizing l with
  | nil => exact h
  | cons f fs ih =>
      refine ih (h.congr ?_ ?_ (l.post_threadId t f) (l.post_pc t f))
      all_goals
        unfold post
        dsimp only
        split <;> rfl

/-- A loop thread that is in no call goes on, unless it waits for events. -/
theorem Undisturbed.exists_goes (h : l.Undisturbed) (hidle : l.activity l.threadId_ = .idle)
    (hmore : l.pc = .poll → l.due = true) : ∃ e l', l.Goes e ∧ l.next (.loop e) = some l' := by
  have hnext : ∀ {e l'}, l.loopNext e = some l' → l.next (.loop e) = some l' := by
    intro e l' hl'
    rw [next, if_pos hidle, hl']
  cases hpc : l.pc with
  | outside => exact ⟨.enterLoop, _, trivial, hnext (by rw [loopNext, hpc])⟩
  | test => exact ⟨.testQuit, _, h.quit, hnext (by rw [loopNext, hpc, h.quit]; rfl)⟩
  | poll =>
      let b := decide (l.wakeupFd_ ≠ 0)
      have hgoes : l.Goes (.poll b) := ⟨rfl, hmore hpc⟩
      have hpoll : l.loopNext (.poll b) = some { l with pc := .handlers b } := by
        simp [loopNext, hpc, b]
      exact ⟨.poll b, _, hgoes, hnext hpoll⟩
  | handlers b =>
      cases b with
      | true => exact ⟨.handleRead, _, trivial, hnext (by rw [loopNext, hpc])⟩
      | false => exact ⟨.handlersDone, _, trivial, hnext (by rw [loopNext, hpc])⟩
  | swap => exact ⟨.swapFunctors, _, trivial, hnext (by rw [loopNext, hpc])⟩
  | batch rest =>
      cases rest with
      | nil => exact ⟨.batchDone, _, trivial, hnext (by rw [loopNext, hpc])⟩
      | cons q rest => exact ⟨.startFunctor, _, trivial, hnext (by rw [loopNext, hpc])⟩
  | functor q rest => exact ⟨.functorDone, _, trivial, hnext (by rw [loopNext, hpc])⟩

/-- A call that owes its wakeup goes on. -/
theorem Undisturbed.exists_wakeup (h : l.Undisturbed) {t : Tid} (hact : l.activity t ≠ .idle) :
    ∃ l', l.next (.call t .wakeup) = some l' := by
  obtain ⟨n, hpushed⟩ := (h.activity t).resolve_left hact
  have huser : ¬ (l.isInLoopThread t = true ∧ l.pc.userCode = false) := by
    rintro ⟨hin, hcode⟩
    rw [show t = l.threadId_ from of_decide_eq_true hin] at hact
    exact hact (h.idle hcode)
  exact ⟨_, by rw [next, if_neg huser, callNext, hpushed]⟩

end EventLoop

namespace ServerSystem

variable {ι α : Type*} [DecidableEq ι] [DecidableEq α] {s t : ServerSystem ι α}
  {e : ServerEvent ι α}

/-! ### The loops of a server -/

/-- What a step makes of loop `l`: functors are queued, its thread goes on, or a call
does. -/
inductive Stirs (s : ServerSystem ι α) (e : ServerEvent ι α) (l : ι) :
    EventLoop ServerFunctor (Thread ι α) → Prop
  | posts (th : Thread ι α) (fs : List ServerFunctor) : Stirs s e l ((s.loops l).posts th fs)
  | loop (le : LoopStep) (ready : List (Int × Mask)) (x : EventLoop ServerFunctor (Thread ι α))
      (he : e = .loop l le ready) (hx : (s.loops l).Step (.loop le) x) : Stirs s e l x
  | call (th : Thread ι α) (c : Call ServerFunctor) (x : EventLoop ServerFunctor (Thread ι α))
      (he : e = .call l th c) (hx : (s.loops l).Step (.call th c) x) : Stirs s e l x

theorem stirs_of_moves (hm : s.Moves e t) (l : ι) : s.Stirs e l (t.loops l) := by
  have hsame : s.Stirs e l (s.loops l) := .posts (.loop l) []
  -- a step that changes one loop
  have hset : ∀ l' x, (l' = l → s.Stirs e l x) → s.Stirs e l (Function.update s.loops l' x l) := by
    intro l' x hx
    by_cases hl : l = l'
    · subst hl
      rw [Function.update_self]
      exact hx rfl
    · rw [Function.update_of_ne hl]
      exact hsame
  have hposts : ∀ l' th fs,
      s.Stirs e l (Function.update s.loops l' ((s.loops l').posts th fs) l) := by
    refine fun l' th fs => hset l' _ ?_
    rintro rfl
    exact .posts th fs
  have hrun : ∀ (u : ServerSystem ι α) l' th f, u.loops = s.loops →
      s.Stirs e l ((u.runInLoop l' th f).loops l) := by
    intro u l' th f hu
    unfold ServerSystem.runInLoop
    split
    · rw [show (u.setTodo l' _).loops = s.loops from hu]
      exact hsame
    · show s.Stirs e l (Function.update u.loops l' ((u.loops l').post th f) l)
      rw [hu]
      exact hposts l' th [f]
  cases hm with
  | loop l' le ready x hidle htodo hactive hx =>
      refine hset l' x ?_
      rintro rfl
      exact .loop le ready x rfl (EventLoop.step_of_next hx)
  | dispatch l' c revents rest hidle htodo hactive => exact hposts _ _ _
  | task l' env k rest hidle htodo hk =>
      cases k with
      | call m c => exact hposts _ _ _
      | queueDestroyed c => exact hposts _ _ [.connectDestroyed c]
      | closeCallback c => exact hrun (s.setTodo l' rest) _ _ _ rfl
      | _ => exact hsame
  | accept sockfd wc hw mark hphase htodo => exact hrun (s.construct sockfd wc hw mark) _ _ _ rfl
  | sendHere th w c data hcall hin => exact hposts _ _ _
  | sendThere th w c data hcall hout => exact hposts _ _ [.sendInLoop c data.length]
  | shutdownHere th w c hcall hin => exact hposts _ _ _
  | shutdownThere th w c hcall hout => exact hposts _ _ [.shutdownInLoop c]
  | retrieve l' c len hidle hguard => exact hposts _ _ _
  | call l' th c x hc hx =>
      refine hset l' x ?_
      rintro rfl
      exact .call th c x rfl (EventLoop.step_of_next hx)
  | destroyEntry c hidle hhead hcount htable =>
      exact hrun { s with server := s.server.erase (s.conn c).name } _ _ _ rfl
  | _ => exact hsame

/-- Nobody calls `quit`. -/
def Unquit : ServerEvent ι α → Prop
  | .call _ _ c => c ≠ .quit
  | _ => True

/-- No loop has been told to quit, and channels are active only while they are handled. -/
structure Unhindered (s : ServerSystem ι α) : Prop where
  loops : ∀ l, (s.loops l).Undisturbed
  active : ∀ l, s.active l ≠ [] → (s.loops l).pc.inHandlers = true

theorem undisturbed_of_stirs {l : ι} {x : EventLoop ServerFunctor (Thread ι α)}
    (h : (s.loops l).Undisturbed) (he : Unquit e) (hx : s.Stirs e l x) : x.Undisturbed := by
  cases hx with
  | posts th fs => exact h.posts th fs
  | loop le ready x he' hstep => exact h.step hstep (by simp)
  | call th c x he' hstep =>
      subst he'
      refine h.step hstep fun th' heq => he ?_
      cases heq
      rfl

/-- Only its own steps take a loop thread out of the handlers. -/
theorem inHandlers_of_stirs {l : ι} {x : EventLoop ServerFunctor (Thread ι α)}
    (hx : s.Stirs e l x) (he : ∀ le ready, e = .loop l le ready → le = .handleRead)
    (h : (s.loops l).pc.inHandlers = true) : x.pc.inHandlers = true := by
  cases hx with
  | posts th fs =>
      rw [((s.loops l).posted_posts th fs).pc]
      exact h
  | loop le ready x he' hstep =>
      obtain rfl := he le ready he'
      cases hstep with
      | handleRead hidle hpc => rfl
  | call th c x he' hstep =>
      cases hstep with
      | push t f c hc huser hidle =>
          rw [EventLoop.queueInLoop_eq]
          exact h
      | _ => exact h

theorem Unhindered.step (h : s.Unhindered) (he : Unquit e) (hm : s.Moves e t) :
    t.Unhindered := by
  refine ⟨fun l => undisturbed_of_stirs (h.loops l) he (stirs_of_moves hm l), fun l hactive => ?_⟩
  obtain ⟨p, hp⟩ := List.exists_mem_of_ne_nil _ hactive
  rcases active_of_moves hm hp with hold | ⟨-, ⟨b, ready, rfl⟩, -⟩
  · refine inHandlers_of_stirs (stirs_of_moves hm l) ?_ (h.active l (List.ne_nil_of_mem hold))
    rintro le ready rfl
    cases hm with
    | loop _ _ _ x hidle htodo hnil hx => exact hnil.resolve_right (List.ne_nil_of_mem hold)
  · -- the active channels are those that this poll has found
    cases hm with
    | loop _ _ _ x hidle htodo hnil hx =>
        show (Function.update s.loops l x l).pc.inHandlers = true
        rw [Function.update_self]
        cases EventLoop.step_of_next hx with
        | poll _ hidle' hpc hready => rfl

theorem unhindered_of_init (hinit : (serverMachine ι α).init s) : s.Unhindered := by
  obtain ⟨-, -, -, hloops, -, hactive, -⟩ := hinit
  refine ⟨fun l => ?_, fun l hne => absurd (hactive l) hne⟩
  rw [hloops]
  exact ⟨rfl, fun _ => .inl rfl, fun _ => rfl⟩

/-! ### Rest -/

/-- All loops wait for events, and no thread has anything else to do. -/
structure Blocked (s : ServerSystem ι α) : Prop where
  poll : ∀ l, (s.loops l).pc = .poll
  queue : ∀ l, (s.loops l).pendingFunctors_ = []
  unread : ∀ l, (s.loops l).wakeupFd_ = 0
  done : ∀ l, s.todo l = [] ∧ s.active l = []
  calling : ∀ th, s.calling th = .idle
  activity : ∀ l th, (s.loops l).activity th = .idle

omit [DecidableEq ι] [DecidableEq α] in
theorem Blocked.idle (h : s.Blocked) : s.Idle := by
  refine fun l => ⟨(h.done l).1, ?_⟩
  rw [EventLoop.functors, EventLoop.pending, h.queue, EventLoop.batch, h.poll]
  rfl

/-- The steps of the threads by themselves, with answers within `ok`. -/
def Settles (ok : WriteResult → Prop) (s : ServerSystem ι α) (e : ServerEvent ι α) : Prop :=
  s.Settling e ∧ s.Answered ok e

omit [DecidableEq ι] [DecidableEq α] in
theorem Blocked.not_due (h : s.Blocked) (l : ι) : (s.loops l).due = false := by
  simp [EventLoop.due, h.queue l, h.unread l]

theorem Blocked.atRest {ok : WriteResult → Prop} (h : s.Blocked) :
    (serverMachine ι α).AtRest (Settles ok) s := by
  rintro e ⟨hsettling, -⟩
  by_contra hne
  obtain ⟨t, ht⟩ := Option.ne_none_iff_exists'.mp hne
  cases moves_of_next ht with
  | loop l le ready x hidle htodo hactive hx =>
      have hpoll := h.poll l
      cases EventLoop.step_of_next hx with
      | poll b hidle' hpc hready =>
          have hdue : (s.loops l).due = true := hsettling.1.2
          rw [h.not_due] at hdue
          cases hdue
      | _ => simp_all
  | dispatch l c revents rest hidle htodo hactive =>
      rw [(h.done l).2] at hactive
      cases hactive
  | task l env k rest hidle htodo hk =>
      rw [(h.done l).1] at htodo
      cases htodo
  | sendHere th w c data hcall hin => rw [h.calling] at hcall; cases hcall
  | sendThere th w c data hcall hout => rw [h.calling] at hcall; cases hcall
  | store th w c hcall => rw [h.calling] at hcall; cases hcall
  | shutdownHere th w c hcall hin => rw [h.calling] at hcall; cases hcall
  | shutdownThere th w c hcall hout => rw [h.calling] at hcall; cases hcall
  | call l th c x hc hx =>
      obtain rfl : c = .wakeup := hsettling
      have hidle := h.activity l th
      cases EventLoop.step_of_next hx with
      | push _ f _ hc huser hidle => simp at hc
      | wakeupPushed _ n huser hact => rw [hidle] at hact; cases hact
      | wakeupQuit _ huser hact => rw [hidle] at hact; cases hact
  | _ => exact hsettling

section Stuck

variable {ok : WriteResult → Prop} {w : WriteResult}
  (hrest : (serverMachine ι α).AtRest (Settles ok) s)
include hrest

theorem calling_of_atRest (hok : ok w) (th : Thread ι α) : s.calling th = .idle := by
  have hnone : s.proceedNext th w = none := hrest (.proceed th w) ⟨trivial, hok⟩
  cases hcall : s.calling th with
  | idle => rfl
  | sendFound c data =>
      simp only [proceedNext, hcall] at hnone
      split at hnone <;> cases hnone
  | shutdownFound c => simp [proceedNext, hcall] at hnone
  | shutdownStored c =>
      simp only [proceedNext, hcall] at hnone
      split at hnone <;> cases hnone

theorem activity_of_atRest (h : s.Unhindered) (l : ι) (th : Thread ι α) :
    (s.loops l).activity th = .idle := by
  by_contra hact
  obtain ⟨x, hx⟩ := (h.loops l).exists_wakeup hact
  have hnone : ((s.loops l).next (.call th .wakeup)).map (s.setLoop l) = none :=
    hrest (.call l th .wakeup) ⟨rfl, trivial⟩
  rw [hx] at hnone
  cases hnone

theorem todo_of_atRest (hs : s.Steady) {l : ι} (hcall : s.calling (.loop l) = .idle) :
    s.todo l = [] := by
  have hnone : (serverMachine ι α).next s (.task l quietTask) = none := hrest _ ⟨trivial, trivial⟩
  cases htodo : s.todo l with
  | nil => rfl
  | cons k rest =>
      have hk : k ≠ .destructor := by
        rintro rfl
        exact hs.standing l (by simp [htodo])
      simp only [serverMachine, next, htodo] at hnone
      rw [if_pos ⟨hcall, hk⟩] at hnone
      cases hnone

theorem active_of_atRest (h : s.Unhindered) {l : ι} (hcall : s.calling (.loop l) = .idle)
    (htodo : s.todo l = []) : s.active l = [] := by
  have hnone : (serverMachine ι α).next s (.dispatch l) = none := hrest _ ⟨trivial, trivial⟩
  cases hactive : s.active l with
  | nil => rfl
  | cons p rest =>
      have hpc := h.active l (by simp [hactive])
      simp only [serverMachine, next, hactive] at hnone
      rw [if_pos ⟨hcall, htodo, hpc⟩] at hnone
      cases hnone

theorem poll_of_atRest (h : s.Unhindered) (hs : s.Steady) {l : ι}
    (hcall : s.calling (.loop l) = .idle) (htodo : s.todo l = []) (hactive : s.active l = [])
    (hact : (s.loops l).activity (.loop l) = .idle) :
    (s.loops l).pc = .poll ∧ (s.loops l).due = false := by
  by_contra hmore
  have hidle : (s.loops l).activity (s.loops l).threadId_ = .idle := by
    rw [hs.homed.thread l]
    exact hact
  obtain ⟨le, x, hgoes, hx⟩ := (h.loops l).exists_goes hidle fun hpc =>
    Bool.eq_true_of_not_eq_false fun hdue => hmore ⟨hpc, hdue⟩
  have hnone : s.loopNext l le [] = none := hrest (.loop l le []) ⟨⟨hgoes, rfl⟩, trivial⟩
  rw [loopNext, if_pos ⟨hcall, htodo, .inr hactive⟩, hx] at hnone
  cases hnone

end Stuck

/-- **Nobody is stuck.**  The threads have no step just when all loops wait for events. -/
theorem atRest_iff_blocked {ok : WriteResult → Prop} {w : WriteResult} (hok : ok w)
    (h : s.Unhindered) (hs : s.Steady) :
    (serverMachine ι α).AtRest (Settles ok) s ↔ s.Blocked := by
  refine ⟨fun hrest => ?_, Blocked.atRest⟩
  have hcall := calling_of_atRest hrest hok
  have hact := activity_of_atRest hrest h
  have htodo : ∀ l, s.todo l = [] := fun l => todo_of_atRest hrest hs (hcall _)
  have hactive : ∀ l, s.active l = [] := fun l => active_of_atRest hrest h (hcall _) (htodo l)
  have hpoll := fun l => poll_of_atRest hrest h hs (hcall _) (htodo l) (hactive l) (hact l _)
  have hquiet : ∀ l, (s.loops l).wakeupFd_ = 0 ∧ (s.loops l).pendingFunctors_ = [] := by
    intro l
    simpa [EventLoop.due] using (hpoll l).2
  exact ⟨fun l => (hpoll l).1, fun l => (hquiet l).2, fun l => (hquiet l).1,
    fun l => ⟨htodo l, hactive l⟩, hcall, hact⟩

omit [DecidableEq ι] [DecidableEq α] in
/-- By themselves the threads do nothing irregular. -/
theorem Settles.regular {ok : WriteResult → Prop} (h : s.Settles ok e) :
    s.Regular ok e ∧ Unquit e := by
  obtain ⟨hsettling, hanswered⟩ := h
  cases e with
  | call l th c =>
      obtain rfl : c = .wakeup := hsettling
      exact ⟨⟨trivial, trivial, trivial, trivial⟩, by simp [Unquit]⟩
  | loop l le ready => exact ⟨⟨trivial, trivial, trivial, trivial⟩, trivial⟩
  | dispatch l => exact ⟨⟨trivial, trivial, trivial, trivial⟩, trivial⟩
  | task l env => exact ⟨⟨trivial, trivial, trivial, trivial⟩, trivial⟩
  | proceed th w => exact ⟨⟨trivial, trivial, trivial, hanswered⟩, trivial⟩
  | _ => exact hsettling.elim

/-- What holds in a server in service that nobody has told to quit. -/
structure Serviceable (ok : WriteResult → Prop) (s : ServerSystem ι α) : Prop where
  hosted : s.Hosted ok
  attended : s.Attended
  unhindered : s.Unhindered

theorem Serviceable.run {ok : WriteResult → Prop} {es : List (ServerEvent ι α)}
    (h : s.Serviceable ok)
    (hregular : (serverMachine ι α).Along (fun s e => s.Regular ok e ∧ Unquit e) s es)
    (hrun : (serverMachine ι α).run s es = some t) : t.Serviceable ok := by
  refine Machine.run_invariant (I := Serviceable ok) (fun s e t hs he ht => ?_) hregular hrun h
  obtain ⟨⟨hservice, hhome, hfree, hanswered⟩, hunquit⟩ := he
  have hm := moves_of_next ht
  exact ⟨hs.hosted.step hm hservice hhome hfree hanswered, hs.attended.step hs.hosted hm,
    hs.unhindered.step hunquit hm⟩

instance : (e : ServerEvent ι α) → Decidable (Unquit e)
  | .call _ _ c => inferInstanceAs (Decidable (c ≠ .quit))
  | .loop _ _ _ | .dispatch _ | .task _ _ | .accept _ _ _ _ | .send _ _ _ | .shutdown _ _
  | .proceed _ _ | .copy _ _ _ | .release _ _ | .retrieve _ _ _ | .destroy | .destroyEntry _
  | .destroyed => isTrue trivial

end ServerSystem

end Mymuduo
