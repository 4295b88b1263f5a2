import SimpleHttpServer.Lib.Machine
import SimpleHttpServer.Basic

/-!
# `EventLoop`: pending functors and wakeups

Model of `loop`, `quit`, `runInLoop`, `queueInLoop`, `wakeup`, `handleRead` and `doPendingFunctors`
(`net/EventLoop.cpp`). The loop thread and any number `T` of other threads share `quit_`,
`pendingFunctors_`, `callingPendingFunctors_` and the eventfd. Each atomic access is a step, so a
run of `machine` is an interleaving. `pc` is where the loop thread is in `loop()` and
`doPendingFunctors()`; while it is in an event handler or in a functor, that code may call
`queueInLoop` and `quit` too. `runInLoop` is `queueInLoop` on another thread, and queues nothing on
the loop thread.

* `next_queue`: the only step that takes a functor off the queue starts it, and takes the first;
* `Inv` is the invariant of the wakeups: if functors are pending, something still to come before
  the loop thread sleeps will make it swap them in;
* **`pending_functors_intact`**: no functor is lost, duplicated or reordered, and none is slept on.

Left out: what `poll` reports of other channels (`EPollPoller`) and what handlers and functors do
besides these calls; `timerQueue_` (`TimerQueue`); `looping_`, which nothing reads, and the log.
-/

namespace SimpleHttpServer

open Lib

/-- Where the loop thread is. -/
inductive LoopPc (F : Type*) where
  /-- Not in `loop()`. -/
  | outside
  /-- `looping_ = true` is done, `quit_ = false` is next. -/
  | entered
  /-- At `while (!quit_)`. -/
  | testing
  /-- In `poller_->poll`. -/
  | polling
  /-- Handling the active channels; `woken`: `wakeupChannel_` is active and not handled yet. -/
  | dispatching (woken : Bool)
  /-- `callingPendingFunctors_ = true` is done, the swap is next. -/
  | swapping
  /-- Between two functors; these are still to run. -/
  | iterating (rest : List F)
  /-- In a functor; these are still to run. -/
  | running (rest : List F)
  deriving DecidableEq

namespace LoopPc

variable {F : Type*}

/-- The loop thread is in `loop()`. -/
def inLoop : LoopPc F → Bool
  | .outside => false
  | _ => true

/-- An event handler or a functor is running. -/
def inUserCode : LoopPc F → Bool
  | .dispatching _ | .running _ => true
  | _ => false

/-- Between the two stores of `callingPendingFunctors_`. -/
def inFunctors : LoopPc F → Bool
  | .swapping | .iterating _ | .running _ => true
  | _ => false

/-- The swap comes before the next `poll`. -/
def swapsNext : LoopPc F → Bool
  | .dispatching _ | .swapping => true
  | _ => false

/-- The functors swapped out and not yet started. -/
def swapped : LoopPc F → List F
  | .iterating rest | .running rest => rest
  | _ => []

/-- The functor the loop thread starts next. -/
def starts : LoopPc F → List F
  | .iterating (f :: _) => [f]
  | _ => []

theorem swapsNext_of_handler {pc : LoopPc F} (hin : pc.inUserCode = true)
    (hout : pc.inFunctors = false) : pc.swapsNext = true := by
  cases pc with
  | dispatching woken => rfl
  | running rest => simp [inFunctors] at hout
  | _ => simp [inUserCode] at hin

end LoopPc

/-- Where a thread is in `queueInLoop` or `quit`. -/
inductive CallStage where
  | idle
  /-- The functor is pushed. -/
  | pushed
  /-- `wakeup()` is next, after a test of `callingPendingFunctors_` or the store of `quit_`. -/
  | waking
  deriving DecidableEq, Repr

/-- The shared state, where each thread is, and the functors pushed and started so far. -/
structure EventLoop (T F : Type*) where
  looping : Bool
  quit : Bool
  callingPendingFunctors : Bool
  pendingFunctors : List F
  /-- The counter of the eventfd. -/
  wakeupFd : Nat
  pc : LoopPc F
  /-- The loop thread's own call. -/
  self : CallStage
  /-- The other threads' calls. -/
  callers : T → CallStage
  pushes : List F
  executed : List F

/-- The steps of the loop thread and of the others. -/
inductive LoopAction (T F : Type*) where
  /-- The next step of `loop()`; `woken`: `poll` reports `wakeupChannel_`. -/
  | advance (woken : Bool)
  /-- The loop thread pushes `f` in `queueInLoop`. -/
  | selfPush (f : F)
  /-- It reads `callingPendingFunctors_`. -/
  | selfTest
  /-- It writes the eventfd. -/
  | selfWakeup
  /-- It calls `quit`. -/
  | selfQuit
  /-- Thread `t` pushes `f` in `queueInLoop`. -/
  | push (t : T) (f : F)
  /-- Thread `t` stores `quit_ = true`. -/
  | storeQuit (t : T)
  /-- Thread `t` writes the eventfd. -/
  | wakeup (t : T)

/-- The steps of the loop thread. -/
def LoopAction.ofLoopThread {T F : Type*} : LoopAction T F → Bool
  | .push _ _ | .storeQuit _ | .wakeup _ => false
  | _ => true

/-- The functor an action pushes. -/
def LoopAction.pushed {T F : Type*} : LoopAction T F → List F
  | .selfPush f | .push _ f => [f]
  | _ => []

namespace EventLoop

variable {T F : Type*}

/-- The constructor. -/
def new : EventLoop T F where
  looping := false
  quit := false
  callingPendingFunctors := false
  pendingFunctors := []
  wakeupFd := 0
  pc := .outside
  self := .idle
  callers _ := .idle
  pushes := []
  executed := []

/-- The write of `wakeup()`. It fails where the counter would pass its maximum. -/
def signal (s : EventLoop T F) : EventLoop T F :=
  { s with wakeupFd := min (s.wakeupFd + 1) (2 ^ 64 - 2) }

/-- The push of `queueInLoop`. -/
def pushBack (s : EventLoop T F) (f : F) : EventLoop T F :=
  { s with pendingFunctors := s.pendingFunctors ++ [f], pushes := s.pushes ++ [f] }

/-- The next step of `loop()`, through `doPendingFunctors()`. -/
def advance (s : EventLoop T F) (woken : Bool) : EventLoop T F :=
  match s.pc with
  | .outside => { s with looping := true, pc := .entered }
  | .entered => { s with quit := false, pc := .testing }
  | .testing =>
    if s.quit then { s with looping := false, pc := .outside } else { s with pc := .polling }
  | .polling => { s with pc := .dispatching woken }
  -- `handleRead`
  | .dispatching true => { s with wakeupFd := 0, pc := .dispatching false }
  | .dispatching false => { s with callingPendingFunctors := true, pc := .swapping }
  | .swapping => { s with pendingFunctors := [], pc := .iterating s.pendingFunctors }
  | .iterating (f :: rest) => { s with executed := s.executed ++ [f], pc := .running rest }
  | .running rest => { s with pc := .iterating rest }
  | .iterating [] => { s with callingPendingFunctors := false, pc := .testing }

variable [DecidableEq T]

/-- When a step can be taken. The loop thread goes on in `loop()` when its own call has returned;
`poll` may return at any time, and reports `wakeupChannel_` only if the eventfd is readable. -/
def guard (s : EventLoop T F) : LoopAction T F → Prop
  | .advance woken => s.self = .idle ∧ (s.pc = .polling → woken = true → 0 < s.wakeupFd)
  | .selfPush _ | .selfQuit => s.self = .idle ∧ s.pc.inUserCode = true
  | .selfTest => s.self = .pushed
  | .selfWakeup => s.self = .waking
  | .push t _ | .storeQuit t => s.callers t = .idle
  | .wakeup t => s.callers t ≠ .idle

/-- One atomic step. -/
def next (s : EventLoop T F) : LoopAction T F → EventLoop T F
  | .advance woken => s.advance woken
  | .selfPush f => { s.pushBack f with self := .pushed }
  | .selfTest => { s with self := if s.callingPendingFunctors then .waking else .idle }
  | .selfWakeup => { s.signal with self := .idle }
  | .selfQuit => { s with quit := true }
  | .push t f => { s.pushBack f with callers := Function.update s.callers t .pushed }
  | .storeQuit t => { s with quit := true, callers := Function.update s.callers t .waking }
  | .wakeup t => { s.signal with callers := Function.update s.callers t .idle }

/-- The loop, in any interleaving with other threads. -/
def machine (T F : Type*) [DecidableEq T] : Machine (EventLoop T F) (LoopAction T F) where
  init := (· = new)
  guard
  next

/-! ## The queue of functors -/

/-- The functors queued and not yet started, in order. -/
def queue (s : EventLoop T F) : List F := s.pc.swapped ++ s.pendingFunctors

/-- The functor a step starts. -/
def started (s : EventLoop T F) : LoopAction T F → List F
  | .advance _ => s.pc.starts
  | _ => []

variable {s : EventLoop T F}

omit [DecidableEq T] in
theorem advance_queue (s : EventLoop T F) (woken : Bool) :
    s.queue = s.pc.starts ++ (s.advance woken).queue ∧
      (s.advance woken).executed = s.executed ++ s.pc.starts ∧
      (s.advance woken).pushes = s.pushes := by
  unfold advance
  split
  case h_3 hpc =>
    split
    · simp [queue, LoopPc.starts, LoopPc.swapped, hpc]
    · simp [queue, LoopPc.starts, LoopPc.swapped, hpc]
  all_goals
    rename_i hpc
    simp [queue, LoopPc.starts, LoopPc.swapped, hpc]

/-- **A step takes a functor off the queue only to start it, and takes the first**; a push adds
one at the end. -/
theorem next_queue (s : EventLoop T F) (a : LoopAction T F) :
    s.queue ++ a.pushed = s.started a ++ (s.next a).queue ∧
      (s.next a).executed = s.executed ++ s.started a ∧
      (s.next a).pushes = s.pushes ++ a.pushed := by
  cases a with
  | advance woken =>
    have hnil : (LoopAction.advance woken : LoopAction T F).pushed = [] := rfl
    rw [hnil, List.append_nil, List.append_nil]
    exact advance_queue s woken
  | _ => simp [next, queue, started, LoopAction.pushed, pushBack, signal]

/-- A functor that is started or left on the queue was on it, or is pushed now. -/
theorem mem_started {a : LoopAction T F} {f : F} (h : f ∈ s.started a ++ (s.next a).queue) :
    f ∈ s.queue ∨ f ∈ a.pushed := by
  rwa [← (s.next_queue a).1, List.mem_append] at h

omit [DecidableEq T] in
theorem started_cases (s : EventLoop T F) (a : LoopAction T F) :
    s.started a = [] ∨ ∃ f, s.started a = [f] := by
  unfold started
  split
  · unfold LoopPc.starts
    split
    · exact .inr ⟨_, rfl⟩
    · exact .inl rfl
  · exact .inl rfl

/-- What was executed and what is queued is what was pushed, in order. -/
def InOrder (s : EventLoop T F) : Prop := s.executed ++ s.queue = s.pushes

theorem inOrder_next (h : s.InOrder) (a : LoopAction T F) : (s.next a).InOrder := by
  obtain ⟨hqueue, hexec, hpush⟩ := next_queue s a
  unfold InOrder
  rw [hexec, hpush, List.append_assoc, ← hqueue, ← List.append_assoc, h]

/-! ## `quit_` -/

omit [DecidableEq T] in
theorem callers_advance (s : EventLoop T F) (woken : Bool) :
    (s.advance woken).callers = s.callers := by
  unfold advance
  split
  case h_3 => split <;> rfl
  all_goals rfl

omit [DecidableEq T] in
/-- Only the first store of `loop()` can change `quit_`. -/
theorem quit_advance (woken : Bool) (h : s.pc = .entered → s.quit = false) :
    (s.advance woken).quit = s.quit := by
  unfold advance
  split
  case h_2 hpc => exact (h hpc).symm
  case h_3 => split <;> rfl
  all_goals rfl

omit [DecidableEq T] in
/-- The loop thread goes to sleep only when it has read `quit_` as false. -/
theorem quit_of_polling_advance {woken : Bool} (h : (s.advance woken).pc = .polling) :
    s.quit = false := by
  unfold advance at h
  split at h
  case h_3 =>
    split at h
    · exact absurd h nofun
    · rename_i hq
      exact Bool.eq_false_iff.mpr hq
  all_goals exact absurd h nofun

/-! ## Wakeups -/

/-- The invariant of the wakeups. -/
structure Inv (s : EventLoop T F) : Prop where
  flag : s.callingPendingFunctors = s.pc.inFunctors
  selfInside : s.self ≠ .idle → s.pc.inUserCode = true
  /-- Pending functors are swapped in before the loop thread sleeps, or it is woken. -/
  awake : s.pendingFunctors ≠ [] →
    0 < s.wakeupFd ∨ (∃ t, s.callers t = .pushed) ∨ s.pc.swapsNext = true ∨ s.self ≠ .idle

omit [DecidableEq T] in
theorem signal_pos (s : EventLoop T F) : 0 < s.signal.wakeupFd := by
  show 0 < min (s.wakeupFd + 1) (2 ^ 64 - 2)
  omega

omit [DecidableEq T] in
/-- The loop thread sleeps only after a swap, and the eventfd is read only before one. -/
theorem inv_advance (h : s.Inv) (hself : s.self = .idle) (woken : Bool) :
    (s.advance woken).Inv := by
  obtain ⟨hflag, -, hawake⟩ := h
  unfold advance
  split
  case h_3 hpc =>
    split
    · exact ⟨by simp [hflag, hpc, LoopPc.inFunctors], fun hs => absurd hself hs, by
        simpa [hself, hpc, LoopPc.swapsNext] using hawake⟩
    · exact ⟨by simp [hflag, hpc, LoopPc.inFunctors], fun hs => absurd hself hs, by
        simpa [hself, hpc, LoopPc.swapsNext] using hawake⟩
  case h_7 hpc =>
    exact ⟨by simp [hflag, hpc, LoopPc.inFunctors], fun hs => absurd hself hs,
      fun hne => absurd rfl hne⟩
  all_goals
    rename_i hpc
    refine ⟨by simp [hflag, hpc, LoopPc.inFunctors], fun hs => absurd hself hs, ?_⟩
    first
      | exact fun _ => .inr (.inr (.inl rfl))
      | simpa [hself, hpc, LoopPc.swapsNext] using hawake

theorem inv_next (h : s.Inv) {a : LoopAction T F} (hg : s.guard a) : (s.next a).Inv := by
  cases a with
  | advance woken => exact inv_advance h hg.1 woken
  | selfPush f => exact ⟨h.flag, fun _ => hg.2, fun _ => .inr (.inr (.inr nofun))⟩
  | selfTest =>
    have hin : s.pc.inUserCode = true := h.selfInside (by rw [hg]; nofun)
    refine ⟨h.flag, fun _ => hin, fun _ => ?_⟩
    by_cases hcalling : s.callingPendingFunctors = true
    · refine .inr (.inr (.inr ?_))
      show (if s.callingPendingFunctors then CallStage.waking else .idle) ≠ .idle
      rw [if_pos hcalling]
      nofun
    · -- an event handler pushed: the swap is still to come in this round of the loop
      rw [h.flag, Bool.not_eq_true] at hcalling
      exact .inr (.inr (.inl (LoopPc.swapsNext_of_handler hin hcalling)))
  | selfWakeup => exact ⟨h.flag, fun hs => absurd rfl hs, fun _ => .inl s.signal_pos⟩
  | selfQuit => exact ⟨h.flag, h.selfInside, h.awake⟩
  | push t f => exact ⟨h.flag, h.selfInside, fun _ => .inr (.inl ⟨t, Function.update_self t _ _⟩)⟩
  | storeQuit t =>
    refine ⟨h.flag, h.selfInside, fun hne => ?_⟩
    rcases h.awake hne with hw | ⟨t', ht'⟩ | hrest
    · exact .inl hw
    · have hne : t' ≠ t := by
        rintro rfl
        exact absurd (ht'.symm.trans hg) nofun
      exact .inr (.inl ⟨t', (Function.update_of_ne hne _ _).trans ht'⟩)
    · exact .inr (.inr hrest)
  | wakeup t => exact ⟨h.flag, h.selfInside, fun _ => .inl s.signal_pos⟩

theorem inv_of_reachable (h : (machine T F).Reachable s) : s.Inv := by
  refine Machine.Reachable.invariant h ?_ fun s a hi hg => inv_next hi hg
  rintro s rfl
  exact ⟨rfl, fun hs => absurd rfl hs, fun hne => absurd rfl hne⟩

theorem inOrder_of_reachable (h : (machine T F).Reachable s) : s.InOrder := by
  refine Machine.Reachable.invariant h ?_ fun s a hi _ => inOrder_next hi a
  rintro s rfl
  rfl

/-- **Pending functors are neither lost, duplicated, reordered nor slept on**: the functors
started, those swapped out and those pending are the pushes, in order; and while the loop thread
waits in `poll` with functors pending, the eventfd is readable or a thread that has pushed is
about to write it. -/
theorem pending_functors_intact (h : (machine T F).Reachable s) :
    s.executed ++ (s.pc.swapped ++ s.pendingFunctors) = s.pushes ∧
      (s.pc = .polling → s.pendingFunctors ≠ [] →
        0 < s.wakeupFd ∨ ∃ t, s.callers t = .pushed) := by
  refine ⟨inOrder_of_reachable h, fun hpc hne => ?_⟩
  have hi := inv_of_reachable h
  rcases hi.awake hne with hw | ht | hswap | hself
  · exact .inl hw
  · exact .inr ht
  · simp [hpc, LoopPc.swapsNext] at hswap
  · have hin := hi.selfInside hself
    simp [hpc, LoopPc.inUserCode] at hin

/-- A push while the loop thread is about to sleep: the eventfd is not written yet. -/
theorem pending_functors_intact_example :
    let as := [.advance false, .advance false, .push true 7, .advance false]
    let s := (machine Bool Nat).after new as
    (machine Bool Nat).Legal new as ∧ s.pc = .polling ∧ s.pendingFunctors = [7] ∧
      (0 < s.wakeupFd ∨ ∃ t, s.callers t = .pushed) := by
  have hlegal : (machine Bool Nat).Legal new
      [.advance false, .advance false, .push true 7, .advance false] := by
    refine ⟨⟨rfl, nofun⟩, ⟨rfl, nofun⟩, rfl, ⟨rfl, nofun⟩, trivial⟩
  have h := Machine.Reachable.run (.init rfl) hlegal
  exact ⟨hlegal, rfl, rfl, (pending_functors_intact h).2 rfl (by decide)⟩

end EventLoop

end SimpleHttpServer
