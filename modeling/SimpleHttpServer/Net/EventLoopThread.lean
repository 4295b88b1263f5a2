import SimpleHttpServer.Net.EventLoop

/-!
# `EventLoopThread`: quitting a loop from its owner

Model of `net/EventLoopThread.cpp` over `EventLoop`, with two threads: the new thread runs
`threadFunc`, which publishes its `EventLoop` and then calls `loop()`; the owner waits for the
publication in `startLoop()` and later calls `quit()`, itself or in the destructor, which joins.

`loop()` begins with `quit_ = false`. Nothing orders that store after the owner's `quit()`, which
can fall between the publication and the call.

* `quit_lost_example`: then the request is gone, and the loop sleeps with no wakeup pending;
* **`quit_kept`**: if `quit_ = false` never overwrites a request, no request is lost.
-/

namespace SimpleHttpServer

open Lib

/-- Where the new thread is in `threadFunc`. -/
inductive ThreadPc where
  | notStarted
  /-- Constructing `loop` and running `callback_`; `loop_ = &loop` is next. -/
  | constructing
  /-- `loop_` is published; the call of `loop()` is next. -/
  | published
  | looping
  /-- `loop()` has returned; `loop_ = nullptr` is next. -/
  | returned
  | finished
  deriving DecidableEq, Repr

/-- Where the owner is. -/
inductive OwnerPc where
  | fresh
  /-- In `startLoop()`, waiting for `loop_`. -/
  | waiting
  /-- `startLoop()` has returned. -/
  | started
  | joined
  deriving DecidableEq, Repr

/-- `class EventLoopThread`, with its thread, its owner and the loop. -/
structure EventLoopThread (F : Type*) where
  loop : EventLoop Unit F
  /-- `loop_ != nullptr`. -/
  loopPublished : Bool
  thread : ThreadPc
  owner : OwnerPc
  /-- A call of `quit()` has returned to the owner. -/
  quitReturned : Bool

/-- The steps of the owner and of the thread. -/
inductive ThreadAction (F : Type*) where
  /-- The owner: `thread_.start()`. -/
  | start
  /-- The new thread: `loop_ = &loop` and `notify_one`. -/
  | publish
  /-- The owner: the wait of `startLoop()` ends. -/
  | startLoopReturns
  /-- The new thread calls `loop()`. -/
  | callLoop
  /-- The new thread in `loop()`. -/
  | inLoop (a : LoopAction Unit F)
  /-- The new thread: `loop_ = nullptr`. -/
  | clearLoop
  /-- The owner in `quit()`: `quit_ = true`. -/
  | storeQuit
  /-- The owner in `quit()`: `wakeup()`, and the call returns. -/
  | wakeup
  /-- The owner: `thread_.join()` returns. -/
  | join

namespace EventLoopThread

variable {F : Type*}

/-- The constructor. -/
def new : EventLoopThread F where
  loop := .new
  loopPublished := false
  thread := .notStarted
  owner := .fresh
  quitReturned := false

/-- `quit()` is called on a published loop, as the destructor tests. -/
def guard (s : EventLoopThread F) : ThreadAction F → Prop
  | .start => s.owner = .fresh
  | .publish => s.thread = .constructing
  | .startLoopReturns => s.owner = .waiting ∧ s.loopPublished = true
  | .callLoop => s.thread = .published
  | .inLoop a => s.thread = .looping ∧ a.ofLoopThread = true ∧ s.loop.guard a
  | .clearLoop => s.thread = .returned
  | .storeQuit => s.owner = .started ∧ s.loopPublished = true ∧ s.loop.guard (.storeQuit ())
  | .wakeup => s.owner = .started ∧ s.loop.guard (.wakeup ())
  | .join => s.owner = .started ∧ s.quitReturned = true ∧ s.loop.callers () = .idle ∧
      s.thread = .finished

/-- The state behind a step. -/
def next (s : EventLoopThread F) : ThreadAction F → EventLoopThread F
  | .start => { s with owner := .waiting, thread := .constructing }
  | .publish => { s with loopPublished := true, thread := .published }
  | .startLoopReturns => { s with owner := .started }
  | .callLoop => { s with thread := .looping }
  | .inLoop a =>
    let loop := s.loop.next a
    { s with loop, thread := if loop.pc.inLoop then .looping else .returned }
  | .clearLoop => { s with loopPublished := false, thread := .finished }
  | .storeQuit => { s with loop := s.loop.next (.storeQuit ()) }
  | .wakeup => { s with loop := s.loop.next (.wakeup ()), quitReturned := true }
  | .join => { s with owner := .joined }

/-- The owner and the thread, in any interleaving. -/
def machine (F : Type*) : Machine (EventLoopThread F) (ThreadAction F) where
  init := (· = new)
  guard
  next

/-- The store `quit_ = false` of `loop()` does not overwrite a `quit_ = true`. -/
def KeepsQuit (s : EventLoopThread F) : ThreadAction F → Prop
  | .inLoop (.advance _) => s.loop.pc = .entered → s.loop.quit = false
  | _ => True

/-- The loop thread is in `loop()` and has forgotten the request, or sleeps and is not woken. -/
def Forgotten (s : EventLoopThread F) : Prop :=
  s.loop.pc.inLoop = true ∧ s.loop.quit = false ∨ s.loop.pc = .polling ∧ s.loop.wakeupFd = 0

variable {s : EventLoopThread F}

/-- A request that was stored is still there, and once `quit()` has returned the loop thread does
not sleep without a wakeup pending. -/
structure Kept (s : EventLoopThread F) : Prop where
  stored : s.loop.callers () ≠ .idle ∨ s.quitReturned = true → s.loop.quit = true
  woken : s.quitReturned = true → s.loop.pc = .polling → 0 < s.loop.wakeupFd

/-- A step of the loop thread inside `loop()`. -/
theorem kept_inLoop (h : s.Kept) {a : LoopAction Unit F} (ha : a.ofLoopThread = true)
    (hC : s.KeepsQuit (.inLoop a)) : (s.next (.inLoop a)).Kept := by
  obtain ⟨hstored, hwoken⟩ := h
  cases a with
  | advance woken =>
    refine ⟨fun hcall => ?_, fun hret hpoll => ?_⟩
    · show (s.loop.advance woken).quit = true
      rw [EventLoop.quit_advance woken hC]
      refine hstored (hcall.imp_left fun hne => ?_)
      rwa [← EventLoop.callers_advance s.loop woken]
    · -- it would have read `quit_` as false
      have hquit := EventLoop.quit_of_polling_advance hpoll
      exact absurd (hquit.symm.trans (hstored (.inr hret))) Bool.false_ne_true
  | selfPush f => exact ⟨hstored, hwoken⟩
  | selfTest => exact ⟨hstored, hwoken⟩
  | selfWakeup => exact ⟨hstored, fun _ _ => s.loop.signal_pos⟩
  | selfQuit => exact ⟨fun _ => rfl, hwoken⟩
  | push t f => exact absurd ha (by simp [LoopAction.ofLoopThread])
  | storeQuit t => exact absurd ha (by simp [LoopAction.ofLoopThread])
  | wakeup t => exact absurd ha (by simp [LoopAction.ofLoopThread])

theorem kept_next (h : s.Kept) {a : ThreadAction F} (hg : s.guard a) (hC : s.KeepsQuit a) :
    (s.next a).Kept := by
  cases a with
  | inLoop a => exact kept_inLoop h hg.2.1 hC
  | storeQuit => exact ⟨fun _ => rfl, h.woken⟩
  | wakeup => exact ⟨fun _ => h.stored (.inl hg.2), fun _ _ => s.loop.signal_pos⟩
  | _ => exact ⟨h.stored, h.woken⟩

/-- **A quit request is kept**, in every run in which `quit_ = false` of `loop()` does not
overwrite it: once `quit()` has returned, the loop thread is never in `loop()` with `quit_` false,
and never sleeps without a wakeup pending. -/
theorem quit_kept (h : (machine F).Reach KeepsQuit s) (hquit : s.quitReturned = true) :
    ¬ s.Forgotten := by
  have hkept : s.Kept := by
    refine Machine.Reach.invariant h ?_ fun s a hk hg hC => kept_next hk hg hC
    rintro s rfl
    exact ⟨fun hcall => absurd hcall (by simp [new, EventLoop.new]), nofun⟩
  rintro (⟨-, hq⟩ | ⟨hpoll, hfd⟩)
  · exact absurd (hq.symm.trans (hkept.stored (.inr hquit))) Bool.false_ne_true
  · have hpos := hkept.woken hquit hpoll
    omega

/-- The owner quits a loop that is polling. -/
theorem quit_kept_example :
    let as := [.start, .publish, .startLoopReturns, .callLoop, .inLoop (.advance false),
      .inLoop (.advance false), .inLoop (.advance false), .storeQuit, .wakeup]
    let s := (machine Nat).after new as
    (machine Nat).Legal new as ∧ (machine Nat).Along KeepsQuit new as ∧ s.quitReturned = true ∧
      s.loop.pc = .polling ∧ ¬ s.Forgotten := by
  have hlegal : (machine Nat).Legal new
      [.start, .publish, .startLoopReturns, .callLoop, .inLoop (.advance false),
        .inLoop (.advance false), .inLoop (.advance false), .storeQuit, .wakeup] :=
    ⟨rfl, rfl, ⟨rfl, rfl⟩, rfl, ⟨rfl, rfl, rfl, nofun⟩, ⟨rfl, rfl, rfl, nofun⟩,
      ⟨rfl, rfl, rfl, nofun⟩, ⟨rfl, rfl, rfl⟩, ⟨rfl, nofun⟩, trivial⟩
  have hkeeps : (machine Nat).Along KeepsQuit new
      [.start, .publish, .startLoopReturns, .callLoop, .inLoop (.advance false),
        .inLoop (.advance false), .inLoop (.advance false), .storeQuit, .wakeup] :=
    ⟨trivial, trivial, trivial, trivial, nofun, fun _ => rfl, nofun, trivial, trivial, trivial⟩
  have h := quit_kept (Machine.Reach.run (.init rfl) hlegal hkeeps) rfl
  exact ⟨hlegal, hkeeps, rfl, rfl, h⟩

/-- **A quit request can be lost**: `quit()` runs between the publication of `loop_` and the first
store of `loop()`; the loop then handles the wakeup, and sleeps with none pending. -/
theorem quit_lost_example :
    ¬ ∀ s : EventLoopThread Nat, (machine Nat).Reachable s → s.quitReturned = true →
      ¬ s.Forgotten := by
  intro h
  have hlegal : (machine Nat).Legal new
      [.start, .publish, .startLoopReturns, .callLoop, .storeQuit, .wakeup,
        .inLoop (.advance false), .inLoop (.advance false), .inLoop (.advance false),
        .inLoop (.advance true), .inLoop (.advance false), .inLoop (.advance false),
        .inLoop (.advance false), .inLoop (.advance false), .inLoop (.advance false)] :=
    ⟨rfl, rfl, ⟨rfl, rfl⟩, rfl, ⟨rfl, rfl, rfl⟩, ⟨rfl, nofun⟩, ⟨rfl, rfl, rfl, nofun⟩,
      ⟨rfl, rfl, rfl, nofun⟩, ⟨rfl, rfl, rfl, nofun⟩, ⟨rfl, rfl, rfl, fun _ _ => by decide⟩,
      ⟨rfl, rfl, rfl, nofun⟩, ⟨rfl, rfl, rfl, nofun⟩, ⟨rfl, rfl, rfl, nofun⟩,
      ⟨rfl, rfl, rfl, nofun⟩, ⟨rfl, rfl, rfl, nofun⟩, trivial⟩
  exact h _ (Machine.Reachable.run (.init rfl) hlegal) rfl (.inr ⟨rfl, rfl⟩)

end EventLoopThread

end SimpleHttpServer
