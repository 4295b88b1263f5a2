import SimpleHttpServer.Basic
import SimpleHttpServer.Lib.Machine
import SimpleHttpServer.Lib.SortedSet

/-!
# `TimerQueue`

Model of `net/TimerQueue.cpp` and of `class Timer` (`net/Timer.h`, `net/Timer.cpp`): the timers of
one loop. A time is the number that its `Timestamp` holds, and `int64` is what an `int64_t` holds of
a sum or a difference. Signed overflow is undefined in C++; here it wraps around. `Timer.Fits` says
that a restart does not overflow, and `NoOverflow` is the condition on a run that none does.

`s_numCreated_` gives out each sequence number once; the timers of all loops share it, and one
thread may queue its timer after another whose timer is younger, so the numbers come in any order.
`heap` holds the `Timer` objects that exist, at their addresses, and an address may be used again. A
function that follows a `Timer*` takes the object's sequence number with the pointer, and is `none`
if that object does not exist any more: the code would use a deleted object there. `SortedSet` is
`std::set`.

`handleRead` is split where user code runs: `handleRead` takes the expired timers, each
`runCallback` starts the next callback, whose calls of `addTimer` and `cancel` are steps of their
own, and `reset` is the rest. `runInLoop` on another thread is a push to `pending`, which the loop
thread runs in order between events. `clock` is what `Timestamp::now()` reads, and any value may
follow any other. `ran` and `deleted` record the callbacks and the deletions, and `step` records in
`added` each timer that it calls `addTimerInLoop` for.

Left out: the channel of the timerfd, the number that `readTimerfd` reads, the log, and the
destructor.
-/

namespace SimpleHttpServer

open Lib

/-- The number fits an `int64_t`. -/
def IsInt64 (x : Int) : Prop := -2 ^ 63 ≤ x ∧ x < 2 ^ 63

instance (x : Int) : Decidable (IsInt64 x) := inferInstanceAs (Decidable (_ ∧ _))

/-- What an `int64_t` holds of the number. -/
def int64 (x : Int) : Int := x.bmod (2 ^ 64)

theorem int64_eq {x : Int} (h : IsInt64 x) : int64 x = x := by
  obtain ⟨hle, hlt⟩ := h
  exact Int.bmod_eq_of_le (by omega) (by omega)

/-- `UINTPTR_MAX`, the address of no object. -/
def UINTPTR_MAX : Nat := 2 ^ 64 - 1

/-- `class Timer`; `callback_` is known by the sequence number. -/
structure Timer where
  expiration : Int
  /-- `interval_` in the microseconds that `addTime` adds; `none` unless it is positive. -/
  interval : Option Nat
  sequence : Nat
  deriving DecidableEq, Repr

namespace Timer

/-- `repeat()`. -/
def repeats (t : Timer) : Bool := t.interval.isSome

/-- `restart(now)`: `addTime` adds the interval to the time. -/
def restart (t : Timer) (now : Int) : Timer :=
  match t.interval with
  | some delta => { t with expiration := int64 (now + delta) }
  -- `Timestamp::invalid()`
  | none => { t with expiration := 0 }

/-- Restarted at `now`, the timer overflows neither the cast nor the sum of `addTime`. -/
def Fits (t : Timer) (now : Int) : Prop :=
  ∀ delta, t.interval = some delta → IsInt64 delta ∧ IsInt64 (now + delta)

theorem restart_periodic {t : Timer} {delta : Nat} (hi : t.interval = some delta) (now : Int) :
    t.restart now = { t with expiration := int64 (now + delta) } := by
  unfold restart
  rw [hi]

end Timer

/-- `Timestamp::kMicroSecondsPerSecond`. -/
def kMicroSecondsPerSecond : Int := 1000 * 1000

/-- `struct timespec`. -/
structure Timespec where
  tv_sec : Int
  tv_nsec : Int
  deriving DecidableEq

/-- `howMuchTimeFromNow(when)`, at the time `now`. -/
def howMuchTimeFromNow (whenExpires now : Int) : Timespec :=
  let microseconds := int64 (whenExpires - now)
  let microseconds := if microseconds < 100 then 100 else microseconds
  { tv_sec := microseconds / kMicroSecondsPerSecond
    tv_nsec := microseconds % kMicroSecondsPerSecond * 1000 }

/-- The time is never zero, which would disarm the timerfd. -/
theorem howMuchTimeFromNow_ne_zero (whenExpires now : Int) :
    howMuchTimeFromNow whenExpires now ≠ ⟨0, 0⟩ := by
  unfold howMuchTimeFromNow kMicroSecondsPerSecond
  intro h
  obtain ⟨hsec, hnsec⟩ := Timespec.mk.inj h
  split at hsec <;> split at hnsec <;> omega

/-- `std::pair<Timestamp, Timer*>`. -/
structure Entry where
  expiration : Int
  timer : Nat

/-- `std::pair<Timer*, int64_t>`, and `TimerId`. -/
structure ActiveTimer where
  timer : Nat
  sequence : Nat

/-- Pairs are compared by their first components, then by the second. -/
instance : LinearOrder Entry :=
  LinearOrder.lift' (fun e => toLex (e.expiration, e.timer)) fun ⟨_, _⟩ ⟨_, _⟩ h => by
    obtain ⟨rfl, rfl⟩ := Prod.mk.inj (toLex.injective h)
    rfl

instance : LinearOrder ActiveTimer :=
  LinearOrder.lift' (fun a => toLex (a.timer, a.sequence)) fun ⟨_, _⟩ ⟨_, _⟩ h => by
    obtain ⟨rfl, rfl⟩ := Prod.mk.inj (toLex.injective h)
    rfl

/-- The timerfd. -/
inductive Timerfd where
  | disarmed
  /-- Set by `resetTimerfd(expiration)`. -/
  | armed (expiration : Int)
  /-- Fired, and not read since. -/
  | fired
  deriving DecidableEq

/-- What another thread queues. -/
inductive TimerFunctor where
  | addTimerInLoop (timer : ActiveTimer)
  | cancelInLoop (timerId : ActiveTimer)
  deriving DecidableEq

/-- The timer that a queued call is to insert. -/
def TimerFunctor.timer? : TimerFunctor → Option ActiveTimer
  | .addTimerInLoop timer => some timer
  | .cancelInLoop _ => none

/-- Where the loop thread is. -/
inductive TimerPhase where
  /-- Not in `handleRead`. -/
  | idle
  /-- In `handleRead`: all expired timers, and those still to run. -/
  | calling (now : Int) (expired rest : List ActiveTimer)
  deriving DecidableEq

namespace TimerPhase

/-- The timers `handleRead` has taken out of the sets. -/
def batch : TimerPhase → List ActiveTimer
  | .idle => []
  | .calling _ expired _ => expired

/-- Those whose callbacks are still to run. -/
def rest : TimerPhase → List ActiveTimer
  | .idle => []
  | .calling _ _ rest => rest

/-- The loop thread may be in user code: a callback, or anything else that it runs. -/
def inUserCode : TimerPhase → Bool
  | .idle => true
  | .calling _ expired rest => rest.length < expired.length

end TimerPhase

/-- The queue, the timerfd, the objects, and what has happened. -/
structure TimerQueue where
  timers : SortedSet Entry
  activeTimers : SortedSet ActiveTimer
  callingExpiredTimers : Bool
  cancelingTimers : SortedSet ActiveTimer
  timerfd : Timerfd
  clock : Int
  /-- The objects that exist. -/
  heap : Nat → Option Timer
  /-- The sequence numbers that are given out. -/
  sequences : List Nat
  pending : List TimerFunctor
  phase : TimerPhase
  ran : List Nat
  deleted : List Nat
  added : List ActiveTimer

/-- What the threads, the timerfd and the clock do. -/
inductive TimerAction where
  /-- `addTimer` on the loop thread; the new object is at `p`. -/
  | addTimer (p : Nat) (whenExpires : Int) (interval : Option Nat) (sequence : Nat)
  /-- `cancel` on the loop thread. -/
  | cancel (timerId : ActiveTimer)
  | remoteAddTimer (p : Nat) (whenExpires : Int) (interval : Option Nat) (sequence : Nat)
  | remoteCancel (timerId : ActiveTimer)
  /-- The loop thread runs what another thread has queued. -/
  | runPending
  | handleRead
  | runCallback
  | reset
  /-- The timerfd fires. -/
  | fire
  /-- The clock changes. -/
  | tick (now : Int)

namespace TimerQueue

/-- The constructor. -/
def new : TimerQueue where
  timers := .empty
  activeTimers := .empty
  callingExpiredTimers := false
  cancelingTimers := .empty
  timerfd := .disarmed
  clock := 0
  heap _ := none
  sequences := []
  pending := []
  phase := .idle
  ran := []
  deleted := []
  added := []

/-- The object behind a pointer, if it is still the one with that sequence number. -/
def lookup (s : TimerQueue) (timer : ActiveTimer) : Option Timer :=
  match s.heap timer.timer with
  | some t => if t.sequence = timer.sequence then some t else none
  | none => none

/-- `new Timer(cb, when, interval)`. -/
def newTimer (s : TimerQueue) (p : Nat) (t : Timer) : TimerQueue :=
  { s with heap := Function.update s.heap p (some t), sequences := t.sequence :: s.sequences }

/-- `delete timer`. -/
def deleteTimer (s : TimerQueue) (timer : ActiveTimer) : Option TimerQueue := do
  let t ← s.lookup timer
  some { s with
    heap := Function.update s.heap timer.timer none, deleted := s.deleted ++ [t.sequence] }

/-- `resetTimerfd`: a time that is not zero arms the timerfd. -/
def resetTimerfd (s : TimerQueue) (expiration : Int) : TimerQueue :=
  { s with
    timerfd :=
      if howMuchTimeFromNow expiration s.clock = ⟨0, 0⟩ then .disarmed else .armed expiration }

/-- `earliestChanged` of `insert`. -/
def earliestChanged (s : TimerQueue) (expiration : Int) : Bool :=
  match s.timers.front? with
  | none => true
  | some e => expiration < e.expiration

/-- `insert`: the queue, and whether the earliest expiration is a new one. -/
def insert (s : TimerQueue) (timer : ActiveTimer) : Option (TimerQueue × Bool) := do
  let t ← s.lookup timer
  some ({ s with
    timers := s.timers.insert ⟨t.expiration, timer.timer⟩
    activeTimers := s.activeTimers.insert ⟨timer.timer, t.sequence⟩ },
    s.earliestChanged t.expiration)

/-- `addTimerInLoop`: a timer that expires first sets the timerfd. -/
def addTimerInLoop (s : TimerQueue) (timer : ActiveTimer) : Option TimerQueue := do
  let (s, earliestChanged) ← s.insert timer
  if earliestChanged then
    let t ← s.lookup timer
    some (s.resetTimerfd t.expiration)
  else some s

/-- `cancelInLoop`: a timer in the sets is deleted, and one of a batch is put down. -/
def cancelInLoop (s : TimerQueue) (timerId : ActiveTimer) : Option TimerQueue :=
  if timerId ∈ s.activeTimers then do
    let t ← s.lookup timerId
    let s := { s with timers := s.timers.erase ⟨t.expiration, timerId.timer⟩ }
    let s ← s.deleteTimer timerId
    some { s with activeTimers := s.activeTimers.erase timerId }
  else if s.callingExpiredTimers then
    some { s with cancelingTimers := s.cancelingTimers.insert timerId }
  else some s

/-- The loop of `getExpired` over the expired entries: the timers, with their sequence numbers. -/
def takeExpired (s : TimerQueue) : List Entry → Option (TimerQueue × List ActiveTimer)
  | [] => some (s, [])
  | e :: expired => do
    let t ← s.heap e.timer
    let timer : ActiveTimer := ⟨e.timer, t.sequence⟩
    let (s, timers) ← takeExpired { s with activeTimers := s.activeTimers.erase timer } expired
    some (s, timer :: timers)

/-- `getExpired`: the timers before the sentry. -/
def getExpired (s : TimerQueue) (now : Int) : Option (TimerQueue × List ActiveTimer) :=
  let sentry : Entry := ⟨now, UINTPTR_MAX⟩
  { s with timers := s.timers.since sentry }.takeExpired (s.timers.below sentry)

/-- `readTimerfd`: a timerfd that has not fired is left as it is. -/
def readTimerfd (s : TimerQueue) : TimerQueue :=
  { s with timerfd := if s.timerfd = .fired then .disarmed else s.timerfd }

/-- `handleRead` up to the first callback. -/
def handleRead (s : TimerQueue) : Option TimerQueue := do
  let now := s.clock
  let (s, expired) ← s.readTimerfd.getExpired now
  some { s with
    callingExpiredTimers := true, cancelingTimers := .empty, phase := .calling now expired expired }

/-- `it.second->run()`. -/
def runCallback (s : TimerQueue) (now : Int) (expired : List ActiveTimer) (timer : ActiveTimer)
    (rest : List ActiveTimer) : Option TimerQueue := do
  let t ← s.lookup timer
  some { s with ran := s.ran ++ [t.sequence], phase := .calling now expired rest }

/-- The body of the loop of `reset`. -/
def resetTimer (s : TimerQueue) (now : Int) (timer : ActiveTimer) : Option TimerQueue := do
  let t ← s.lookup timer
  if t.repeats = true ∧ timer ∉ s.cancelingTimers then
    let s := { s with heap := Function.update s.heap timer.timer (some (t.restart now)) }
    let (s, _) ← s.insert timer
    some s
  else s.deleteTimer timer

/-- The loop of `reset`. -/
def resetTimers (s : TimerQueue) (now : Int) : List ActiveTimer → Option TimerQueue
  | [] => some s
  | timer :: expired => do
    let s ← s.resetTimer now timer
    resetTimers s now expired

/-- The end of `reset`: `nextExpire` is the expiration of the first timer. -/
def armNext (s : TimerQueue) : Option TimerQueue :=
  match s.timers.front? with
  | none => some s
  | some e => do
    let t ← s.heap e.timer
    some (if 0 < t.expiration then s.resetTimerfd t.expiration else s)

/-- `handleRead` after the callbacks. -/
def reset (s : TimerQueue) (now : Int) (expired : List ActiveTimer) : Option TimerQueue := do
  let s ← { s with callingExpiredTimers := false }.resetTimers now expired
  let s ← s.armNext
  some { s with phase := .idle }

/-- The loop thread runs a queued call. -/
def runFunctor (s : TimerQueue) : TimerFunctor → Option TimerQueue
  | .addTimerInLoop timer => s.addTimerInLoop timer
  | .cancelInLoop timerId => s.cancelInLoop timerId

/-- Timers that are to be inserted are recorded. -/
def note (s : TimerQueue) (timers : List ActiveTimer) : TimerQueue :=
  { s with added := s.added ++ timers }

/-- One step; `none` where the code would use a deleted object. -/
def step (s : TimerQueue) : TimerAction → Option TimerQueue
  | .addTimer p whenExpires interval sequence =>
    ((s.note [⟨p, sequence⟩]).newTimer p ⟨whenExpires, interval, sequence⟩).addTimerInLoop
      ⟨p, sequence⟩
  | .cancel timerId => s.cancelInLoop timerId
  | .remoteAddTimer p whenExpires interval sequence =>
    let s := s.newTimer p ⟨whenExpires, interval, sequence⟩
    some { s with pending := s.pending ++ [.addTimerInLoop ⟨p, sequence⟩] }
  | .remoteCancel timerId => some { s with pending := s.pending ++ [.cancelInLoop timerId] }
  | .runPending =>
    match s.pending with
    | [] => some s
    | f :: pending => ({ s with pending }.note f.timer?.toList).runFunctor f
  | .handleRead => s.handleRead
  | .runCallback =>
    match s.phase with
    | .calling now expired (timer :: rest) => s.runCallback now expired timer rest
    | _ => some s
  | .reset =>
    match s.phase with
    | .calling now expired [] => s.reset now expired
    | _ => some s
  | .fire => some { s with timerfd := .fired }
  | .tick now => some { s with clock := now }

/-- `new` returns an address that is not in use, and the sequence number is new. -/
structure Fresh (s : TimerQueue) (p sequence : Nat) : Prop where
  free : s.heap p = none
  address : p < UINTPTR_MAX
  sequence : sequence ∉ s.sequences

instance (s : TimerQueue) (p n : Nat) : Decidable (s.Fresh p n) :=
  decidable_of_iff (s.heap p = none ∧ p < UINTPTR_MAX ∧ n ∉ s.sequences)
    ⟨fun ⟨hfree, hp, hn⟩ => ⟨hfree, hp, hn⟩, fun ⟨hfree, hp, hn⟩ => ⟨hfree, hp, hn⟩⟩

/-- Runs start with an empty queue. -/
def machine : Machine TimerQueue TimerAction where
  init := (· = new)
  guard s
    | .addTimer p _ _ sequence => s.phase.inUserCode = true ∧ s.Fresh p sequence
    | .cancel _ => s.phase.inUserCode = true
    | .remoteAddTimer p _ _ sequence => s.Fresh p sequence
    | .remoteCancel _ => True
    | .runPending => s.phase = .idle ∧ s.pending ≠ []
    | .handleRead => s.phase = .idle
    | .runCallback => ∃ now expired timer rest, s.phase = .calling now expired (timer :: rest)
    | .reset => ∃ now expired, s.phase = .calling now expired []
    | .fire => ∃ expiration, s.timerfd = .armed expiration
    | .tick _ => True
  next s a := (s.step a).getD s

/-- The run's restarts do not overflow: when `reset` comes, every timer of the batch fits. -/
def NoOverflow (s : TimerQueue) (action : TimerAction) : Prop :=
  action = .reset → ∀ now expired, s.phase = .calling now expired [] →
    ∀ timer ∈ expired, ∀ t, s.lookup timer = some t → t.Fits now

theorem guard_runCallback {s : TimerQueue} : s.phase.rest ≠ [] ↔ machine.guard s .runCallback := by
  show _ ↔ ∃ now expired timer rest, s.phase = .calling now expired (timer :: rest)
  rcases s.phase with _ | ⟨now, expired, _ | ⟨timer, rest⟩⟩ <;> simp [TimerPhase.rest]

theorem guard_reset {s : TimerQueue} :
    s.phase ≠ .idle ∧ s.phase.rest = [] ↔ machine.guard s .reset := by
  show _ ↔ ∃ now expired, s.phase = .calling now expired []
  rcases s.phase with _ | ⟨now, expired, _ | ⟨timer, rest⟩⟩ <;> simp [TimerPhase.rest]

theorem guard_fire {s : TimerQueue} :
    s.timerfd ≠ .disarmed ∧ s.timerfd ≠ .fired ↔ machine.guard s .fire := by
  show _ ↔ ∃ expiration, s.timerfd = .armed expiration
  rcases s.timerfd with _ | expiration | _ <;> simp

/-- A run can be checked for being legal. -/
instance (s : TimerQueue) : ∀ action, Decidable (machine.guard s action)
  | .addTimer p _ _ n => inferInstanceAs (Decidable (s.phase.inUserCode = true ∧ s.Fresh p n))
  | .cancel _ => inferInstanceAs (Decidable (s.phase.inUserCode = true))
  | .remoteAddTimer p _ _ n => inferInstanceAs (Decidable (s.Fresh p n))
  | .remoteCancel _ => isTrue trivial
  | .runPending => inferInstanceAs (Decidable (s.phase = .idle ∧ s.pending ≠ []))
  | .handleRead => inferInstanceAs (Decidable (s.phase = .idle))
  | .runCallback => decidable_of_iff _ guard_runCallback
  | .reset => decidable_of_iff _ guard_reset
  | .fire => decidable_of_iff _ guard_fire
  | .tick _ => isTrue trivial

end TimerQueue

end SimpleHttpServer
