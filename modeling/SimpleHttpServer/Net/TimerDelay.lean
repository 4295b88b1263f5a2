import SimpleHttpServer.Net.TimerBatch

/-!
# When a timer expires

`Timestamp::now()` (`utils/Timestamp.cpp`) is `Timestamp(time(NULL))`, a number of seconds in the
field that is named for microseconds; `addTime` adds microseconds to it, and `handleRead` compares
the sum with the next number of seconds. `runAfter` and `runEvery` are the calls of `addTimer` that
`EventLoop` makes. A delay is a whole number of seconds, given as a `double`: `toDouble` rounds it,
and the product in `addTime`, to 53 bits. The sum of `addTime` is the exact one here, which an
`int64_t` holds as long as the delay is less than some 292000 years; a restart wraps it
(`Timer.restart`).

* `lt_microSeconds`: a delay that is not zero is more microseconds than seconds, however it rounds;
* `mem_batch_iff`: the timer is taken by the first `handleRead` that many *seconds* later;
* `expiresAfter_iff`, `restartsAfter_iff`: no delay but zero is kept, by a timer that is added, or
  restarted without an overflow;
* **`onTime_iff`**: a timer expires after its delay if and only if the delay is zero;
* `not_onTime_example`: a delay of one second.
-/

namespace SimpleHttpServer

open Lib

/-! ## Delays -/

/-- A whole number as a `double`: 53 significant bits, a tie to the even side. -/
def toDouble (n : Nat) : Nat :=
  if n < 2 ^ 53 then n
  else
    let unit := 2 ^ (n.log2 - 52)
    let down := n / unit
    let rest := n % unit
    if 2 * rest < unit ∨ 2 * rest = unit ∧ down % 2 = 0 then down * unit else (down + 1) * unit

/-- `static_cast<int64_t>(seconds * Timestamp::kMicroSecondsPerSecond)`. -/
def microSeconds (seconds : Nat) : Nat :=
  toDouble (toDouble seconds * kMicroSecondsPerSecond.toNat)

/-- A power of two is not rounded away. -/
theorem pow_log2_le_toDouble {n : Nat} (hn : n ≠ 0) : 2 ^ n.log2 ≤ toDouble n := by
  unfold toDouble
  split
  · exact Nat.log2_self_le hn
  · rename_i hlarge
    have hlog : 53 ≤ n.log2 := (Nat.le_log2 hn).mpr (Nat.le_of_not_lt hlarge)
    have hsplit : 2 ^ 52 * 2 ^ (n.log2 - 52) = 2 ^ n.log2 := by
      rw [← Nat.pow_add]
      congr 1
      omega
    have hdown : 2 ^ 52 ≤ n / 2 ^ (n.log2 - 52) := by
      rw [Nat.le_div_iff_mul_le (Nat.two_pow_pos _), hsplit]
      exact Nat.log2_self_le hn
    have hle : 2 ^ n.log2 ≤ n / 2 ^ (n.log2 - 52) * 2 ^ (n.log2 - 52) := by
      rw [← hsplit]
      exact Nat.mul_le_mul_right _ hdown
    simp only
    split
    · exact hle
    · exact hle.trans (Nat.mul_le_mul_right _ (Nat.le_succ _))

/-- Rounding takes less than half. -/
theorem lt_two_mul_toDouble {n : Nat} (hn : n ≠ 0) : n < 2 * toDouble n := by
  have hlt : n < 2 ^ (n.log2 + 1) := Nat.lt_log2_self
  have hle := pow_log2_le_toDouble hn
  rw [Nat.pow_succ] at hlt
  omega

/-- **A delay that is not zero is more microseconds than seconds.** -/
theorem lt_microSeconds {d : Nat} (hd : d ≠ 0) : d < microSeconds d := by
  have hunit : kMicroSecondsPerSecond.toNat = 1000000 := rfl
  have hseconds := lt_two_mul_toDouble hd
  have hproduct : toDouble d * 1000000 < 2 * toDouble (toDouble d * 1000000) :=
    lt_two_mul_toDouble (by omega)
  unfold microSeconds
  rw [hunit]
  omega

example : microSeconds 3 = 3000000 := by decide

namespace Timestamp

/-- `Timestamp::now()`, when `time(NULL)` is `time`. -/
def now (time : Int) : Timestamp := ⟨time⟩

/-- `addTime(timestamp, seconds)`. -/
def addTime (timestamp : Timestamp) (seconds : Nat) : Timestamp :=
  ⟨timestamp.microSecondsSinceEpoch + microSeconds seconds⟩

end Timestamp

namespace TimerQueue

open Timestamp (now addTime)

/-- `interval_` of a timer that is made with `seconds`: `repeat_` asks whether they are positive. -/
def intervalOf (seconds : Nat) : Option Nat :=
  if 0 < seconds then some (microSeconds seconds) else none

/-- `addTimer(cb, addTime(Timestamp::now(), delay), interval)` when `time(NULL)` is `time`. -/
def addAfter (time : Int) (delay interval p sequence : Nat) : TimerAction :=
  .addTimer p (addTime (now time) delay).microSecondsSinceEpoch (intervalOf interval) sequence

/-- `runAfter(delay, cb)`, at `time`. -/
def runAfter (time : Int) (delay p sequence : Nat) : TimerAction :=
  addAfter time delay 0 p sequence

/-- `runEvery(interval, cb)`, at `time`. -/
def runEvery (time : Int) (interval p sequence : Nat) : TimerAction :=
  addAfter time interval interval p sequence

variable {s : TimerQueue} {a : ActiveTimer} {u : Timer}

/-! ## What `handleRead` takes -/

/-- A queued timer is taken if it expires now or before. -/
theorem mem_batch_iff (hs : machine.Reachable s) (hidle : s.phase = .idle) (hq : s.InQueue a u) :
    a ∈ (machine.next s .handleRead).phase.batch ↔ u.expiration ≤ s.clock := by
  have hinv := reachable_inv hs
  obtain ⟨s₁, hstep, -, hphase, -⟩ := handleRead_due hinv hidle
  rw [next_eq hstep, hphase, TimerPhase.batch, (hinv.books_idle hidle).mem_due]
  constructor
  · rintro ⟨v, hv, hle⟩
    obtain rfl := Option.some.inj (hq.lookup.symm.trans hv.lookup)
    exact hle
  · exact fun hle => ⟨u, hq, hle⟩

/-- A timer that expires at `addTime(Timestamp::now(), d)`, `time(NULL)` being `t` there, is taken
by `handleRead` from `time(NULL)` `t + d` on, and not before. -/
def ExpiresAfter (d : Nat) (t : Int) : Prop :=
  ∀ s, machine.Reachable s → s.phase = .idle → ∀ a u, s.InQueue a u →
    u.expiration = (addTime (now t) d).microSecondsSinceEpoch →
    ∀ time, s.clock = (now time).microSecondsSinceEpoch →
      (a ∈ (machine.next s .handleRead).phase.batch ↔ t + d ≤ time)

/-- So is a timer with the interval `d` that was restarted when `time(NULL)` was `t`. -/
def RestartsAfter (d : Nat) (t : Int) : Prop :=
  ∀ s, machine.Reachable s → s.phase = .idle → ∀ (a : ActiveTimer) (u : Timer),
    u.interval = intervalOf d → u.repeats = true →
    s.InQueue a (u.restart (now t).microSecondsSinceEpoch) →
    ∀ time, s.clock = (now time).microSecondsSinceEpoch →
      (a ∈ (machine.next s .handleRead).phase.batch ↔ t + d ≤ time)

/-- Timers expire `d` seconds after they are added, or restarted. -/
structure OnTime (d : Nat) (t : Int) : Prop where
  added : ExpiresAfter d t
  restarted : RestartsAfter d t

/-- The clock may be read at any time. -/
theorem reachable_tick (hs : machine.Reachable s) (time : Int) :
    machine.Reachable { s with clock := time } := by
  have hlegal : machine.Legal s [.tick time] := ⟨trivial, trivial⟩
  exact Machine.Reachable.run hs hlegal

theorem InQueue.tick (hq : s.InQueue a u) (time : Int) :
    InQueue { s with clock := time } a u where
  lookup := hq.lookup
  timers := hq.timers
  active := hq.active

/-- **A timer that is late**: `d` seconds later the `handleRead` does not take it, since it expires
`d` times `10 ^ 6` *seconds* later. -/
theorem exists_late {d : Nat} {t : Int} (hd : d ≠ 0) (hs : machine.Reachable s)
    (hidle : s.phase = .idle) (hq : s.InQueue a u) (hu : u.expiration = t + microSeconds d) :
    ∃ s', machine.Reachable s' ∧ s'.phase = .idle ∧ s'.InQueue a u ∧ s'.clock = t + d ∧
      a ∉ (machine.next s' .handleRead).phase.batch := by
  have hs' := reachable_tick hs (t + d)
  have hq' := hq.tick (t + d)
  refine ⟨_, hs', hidle, hq', rfl, ?_⟩
  have hlt := lt_microSeconds hd
  rw [mem_batch_iff hs' hidle hq', hu]
  show ¬ t + microSeconds d ≤ t + d
  omega

/-- A queue with one timer. -/
def alone (t : Int) (delay interval : Nat) : TimerQueue :=
  machine.after new [.tick t, addAfter t delay interval 8 1]

theorem reachable_alone (t : Int) (delay interval : Nat) :
    machine.Reachable (alone t delay interval) :=
  Machine.Reachable.run (.init rfl)
    ⟨trivial, ⟨rfl, rfl, by decide, List.not_mem_nil⟩, trivial⟩

theorem inQueue_alone (t : Int) (delay interval : Nat) :
    (alone t delay interval).InQueue ⟨8, 1⟩
      ⟨t + microSeconds delay, intervalOf interval, 1⟩ :=
  ⟨rfl, SortedSet.mem_insert.mpr (.inl rfl), SortedSet.mem_insert.mpr (.inl rfl)⟩

theorem expiresAfter_iff (d : Nat) (t : Int) : ExpiresAfter d t ↔ d = 0 := by
  constructor
  · intro h
    by_contra hd
    have hs : machine.Reachable (machine.after new [.tick t, runAfter t d 8 1]) :=
      reachable_alone t d 0
    obtain ⟨s, hs, hidle, hq, hclock, hnot⟩ := exists_late hd hs rfl (inQueue_alone t d 0) rfl
    exact hnot ((h s hs hidle _ _ hq rfl (t + d) hclock).mpr le_rfl)
  · rintro rfl s hs hidle a u hq hu time hclock
    rw [mem_batch_iff hs hidle hq, hu, hclock]
    simp [addTime, now, microSeconds, toDouble]

/-- The callbacks of a batch may do nothing. -/
theorem legal_callbacks : ∀ {rest : List ActiveTimer} {s : TimerQueue} {now : Int}
    {expired : List ActiveTimer}, s.Inv → s.phase = .calling now expired rest →
      machine.Legal s (List.replicate rest.length .runCallback ++ [.reset])
  | [], s, now, expired, _, hphase => ⟨⟨now, expired, hphase⟩, trivial⟩
  | timer :: rest, s, now, expired, h, hphase => by
    have hg : machine.guard s .runCallback := ⟨now, expired, timer, rest, hphase⟩
    obtain ⟨s₁, hstep, hinv⟩ := step_inv h hg
    obtain ⟨-, t, -, hstep'⟩ := step_runCallback h hphase
    have hphase₁ : s₁.phase = .calling now expired rest := by
      rw [← Option.some.inj (hstep'.symm.trans hstep)]
    refine ⟨hg, ?_⟩
    rw [next_eq hstep]
    exact legal_callbacks hinv hphase₁

/-- A periodic timer that is due comes back, restarted. -/
theorem exists_restarted (hs : machine.Reachable s) (hidle : s.phase = .idle)
    (hq : s.InQueue a u) (hdue : u.expiration ≤ s.clock) (hrepeat : u.repeats = true)
    (hfits : u.Fits s.clock) :
    ∃ s', machine.Reachable s' ∧ s'.phase = .idle ∧ s'.InQueue a (u.restart s.clock) := by
  have hinv := reachable_inv hs
  obtain ⟨s₁, hstep, hinv₁, hphase, -⟩ := handleRead_due hinv hidle
  have hlegal : machine.Legal s
      (.handleRead :: (List.replicate s.due.length .runCallback ++ [.reset])) := by
    refine ⟨hidle, ?_⟩
    rw [next_eq hstep]
    exact legal_callbacks hinv₁ hphase
  have hnone : ∀ action, action ≠ .runCallback →
      action ∉ List.replicate s.due.length TimerAction.runCallback := fun action hne hmem =>
    hne (List.eq_of_mem_replicate hmem)
  have hdone := batchDone_due hs hlegal (hnone .reset (by simp))
  obtain ⟨delta, hi⟩ := Option.isSome_iff_exists.mp hrepeat
  refine ⟨_, Machine.Reachable.run hs hlegal, hdone.idle, ?_⟩
  have hmem := (hdone.exact a).mpr ⟨u, hq, hdue⟩
  obtain ⟨expiration, hagain, hexact⟩ := hdone.again a hmem u delta hq hi (hnone _ (by simp))
  rw [Timer.restart_periodic hi, int64_eq (hfits delta hi).2, ← hexact hfits]
  exact hagain

theorem restart_intervalOf {d : Nat} {t : Int} (hi : u.interval = intervalOf d)
    (hrepeat : u.repeats = true) (hfits : u.Fits t) :
    (u.restart t).expiration = t + microSeconds d := by
  by_cases hd : 0 < d
  · rw [intervalOf, if_pos hd] at hi
    rw [Timer.restart_periodic hi, int64_eq (hfits _ hi).2]
  · rw [Timer.repeats, hi, intervalOf, if_neg hd] at hrepeat
    cases hrepeat

/-- An interval that is not positive makes no periodic timer. -/
theorem restartsAfter_zero (t : Int) : RestartsAfter 0 t := by
  intro s hs hidle a u hi hrepeat
  rw [Timer.repeats, hi] at hrepeat
  cases hrepeat

/-- A restart that does not overflow is on time if and only if the interval is zero. -/
theorem restartsAfter_iff {d : Nat} {t : Int} (hcast : IsInt64 (microSeconds d))
    (hsum : IsInt64 (t + microSeconds d)) : RestartsAfter d t ↔ d = 0 := by
  constructor
  · intro h
    by_contra hd
    have hrepeat : Timer.repeats ⟨t - microSeconds d + microSeconds d, intervalOf d, 1⟩ = true := by
      simp [Timer.repeats, intervalOf, Nat.pos_of_ne_zero hd]
    have hfits : Timer.Fits ⟨t - microSeconds d + microSeconds d, intervalOf d, 1⟩ t := by
      intro delta hi
      rw [intervalOf, if_pos (Nat.pos_of_ne_zero hd)] at hi
      obtain rfl := Option.some.inj hi
      exact ⟨hcast, hsum⟩
    -- added one interval before `t`, and taken at `t`
    have hadded : machine.Reachable
        (machine.after new [.tick (t - microSeconds d), runEvery (t - microSeconds d) d 8 1]) :=
      reachable_alone (t - microSeconds d) d d
    have hq := (inQueue_alone (t - microSeconds d) d d).tick t
    have hdue : t - microSeconds d + microSeconds d ≤ t := by omega
    obtain ⟨s, hs, hidle, hq⟩ :=
      exists_restarted (reachable_tick hadded t) rfl hq hdue hrepeat hfits
    obtain ⟨s', hs', hidle', hq', hclock, hnot⟩ :=
      exists_late hd hs hidle hq (restart_intervalOf rfl hrepeat hfits)
    exact hnot ((h s' hs' hidle' _ _ rfl hrepeat hq' (t + d) hclock).mpr le_rfl)
  · rintro rfl
    exact restartsAfter_zero t

/-- **A timer expires after its delay if and only if the delay is zero**: for any other whole number
of seconds, and at any time, one that was added expires too late; so does one that was restarted, by
`restartsAfter_iff`. -/
theorem onTime_iff (d : Nat) (t : Int) : OnTime d t ↔ d = 0 := by
  constructor
  · exact fun h => (expiresAfter_iff d t).mp h.added
  · rintro rfl
    exact ⟨(expiresAfter_iff 0 t).mpr rfl, restartsAfter_zero t⟩

/-- A delay of one second. -/
theorem not_onTime_example : ¬ ∀ (d : Nat) (t : Int), OnTime d t := fun h =>
  absurd ((expiresAfter_iff 1 1700000000).mp (h 1 1700000000).added) (by decide)

end TimerQueue

end SimpleHttpServer
