import SimpleHttpServer.Net.TimerBatch

/-!
# The timerfd wakes the loop up in time

The timerfd is set when `insert` reports a new earliest timer, and at the end of `reset` when the
next expiration is valid; `cancelInLoop` never sets it, `reset` ignores what `insert` reports, and
`handleRead` may read a firing that a callback's timer was to use. An entry is `Covered` when the
timerfd has fired, or will fire no later than the entry expires. Out of `handleRead` every entry is
covered. In `handleRead` only those that `reset` will not look after are: the ones whose expiration
is not valid. So the run must not make any: `PastEpoch` says that the clock reads a time after the
epoch, and `NoOverflow` that no sum of `restart` leaves an `int64_t`.

* `covered_addTimerInLoop`: an insertion keeps this, in both cases.
* `mem_reset`: the entries that `reset` adds are valid.
* `covered_nextTimerfd`: `reset` restores it for every entry.
* **`timerfd_covers`**: under both conditions a timer in `timers_` never waits for a timerfd that is
  disarmed, or set too late.
* `timerfd_covers_counterexample`: it does without either of them.
-/

namespace SimpleHttpServer

open Lib

/-- Fired, or set to fire no later than `expiration`. -/
def Timerfd.Covers (timerfd : Timerfd) (expiration : Int) : Prop :=
  timerfd = .fired ∨ ∃ e, timerfd = .armed e ∧ e ≤ expiration

theorem Timerfd.Covers.mono {timerfd : Timerfd} {e e' : Int} (h : timerfd.Covers e)
    (hle : e ≤ e') : timerfd.Covers e' :=
  h.imp_right fun ⟨a, ha, hae⟩ => ⟨a, ha, hae.trans hle⟩

/-- The expirations that the timerfd is to cover: `reset` looks after the valid ones. -/
def TimerPhase.Exposed : TimerPhase → Int → Prop
  | .idle, _ => True
  | .calling .., expiration => expiration ≤ 0

theorem TimerPhase.Exposed.mono {phase : TimerPhase} {e e' : Int} (h : phase.Exposed e')
    (hle : e ≤ e') : phase.Exposed e := by
  cases phase with
  | idle => trivial
  | calling => exact hle.trans h

namespace TimerQueue

variable {s s' : TimerQueue} {a : ActiveTimer} {t : Timer} {action : TimerAction}

/-- The exposed entries are covered. -/
def Covered (s : TimerQueue) : Prop :=
  ∀ x ∈ s.timers, s.phase.Exposed x.expiration → s.timerfd.Covers x.expiration

/-- `handleRead` reads a time after the epoch. -/
def PastEpoch (s : TimerQueue) (action : TimerAction) : Prop := action = .handleRead → 0 < s.clock

/-- What a run must do for `reset` to find valid expirations. -/
def Valid (s : TimerQueue) (action : TimerAction) : Prop := s.PastEpoch action ∧ s.NoOverflow action

/-- The time of `handleRead`, while it runs. -/
def NowPositive : TimerPhase → Prop
  | .idle => True
  | .calling now .. => 0 < now

theorem covered_addTimerInLoop (ht : s.lookup a = some t) (h : s.Covered)
    (hs : s.addTimerInLoop a = some s') : s'.Covered := by
  rw [addTimerInLoop_eq ht] at hs
  obtain rfl := Option.some.inj hs
  intro x hx hexposed
  rw [SortedSet.mem_insert] at hx
  change Timerfd.Covers (if s.earliestChanged t.expiration then _ else _) x.expiration
  unfold earliestChanged
  cases hfront : s.timers.front? with
  | none =>
    -- the new timer is the only one
    rcases hx with rfl | hx
    · exact .inr ⟨_, rfl, le_rfl⟩
    · exact absurd hx (SortedSet.front?_eq_none.mp hfront x)
  | some e =>
    obtain ⟨hmem, hleast⟩ := SortedSet.front?_le hfront
    by_cases hlt : t.expiration < e.expiration
    · rw [if_pos (decide_eq_true hlt)]
      rcases hx with rfl | hx
      · exact .inr ⟨_, rfl, le_rfl⟩
      · exact .inr ⟨_, rfl, hlt.le.trans (Entry.expiration_le (hleast x hx))⟩
    · rw [if_neg (by simpa using hlt)]
      rcases hx with rfl | hx
      · -- the first timer is exposed if the new one is
        have hle : e.expiration ≤ t.expiration := not_lt.mp hlt
        exact (h e hmem (hexposed.mono hle)).mono hle
      · exact h x hx hexposed

theorem covered_cancelInLoop (hinv : s.Inv) (h : s.Covered) (hs : s.cancelInLoop a = some s') :
    s'.Covered := by
  by_cases ha : a ∈ s.activeTimers
  · obtain ⟨t, ht⟩ := hinv.books.lookup (mem_owners_of_active ha)
    rw [cancelInLoop_active ha ht] at hs
    obtain rfl := Option.some.inj hs
    exact fun x hx => h x (SortedSet.mem_erase.mp hx).2
  · rw [cancelInLoop_other ha] at hs
    obtain rfl := Option.some.inj hs
    exact h

/-- What `getExpired` leaves expires after `now`. -/
theorem lt_of_mem_since {hand : List ActiveTimer} (h : s.Books hand) {now : Int} {x : Entry}
    (hx : x ∈ s.timers.since ⟨now, UINTPTR_MAX⟩) : now < x.expiration := by
  obtain ⟨hmem, hle⟩ := SortedSet.mem_since.mp hx
  obtain ⟨t, -, -, hactive⟩ := (h.indexed x).mp hmem
  exact Entry.lt_expiration hle (h.owned.address _ (mem_owners_of_active hactive))

/-- The end of `reset`: a valid first expiration is armed, and one that is not valid was exposed
before. -/
theorem covered_nextTimerfd (h : ∀ x ∈ s.timers, x.expiration ≤ 0 → s.timerfd.Covers x.expiration)
    {x : Entry} (hx : x ∈ s.timers) : s.nextTimerfd.Covers x.expiration := by
  unfold nextTimerfd
  cases hfront : s.timers.front? with
  | none => exact absurd hx (SortedSet.front?_eq_none.mp hfront x)
  | some e =>
    obtain ⟨hmem, hleast⟩ := SortedSet.front?_le hfront
    have hle := Entry.expiration_le (hleast x hx)
    show Timerfd.Covers (if 0 < e.expiration then _ else _) x.expiration
    by_cases hvalid : 0 < e.expiration
    · rw [if_pos hvalid]
      exact .inr ⟨_, rfl, hle⟩
    · rw [if_neg hvalid]
      exact (h e hmem (not_lt.mp hvalid)).mono hle

/-- An entry that `reset` adds is that of a restarted timer of the batch. -/
theorem mem_reset {now : Int} {hand : List ActiveTimer} (h : s.Books hand)
    (hs : s.reset now hand = some s') {x : Entry} (hx : x ∈ s'.timers) :
    x ∈ s.timers ∨ ∃ a ∈ hand, ∃ t, s.lookup a = some t ∧ t.repeats = true ∧
      x.expiration = (t.restart now).expiration := by
  obtain ⟨hbooks, -, hsettled⟩ := reset_settled h hs
  obtain ⟨t, hheap, hexp, hactive⟩ := (hbooks.indexed x).mp hx
  have hq : s'.InQueue ⟨x.timer, t.sequence⟩ t :=
    hbooks.inQueue_iff.mpr ⟨hactive, lookup_eq_some.mpr ⟨hheap, rfl⟩⟩
  rcases (hsettled.inQueue _ _).mp hq with hq | ⟨ha, -, u, hu, hrepeat, rfl⟩
  · refine .inl ?_
    have hmem := hq.timers
    rw [hexp] at hmem
    exact hmem
  · exact .inr ⟨_, ha, u, hu, hrepeat, hexp.symm⟩

theorem covered_step (hinv : s.Inv) (hnow : NowPositive s.phase) (h : s.Covered)
    (hg : machine.guard s action) (hC : s.Valid action) (hs : s.step action = some s') :
    NowPositive s'.phase ∧ s'.Covered := by
  cases action with
  | addTimer p whenExpires interval n =>
    have hbooks := hinv.books.addTimer hg.2 whenExpires interval
    obtain ⟨t, ht⟩ := hbooks.lookup (mem_owners_of_hand List.mem_cons_self)
    have hphase : s'.phase = s.phase := (quiet_addTimerInLoop hbooks hs).phase
    exact ⟨hphase ▸ hnow, covered_addTimerInLoop ht h hs⟩
  | cancel timerId =>
    exact ⟨(quiet_cancelInLoop hinv hs).phase ▸ hnow, covered_cancelInLoop hinv h hs⟩
  | remoteAddTimer p whenExpires interval n =>
    obtain rfl := Option.some.inj hs
    exact ⟨hnow, h⟩
  | remoteCancel timerId =>
    obtain rfl := Option.some.inj hs
    exact ⟨hnow, h⟩
  | runPending =>
    obtain ⟨f, pending, hp⟩ := List.exists_cons_of_ne_nil hg.2
    have hbooks := hinv.books.pop hp
    unfold step at hs
    rw [hp] at hs
    cases f with
    | addTimerInLoop timer =>
      obtain ⟨t, ht⟩ := hbooks.lookup (mem_owners_of_hand List.mem_cons_self)
      have hphase : s'.phase = s.phase := (quiet_addTimerInLoop hbooks hs).phase
      exact ⟨hphase ▸ hnow, covered_addTimerInLoop ht h hs⟩
    | cancelInLoop timerId =>
      have hinv' := hinv.of_frame hbooks rfl rfl
      have hphase : s'.phase = s.phase := (quiet_cancelInLoop hinv' hs).phase
      exact ⟨hphase ▸ hnow, covered_cancelInLoop hinv' h hs⟩
  | handleRead =>
    have hbooks := hinv.books_idle hg
    obtain ⟨active, expired, hread, -⟩ := handleRead_books hbooks
    obtain rfl := Option.some.inj (hread.symm.trans hs)
    have hclock : 0 < s.clock := hC.1 rfl
    refine ⟨hclock, fun x hx hexposed => ?_⟩
    have hlt : s.clock < x.expiration := lt_of_mem_since hbooks hx
    have hle : x.expiration ≤ 0 := hexposed
    omega
  | runCallback =>
    obtain ⟨now, expired, timer, rest, hphase⟩ := hg
    obtain ⟨-, t, -, hstep⟩ := step_runCallback hinv hphase
    obtain rfl := Option.some.inj (hstep.symm.trans hs)
    rw [hphase] at hnow
    refine ⟨hnow, fun x hx hexposed => h x hx ?_⟩
    rw [hphase]
    exact hexposed
  | reset =>
    obtain ⟨now, expired, hphase⟩ := hg
    have hreset : s.reset now expired = some s' := by
      unfold step at hs
      rwa [hphase] at hs
    obtain ⟨s₁, hstep, -, hre, -⟩ := step_reset hinv hphase
    obtain rfl := Option.some.inj (hstep.symm.trans hs)
    have hfits := hC.2 rfl now expired hphase
    rw [hphase] at hnow
    have htimerfd : s₁.timerfd = s.timerfd := by rw [hre.frame]
    refine ⟨trivial, fun x hx _ => covered_nextTimerfd (fun y hy hle => ?_) hx⟩
    -- an entry that is not valid was there before: `restart` makes valid ones
    rw [htimerfd]
    rcases mem_reset (hinv.books_calling hphase).1 hreset hy with hy | ⟨a, ha, t, ht, hrepeat, hexp⟩
    · refine h y hy ?_
      rw [hphase]
      exact hle
    · obtain ⟨delta, hi⟩ := Option.isSome_iff_exists.mp hrepeat
      have hpos : 0 < now := hnow
      rw [Timer.restart_periodic hi, int64_eq (hfits a ha t ht delta hi).2] at hexp
      change y.expiration = now + delta at hexp
      omega
  | fire =>
    obtain rfl := Option.some.inj hs
    exact ⟨hnow, fun x _ _ => .inl rfl⟩
  | tick now =>
    obtain rfl := Option.some.inj hs
    exact ⟨hnow, h⟩

/-- **The timerfd is never left disarmed, or set too late, while timers wait.** Whatever is added,
cancelled and run, with any expirations: when the loop thread is not in `handleRead` and `timers_`
is not empty, the timerfd has fired and not been read, or is set by a `resetTimerfd` whose
expiration is no later than that of the first timer. The clock must read a time after the epoch
whenever `handleRead` reads it, and no restart may overflow. -/
theorem timerfd_covers (h : machine.Reach Valid s) (hidle : s.phase = .idle) {e : Entry}
    (hfront : s.timers.front? = some e) :
    s.timerfd = .fired ∨ ∃ expiration, s.timerfd = .armed expiration ∧
      expiration ≤ e.expiration := by
  have hall : s.Inv ∧ NowPositive s.phase ∧ s.Covered := by
    refine h.invariant (I := fun s => s.Inv ∧ NowPositive s.phase ∧ s.Covered) ?_ ?_
    · intro s hs
      rw [show s = new from hs]
      exact ⟨inv_new, trivial, nofun⟩
    · rintro s action ⟨hinv, hnow, hcovered⟩ hg hC
      obtain ⟨s', hstep, hinv'⟩ := step_inv hinv hg
      have hnext : machine.next s action = s' := congrArg (Option.getD · s) hstep
      rw [hnext]
      exact ⟨hinv', covered_step hinv hnow hcovered hg hC hstep⟩
  have hexposed : s.phase.Exposed e.expiration := by
    rw [hidle]
    trivial
  exact hall.2.2 e (SortedSet.front?_le hfront).1 hexposed

/-- A timer with an invalid expiration, added by a callback: `reset` does not set the timerfd, which
the insertion has set. -/
theorem timerfd_covers_example :
    let s := machine.after new
      [.tick 100, .addTimer 8 50 (some 10) 1, .addTimer 16 300 none 2, .fire, .handleRead,
        .runCallback, .addTimer 24 (-5) none 3, .reset]
    s.timers.toList.length = 3 ∧ s.timerfd ≠ .disarmed := by
  intro s
  have hlegal : machine.Legal new
      [.tick 100, .addTimer 8 50 (some 10) 1, .addTimer 16 300 none 2, .fire, .handleRead,
        .runCallback, .addTimer 24 (-5) none 3, .reset] := by decide +kernel
  have hfits : NoOverflow (machine.after new
      [.tick 100, .addTimer 8 50 (some 10) 1, .addTimer 16 300 none 2, .fire, .handleRead,
        .runCallback, .addTimer 24 (-5) none 3]) .reset := by
    intro _ now expired hphase timer htimer t ht delta hi
    change TimerPhase.calling 100 [⟨8, 1⟩] [] = _ at hphase
    obtain ⟨rfl, rfl, -⟩ := TimerPhase.calling.inj hphase
    obtain rfl := List.mem_singleton.mp htimer
    obtain rfl := Option.some.inj ht
    obtain rfl := Option.some.inj hi
    decide
  have halong : machine.Along Valid new
      [.tick 100, .addTimer 8 50 (some 10) 1, .addTimer 16 300 none 2, .fire, .handleRead,
        .runCallback, .addTimer 24 (-5) none 3, .reset] :=
    ⟨⟨nofun, nofun⟩, ⟨nofun, nofun⟩, ⟨nofun, nofun⟩, ⟨nofun, nofun⟩,
      ⟨fun _ => by decide +kernel, nofun⟩, ⟨nofun, nofun⟩, ⟨nofun, nofun⟩, ⟨nofun, hfits⟩, trivial⟩
  refine ⟨by decide +kernel, ?_⟩
  have hfront : s.timers.front? = some ⟨-5, 24⟩ := rfl
  rcases timerfd_covers (Machine.Reach.run (.init rfl) hlegal halong) rfl hfront with
    hfired | ⟨expiration, harmed, -⟩
  · exact fun hdis => nomatch hfired.symm.trans hdis
  · exact fun hdis => nomatch harmed.symm.trans hdis

/-- The timerfd covers the first timer in every state that runs with the condition reach. -/
def WakesUp (C : TimerQueue → TimerAction → Prop) : Prop :=
  ∀ s, machine.Reach C s → s.phase = .idle → ∀ e, s.timers.front? = some e →
    s.timerfd.Covers e.expiration

/-- A time before the epoch: the second timer is not due. -/
def beforeEpoch : List TimerAction :=
  [.tick (-10), .addTimer 8 (-20) none 1, .addTimer 16 (-5) none 2, .fire, .handleRead,
    .runCallback, .reset]

/-- An interval of 9223372036854 seconds, in the year 2023. -/
def tooLong : List TimerAction :=
  [.tick 1700000000, .addTimer 8 1600000000 (some 9223372036854000000) 1, .fire, .handleRead,
    .runCallback, .reset]

/-- **The timerfd is left disarmed** in a run whose clock is not past the epoch, and in one that
restarts a timer whose interval is too long: the first expiration is not valid then, and `reset`
sets nothing. -/
theorem timerfd_covers_counterexample :
    ¬ WakesUp (fun _ _ => True) ∧ ¬ WakesUp NoOverflow ∧ ¬ WakesUp PastEpoch := by
  have hoverflow : ¬ WakesUp NoOverflow := by
    intro h
    have hlegal : machine.Legal new beforeEpoch := by decide +kernel
    have hfits : NoOverflow (machine.after new (beforeEpoch.take 6)) .reset := by
      intro _ now expired hphase timer htimer t ht delta hi
      change TimerPhase.calling (-10) [⟨8, 1⟩] [] = _ at hphase
      obtain ⟨rfl, rfl, -⟩ := TimerPhase.calling.inj hphase
      obtain rfl := List.mem_singleton.mp htimer
      obtain rfl := Option.some.inj ht
      cases hi
    have halong : machine.Along NoOverflow new beforeEpoch :=
      ⟨nofun, nofun, nofun, nofun, nofun, nofun, hfits, trivial⟩
    rcases h _ (Machine.Reach.run (.init rfl) hlegal halong) rfl ⟨-5, 16⟩ rfl with
      hfired | ⟨expiration, harmed, -⟩
    · cases hfired
    · cases harmed
  refine ⟨fun h => hoverflow fun s hs => ?_, hoverflow, fun h => ?_⟩
  · exact h s (hs.invariant (fun _ => .init) fun _ _ hr hg _ => hr.step hg trivial)
  · have hlegal : machine.Legal new tooLong := by decide +kernel
    have halong : machine.Along PastEpoch new tooLong :=
      ⟨nofun, nofun, nofun, fun _ => by decide +kernel, nofun, nofun, trivial⟩
    rcases h _ (Machine.Reach.run (.init rfl) hlegal halong) rfl ⟨-9223372035155551616, 8⟩ rfl with
      hfired | ⟨expiration, harmed, -⟩
    · cases hfired
    · cases harmed

end TimerQueue

end SimpleHttpServer
