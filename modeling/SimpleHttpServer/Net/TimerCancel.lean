import SimpleHttpServer.Net.TimerOwnership

/-!
# What `cancel` stops

`cancelInLoop` deletes a timer that it finds in the sets. One that is not there while the callbacks
run may be in the hand of `handleRead`: it is put down in `cancelingTimers_`, which `reset` reads
when the callbacks are over. Until then the batch runs as it stands. `Doomed` is what both ways
have in common, and no step undoes it.

* **`cancel_dooms`**: carried out for a timer that was inserted, a cancellation dooms it.
* `doomed_step`: a doomed timer stays doomed, and each of its callbacks is one that the batch still
  had to run.
* **`cancelled_stops`**: so it runs at most once more, in the batch that is being run.
* `cancelled_stops_counterexample`: and it may run once more; and a cancellation that overtakes the
  insertion stops nothing.
-/

namespace SimpleHttpServer

open Lib

namespace TimerQueue

variable {s s' : TimerQueue} {id : ActiveTimer} {action : TimerAction}

/-- The action carries out `cancelInLoop(id)`. -/
def Cancels (s : TimerQueue) (action : TimerAction) (id : ActiveTimer) : Prop :=
  action = .cancel id ∨ action = .runPending ∧ s.pending.head? = some (.cancelInLoop id)

/-- Deleted, or to be deleted by `reset`. -/
def Doomed (s : TimerQueue) (id : ActiveTimer) : Prop :=
  id.sequence ∈ s.deleted ∨ id ∈ s.phase.batch ∧ id ∈ s.cancelingTimers

/-- The callbacks of a timer: those run, and those the batch still has to run. -/
def calls (s : TimerQueue) (id : ActiveTimer) : Nat :=
  s.ran.count id.sequence + s.phase.rest.count id

/-! ## Steps -/

theorem Quiet.doomed (h : Quiet s s') (hd : s.Doomed id) : s'.Doomed id := by
  refine hd.imp (fun hdel => h.deleted hdel) fun ⟨hbatch, hc⟩ => ⟨?_, h.canceling id hc⟩
  rwa [h.phase]

theorem Quiet.calls (h : Quiet s s') (id : ActiveTimer) : s'.calls id = s.calls id := by
  unfold TimerQueue.calls
  rw [h.ran, h.phase]

/-- **A cancellation dooms its timer**, if the timer was inserted before. -/
theorem cancel_dooms (h : s.Inv) (hadded : id ∈ s.added) (hs : s.cancelInLoop id = some s') :
    s'.Doomed id := by
  by_cases ha : id ∈ s.activeTimers
  · obtain ⟨t, ht⟩ := h.books.lookup (mem_owners_of_active ha)
    rw [cancelInLoop_active ha ht] at hs
    rw [← Option.some.inj hs]
    exact .inl (List.mem_append_right _ List.mem_cons_self)
  · rw [cancelInLoop_other ha] at hs
    rw [← Option.some.inj hs]
    rcases (h.books.placed id hadded).resolve_left ha with hbatch | hdeleted
    · -- it is in the batch, so the callbacks are being run
      have hphase : s.phase ≠ .idle := by
        intro hidle
        rw [hidle] at hbatch
        exact List.not_mem_nil hbatch
      refine .inr ⟨hbatch, ?_⟩
      show id ∈ if s.callingExpiredTimers then s.cancelingTimers.insert id else s.cancelingTimers
      rw [if_pos (h.calling.mpr hphase)]
      exact SortedSet.mem_insert.mpr (.inl rfl)
    · exact .inl hdeleted

/-- A doomed timer that is not in a batch is deleted, so the next batch is without it. -/
theorem doomed_handleRead (h : s.Inv) (hidle : s.phase = .idle) (hs : s.handleRead = some s')
    (hd : s.Doomed id) : s'.Doomed id ∧ s'.calls id ≤ s.calls id := by
  obtain ⟨active, expired, hread, hbooks'⟩ := handleRead_books (h.books_idle hidle)
  have hdeleted : id.sequence ∈ s.deleted := hd.resolve_right fun hbatch => by
    rw [hidle] at hbatch
    exact List.not_mem_nil hbatch.1
  have hexpired : id ∉ expired := fun hmem =>
    hbooks'.owned.not_deleted (mem_owners_of_hand hmem) hdeleted
  rw [← Option.some.inj (hread.symm.trans hs)]
  refine ⟨.inl hdeleted, ?_⟩
  show s.ran.count id.sequence + expired.count id ≤ _
  rw [List.count_eq_zero_of_not_mem hexpired]
  exact Nat.le_add_right _ _

/-- A callback of a doomed timer is one that the batch still had to run. -/
theorem doomed_runCallback (h : s.Inv) (hg : machine.guard s .runCallback)
    (hs : s.step .runCallback = some s') (hd : s.Doomed id) :
    s'.Doomed id ∧ s'.calls id ≤ s.calls id := by
  obtain ⟨now, expired, timer, rest, hphase⟩ := hg
  obtain ⟨hbooks, -⟩ := h.books_calling hphase
  obtain ⟨htimer, t, ht, hstep⟩ := step_runCallback h hphase
  rw [← Option.some.inj (hstep.symm.trans hs)]
  refine ⟨?_, ?_⟩
  · unfold Doomed at hd
    rwa [hphase] at hd
  · -- the callback that runs is the doomed timer's only if the batch still had it
    show (s.ran ++ [t.sequence]).count id.sequence + rest.count id ≤ s.calls id
    have hsame : t.sequence = id.sequence → timer = id := by
      intro heq
      rw [(lookup_eq_some.mp ht).2] at heq
      rcases hd with hdeleted | ⟨hbatch, -⟩
      · exact absurd (heq ▸ hdeleted) (hbooks.owned.not_deleted htimer)
      · rw [hphase] at hbatch
        exact hbooks.owned.inj htimer (mem_owners_of_hand hbatch) heq
    unfold TimerQueue.calls
    rw [hphase, TimerPhase.rest, List.count_append, List.count_singleton, List.count_cons]
    by_cases heq : t.sequence = id.sequence
    · simp [heq, hsame heq]
      omega
    · simp [heq]

/-- `reset` deletes the doomed timers of its batch, and runs none. -/
theorem doomed_reset (h : s.Inv) (hg : machine.guard s .reset) (hs : s.step .reset = some s')
    (hd : s.Doomed id) : s'.Doomed id ∧ s'.calls id ≤ s.calls id := by
  obtain ⟨now, expired, hphase⟩ := hg
  obtain ⟨s₁, hstep, -, hre, hdel⟩ := step_reset h hphase
  rw [← Option.some.inj (hstep.symm.trans hs)]
  have hran : s₁.ran = s.ran := by rw [hre.frame]
  refine ⟨.inl ?_, ?_⟩
  · rcases hd with hdeleted | ⟨hbatch, hc⟩
    · exact hre.deleted hdeleted
    · rw [hphase] at hbatch
      exact hdel id hbatch hc
  · show s₁.ran.count id.sequence + 0 ≤ s.calls id
    rw [hran]
    exact Nat.le_add_right _ _

/-- **A doomed timer stays doomed, and gains no callback.** -/
theorem doomed_step (h : s.Inv) (hg : machine.guard s action) (hs : s.step action = some s')
    (hd : s.Doomed id) : s'.Doomed id ∧ s'.calls id ≤ s.calls id := by
  have hquiet : Quiet s s' → s'.Doomed id ∧ s'.calls id ≤ s.calls id := fun hq =>
    ⟨hq.doomed hd, (hq.calls id).le⟩
  cases action with
  | addTimer p whenExpires interval n =>
    have hq := quiet_addTimerInLoop (h.books.addTimer hg.2 whenExpires interval) hs
    exact hquiet ⟨hq.ran, hq.phase, hq.deleted, hq.canceling⟩
  | cancel timerId => exact hquiet (quiet_cancelInLoop h hs)
  | remoteAddTimer p whenExpires interval n =>
    obtain rfl := Option.some.inj hs
    exact hquiet ⟨rfl, rfl, List.Subset.refl _, fun _ hb => hb⟩
  | remoteCancel timerId =>
    obtain rfl := Option.some.inj hs
    exact hquiet ⟨rfl, rfl, List.Subset.refl _, fun _ hb => hb⟩
  | runPending =>
    obtain ⟨f, pending, hp⟩ := List.exists_cons_of_ne_nil hg.2
    have hbooks := h.books.pop hp
    unfold step at hs
    rw [hp] at hs
    cases f with
    | addTimerInLoop timer =>
      have hq := quiet_addTimerInLoop hbooks hs
      exact hquiet ⟨hq.ran, hq.phase, hq.deleted, hq.canceling⟩
    | cancelInLoop timerId =>
      have hq := quiet_cancelInLoop (h.of_frame hbooks rfl rfl) hs
      exact hquiet ⟨hq.ran, hq.phase, hq.deleted, hq.canceling⟩
  | handleRead => exact doomed_handleRead h hg hs hd
  | runCallback => exact doomed_runCallback h hg hs hd
  | reset => exact doomed_reset h hg hs hd
  | fire =>
    obtain rfl := Option.some.inj hs
    exact hquiet ⟨rfl, rfl, List.Subset.refl _, fun _ hb => hb⟩
  | tick now =>
    obtain rfl := Option.some.inj hs
    exact hquiet ⟨rfl, rfl, List.Subset.refl _, fun _ hb => hb⟩

/-! ## Runs -/

theorem next_eq (hs : s.step action = some s') : machine.next s action = s' := by
  show (s.step action).getD s = s'
  rw [hs]
  rfl

theorem doomed_run : ∀ {as : List TimerAction} {s : TimerQueue}, machine.Reachable s →
    s.Doomed id → machine.Legal s as →
    (machine.after s as).Doomed id ∧ (machine.after s as).calls id ≤ s.calls id
  | [], _, _, hd, _ => ⟨hd, le_rfl⟩
  | action :: as, s, hs, hd, hlegal => by
    have hinv := reachable_inv hs
    obtain ⟨s₁, hstep, -⟩ := step_inv hinv hlegal.1
    obtain ⟨hd₁, hcalls⟩ := doomed_step hinv hlegal.1 hstep hd
    have hnext := next_eq hstep
    obtain ⟨hd₂, hcalls₂⟩ := doomed_run (hs.step hlegal.1 trivial) (hnext ▸ hd₁) hlegal.2
    exact ⟨hd₂, hcalls₂.trans (hnext ▸ hcalls)⟩

theorem count_rest_le (h : s.Inv) (id : ActiveTimer) : s.phase.rest.count id ≤ 1 := by
  have hnodup : s.phase.batch.Nodup :=
    ((List.nodup_append.mp h.books.owned.nodup).2.1.of_map).sublist
      (List.sublist_append_left _ _)
  exact List.nodup_iff_count_le_one.mp (h.rest.nodup hnodup) id

/-- **A cancelled timer stops.** When `cancelInLoop` has been carried out for a timer that was
inserted, the timer's callback runs at most once more, and only if the batch that is being run
still has it to run; when that batch is over it is not run again. -/
theorem cancelled_stops (hs : machine.Reachable s) (hadded : id ∈ s.added)
    (hg : machine.guard s action) (hc : s.Cancels action id) {as : List TimerAction}
    (hlegal : machine.Legal (machine.next s action) as) :
    (machine.next s action).phase.rest.count id ≤ 1 ∧
    (machine.after (machine.next s action) as).ran.count id.sequence ≤
      (machine.next s action).ran.count id.sequence +
        (machine.next s action).phase.rest.count id ∧
    ∀ bs, (machine.after (machine.next s action) as).phase = .idle →
      machine.Legal (machine.after (machine.next s action) as) bs →
      (machine.after (machine.after (machine.next s action) as) bs).ran.count id.sequence ≤
        (machine.after (machine.next s action) as).ran.count id.sequence := by
  have hinv := reachable_inv hs
  obtain ⟨s', hstep, hinv'⟩ := step_inv hinv hg
  have hreach := hs.step hg trivial
  have hd : s'.Doomed id := by
    rcases hc with rfl | ⟨rfl, hhead⟩
    · exact cancel_dooms hinv hadded hstep
    · obtain ⟨pending, hp⟩ := List.head?_eq_some_iff.mp hhead
      have hbooks := hinv.books.pop hp
      unfold step at hstep
      rw [hp] at hstep
      exact cancel_dooms (hinv.of_frame hbooks rfl rfl) (List.mem_append_left _ hadded) hstep
  rw [next_eq hstep] at hlegal hreach ⊢
  obtain ⟨hd₁, hcalls⟩ := doomed_run hreach hd hlegal
  refine ⟨count_rest_le hinv' id, (Nat.le_add_right _ _).trans hcalls, fun bs hidle hlegal' => ?_⟩
  obtain ⟨-, hcalls'⟩ := doomed_run (Machine.Reachable.run hreach hlegal) hd₁ hlegal'
  refine (Nat.le_add_right _ _).trans (hcalls'.trans_eq ?_)
  unfold calls
  rw [hidle]
  rfl

/-- Cancelled before its first callback, in the batch of another timer that cancels it. -/
theorem cancelled_stops_example :
    let s := machine.after new
      [.tick 100, .addTimer 8 50 (some 10) 1, .addTimer 16 60 (some 10) 2, .handleRead,
        .runCallback]
    let s' := machine.after (machine.next s (.cancel ⟨16, 2⟩))
      [.runCallback, .reset, .tick 200]
    s'.ran = [1, 2] ∧ ∀ bs, machine.Legal s' bs → (machine.after s' bs).ran.count 2 ≤ 1 := by
  intro s s'
  have hlegal : machine.Legal new
      [.tick 100, .addTimer 8 50 (some 10) 1, .addTimer 16 60 (some 10) 2, .handleRead,
        .runCallback] := by decide +kernel
  have hlegal' : machine.Legal (machine.next s (.cancel ⟨16, 2⟩))
      [.runCallback, .reset, .tick 200] := by decide +kernel
  have hadded : (⟨16, 2⟩ : ActiveTimer) ∈ s.added := by decide +kernel
  have hran : s'.ran = [1, 2] := by decide +kernel
  refine ⟨hran, fun bs hbs => ?_⟩
  obtain ⟨-, -, hover⟩ := cancelled_stops (Machine.Reachable.run (.init rfl) hlegal) hadded
    (show machine.guard s (.cancel ⟨16, 2⟩) from rfl) (.inl rfl) hlegal'
  have hle := hover bs rfl hbs
  rwa [show (machine.after _ _).ran = [1, 2] from hran] at hle

/-- The timers with `Issued` never run a callback after they are cancelled. -/
def NeverAgain (Issued : TimerQueue → ActiveTimer → Prop) : Prop :=
  ∀ s, machine.Reachable s → ∀ id, Issued s id → ∀ action, machine.guard s action →
    s.Cancels action id → ∀ as, machine.Legal (machine.next s action) as →
      (machine.after (machine.next s action) as).ran.count id.sequence ≤
        (machine.next s action).ran.count id.sequence

/-- **`cancel` does not stop the batch that is being run**: two timers expire together, the first
cancels the second, and the second runs. Nor does it stop a timer that another thread has created
and the loop thread has not inserted. -/
theorem cancelled_stops_counterexample :
    ¬ NeverAgain (fun s id => id ∈ s.added) ∧
      ¬ NeverAgain (fun s id => .addTimerInLoop id ∈ s.pending) := by
  constructor
  · intro h
    have hlegal : machine.Legal new
        [.tick 100, .addTimer 8 50 none 1, .addTimer 16 60 none 2, .handleRead, .runCallback] := by
      decide +kernel
    have hle := h _ (Machine.Reachable.run (.init rfl) hlegal) ⟨16, 2⟩ (by decide +kernel)
      (.cancel ⟨16, 2⟩) rfl (.inl rfl) [.runCallback] ⟨⟨_, _, _, _, rfl⟩, trivial⟩
    exact absurd hle (by decide +kernel)
  · intro h
    have hlegal : machine.Legal new [.tick 100, .remoteAddTimer 8 50 none 1] := by decide +kernel
    have hle := h _ (Machine.Reachable.run (.init rfl) hlegal) ⟨8, 1⟩ List.mem_cons_self
      (.cancel ⟨8, 1⟩) rfl (.inl rfl) [.runPending, .handleRead, .runCallback]
      ⟨⟨rfl, nofun⟩, rfl, ⟨_, _, _, _, rfl⟩, trivial⟩
    exact absurd hle (by decide +kernel)

end TimerQueue

end SimpleHttpServer
