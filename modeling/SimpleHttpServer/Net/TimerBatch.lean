import SimpleHttpServer.Net.TimerCancel

/-!
# One run of `handleRead`

`getExpired` takes the timers that are `due` out of the sets, in the order of `timers_`; the
callbacks run on this list, whatever they add and cancel meanwhile; `reset` goes through it once
more. What the callbacks change is the rest of the queue, and `cancelingTimers_`, which `reset`
reads for each timer of the batch.

* `handleRead_due`: what the start takes, and what it leaves;
* `inQueue_step`, `inQueue_run`: what the steps of a batch do to the queue;
* `resetTimers_inQueue`: what `reset` puts back, and what it deletes;
* `batchDone_due`, **`batch_done`**: the whole run, whatever the callbacks do;
* `batch_counterexample`: a cancelled timer of the batch is deleted, but its id stays in
  `cancelingTimers_` until the next run.
-/

namespace SimpleHttpServer

open Lib

theorem Entry.expiration_le {e x : Entry} (h : e ≤ x) : e.expiration ≤ x.expiration := by
  have hlex : toLex (e.expiration, e.timer) ≤ toLex (x.expiration, x.timer) := h
  rcases Prod.Lex.toLex_le_toLex.mp hlex with hlt | ⟨heq, -⟩
  · exact hlt.le
  · exact heq.le

/-- An entry past the sentry of `getExpired`. -/
theorem Entry.lt_expiration {now : Int} {x : Entry} (h : (⟨now, UINTPTR_MAX⟩ : Entry) ≤ x)
    (hx : x.timer < UINTPTR_MAX) : now < x.expiration := by
  have hlex : toLex (now, UINTPTR_MAX) ≤ toLex (x.expiration, x.timer) := h
  rcases Prod.Lex.toLex_le_toLex.mp hlex with hlt | ⟨-, hle⟩
  · exact hlt
  · exact absurd hx hle.not_gt

/-- An entry before the sentry of `getExpired`. -/
theorem Entry.lt_sentry {now : Int} {x : Entry} (hx : x.timer < UINTPTR_MAX) :
    x < (⟨now, UINTPTR_MAX⟩ : Entry) ↔ x.expiration ≤ now := by
  constructor
  · exact fun hlt => Entry.expiration_le hlt.le
  · intro hle
    by_contra hnot
    have hlt : now < x.expiration := Entry.lt_expiration (not_lt.mp hnot) hx
    omega

namespace TimerQueue

variable {s s' : TimerQueue} {a b : ActiveTimer} {t : Timer} {hand : List ActiveTimer}
  {action : TimerAction}

/-- Queued: in both sets, `t` being the object behind the pointer. -/
structure InQueue (s : TimerQueue) (a : ActiveTimer) (t : Timer) : Prop where
  lookup : s.lookup a = some t
  timers : ⟨t.expiration, a.timer⟩ ∈ s.timers
  active : a ∈ s.activeTimers

/-- Deleted, and in neither set. -/
structure Gone (s : TimerQueue) (a : ActiveTimer) : Prop where
  deleted : a.sequence ∈ s.deleted
  freed : s.heap a.timer = none
  active : a ∉ s.activeTimers
  timers : ∀ e, (⟨e, a.timer⟩ : Entry) ∉ s.timers

/-- The books say what the first set holds. -/
theorem Books.inQueue_iff (h : s.Books hand) :
    s.InQueue a t ↔ a ∈ s.activeTimers ∧ s.lookup a = some t := by
  constructor
  · exact fun hq => ⟨hq.active, hq.lookup⟩
  · rintro ⟨ha, ht⟩
    obtain ⟨hheap, hseq⟩ := lookup_eq_some.mp ht
    refine ⟨ht, (h.indexed _).mpr ⟨t, hheap, rfl, ?_⟩, ha⟩
    rwa [hseq]

theorem lookup_congr (h : s'.heap a.timer = s.heap a.timer) : s'.lookup a = s.lookup a := by
  unfold lookup
  rw [h]

/-- Different owned timers live at different addresses. -/
theorem Books.timer_ne (h : s.Books hand) (ha : a ∈ s.owners hand) (hb : b ∈ s.owners hand)
    (hne : a ≠ b) : a.timer ≠ b.timer := fun heq => hne (h.owned.unique ha hb heq)

/-- The sets hold every object that no other owner holds. -/
theorem Books.mem_active_iff (h : s.Books hand) :
    a ∈ s.activeTimers ↔ (∃ t, s.lookup a = some t) ∧ a ∉ hand ∧ a ∉ s.queued := by
  have hnodup : (s.owners hand).Nodup := (List.nodup_append.mp h.owned.nodup).2.1.of_map
  obtain ⟨-, hrest, hhand⟩ := List.nodup_append.mp hnodup
  obtain ⟨-, -, hqueued⟩ := List.nodup_append.mp hrest
  constructor
  · intro ha
    refine ⟨h.lookup (mem_owners_of_active ha), fun hmem => ?_, fun hmem => ?_⟩
    · exact hhand a hmem a (List.mem_append_right _ ha) rfl
    · exact hqueued a hmem a ha rfl
  · rintro ⟨⟨t, ht⟩, hnot, hnot'⟩
    have hmem : a ∈ s.owners hand := (h.owned.live a).mpr ⟨t, lookup_eq_some.mp ht⟩
    rcases List.mem_append.mp hmem with hmem | hmem
    · exact absurd hmem hnot
    · exact (List.mem_append.mp hmem).resolve_left hnot'

/-! ## The start -/

/-- The timer of an entry, with the sequence number of the object behind the pointer. -/
def nameOf (heap : Nat → Option Timer) (e : Entry) : Option ActiveTimer :=
  (heap e.timer).map fun t => ⟨e.timer, t.sequence⟩

/-- The timers that a `handleRead` takes now. -/
def due (s : TimerQueue) : List ActiveTimer :=
  (s.timers.below ⟨s.clock, UINTPTR_MAX⟩).filterMap (nameOf s.heap)

theorem takeExpired_eq : ∀ {entries : List Entry} {s s' : TimerQueue}
    {expired : List ActiveTimer}, s.takeExpired entries = some (s', expired) →
      expired = entries.filterMap (nameOf s.heap)
  | [], s, s', expired, h => (congrArg Prod.snd (Option.some.inj h)).symm
  | e :: entries, s, s', expired, h => by
    obtain ⟨t, ht, h⟩ := Option.bind_eq_some_iff.mp h
    obtain ⟨⟨s₁, timers⟩, htake, h⟩ := Option.bind_eq_some_iff.mp h
    have hname : nameOf s.heap e = some ⟨e.timer, t.sequence⟩ := by
      unfold nameOf
      rw [ht]
      rfl
    have hexpired : ⟨e.timer, t.sequence⟩ :: timers = expired :=
      congrArg Prod.snd (Option.some.inj h)
    rw [List.filterMap_cons_some hname, ← hexpired, takeExpired_eq htake]

/-- The batch is what is due. -/
theorem handleRead_phase (h : s.handleRead = some s') :
    s'.phase = .calling s.clock s.due s.due := by
  obtain ⟨⟨s₁, expired⟩, htake, h⟩ := Option.bind_eq_some_iff.mp h
  have hexpired := takeExpired_eq htake
  rw [← Option.some.inj h, show expired = s.due from hexpired]

/-- What is due: the queued timers that expire now or before. -/
theorem Books.mem_due (h : s.Books hand) :
    a ∈ s.due ↔ ∃ t, s.InQueue a t ∧ t.expiration ≤ s.clock := by
  unfold due
  rw [List.mem_filterMap]
  constructor
  · rintro ⟨x, hx, hname⟩
    obtain ⟨hmem, hlt⟩ := SortedSet.mem_below.mp hx
    obtain ⟨t, hheap, hexp, hactive⟩ := (h.indexed x).mp hmem
    unfold nameOf at hname
    rw [hheap] at hname
    obtain rfl := Option.some.inj hname
    refine ⟨t, h.inQueue_iff.mpr ⟨hactive, lookup_eq_some.mpr ⟨hheap, rfl⟩⟩, ?_⟩
    rw [hexp]
    exact (Entry.lt_sentry (h.owned.address _ (mem_owners_of_active hactive))).mp hlt
  · rintro ⟨t, hq, hle⟩
    obtain ⟨hheap, hseq⟩ := lookup_eq_some.mp hq.lookup
    have haddress := h.owned.address a (mem_owners_of_active hq.active)
    refine ⟨⟨t.expiration, a.timer⟩, SortedSet.mem_below.mpr ⟨hq.timers, ?_⟩, ?_⟩
    · exact (Entry.lt_sentry haddress).mpr hle
    · unfold nameOf
      rw [hheap, Option.map_some, hseq]

/-- An entry that names a queued timer has its expiration. -/
theorem Books.expiration_of_nameOf (h : s.Books hand) {x : Entry} (hx : x ∈ s.timers)
    (hname : nameOf s.heap x = some a) (ht : s.lookup a = some t) :
    x.expiration = t.expiration := by
  obtain ⟨u, hheap, hexp, -⟩ := (h.indexed x).mp hx
  unfold nameOf at hname
  rw [hheap] at hname
  obtain rfl := Option.some.inj hname
  have hu : some u = some t := hheap.symm.trans (lookup_eq_some.mp ht).1
  rw [← hexp, Option.some.inj hu]

/-- They stand in the order of their expirations. -/
theorem Books.due_sorted (h : s.Books hand) : s.due.Pairwise fun a b =>
    ∀ t u, s.InQueue a t → s.InQueue b u → t.expiration ≤ u.expiration := by
  have hentries : (s.timers.below ⟨s.clock, UINTPTR_MAX⟩).Pairwise (· < ·) :=
    s.timers.sorted.sublist (List.takeWhile_sublist _)
  refine List.pairwise_filterMap.mpr (hentries.imp_of_mem ?_)
  intro x y hx hy hlt a ha b hb t u ht hu
  rw [← h.expiration_of_nameOf (SortedSet.mem_below.mp hx).1 ha ht.lookup,
    ← h.expiration_of_nameOf (SortedSet.mem_below.mp hy).1 hb hu.lookup]
  exact Entry.expiration_le hlt.le

/-- **The start of `handleRead`** takes what is due out of the sets, and nothing else. -/
theorem handleRead_due (h : s.Inv) (hidle : s.phase = .idle) : ∃ s₁,
    s.step .handleRead = some s₁ ∧ s₁.Inv ∧ s₁.phase = .calling s.clock s.due s.due ∧
      s₁.cancelingTimers = .empty ∧ s₁.ran = s.ran ∧ s₁.heap = s.heap ∧
      s₁.deleted = s.deleted ∧
      ∀ a t, s₁.InQueue a t ↔ s.InQueue a t ∧ a ∉ s.due := by
  have hbooks := h.books_idle hidle
  have hg : machine.guard s .handleRead := hidle
  obtain ⟨s₁, hstep, hinv⟩ := step_inv h hg
  have hphase := handleRead_phase hstep
  obtain ⟨active, expired, hread, -⟩ := handleRead_books hbooks
  obtain rfl := Option.some.inj (hread.symm.trans hstep)
  have hbooks' := (hinv.books_calling hphase).1
  refine ⟨_, hstep, hinv, hphase, rfl, rfl, rfl, rfl, fun a t => ?_⟩
  rw [hbooks.inQueue_iff, hbooks'.inQueue_iff, and_right_comm]
  refine and_congr_left fun ht => ?_
  -- the same objects, shared out in another way
  rw [hbooks.mem_active_iff, hbooks'.mem_active_iff]
  constructor
  · rintro ⟨hlive, hdue, hqueued⟩
    exact ⟨⟨hlive, List.not_mem_nil, hqueued⟩, hdue⟩
  · rintro ⟨⟨hlive, -, hqueued⟩, hdue⟩
    exact ⟨hlive, hdue, hqueued⟩

/-! ## The callbacks -/

/-- The action adds the timer. -/
def AddsNow (action : TimerAction) (a : ActiveTimer) (t : Timer) : Prop :=
  a.sequence = t.sequence ∧ action = .addTimer a.timer t.expiration t.interval t.sequence

/-- The actions add the timer, and do not cancel it after that. -/
def Adds (as : List TimerAction) (a : ActiveTimer) (t : Timer) : Prop :=
  ∃ pre action post, as = pre ++ action :: post ∧ AddsNow action a t ∧ .cancel a ∉ post

theorem adds_cons {as : List TimerAction} :
    Adds (action :: as) a t ↔ AddsNow action a t ∧ .cancel a ∉ as ∨ Adds as a t := by
  constructor
  · rintro ⟨pre, action', post, heq, hadd, hnot⟩
    cases pre with
    | nil =>
      obtain ⟨rfl, rfl⟩ := List.cons.inj heq
      exact .inl ⟨hadd, hnot⟩
    | cons b pre =>
      obtain ⟨rfl, rfl⟩ := List.cons.inj heq
      exact .inr ⟨pre, action', post, rfl, hadd, hnot⟩
  · rintro (⟨hadd, hnot⟩ | ⟨pre, action', post, rfl, hadd, hnot⟩)
    · exact ⟨[], action, as, rfl, hadd, hnot⟩
    · exact ⟨action :: pre, action', post, rfl, hadd, hnot⟩

theorem not_adds_nil : ¬ Adds [] a t := by
  rintro ⟨pre, action, post, heq, -⟩
  simp at heq

theorem inQueue_congr (hheap : s'.heap = s.heap) (htimers : s'.timers = s.timers)
    (hactive : s'.activeTimers = s.activeTimers) : s'.InQueue a t ↔ s.InQueue a t := by
  have hlookup : s'.lookup a = s.lookup a := lookup_congr (by rw [hheap])
  constructor
  · rintro ⟨hl, ht, ha⟩
    exact ⟨hlookup ▸ hl, htimers ▸ ht, hactive ▸ ha⟩
  · rintro ⟨hl, ht, ha⟩
    exact ⟨hlookup ▸ hl, htimers ▸ ht, hactive ▸ ha⟩

/-- A new object is at no address in use. -/
theorem Books.lookup_newTimer (h : s.Books hand) {p n : Nat} (hf : s.Fresh p n) (w : Int)
    (i : Option Nat) (ha : a ∈ s.owners hand) :
    (s.newTimer p ⟨w, i, n⟩).lookup a = s.lookup a := by
  obtain ⟨t, ht⟩ := h.lookup ha
  refine lookup_congr (Function.update_of_ne ?_ _ _)
  rintro rfl
  exact nomatch (lookup_eq_some.mp ht).1.symm.trans hf.free

theorem Books.inQueue_newTimer (h : s.Books hand) {p n : Nat} (hf : s.Fresh p n) (w : Int)
    (i : Option Nat) : (s.newTimer p ⟨w, i, n⟩).InQueue a t ↔ s.InQueue a t := by
  rw [(h.newTimer hf w i).inQueue_iff, h.inQueue_iff]
  exact and_congr_right fun ha => by rw [h.lookup_newTimer hf w i (mem_owners_of_active ha)]

theorem inQueue_addTimerInLoop (h : s.Books (b :: hand)) {u : Timer} (hu : s.lookup b = some u)
    (hs : s.addTimerInLoop b = some s') :
    s'.InQueue a t ↔ s.InQueue a t ∨ a = b ∧ t = u := by
  have heq := Option.some.inj ((addTimerInLoop_eq hu).symm.trans hs)
  have hbooks := addTimerInLoop_books h hu (if s.earliestChanged u.expiration then
    .armed u.expiration else s.timerfd)
  rw [heq] at hbooks
  have hactive : s'.activeTimers = s.activeTimers.insert b := by rw [← heq]
  have hlookup : s'.lookup a = s.lookup a := lookup_congr (by rw [← heq])
  rw [hbooks.inQueue_iff, h.inQueue_iff, hactive, hlookup, SortedSet.mem_insert]
  by_cases hab : a = b
  · subst hab
    have hnot : a ∉ s.activeTimers := h.not_active a.sequence
    simp [hnot, hu, eq_comm]
  · simp [hab]

theorem inQueue_cancelInLoop (h : s.Inv) (hs : s.cancelInLoop b = some s') :
    s'.InQueue a t ↔ s.InQueue a t ∧ a ≠ b := by
  by_cases hb : b ∈ s.activeTimers
  · obtain ⟨u, hu⟩ := h.books.lookup (mem_owners_of_active hb)
    have hbooks := (h.books.erase hb hu).delete
    have heq := Option.some.inj ((cancelInLoop_active hb hu).symm.trans hs)
    rw [heq] at hbooks
    have hactive : s'.activeTimers = s.activeTimers.erase b := by rw [← heq]
    have hlookup : a ∈ s.activeTimers → a ≠ b → s'.lookup a = s.lookup a := by
      intro ha hne
      have htimer := h.books.timer_ne (mem_owners_of_active ha) (mem_owners_of_active hb) hne
      refine lookup_congr ?_
      rw [← heq]
      exact Function.update_of_ne htimer none s.heap
    rw [hbooks.inQueue_iff, h.books.inQueue_iff, hactive, SortedSet.mem_erase]
    constructor
    · rintro ⟨⟨hne, ha⟩, ht⟩
      exact ⟨⟨ha, (hlookup ha hne).symm.trans ht⟩, hne⟩
    · rintro ⟨⟨ha, ht⟩, hne⟩
      exact ⟨⟨hne, ha⟩, (hlookup ha hne).trans ht⟩
  · have heq := Option.some.inj ((cancelInLoop_other hb).symm.trans hs)
    have hsame : s'.InQueue a t ↔ s.InQueue a t :=
      inQueue_congr (by rw [← heq]) (by rw [← heq]) (by rw [← heq])
    rw [hsame]
    refine iff_self_and.mpr fun hq => ?_
    rintro rfl
    exact hb hq.active

/-- What the callbacks of a batch have done between two states of it. -/
structure Called (now : Int) (expired : List ActiveTimer) (as : List TimerAction)
    (s s' : TimerQueue) : Prop where
  phase : ∃ rest, s'.phase = .calling now expired rest
  /-- The batch runs as it stands. -/
  ran : s'.ran ++ s'.phase.rest.map ActiveTimer.sequence =
    s.ran ++ s.phase.rest.map ActiveTimer.sequence
  lookup : ∀ a ∈ expired, s'.lookup a = s.lookup a
  canceling : ∀ a ∈ expired, a ∈ s'.cancelingTimers ↔ a ∈ s.cancelingTimers ∨ .cancel a ∈ as
  inQueue : ∀ a t, s'.InQueue a t ↔ s.InQueue a t ∧ .cancel a ∉ as ∨ Adds as a t

theorem Called.nil {now : Int} {expired rest : List ActiveTimer}
    (hphase : s.phase = .calling now expired rest) : Called now expired [] s s where
  phase := ⟨rest, hphase⟩
  ran := rfl
  lookup _ _ := rfl
  canceling a _ := by simp
  inQueue a t := by simp [not_adds_nil]

theorem Called.cons {now : Int} {expired : List ActiveTimer} {as : List TimerAction}
    {s'' : TimerQueue} (h : Called now expired [action] s s') (h' : Called now expired as s' s'') :
    Called now expired (action :: as) s s'' where
  phase := h'.phase
  ran := h'.ran.trans h.ran
  lookup a ha := (h'.lookup a ha).trans (h.lookup a ha)
  canceling a ha := by
    rw [h'.canceling a ha, h.canceling a ha, List.mem_singleton, List.mem_cons, or_assoc]
  inQueue a t := by
    rw [h'.inQueue, h.inQueue, adds_cons, adds_cons, List.mem_singleton, List.mem_cons, not_or]
    have hnil : ¬ Adds [] a t := not_adds_nil
    tauto

theorem addsNow_addTimer {p n : Nat} {w : Int} {i : Option Nat} :
    AddsNow (.addTimer p w i n) a t ↔ a = ⟨p, n⟩ ∧ t = ⟨w, i, n⟩ := by
  obtain ⟨q, m⟩ := a
  obtain ⟨e, j, k⟩ := t
  simp only [AddsNow, TimerAction.addTimer.injEq, ActiveTimer.mk.injEq, Timer.mk.injEq]
  constructor
  · rintro ⟨rfl, rfl, rfl, rfl, rfl⟩
    exact ⟨⟨rfl, rfl⟩, rfl, rfl, rfl⟩
  · rintro ⟨⟨rfl, rfl⟩, rfl, rfl, rfl⟩
    exact ⟨rfl, rfl, rfl, rfl, rfl⟩

/-- A cancellation leaves the objects of the batch alone, and is put down for each of them. -/
theorem cancelInLoop_batch (h : s.Inv) {now : Int} {expired rest : List ActiveTimer}
    (hphase : s.phase = .calling now expired rest) (hs : s.cancelInLoop b = some s')
    (ha : a ∈ expired) : s'.lookup a = s.lookup a ∧
      (a ∈ s'.cancelingTimers ↔ a ∈ s.cancelingTimers ∨ a = b) := by
  have hbooks := (h.books_calling hphase).1
  by_cases hb : b ∈ s.activeTimers
  · obtain ⟨u, hu⟩ := hbooks.lookup (mem_owners_of_active hb)
    have heq := Option.some.inj ((cancelInLoop_active hb hu).symm.trans hs)
    have hne : a ≠ b := by
      rintro rfl
      exact (hbooks.mem_active_iff.mp hb).2.1 ha
    have htimer := hbooks.timer_ne (mem_owners_of_hand ha) (mem_owners_of_active hb) hne
    refine ⟨lookup_congr ?_, ?_⟩
    · rw [← heq]
      exact Function.update_of_ne htimer none s.heap
    · rw [← heq]
      exact (or_iff_left hne).symm
  · have heq := Option.some.inj ((cancelInLoop_other hb).symm.trans hs)
    have hcalling : s.callingExpiredTimers = true := h.calling.mpr (by simp [hphase])
    refine ⟨lookup_congr (by rw [← heq]), ?_⟩
    rw [← heq, hcalling, if_pos rfl, SortedSet.mem_insert, or_comm]

/-- A step that changes neither the queue nor the batch. -/
theorem called_of_same {now : Int} {expired rest : List ActiveTimer}
    (hphase : s.phase = .calling now expired rest) (hphase' : s'.phase = s.phase)
    (hran : s'.ran = s.ran) (hlookup : ∀ a ∈ expired, s'.lookup a = s.lookup a)
    (hcanceling : s'.cancelingTimers = s.cancelingTimers)
    (hqueue : ∀ a t, s'.InQueue a t ↔ s.InQueue a t) (hcancel : ∀ a, action ≠ .cancel a)
    (hadd : ∀ a t, ¬ AddsNow action a t) : Called now expired [action] s s' where
  phase := ⟨rest, hphase'.trans hphase⟩
  ran := by rw [hran, hphase']
  lookup := hlookup
  canceling a _ := by simp [hcanceling, (hcancel a).symm]
  inQueue a t := by simp [hqueue, adds_cons, hadd, not_adds_nil, (hcancel a).symm]

/-- **What a step does in the middle of a batch.** -/
theorem called_step (h : s.Inv) {now : Int} {expired rest : List ActiveTimer}
    (hphase : s.phase = .calling now expired rest) (hg : machine.guard s action)
    (hreset : action ≠ .reset) (hs : s.step action = some s') :
    Called now expired [action] s s' := by
  obtain ⟨hbooks, hrest⟩ := h.books_calling hphase
  have hnotIdle : s.phase ≠ .idle := by
    rw [hphase]
    simp
  cases action with
  | addTimer p w i n =>
    have hnew := hbooks.addTimer hg.2 w i
    have hlookup : ((s.note [⟨p, n⟩]).newTimer p ⟨w, i, n⟩).lookup ⟨p, n⟩ = some ⟨w, i, n⟩ :=
      lookup_eq_some.mpr ⟨Function.update_self .., rfl⟩
    have heq := Option.some.inj ((addTimerInLoop_eq hlookup).symm.trans hs)
    have hphase' : s'.phase = s.phase := by rw [← heq]; rfl
    have hran : s'.ran = s.ran := by rw [← heq]; rfl
    refine ⟨⟨rest, hphase'.trans hphase⟩, by rw [hran, hphase'], fun a ha => ?_, fun a ha => ?_,
      fun a t => ?_⟩
    · rw [← hbooks.lookup_newTimer hg.2 w i (mem_owners_of_hand ha)]
      exact lookup_congr (by rw [← heq]; rfl)
    · have hcanceling : s'.cancelingTimers = s.cancelingTimers := by rw [← heq]; rfl
      simp [hcanceling]
    · have hnoted : ((s.note [⟨p, n⟩]).newTimer p ⟨w, i, n⟩).InQueue a t ↔
          (s.newTimer p ⟨w, i, n⟩).InQueue a t := inQueue_congr rfl rfl rfl
      rw [inQueue_addTimerInLoop hnew hlookup hs, hnoted, hbooks.inQueue_newTimer hg.2 w i,
        adds_cons, addsNow_addTimer]
      simp [not_adds_nil]
  | cancel timerId =>
    have hq := quiet_cancelInLoop h hs
    refine ⟨⟨rest, hq.phase.trans hphase⟩, by rw [hq.ran, hq.phase], fun a ha => ?_, fun a ha => ?_,
      fun a t => ?_⟩
    · exact (cancelInLoop_batch h hphase hs ha).1
    · rw [(cancelInLoop_batch h hphase hs ha).2]
      simp
    · rw [inQueue_cancelInLoop h hs]
      simp [adds_cons, not_adds_nil, AddsNow]
  | remoteAddTimer p w i n =>
    obtain rfl := Option.some.inj hs
    refine called_of_same hphase rfl rfl (fun a ha => ?_) rfl (fun a t => ?_) (by simp)
      (by simp [AddsNow])
    · exact hbooks.lookup_newTimer hg w i (mem_owners_of_hand ha)
    · rw [← hbooks.inQueue_newTimer hg w i]
      exact inQueue_congr rfl rfl rfl
  | remoteCancel timerId =>
    obtain rfl := Option.some.inj hs
    exact called_of_same hphase rfl rfl (fun _ _ => rfl) rfl (fun _ _ => inQueue_congr rfl rfl rfl)
      (by simp) (by simp [AddsNow])
  | runPending => exact absurd hg.1 hnotIdle
  | handleRead => exact absurd hg hnotIdle
  | runCallback =>
    obtain ⟨now', expired', timer, rest', hphase'⟩ := hg
    obtain ⟨-, t, ht, hstep⟩ := step_runCallback h hphase'
    have heq := Option.some.inj (hstep.symm.trans hs)
    obtain ⟨rfl, rfl, rfl⟩ : now' = now ∧ expired' = expired ∧ timer :: rest' = rest := by
      simpa using hphase'.symm.trans hphase
    refine ⟨⟨rest', by rw [← heq]⟩, ?_, fun a _ => lookup_congr (by rw [← heq]), fun a _ => ?_,
      fun a t => ?_⟩
    · -- the callback moves from those to come to those run
      rw [← heq, hphase, (lookup_eq_some.mp ht).2]
      simp [TimerPhase.rest]
    · rw [← heq]
      simp
    · rw [inQueue_congr (s := s) (by rw [← heq]) (by rw [← heq]) (by rw [← heq])]
      simp [adds_cons, not_adds_nil, AddsNow]
  | reset => exact absurd rfl hreset
  | fire =>
    obtain rfl := Option.some.inj hs
    exact called_of_same hphase rfl rfl (fun _ _ => rfl) rfl (fun _ _ => inQueue_congr rfl rfl rfl)
      (by simp) (by simp [AddsNow])
  | tick now =>
    obtain rfl := Option.some.inj hs
    exact called_of_same hphase rfl rfl (fun _ _ => rfl) rfl (fun _ _ => inQueue_congr rfl rfl rfl)
      (by simp) (by simp [AddsNow])

/-- **What the callbacks of a batch do**, whatever they add and cancel. -/
theorem called_run {now : Int} {expired : List ActiveTimer} : ∀ {as : List TimerAction}
    {s : TimerQueue} {rest : List ActiveTimer}, s.Inv → s.phase = .calling now expired rest →
      machine.Legal s as → .reset ∉ as →
      (machine.after s as).Inv ∧ Called now expired as s (machine.after s as)
  | [], _, _, h, hphase, _, _ => ⟨h, .nil hphase⟩
  | action :: as, s, rest, h, hphase, hlegal, hreset => by
    rw [List.mem_cons, not_or] at hreset
    obtain ⟨s₁, hstep, hinv⟩ := step_inv h hlegal.1
    have hfirst := called_step h hphase hlegal.1 (Ne.symm hreset.1) hstep
    have hnext := next_eq hstep
    have hlegal' := hlegal.2
    rw [hnext] at hlegal'
    obtain ⟨rest₁, hphase₁⟩ := hfirst.phase
    obtain ⟨hinv', hrun⟩ := called_run hinv hphase₁ hlegal' hreset.2
    have hafter : machine.after s (action :: as) = machine.after s₁ as := by
      rw [← hnext]
      rfl
    rw [hafter]
    exact ⟨hinv', hfirst.cons hrun⟩

/-! ## The end -/

/-- `reset` puts the timer back as `t`. -/
def Again (s : TimerQueue) (now : Int) (a : ActiveTimer) (t : Timer) : Prop :=
  a ∉ s.cancelingTimers ∧ ∃ u, s.lookup a = some u ∧ u.repeats = true ∧ t = u.restart now

/-- What `reset` does with the timers of a batch. -/
structure Settled (now : Int) (expired : List ActiveTimer) (s s' : TimerQueue) : Prop where
  inQueue : ∀ a t, s'.InQueue a t ↔ s.InQueue a t ∨ a ∈ expired ∧ Again s now a t
  gone : ∀ a ∈ expired, (∀ t, ¬ Again s now a t) →
    a.sequence ∈ s'.deleted ∧ s'.heap a.timer = none
  heap : ∀ p, (∀ a ∈ expired, a.timer ≠ p) → s'.heap p = s.heap p
  deleted : s.deleted ⊆ s'.deleted
  canceling : s'.cancelingTimers = s.cancelingTimers
  ran : s'.ran = s.ran

theorem resetTimer_settled (h : s.Books (a :: hand)) {now : Int}
    (hs : s.resetTimer now a = some s') : s'.Books hand ∧ Settled now [a] s s' := by
  obtain ⟨s₁, hs₁, hbooks, hre, -⟩ := resetTimer_books h now
  obtain rfl := Option.some.inj (hs₁.symm.trans hs)
  obtain ⟨u, hu⟩ := h.lookup (mem_owners_of_hand List.mem_cons_self)
  have hnot : a ∉ s.activeTimers := h.not_active a.sequence
  have hne : ∀ b ∈ s.activeTimers, b.timer ≠ a.timer := fun b hb =>
    h.timer_ne (mem_owners_of_active hb) (mem_owners_of_hand List.mem_cons_self)
      fun heq => hnot (heq ▸ hb)
  have hcanceling : s₁.cancelingTimers = s.cancelingTimers := by rw [hre.frame]
  have hran : s₁.ran = s.ran := by rw [hre.frame]
  refine ⟨hbooks, ?_⟩
  by_cases hrepeat : u.repeats = true ∧ a ∉ s.cancelingTimers
  · have heq := Option.some.inj ((resetTimer_again hu now hrepeat).symm.trans hs₁)
    have hagain : ∀ t, Again s now a t ↔ t = u.restart now := by
      intro t
      simp [Again, hu, hrepeat]
    have hheap : s₁.heap = Function.update s.heap a.timer (some (u.restart now)) := by rw [← heq]
    have hactive : s₁.activeTimers = s.activeTimers.insert a := by rw [← heq]
    have hlookup : s₁.lookup a = some (u.restart now) := by
      refine lookup_eq_some.mpr ⟨?_, (restart_sequence u now).trans (lookup_eq_some.mp hu).2⟩
      rw [hheap]
      exact Function.update_self ..
    refine ⟨fun b t => ?_, fun b hb hnone => ?_, fun p hp => ?_, hre.deleted, hcanceling, hran⟩
    · rw [hbooks.inQueue_iff, h.inQueue_iff, hactive, SortedSet.mem_insert, List.mem_singleton]
      by_cases hb : b = a
      · subst hb
        simp [hnot, hlookup, hagain, eq_comm]
      · simp only [hb, false_or, false_and, or_false]
        refine and_congr_right fun hmem => ?_
        rw [lookup_congr (s := s)]
        rw [hheap, Function.update_of_ne (hne b hmem)]
    · obtain rfl := List.mem_singleton.mp hb
      exact absurd ((hagain _).mpr rfl) (hnone _)
    · rw [hheap, Function.update_of_ne (hp a List.mem_cons_self).symm]
  · have heq := Option.some.inj ((resetTimer_delete hu now hrepeat).symm.trans hs₁)
    have hagain : ∀ t, ¬ Again s now a t := by
      rintro t ⟨hc, v, hv, hr, -⟩
      rw [hu] at hv
      exact hrepeat ⟨Option.some.inj hv ▸ hr, hc⟩
    have hheap : s₁.heap = Function.update s.heap a.timer none := by rw [← heq]
    have hactive : s₁.activeTimers = s.activeTimers := by rw [← heq]
    refine ⟨fun b t => ?_, fun b hb _ => ?_, fun p hp => ?_, hre.deleted, hcanceling, hran⟩
    · rw [hbooks.inQueue_iff, h.inQueue_iff, hactive, List.mem_singleton]
      have hnever : ¬ (b = a ∧ Again s now b t) := by
        rintro ⟨rfl, ha⟩
        exact hagain t ha
      rw [or_iff_left hnever]
      refine and_congr_right fun hmem => ?_
      rw [lookup_congr (s := s)]
      rw [hheap, Function.update_of_ne (hne b hmem)]
    · obtain rfl := List.mem_singleton.mp hb
      refine ⟨?_, ?_⟩
      · rw [← heq]
        exact List.mem_append_right _ List.mem_cons_self
      · rw [hheap, Function.update_self]
    · rw [hheap, Function.update_of_ne (hp a List.mem_cons_self).symm]

theorem Again.congr {now : Int} (hlookup : s'.lookup a = s.lookup a)
    (hcanceling : s'.cancelingTimers = s.cancelingTimers) :
    Again s' now a t ↔ Again s now a t := by
  unfold Again
  rw [hlookup, hcanceling]

/-- The first timer of a batch, and the rest of it. -/
theorem Settled.cons {now : Int} {s₁ : TimerQueue} (h : s.Books (a :: hand))
    (h₁ : Settled now [a] s s₁) (h₂ : Settled now hand s₁ s') :
    Settled now (a :: hand) s s' := by
  have hne : ∀ b ∈ hand, b.timer ≠ a.timer := fun b hb heq =>
    h.owned.not_mem b.sequence (heq ▸ mem_owners_of_hand hb)
  have hagain : ∀ b ∈ hand, ∀ t, Again s₁ now b t ↔ Again s now b t := fun b hb t =>
    Again.congr (lookup_congr (h₁.heap _ (by simpa using (hne b hb).symm))) h₁.canceling
  refine ⟨fun b t => ?_, fun b hb hnone => ?_, fun p hp => ?_, ?_, ?_, ?_⟩
  · rw [h₂.inQueue, h₁.inQueue, List.mem_singleton, List.mem_cons, or_assoc, or_and_right]
    exact or_congr_right (or_congr_right (and_congr_right fun hb => hagain b hb t))
  · rcases List.mem_cons.mp hb with rfl | hb
    · obtain ⟨hdel, hfree⟩ := h₁.gone b List.mem_cons_self hnone
      exact ⟨h₂.deleted hdel, (h₂.heap _ hne).trans hfree⟩
    · exact h₂.gone b hb fun t ha => hnone t ((hagain b hb t).mp ha)
  · rw [h₂.heap p fun b hb => hp b (List.mem_cons_of_mem a hb),
      h₁.heap p (by simpa using hp a List.mem_cons_self)]
  · exact List.Subset.trans h₁.deleted h₂.deleted
  · rw [h₂.canceling, h₁.canceling]
  · rw [h₂.ran, h₁.ran]

theorem resetTimers_settled {now : Int} : ∀ {expired : List ActiveTimer} {s s' : TimerQueue},
    s.Books expired → s.resetTimers now expired = some s' →
      s'.Books [] ∧ Settled now expired s s'
  | [], s, s', h, hs => by
    obtain rfl := Option.some.inj hs
    exact ⟨h, ⟨fun a t => by simp, nofun, fun _ _ => rfl, List.Subset.refl _, rfl, rfl⟩⟩
  | a :: expired, s, s', h, hs => by
    obtain ⟨s₁, hs₁, hs⟩ := Option.bind_eq_some_iff.mp hs
    obtain ⟨hbooks₁, hsettled₁⟩ := resetTimer_settled h hs₁
    obtain ⟨hbooks, hsettled⟩ := resetTimers_settled hbooks₁ hs
    exact ⟨hbooks, hsettled₁.cons h hsettled⟩

/-- **What `reset` does**: the sets are settled, and the timerfd is set. -/
theorem reset_settled {now : Int} (h : s.Books hand) (hs : s.reset now hand = some s') :
    s'.Books [] ∧ s'.phase = .idle ∧ Settled now hand s s' := by
  have hbooks₀ : Books { s with callingExpiredTimers := false } hand :=
    ⟨h.owned, h.indexed, h.placed⟩
  obtain ⟨s₁, hresets, hs⟩ := Option.bind_eq_some_iff.mp hs
  obtain ⟨hbooks, hsettled⟩ := resetTimers_settled hbooks₀ hresets
  rw [armNext_eq hbooks] at hs
  obtain rfl := Option.some.inj hs
  refine ⟨⟨hbooks.owned, hbooks.indexed, hbooks.placed⟩, rfl, ⟨fun a t => ?_, hsettled.gone,
    hsettled.heap, hsettled.deleted, hsettled.canceling, hsettled.ran⟩⟩
  have hqueue : s₁.InQueue a t ↔ s.InQueue a t ∨ a ∈ hand ∧ Again s now a t :=
    (hsettled.inQueue a t).trans (or_congr_left (inQueue_congr rfl rfl rfl))
  rw [← hqueue]
  exact inQueue_congr rfl rfl rfl

/-! ## The whole run -/

/-- What a run of `handleRead` from `s` to `s'` does, when the steps between its start and its end
are `as`. -/
structure BatchDone (s s' : TimerQueue) (as : List TimerAction) (batch : List ActiveTimer) :
    Prop where
  idle : s'.phase = .idle
  /-- The batch is the timers that expire now or before. -/
  exact : ∀ a, a ∈ batch ↔ ∃ t, s.InQueue a t ∧ t.expiration ≤ s.clock
  once : (batch.map ActiveTimer.sequence).Nodup
  ordered : batch.Pairwise fun a b =>
    ∀ t u, s.InQueue a t → s.InQueue b u → t.expiration ≤ u.expiration
  ran : s'.ran = s.ran ++ batch.map ActiveTimer.sequence
  /-- A periodic timer that was not cancelled is queued again, for one interval after now unless
  that overflows. -/
  again : ∀ a ∈ batch, ∀ t delta, s.InQueue a t → t.interval = some delta → .cancel a ∉ as →
    ∃ expiration, s'.InQueue a { t with expiration } ∧
      (t.Fits s.clock → expiration = s.clock + delta)
  /-- Any other one is deleted. -/
  gone : ∀ a ∈ batch, ∀ t, s.InQueue a t → t.interval = none ∨ .cancel a ∈ as → s'.Gone a
  /-- What `cancelingTimers_` holds of the batch. -/
  canceling : ∀ a ∈ batch, a ∈ s'.cancelingTimers ↔ .cancel a ∈ as
  /-- A timer outside the batch stays as it is, unless it was cancelled. -/
  others : ∀ a, a ∉ batch → ∀ t, s.InQueue a t → .cancel a ∉ as → s'.InQueue a t
  added : ∀ a t, Adds as a t → s'.InQueue a t
  /-- There is nothing else in the queue. -/
  rest : ∀ a t, s'.InQueue a t → a ∈ batch ∨ s.InQueue a t ∧ .cancel a ∉ as ∨ Adds as a t

/-- A freed timer is in no set. -/
theorem Books.gone (h : s.Books hand) (hdeleted : a.sequence ∈ s.deleted)
    (hfreed : s.heap a.timer = none) : s.Gone a where
  deleted := hdeleted
  freed := hfreed
  active ha := by
    obtain ⟨t, ht⟩ := h.lookup (mem_owners_of_active ha)
    exact nomatch (lookup_eq_some.mp ht).1.symm.trans hfreed
  timers e he := by
    obtain ⟨t, ht, -⟩ := (h.indexed _).mp he
    exact nomatch ht.symm.trans hfreed

/-- The batch between its two ends: what `reset` makes of what the callbacks have left. -/
theorem batchDone_of_settled {s₁ s₂ : TimerQueue} {as : List TimerAction} (h : s.Books [])
    (h₁ : s₁.Books s.due) (hcanceling : s₁.cancelingTimers = .empty) (hran : s₁.ran = s.ran)
    (hheap : s₁.heap = s.heap) (hqueue : ∀ a t, s₁.InQueue a t ↔ s.InQueue a t ∧ a ∉ s.due)
    (hphase₁ : s₁.phase = .calling s.clock s.due s.due)
    (hphase₂ : s₂.phase = .calling s.clock s.due [])
    (hcalled : Called s.clock s.due as s₁ s₂) (hbooks : s'.Books []) (hidle : s'.phase = .idle)
    (hsettled : Settled s.clock s.due s₂ s') : BatchDone s s' as s.due := by
  have hlookup : ∀ a ∈ s.due, s₂.lookup a = s.lookup a := fun a ha =>
    (hcalled.lookup a ha).trans (lookup_congr (by rw [hheap]))
  have hcancel : ∀ a ∈ s.due, a ∈ s₂.cancelingTimers ↔ .cancel a ∈ as := by
    intro a ha
    rw [hcalled.canceling a ha, hcanceling]
    exact or_iff_right (SortedSet.not_mem_empty a)
  refine ⟨hidle, fun a => h.mem_due, ?_, h.due_sorted, ?_, ?_, ?_, ?_, ?_, ?_, ?_⟩
  · have hnodup := (List.nodup_append.mp h₁.owned.nodup).2.1
    exact hnodup.sublist ((List.sublist_append_left s.due _).map _)
  · have hall := hcalled.ran
    rw [hphase₁, hphase₂, hran] at hall
    simp only [TimerPhase.rest, List.map_nil, List.append_nil] at hall
    rw [hsettled.ran, hall]
  · intro a ha t delta hq hi hnot
    refine ⟨int64 (s.clock + delta), ?_, fun hfits => int64_eq (hfits delta hi).2⟩
    refine (hsettled.inQueue a _).mpr (.inr ⟨ha, mt (hcancel a ha).mp hnot, t, ?_, ?_, ?_⟩)
    · rw [hlookup a ha, hq.lookup]
    · exact congrArg Option.isSome hi
    · exact (Timer.restart_periodic hi _).symm
  · intro a ha t hq hor
    have hnone : ∀ u, ¬ Again s₂ s.clock a u := by
      rintro u ⟨hc, v, hv, hrepeat, -⟩
      rw [hlookup a ha, hq.lookup] at hv
      obtain rfl := Option.some.inj hv
      rcases hor with hi | hmem
      · rw [Timer.repeats, hi] at hrepeat
        cases hrepeat
      · exact hc ((hcancel a ha).mpr hmem)
    obtain ⟨hdeleted, hfreed⟩ := hsettled.gone a ha hnone
    exact hbooks.gone hdeleted hfreed
  · intro a ha
    rw [hsettled.canceling]
    exact hcancel a ha
  · intro a ha t hq hnot
    have hq₁ := (hqueue a t).mpr ⟨hq, ha⟩
    exact (hsettled.inQueue a t).mpr (.inl ((hcalled.inQueue a t).mpr (.inl ⟨hq₁, hnot⟩)))
  · intro a t hadd
    exact (hsettled.inQueue a t).mpr (.inl ((hcalled.inQueue a t).mpr (.inr hadd)))
  · intro a t hq
    rcases (hsettled.inQueue a t).mp hq with hq | ⟨ha, -⟩
    · rcases (hcalled.inQueue a t).mp hq with ⟨hq₁, hnot⟩ | hadd
      · exact .inr (.inl ⟨((hqueue a t).mp hq₁).1, hnot⟩)
      · exact .inr (.inr hadd)
    · exact .inl ha

/-- A whole run, from the step that takes what is due to the one that settles it. -/
theorem batchDone_due (hs : machine.Reachable s) {as : List TimerAction}
    (hlegal : machine.Legal s (.handleRead :: (as ++ [.reset]))) (hreset : .reset ∉ as) :
    BatchDone s (machine.after s (.handleRead :: (as ++ [.reset]))) as s.due := by
  have hinv := reachable_inv hs
  have hidle : s.phase = .idle := hlegal.1
  obtain ⟨s₁, hstep₁, hinv₁, hphase₁, hcanceling, hran, hheap, -, hqueue⟩ :=
    handleRead_due hinv hidle
  have hlegal₁ := hlegal.2
  rw [next_eq hstep₁] at hlegal₁
  obtain ⟨hbatch, hend⟩ := Machine.legal_append.mp hlegal₁
  obtain ⟨hinv₂, hcalled⟩ := called_run hinv₁ hphase₁ hbatch hreset
  -- no callback is left when `reset` may run
  have hphase₂ : (machine.after s₁ as).phase = .calling s.clock s.due [] := by
    obtain ⟨rest, hphase⟩ := hcalled.phase
    obtain ⟨now, expired, hphase'⟩ := hend.1
    rw [hphase] at hphase'
    rw [hphase, (TimerPhase.calling.inj hphase').2.2]
  obtain ⟨s', hstep', -⟩ := step_inv hinv₂ hend.1
  have hreset' : (machine.after s₁ as).reset s.clock s.due = some s' := by
    unfold step at hstep'
    rwa [hphase₂] at hstep'
  obtain ⟨hbooks, hidle', hsettled⟩ := reset_settled (hinv₂.books_calling hphase₂).1 hreset'
  have hafter : machine.after s (.handleRead :: (as ++ [.reset])) = s' := by
    show machine.after (machine.next s .handleRead) (as ++ [.reset]) = s'
    rw [next_eq hstep₁, Machine.after_append]
    exact next_eq hstep'
  rw [hafter]
  exact batchDone_of_settled (hinv.books_idle hidle) (hinv₁.books_calling hphase₁).1
    hcanceling hran hheap hqueue hphase₁ hphase₂ hcalled hbooks hidle' hsettled

/-- **One run of `handleRead`.** From any reachable state, at any time, and whatever the callbacks
add and cancel: the callbacks run are those of the timers that expire now or before, each once, in
the order of their expirations; afterwards the periodic ones that were not cancelled are queued, for
one interval after now unless that sum overflows, and the others are deleted and in neither set; a
timer outside the batch stays in the queue as it is unless it was cancelled; and the queue holds
nothing else but what the callbacks added, and did not cancel. -/
theorem batch_done (hs : machine.Reachable s) {as : List TimerAction}
    (hlegal : machine.Legal s (.handleRead :: (as ++ [.reset]))) (hreset : .reset ∉ as) :
    ∃ batch, BatchDone s (machine.after s (.handleRead :: (as ++ [.reset]))) as batch :=
  ⟨s.due, batchDone_due hs hlegal hreset⟩

/-- Two timers are due, a periodic one that adds another and cancels the second, and a third is
not due. -/
theorem batch_done_example :
    let s := machine.after new
      [.tick 100, .addTimer 8 50 (some 10) 1, .addTimer 16 100 none 2, .addTimer 24 101 none 3]
    let as : List TimerAction :=
      [.runCallback, .addTimer 32 5 none 4, .cancel ⟨16, 2⟩, .runCallback]
    ∃ batch, BatchDone s (machine.after s (.handleRead :: (as ++ [.reset]))) as batch ∧
      ⟨16, 2⟩ ∈ batch := by
  intro s as
  have hlegal : machine.Legal new
      [.tick 100, .addTimer 8 50 (some 10) 1, .addTimer 16 100 none 2,
        .addTimer 24 101 none 3] := by
    decide +kernel
  have hlegal' : machine.Legal s (.handleRead :: (as ++ [.reset])) := by decide +kernel
  obtain ⟨batch, hbatch⟩ :=
    batch_done (Machine.Reachable.run (.init rfl) hlegal) hlegal' (by simp [as])
  refine ⟨batch, hbatch, (hbatch.exact _).mpr ⟨⟨100, none, 2⟩, ⟨rfl, ?_, ?_⟩, ?_⟩⟩ <;>
    decide +kernel

/-- **A cancelled timer of the batch stays in a set**: deleted by `reset`, it is still in
`cancelingTimers_`, which the next `handleRead` clears. -/
theorem batch_counterexample :
    ¬ ∀ (s : TimerQueue) (as : List TimerAction), machine.Reachable s →
      machine.Legal s (.handleRead :: (as ++ [.reset])) → .reset ∉ as →
      ∀ a t, s.InQueue a t → t.expiration ≤ s.clock → t.interval = none ∨ .cancel a ∈ as →
        (machine.after s (.handleRead :: (as ++ [.reset]))).Gone a ∧
          a ∉ (machine.after s (.handleRead :: (as ++ [.reset]))).cancelingTimers := by
  intro h
  have hlegal : machine.Legal new [.tick 100, .addTimer 8 50 none 1] := by decide +kernel
  have hqueue : (machine.after new [.tick 100, .addTimer 8 50 none 1]).InQueue ⟨8, 1⟩
      ⟨50, none, 1⟩ := ⟨rfl, by decide +kernel, by decide +kernel⟩
  have hcanceling := (h _ [.runCallback, .cancel ⟨8, 1⟩] (Machine.Reachable.run (.init rfl) hlegal)
    ⟨rfl, ⟨_, _, _, _, rfl⟩, rfl, ⟨_, _, rfl⟩, trivial⟩ (by simp) _ _ hqueue (by decide +kernel)
    (.inl rfl)).2
  exact absurd hcanceling (by decide +kernel)

end TimerQueue

end SimpleHttpServer
