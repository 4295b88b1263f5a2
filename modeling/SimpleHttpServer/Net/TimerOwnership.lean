import SimpleHttpServer.Net.TimerQueue

/-!
# Who owns a timer

A `Timer` object is owned by the call of `addTimerInLoop` that another thread has queued for it, by
the two sets, or by `handleRead`, which holds the timers it has taken out of the sets until `reset`
puts them back or deletes them. `Owned` says that the owners, together, hold every object that
exists once, and that no sequence number is used again; the operations move an object from one
owner to the next. `Indexed` says which entries the two sets agree on.

* **`Owned.create`**, **`Owned.delete`**: objects come and go with an owner.
* **`handleRead_books`**, **`reset_books`**: the two ends of `handleRead`.
* **`timers_owned`**: in every reachable state the two sets agree, no object is used after it is
  deleted, none is deleted twice, and an added timer is in both sets or deleted.
-/

namespace SimpleHttpServer

open Lib

namespace TimerQueue

variable {s : TimerQueue} {a : ActiveTimer} {t : Timer} {hand : List ActiveTimer}

theorem lookup_eq_some :
    s.lookup a = some t ↔ s.heap a.timer = some t ∧ t.sequence = a.sequence := by
  unfold lookup
  cases s.heap a.timer with
  | none => simp
  | some u =>
    simp only [Option.some.injEq]
    split
    · rename_i h
      exact ⟨fun hu => ⟨Option.some.inj hu, Option.some.inj hu ▸ h⟩, fun hu => by rw [hu.1]⟩
    · rename_i h
      exact ⟨nofun, fun ⟨hu, hseq⟩ => absurd (hu ▸ hseq) h⟩

@[simp] theorem resetTimerfd_eq (s : TimerQueue) (expiration : Int) :
    s.resetTimerfd expiration = { s with timerfd := .armed expiration } := by
  unfold resetTimerfd
  rw [if_neg (howMuchTimeFromNow_ne_zero _ _)]

/-! ## Owners -/

/-- The owners hold every object once, and no sequence number is used again. -/
structure Owned (owners : List ActiveTimer) (heap : Nat → Option Timer) (sequences : List Nat)
    (deleted : List Nat) : Prop where
  live : ∀ a, a ∈ owners ↔ ∃ t, heap a.timer = some t ∧ t.sequence = a.sequence
  nodup : (deleted ++ owners.map ActiveTimer.sequence).Nodup
  created : ∀ n ∈ deleted ++ owners.map ActiveTimer.sequence, n ∈ sequences
  address : ∀ a ∈ owners, a.timer < UINTPTR_MAX

section Owned

variable {owners owners' : List ActiveTimer} {heap : Nat → Option Timer}
  {sequences deleted : List Nat}

theorem Owned.perm (h : Owned owners heap sequences deleted) (hp : owners.Perm owners') :
    Owned owners' heap sequences deleted := by
  have hseq := (hp.map ActiveTimer.sequence).append_left deleted
  exact
    { live := fun a => hp.mem_iff.symm.trans (h.live a)
      nodup := hseq.nodup_iff.mp h.nodup
      created := fun n hn => h.created n (hseq.mem_iff.mpr hn)
      address := fun a ha => h.address a (hp.mem_iff.mpr ha) }

/-- One object at one address. -/
theorem Owned.unique (h : Owned owners heap sequences deleted) {a b : ActiveTimer}
    (ha : a ∈ owners) (hb : b ∈ owners) (heq : a.timer = b.timer) : a = b := by
  obtain ⟨t, ht, hta⟩ := (h.live a).mp ha
  obtain ⟨u, hu, hub⟩ := (h.live b).mp hb
  rw [heq, hu] at ht
  obtain rfl := Option.some.inj ht
  cases a
  cases b
  simp only at heq hta hub
  rw [heq, ← hta, hub]

theorem Owned.not_mem (h : Owned (a :: owners) heap sequences deleted) (n : Nat) :
    (⟨a.timer, n⟩ : ActiveTimer) ∉ owners := by
  intro hn
  have heq := h.unique List.mem_cons_self (List.mem_cons_of_mem a hn) rfl
  have hnodup := (List.nodup_append.mp h.nodup).2.1.of_map
  exact (List.nodup_cons.mp hnodup).1 (heq ▸ hn)

theorem Owned.inj (h : Owned owners heap sequences deleted) {a b : ActiveTimer}
    (ha : a ∈ owners) (hb : b ∈ owners) (heq : a.sequence = b.sequence) : a = b :=
  List.inj_on_of_nodup_map (List.nodup_append.mp h.nodup).2.1 ha hb heq

theorem Owned.not_deleted (h : Owned owners heap sequences deleted) (ha : a ∈ owners) :
    a.sequence ∉ deleted := fun hd =>
  List.disjoint_of_nodup_append h.nodup hd (List.mem_map_of_mem ha)

/-- A new object at an address that is not in use. -/
theorem Owned.create (h : Owned owners heap sequences deleted) {p : Nat} (hfree : heap p = none)
    (hp : p < UINTPTR_MAX) (hseq : t.sequence ∉ sequences) :
    Owned (⟨p, t.sequence⟩ :: owners) (Function.update heap p (some t)) (t.sequence :: sequences)
      deleted where
  live b := by
    rw [List.mem_cons, h.live b, Function.update_apply]
    split
    · rename_i hb
      rw [hb, hfree]
      obtain ⟨q, n⟩ := b
      obtain rfl : q = p := hb
      simp [eq_comm]
    · rename_i hb
      exact or_iff_right fun heq => hb (congrArg ActiveTimer.timer heq)
  nodup := by
    have hnew : t.sequence ∉ deleted ++ owners.map ActiveTimer.sequence := fun hmem =>
      hseq (h.created _ hmem)
    rw [List.map_cons]
    exact List.perm_middle.symm.nodup_iff.mp (List.nodup_cons.mpr ⟨hnew, h.nodup⟩)
  created n hn := by
    rw [List.map_cons] at hn
    rcases List.mem_cons.mp (List.perm_middle.mem_iff.mp hn) with rfl | hn
    · exact List.mem_cons_self
    · exact List.mem_cons_of_mem _ (h.created n hn)
  address b hb := by
    rcases List.mem_cons.mp hb with rfl | hb
    · exact hp
    · exact h.address b hb

/-- The object goes, and its number is used. -/
theorem Owned.delete (h : Owned (a :: owners) heap sequences deleted) :
    Owned owners (Function.update heap a.timer none) sequences (deleted ++ [a.sequence]) where
  live b := by
    rw [Function.update_apply]
    split
    · rename_i hb
      have hnot := h.not_mem b.sequence
      rw [← hb] at hnot
      exact iff_of_false hnot (by simp)
    · rename_i hb
      rw [← h.live b, List.mem_cons]
      exact (or_iff_right fun heq => hb (congrArg ActiveTimer.timer heq)).symm
  nodup := by
    rw [List.append_assoc]
    exact h.nodup
  created n hn := by
    rw [List.append_assoc] at hn
    exact h.created n hn
  address b hb := h.address b (List.mem_cons_of_mem a hb)

/-- A change of an object in place. -/
theorem Owned.modify (h : Owned owners heap sequences deleted) {p : Nat} {u : Timer}
    (ht : heap p = some t) (hu : u.sequence = t.sequence) :
    Owned owners (Function.update heap p (some u)) sequences deleted :=
  { h with
    live := fun b => by
      rw [h.live b, Function.update_apply]
      split
      · rename_i hb
        rw [hb, ht]
        simp [hu]
      · rfl }

end Owned

/-! ## The two sets -/

/-- The entries of `E` are those of the timers in `active`, with their current expirations. -/
def Indexed (E : Entry → Prop) (active : SortedSet ActiveTimer) (heap : Nat → Option Timer) :
    Prop :=
  ∀ x : Entry, E x ↔
    ∃ t, heap x.timer = some t ∧ t.expiration = x.expiration ∧ ⟨x.timer, t.sequence⟩ ∈ active

section Indexed

variable {E E' : Entry → Prop} {active : SortedSet ActiveTimer} {heap : Nat → Option Timer}

theorem Indexed.congr (h : Indexed E active heap) (hE : ∀ x, E' x ↔ E x) :
    Indexed E' active heap := fun x => (hE x).trans (h x)

/-- An object that is not in the sets may come, change or go. -/
theorem Indexed.update (h : Indexed E active heap) {p : Nat} {o : Option Timer}
    (hp : ∀ n, (⟨p, n⟩ : ActiveTimer) ∉ active) : Indexed E active (Function.update heap p o) := by
  intro x
  rw [h x, Function.update_apply]
  split
  · rename_i hx
    rw [hx]
    exact iff_of_false (fun ⟨t, _, _, hmem⟩ => hp t.sequence hmem)
      fun ⟨t, _, _, hmem⟩ => hp t.sequence hmem
  · rfl

theorem Indexed.insert (h : Indexed E active heap) (ht : heap a.timer = some t)
    (hseq : t.sequence = a.sequence) :
    Indexed (fun x => x = ⟨t.expiration, a.timer⟩ ∨ E x) (active.insert a) heap := by
  rintro ⟨e, p⟩
  beta_reduce
  rw [h ⟨e, p⟩]
  by_cases hp : p = a.timer
  · subst hp
    simp only [ht, Option.some.injEq, exists_eq_left', Entry.mk.injEq, SortedSet.mem_insert, hseq]
    refine ⟨?_, fun hx => .inl ⟨hx.1.symm, trivial⟩⟩
    rintro (⟨he, -⟩ | ⟨he, -⟩)
    · exact ⟨he.symm, .inl trivial⟩
    · exact ⟨he, .inl trivial⟩
  · have hne : ∀ n, (⟨p, n⟩ : ActiveTimer) ≠ a := fun n heq =>
      hp (congrArg ActiveTimer.timer heq)
    simp [hp, hne]

theorem Indexed.erase (h : Indexed E active heap) (ht : heap a.timer = some t)
    (hseq : t.sequence = a.sequence) :
    Indexed (fun x => x ≠ ⟨t.expiration, a.timer⟩ ∧ E x) (active.erase a) heap := by
  rintro ⟨e, p⟩
  beta_reduce
  rw [h ⟨e, p⟩]
  by_cases hp : p = a.timer
  · subst hp
    simp only [ht, Option.some.injEq, exists_eq_left', ne_eq, Entry.mk.injEq, SortedSet.mem_erase,
      hseq]
    constructor
    · rintro ⟨hne, he, -⟩
      exact absurd ⟨he.symm, trivial⟩ hne
    · rintro ⟨-, hne, -⟩
      exact absurd trivial hne
  · have hne : ∀ n, (⟨p, n⟩ : ActiveTimer) ≠ a := fun n heq =>
      hp (congrArg ActiveTimer.timer heq)
    simp [hp, hne]

end Indexed

/-! ## The books -/

/-- The timers that queued calls are to insert. -/
def queued (s : TimerQueue) : List ActiveTimer := s.pending.filterMap TimerFunctor.timer?

/-- All owners, when `hand` is out of the sets. -/
def owners (s : TimerQueue) (hand : List ActiveTimer) : List ActiveTimer :=
  hand ++ (s.queued ++ s.activeTimers.toList)

/-- The books are right when `hand` is out of the sets. -/
structure Books (s : TimerQueue) (hand : List ActiveTimer) : Prop where
  owned : Owned (s.owners hand) s.heap s.sequences s.deleted
  indexed : Indexed (· ∈ s.timers) s.activeTimers s.heap
  placed : ∀ a ∈ s.added, a ∈ s.activeTimers ∨ a ∈ hand ∨ a.sequence ∈ s.deleted

theorem Books.lookup (h : s.Books hand) (ha : a ∈ s.owners hand) : ∃ t, s.lookup a = some t := by
  obtain ⟨t, ht⟩ := (h.owned.live a).mp ha
  exact ⟨t, lookup_eq_some.mpr ht⟩

theorem mem_owners_of_active (ha : a ∈ s.activeTimers) : a ∈ s.owners hand :=
  List.mem_append_right hand (List.mem_append_right s.queued ha)

theorem mem_owners_of_hand (ha : a ∈ hand) : a ∈ s.owners hand := List.mem_append_left _ ha

theorem Books.not_active (h : s.Books (a :: hand)) (n : Nat) :
    (⟨a.timer, n⟩ : ActiveTimer) ∉ s.activeTimers := fun hn =>
  h.owned.not_mem n (mem_owners_of_active hn)

/-! ## What each operation does -/

/-- `new Timer`: the caller holds the object. -/
theorem Books.newTimer (h : s.Books hand) {p n : Nat} (hf : s.Fresh p n) (whenExpires : Int)
    (interval : Option Nat) :
    (s.newTimer p ⟨whenExpires, interval, n⟩).Books (⟨p, n⟩ :: hand) where
  owned := h.owned.create (t := ⟨whenExpires, interval, n⟩) hf.free hf.address hf.sequence
  indexed := h.indexed.update fun m hm => by
    obtain ⟨t, ht, -⟩ := (h.owned.live ⟨p, m⟩).mp (mem_owners_of_active hm)
    rw [hf.free] at ht
    exact nomatch ht
  placed a ha := (h.placed a ha).imp_right (.imp_left (List.mem_cons_of_mem _))

/-- What is in hand may be recorded. -/
theorem Books.note {timers : List ActiveTimer} (h : s.Books hand) (hsub : timers ⊆ hand) :
    (s.note timers).Books hand where
  owned := h.owned
  indexed := h.indexed
  placed a ha := by
    rcases List.mem_append.mp ha with ha | ha
    · exact h.placed a ha
    · exact .inr (.inl (hsub ha))

/-- A call of `addTimer` is recorded, and makes the object. -/
theorem Books.addTimer (h : s.Books hand) {p n : Nat} (hf : s.Fresh p n) (whenExpires : Int)
    (interval : Option Nat) :
    ((s.note [⟨p, n⟩]).newTimer p ⟨whenExpires, interval, n⟩).Books (⟨p, n⟩ :: hand) :=
  (h.newTimer hf whenExpires interval).note (List.cons_subset_cons _ (List.nil_subset hand))

/-- The object is handed to the loop thread. -/
theorem Books.queue (h : s.Books (a :: hand)) (ha : a ∉ s.added) :
    Books { s with pending := s.pending ++ [.addTimerInLoop a] } hand where
  owned := by
    refine h.owned.perm ?_
    show (a :: (hand ++ (s.queued ++ s.activeTimers.toList))).Perm
      (hand ++ ((s.pending ++ [TimerFunctor.addTimerInLoop a]).filterMap _ ++
        s.activeTimers.toList))
    rw [List.filterMap_append, List.append_assoc, ← List.append_assoc hand]
    refine List.perm_middle.symm.trans ?_
    rw [List.append_assoc]
    exact .refl _
  indexed := h.indexed
  placed b hb := by
    rcases h.placed b hb with hb' | hb' | hb'
    · exact .inl hb'
    · rcases List.mem_cons.mp hb' with rfl | hb'
      · exact absurd hb ha
      · exact .inr (.inl hb')
    · exact .inr (.inr hb')

theorem insert_eq (ht : s.lookup a = some t) :
    s.insert a = some
      ({ s with
          timers := s.timers.insert ⟨t.expiration, a.timer⟩
          activeTimers := s.activeTimers.insert a },
        s.earliestChanged t.expiration) := by
  unfold insert
  rw [ht, Option.bind_eq_bind, Option.bind_some, (lookup_eq_some.mp ht).2]

theorem Books.insert (h : s.Books (a :: hand)) (ht : s.lookup a = some t) :
    Books
      { s with
        timers := s.timers.insert ⟨t.expiration, a.timer⟩
        activeTimers := s.activeTimers.insert a } hand where
  owned := by
    refine h.owned.perm ?_
    show (a :: (hand ++ (s.queued ++ s.activeTimers.toList))).Perm
      (hand ++ (s.queued ++ (s.activeTimers.insert a).toList))
    rw [← List.append_assoc, ← List.append_assoc]
    exact List.perm_middle.symm.trans
      ((SortedSet.toList_insert (h.not_active a.sequence)).symm.append_left _)
  indexed := by
    obtain ⟨hheap, hseq⟩ := lookup_eq_some.mp ht
    exact (h.indexed.insert hheap hseq).congr fun x => SortedSet.mem_insert
  placed b hb := by
    rcases h.placed b hb with hb' | hb' | hb'
    · exact .inl (SortedSet.mem_insert.mpr (.inr hb'))
    · rcases List.mem_cons.mp hb' with rfl | hb'
      · exact .inl (SortedSet.mem_insert.mpr (.inl rfl))
      · exact .inr (.inl hb')
    · exact .inr (.inr hb')

theorem addTimerInLoop_eq (ht : s.lookup a = some t) :
    s.addTimerInLoop a = some
      { s with
        timers := s.timers.insert ⟨t.expiration, a.timer⟩
        activeTimers := s.activeTimers.insert a
        timerfd := if s.earliestChanged t.expiration then .armed t.expiration else s.timerfd } := by
  unfold addTimerInLoop
  rw [insert_eq ht, Option.bind_eq_bind, Option.bind_some]
  cases s.earliestChanged t.expiration with
  | false => rfl
  | true =>
    show (s.lookup a).bind _ = _
    rw [ht, Option.bind_some, resetTimerfd_eq]
    rfl

theorem addTimerInLoop_books (h : s.Books (a :: hand)) (ht : s.lookup a = some t)
    (timerfd : Timerfd) :
    Books
      { s with
        timers := s.timers.insert ⟨t.expiration, a.timer⟩
        activeTimers := s.activeTimers.insert a
        timerfd := timerfd } hand :=
  have hins := h.insert ht
  ⟨hins.owned, hins.indexed, hins.placed⟩

theorem deleteTimer_eq (ht : s.lookup a = some t) :
    s.deleteTimer a = some
      { s with
        heap := Function.update s.heap a.timer none
        deleted := s.deleted ++ [a.sequence] } := by
  unfold deleteTimer
  rw [ht, ← (lookup_eq_some.mp ht).2]
  rfl

theorem Books.delete (h : s.Books (a :: hand)) :
    Books
      { s with
        heap := Function.update s.heap a.timer none
        deleted := s.deleted ++ [a.sequence] } hand where
  owned := h.owned.delete
  indexed := h.indexed.update h.not_active
  placed b hb := by
    rcases h.placed b hb with hb' | hb' | hb'
    · exact .inl hb'
    · rcases List.mem_cons.mp hb' with rfl | hb'
      · exact .inr (.inr (List.mem_append_right _ List.mem_cons_self))
      · exact .inr (.inl hb')
    · exact .inr (.inr (List.mem_append_left _ hb'))

/-- A timer comes out of the two sets. -/
theorem Books.erase (h : s.Books hand) (ha : a ∈ s.activeTimers) (ht : s.lookup a = some t) :
    Books
      { s with
        timers := s.timers.erase ⟨t.expiration, a.timer⟩
        activeTimers := s.activeTimers.erase a } (a :: hand) where
  owned := by
    refine h.owned.perm ?_
    show (hand ++ (s.queued ++ s.activeTimers.toList)).Perm
      (a :: (hand ++ (s.queued ++ (s.activeTimers.erase a).toList)))
    rw [← List.append_assoc, ← List.append_assoc]
    exact ((SortedSet.toList_erase ha).append_left _).trans List.perm_middle
  indexed := by
    obtain ⟨hheap, hseq⟩ := lookup_eq_some.mp ht
    exact (h.indexed.erase hheap hseq).congr fun x => SortedSet.mem_erase
  placed b hb := by
    by_cases hba : b = a
    · exact .inr (.inl (hba ▸ List.mem_cons_self))
    · exact (h.placed b hb).imp (fun hb' => SortedSet.mem_erase.mpr ⟨hba, hb'⟩)
        (.imp_left (List.mem_cons_of_mem a))

theorem cancelInLoop_active (ha : a ∈ s.activeTimers) (ht : s.lookup a = some t) :
    s.cancelInLoop a = some
      { s with
        timers := s.timers.erase ⟨t.expiration, a.timer⟩
        activeTimers := s.activeTimers.erase a
        heap := Function.update s.heap a.timer none
        deleted := s.deleted ++ [a.sequence] } := by
  unfold cancelInLoop
  rw [if_pos ha, ht, Option.bind_eq_bind, Option.bind_some]
  have ht' : lookup { s with timers := s.timers.erase ⟨t.expiration, a.timer⟩ } a = some t := ht
  show (deleteTimer { s with timers := s.timers.erase ⟨t.expiration, a.timer⟩ } a).bind _ = _
  rw [deleteTimer_eq ht']
  rfl

theorem cancelInLoop_other (ha : a ∉ s.activeTimers) :
    s.cancelInLoop a = some
      { s with
        cancelingTimers :=
          if s.callingExpiredTimers then s.cancelingTimers.insert a else s.cancelingTimers } := by
  unfold cancelInLoop
  rw [if_neg ha]
  split <;> rfl

/-! ## `handleRead` -/

theorem Books.perm {hand' : List ActiveTimer} (h : s.Books hand) (hp : hand.Perm hand') :
    s.Books hand' where
  owned := h.owned.perm (hp.append_right _)
  indexed := h.indexed
  placed a ha := (h.placed a ha).imp_right (.imp_left hp.mem_iff.mp)

/-- Only the elements of `timers` count. -/
theorem Books.congr {timers : SortedSet Entry} (h : s.Books hand)
    (ht : ∀ x, x ∈ timers ↔ x ∈ s.timers) : Books { s with timers := timers } hand where
  owned := h.owned
  indexed := h.indexed.congr ht
  placed := h.placed

/-- The loop of `getExpired` takes the timers of the entries out of the sets; `timers` is what the
first set was before the entries were taken out of it. -/
theorem takeExpired_books : ∀ {entries : List Entry} (s : TimerQueue) {timers : SortedSet Entry}
    {hand : List ActiveTimer}, Books { s with timers := timers } hand → entries.Nodup →
    (∀ x ∈ entries, x ∈ timers) → ∃ active rest expired,
      s.takeExpired entries = some ({ s with activeTimers := active }, expired) ∧
        Books { s with timers := rest, activeTimers := active } (expired ++ hand) ∧
        ∀ x, x ∈ rest ↔ x ∈ timers ∧ x ∉ entries
  | [], s, timers, hand, h, _, _ => ⟨s.activeTimers, timers, [], rfl, h, by simp⟩
  | e :: entries, s, timers, hand, h, hnodup, hsub => by
    rw [List.nodup_cons] at hnodup
    obtain ⟨t, hheap, hexp, hactive⟩ := (h.indexed e).mp (hsub e List.mem_cons_self)
    have ht : lookup { s with timers := timers } ⟨e.timer, t.sequence⟩ = some t :=
      lookup_eq_some.mpr ⟨hheap, rfl⟩
    have herase := h.erase hactive ht
    have he : (⟨t.expiration, e.timer⟩ : Entry) = e := by rw [hexp]
    rw [he] at herase
    -- one entry less in the first set, one timer more in the hand
    obtain ⟨active, rest, expired, htake, hbooks, hrest⟩ :=
      takeExpired_books { s with activeTimers := s.activeTimers.erase ⟨e.timer, t.sequence⟩ }
        herase hnodup.2 fun x hx =>
          SortedSet.mem_erase.mpr
            ⟨fun heq => hnodup.1 (heq ▸ hx), hsub x (List.mem_cons_of_mem e hx)⟩
    refine ⟨active, rest, ⟨e.timer, t.sequence⟩ :: expired, ?_, hbooks.perm List.perm_middle, ?_⟩
    · unfold takeExpired
      rw [show s.heap e.timer = some t from hheap, Option.bind_eq_bind, Option.bind_some]
      show Option.bind (takeExpired { s with activeTimers := _ } entries) _ = _
      rw [htake]
      rfl
    · intro x
      rw [hrest x, SortedSet.mem_erase, List.mem_cons, not_or]
      exact ⟨fun ⟨⟨h1, h2⟩, h3⟩ => ⟨h2, h1, h3⟩, fun ⟨h2, h1, h3⟩ => ⟨⟨h1, h2⟩, h3⟩⟩

/-- `handleRead` takes the expired timers, and no other, into its hand. -/
theorem handleRead_books (h : s.Books []) : ∃ active expired,
    s.handleRead = some
      { s with
        timers := s.timers.since ⟨s.clock, UINTPTR_MAX⟩
        activeTimers := active
        timerfd := if s.timerfd = .fired then .disarmed else s.timerfd
        callingExpiredTimers := true
        cancelingTimers := .empty
        phase := .calling s.clock expired expired } ∧
      Books
        { s with
          timers := s.timers.since ⟨s.clock, UINTPTR_MAX⟩
          activeTimers := active } expired := by
  have hbelow : ∀ x, x ∈ s.timers.below ⟨s.clock, UINTPTR_MAX⟩ → x ∈ s.timers := fun x hx =>
    (SortedSet.mem_below.mp hx).1
  let taking : TimerQueue := { s.readTimerfd with timers := s.timers.since ⟨s.clock, UINTPTR_MAX⟩ }
  have hbefore : Books { taking with timers := s.timers } [] := ⟨h.owned, h.indexed, h.placed⟩
  obtain ⟨active, rest, expired, htake, hbooks, hrest⟩ :=
    takeExpired_books taking hbefore (s.timers.nodup_below ⟨s.clock, UINTPTR_MAX⟩) hbelow
  rw [List.append_nil] at hbooks
  refine ⟨active, expired, ?_, ?_⟩
  · unfold handleRead getExpired
    show Option.bind (takeExpired _ _) _ = _
    rw [show s.readTimerfd.timers = s.timers from rfl, htake]
    rfl
  · refine Books.congr (s := { s with timers := rest, activeTimers := active })
      ⟨hbooks.owned, hbooks.indexed, hbooks.placed⟩ fun x => ?_
    rw [SortedSet.mem_since]
    refine Iff.trans ?_ (hrest x).symm
    rw [SortedSet.mem_below]
    exact and_congr_right fun hx => ⟨fun hle ⟨_, hlt⟩ => absurd hlt hle.not_gt,
      fun hnot => not_lt.mp fun hlt => hnot ⟨hx, hlt⟩⟩

/-! ## `reset` -/

/-- What the loop of `reset` leaves alone. -/
structure Reinserted (s s' : TimerQueue) : Prop where
  frame : s' = { s with
    timers := s'.timers, activeTimers := s'.activeTimers, heap := s'.heap, deleted := s'.deleted }
  deleted : s.deleted ⊆ s'.deleted

theorem Reinserted.refl (s : TimerQueue) : Reinserted s s where
  frame := rfl
  deleted := List.Subset.refl _

theorem Reinserted.trans {s s' s'' : TimerQueue} (h : Reinserted s s') (h' : Reinserted s' s'') :
    Reinserted s s'' where
  frame := by
    have hframe := h'.frame
    rw [h.frame] at hframe
    exact hframe
  deleted := List.Subset.trans h.deleted h'.deleted

theorem restart_sequence (t : Timer) (now : Int) : (t.restart now).sequence = t.sequence := by
  unfold Timer.restart
  cases t.interval <;> rfl

theorem resetTimer_again (ht : s.lookup a = some t) (now : Int)
    (hrepeat : t.repeats = true ∧ a ∉ s.cancelingTimers) :
    s.resetTimer now a = some
      { s with
        heap := Function.update s.heap a.timer (some (t.restart now))
        timers := s.timers.insert ⟨(t.restart now).expiration, a.timer⟩
        activeTimers := s.activeTimers.insert a } := by
  have ht' : lookup { s with heap := Function.update s.heap a.timer (some (t.restart now)) } a =
      some (t.restart now) :=
    lookup_eq_some.mpr ⟨Function.update_self ..,
      (restart_sequence t now).trans (lookup_eq_some.mp ht).2⟩
  unfold resetTimer
  rw [ht, Option.bind_eq_bind, Option.bind_some, if_pos hrepeat]
  show Option.bind (insert { s with heap := _ } a) _ = _
  rw [insert_eq ht']
  rfl

theorem resetTimer_delete (ht : s.lookup a = some t) (now : Int)
    (hrepeat : ¬ (t.repeats = true ∧ a ∉ s.cancelingTimers)) :
    s.resetTimer now a = some
      { s with
        heap := Function.update s.heap a.timer none
        deleted := s.deleted ++ [a.sequence] } := by
  unfold resetTimer
  rw [ht, Option.bind_eq_bind, Option.bind_some, if_neg hrepeat]
  exact deleteTimer_eq ht

/-- One timer: it goes back into the sets if it repeats and is not cancelled, and else it goes. -/
theorem resetTimer_books (h : s.Books (a :: hand)) (now : Int) : ∃ s',
    s.resetTimer now a = some s' ∧ s'.Books hand ∧ Reinserted s s' ∧
      (a ∈ s.cancelingTimers → a.sequence ∈ s'.deleted) := by
  obtain ⟨t, ht⟩ := h.lookup (mem_owners_of_hand List.mem_cons_self)
  obtain ⟨hheap, hseq⟩ := lookup_eq_some.mp ht
  by_cases hrepeat : t.repeats = true ∧ a ∉ s.cancelingTimers
  · have hbooks : Books
        { s with heap := Function.update s.heap a.timer (some (t.restart now)) } (a :: hand) :=
      { owned := h.owned.modify hheap (restart_sequence t now)
        indexed := h.indexed.update h.not_active
        placed := h.placed }
    have ht' : lookup { s with heap := Function.update s.heap a.timer (some (t.restart now)) } a =
        some (t.restart now) :=
      lookup_eq_some.mpr ⟨Function.update_self .., (restart_sequence t now).trans hseq⟩
    exact ⟨_, resetTimer_again ht now hrepeat, hbooks.insert ht', ⟨rfl, List.Subset.refl _⟩,
      fun hc => absurd hc hrepeat.2⟩
  · refine ⟨_, resetTimer_delete ht now hrepeat, h.delete, ⟨rfl, List.subset_append_left _ _⟩, ?_⟩
    exact fun _ => List.mem_append_right _ List.mem_cons_self

theorem resetTimers_books (now : Int) : ∀ {expired : List ActiveTimer} {s : TimerQueue},
    s.Books expired → ∃ s', s.resetTimers now expired = some s' ∧ s'.Books [] ∧
      Reinserted s s' ∧ ∀ a ∈ expired, a ∈ s.cancelingTimers → a.sequence ∈ s'.deleted
  | [], s, h => ⟨s, rfl, h, .refl s, nofun⟩
  | a :: expired, s, h => by
    obtain ⟨s₁, hreset, hbooks, hre, hdel⟩ := resetTimer_books h now
    obtain ⟨s₂, hresets, hbooks₂, hre₂, hdel₂⟩ := resetTimers_books now hbooks
    have hcanceling : s₁.cancelingTimers = s.cancelingTimers := by rw [hre.frame]
    refine ⟨s₂, ?_, hbooks₂, hre.trans hre₂, ?_⟩
    · unfold resetTimers
      rw [hreset]
      exact hresets
    · intro b hb hc
      rcases List.mem_cons.mp hb with rfl | hb
      · exact hre₂.deleted (hdel hc)
      · exact hdel₂ b hb (hcanceling ▸ hc)

/-- The timerfd after `reset`. -/
def nextTimerfd (s : TimerQueue) : Timerfd :=
  match s.timers.front? with
  | none => s.timerfd
  | some e => if 0 < e.expiration then .armed e.expiration else s.timerfd

theorem armNext_eq (h : s.Books hand) :
    s.armNext = some { s with timerfd := s.nextTimerfd } := by
  unfold armNext nextTimerfd
  cases he : s.timers.front? with
  | none => rfl
  | some e =>
    obtain ⟨t, hheap, hexp, -⟩ := (h.indexed e).mp (SortedSet.front?_le he).1
    show (s.heap e.timer).bind _ = _
    rw [hheap, Option.bind_some, hexp, resetTimerfd_eq]
    show some (if _ then _ else _) = some { s with timerfd := if _ then _ else _ }
    split <;> rfl

/-- `reset` empties the hand: a cancelled timer in it is deleted. -/
theorem reset_books (h : s.Books hand) (now : Int) : ∃ s₁,
    s.reset now hand = some { s₁ with timerfd := s₁.nextTimerfd, phase := .idle } ∧
      s₁.Books [] ∧ Reinserted { s with callingExpiredTimers := false } s₁ ∧
      ∀ a ∈ hand, a ∈ s.cancelingTimers → a.sequence ∈ s₁.deleted := by
  obtain ⟨s₁, hresets, hbooks, hre, hdel⟩ :=
    resetTimers_books now (s := { s with callingExpiredTimers := false })
      ⟨h.owned, h.indexed, h.placed⟩
  refine ⟨s₁, ?_, hbooks, hre, hdel⟩
  unfold reset
  rw [hresets, Option.bind_eq_bind, Option.bind_some, armNext_eq hbooks]
  rfl

/-! ## Every run -/

/-- What holds in every reachable state. -/
structure Inv (s : TimerQueue) : Prop where
  books : s.Books s.phase.batch
  rest : s.phase.rest.Sublist s.phase.batch
  calling : s.callingExpiredTimers = true ↔ s.phase ≠ .idle

theorem inv_new : Inv new where
  books :=
    { owned :=
        { live := fun a => by simp [owners, queued, new, SortedSet.empty, TimerPhase.batch]
          nodup := by simp [owners, queued, new, SortedSet.empty, TimerPhase.batch]
          created := by simp [owners, queued, new, SortedSet.empty, TimerPhase.batch]
          address := by simp [owners, queued, new, SortedSet.empty, TimerPhase.batch] }
      indexed := fun x => by simp [new]
      placed := nofun }
  rest := .refl _
  calling := by simp [new]

theorem Inv.of_frame {s' : TimerQueue} (h : s.Inv) (hbooks : s'.Books s.phase.batch)
    (hphase : s'.phase = s.phase) (hcalling : s'.callingExpiredTimers = s.callingExpiredTimers) :
    s'.Inv where
  books := hphase ▸ hbooks
  rest := hphase ▸ h.rest
  calling := by rw [hphase, hcalling, h.calling]

/-- A timer that is in nobody's hand but the caller's goes into the sets. -/
theorem addTimerInLoop_inv (h : s.Inv) {s₀ : TimerQueue} (hbooks : s₀.Books (a :: s.phase.batch))
    (hphase : s₀.phase = s.phase) (hcalling : s₀.callingExpiredTimers = s.callingExpiredTimers) :
    ∃ s', s₀.addTimerInLoop a = some s' ∧ s'.Inv := by
  obtain ⟨t, ht⟩ := hbooks.lookup (mem_owners_of_hand List.mem_cons_self)
  exact ⟨_, addTimerInLoop_eq ht,
    h.of_frame (addTimerInLoop_books hbooks ht _) hphase hcalling⟩

theorem cancelInLoop_inv (h : s.Inv) (a : ActiveTimer) :
    ∃ s', s.cancelInLoop a = some s' ∧ s'.Inv := by
  by_cases ha : a ∈ s.activeTimers
  · obtain ⟨t, ht⟩ := h.books.lookup (mem_owners_of_active ha)
    exact ⟨_, cancelInLoop_active ha ht, h.of_frame (h.books.erase ha ht).delete rfl rfl⟩
  · exact ⟨_, cancelInLoop_other ha,
      h.of_frame ⟨h.books.owned, h.books.indexed, h.books.placed⟩ rfl rfl⟩

/-- A step that runs no callback, and leaves the batch as it is. -/
structure Quiet (s s' : TimerQueue) : Prop where
  ran : s'.ran = s.ran
  phase : s'.phase = s.phase
  deleted : s.deleted ⊆ s'.deleted
  canceling : ∀ a ∈ s.cancelingTimers, a ∈ s'.cancelingTimers

theorem quiet_addTimerInLoop {s' : TimerQueue}
    (h : s.Books (a :: hand)) (hs : s.addTimerInLoop a = some s') : Quiet s s' := by
  obtain ⟨t, ht⟩ := h.lookup (mem_owners_of_hand List.mem_cons_self)
  rw [addTimerInLoop_eq ht] at hs
  rw [← Option.some.inj hs]
  exact ⟨rfl, rfl, List.Subset.refl _, fun _ hb => hb⟩

theorem quiet_cancelInLoop {s' : TimerQueue} (h : s.Inv)
    (hs : s.cancelInLoop a = some s') : Quiet s s' := by
  by_cases ha : a ∈ s.activeTimers
  · obtain ⟨t, ht⟩ := h.books.lookup (mem_owners_of_active ha)
    rw [cancelInLoop_active ha ht] at hs
    rw [← Option.some.inj hs]
    exact ⟨rfl, rfl, List.subset_append_left _ _, fun _ hb => hb⟩
  · rw [cancelInLoop_other ha] at hs
    rw [← Option.some.inj hs]
    refine ⟨rfl, rfl, List.Subset.refl _, fun b hb => ?_⟩
    show b ∈ if s.callingExpiredTimers then s.cancelingTimers.insert a else s.cancelingTimers
    split
    · exact SortedSet.mem_insert.mpr (.inr hb)
    · exact hb

theorem Books.added_created (h : s.Books hand) (ha : a ∈ s.added) : a.sequence ∈ s.sequences := by
  refine h.owned.created a.sequence ?_
  rcases h.placed a ha with ha | ha | ha
  · exact List.mem_append_right _ (List.mem_map_of_mem (mem_owners_of_active ha))
  · exact List.mem_append_right _ (List.mem_map_of_mem (mem_owners_of_hand ha))
  · exact List.mem_append_left _ ha

/-- The loop thread takes the first queued call, which is recorded. -/
theorem Books.pop {f : TimerFunctor} {pending : List TimerFunctor} (h : s.Books hand)
    (hp : s.pending = f :: pending) :
    (TimerQueue.note { s with pending := pending } f.timer?.toList).Books
      (f.timer?.toList ++ hand) := by
  have htaken : Books { s with pending := pending } (f.timer?.toList ++ hand) :=
    { owned := by
        refine h.owned.perm ?_
        show (hand ++ (s.pending.filterMap TimerFunctor.timer? ++ s.activeTimers.toList)).Perm
          (f.timer?.toList ++ hand ++
            (pending.filterMap TimerFunctor.timer? ++ s.activeTimers.toList))
        rw [hp, List.filterMap_cons]
        cases f with
        | cancelInLoop timerId => exact .refl _
        | addTimerInLoop timer => exact List.perm_middle
      indexed := h.indexed
      placed := fun b hb => (h.placed b hb).imp_right (.imp_left (List.mem_append_right _)) }
  exact htaken.note (List.subset_append_left _ _)

theorem Inv.books_idle (h : s.Inv) (hidle : s.phase = .idle) : s.Books [] := by
  have hbooks := h.books
  rw [hidle] at hbooks
  exact hbooks

theorem Inv.books_calling (h : s.Inv) {now : Int} {expired rest : List ActiveTimer}
    (hphase : s.phase = .calling now expired rest) : s.Books expired ∧ rest.Sublist expired := by
  have hbooks := h.books
  have hrest := h.rest
  rw [hphase] at hbooks hrest
  exact ⟨hbooks, hrest⟩

/-- A callback is that of a timer in the hand. -/
theorem step_runCallback (h : s.Inv) {now : Int} {expired rest : List ActiveTimer}
    {timer : ActiveTimer} (hphase : s.phase = .calling now expired (timer :: rest)) :
    timer ∈ s.owners expired ∧ ∃ t, s.lookup timer = some t ∧ s.step .runCallback = some
      { s with ran := s.ran ++ [t.sequence], phase := .calling now expired rest } := by
  obtain ⟨hbooks, hrest⟩ := h.books_calling hphase
  have htimer : timer ∈ s.owners expired := mem_owners_of_hand (hrest.subset List.mem_cons_self)
  obtain ⟨t, ht⟩ := hbooks.lookup htimer
  refine ⟨htimer, t, ht, ?_⟩
  unfold step runCallback
  rw [hphase]
  show (s.lookup timer).bind _ = _
  rw [ht]
  rfl

theorem step_reset (h : s.Inv) {now : Int} {expired : List ActiveTimer}
    (hphase : s.phase = .calling now expired []) : ∃ s₁,
    s.step .reset = some { s₁ with timerfd := s₁.nextTimerfd, phase := .idle } ∧
      s₁.Books [] ∧ Reinserted { s with callingExpiredTimers := false } s₁ ∧
      ∀ a ∈ expired, a ∈ s.cancelingTimers → a.sequence ∈ s₁.deleted := by
  obtain ⟨s₁, hreset, hrest⟩ := reset_books (h.books_calling hphase).1 now
  refine ⟨s₁, ?_, hrest⟩
  unfold step
  rw [hphase]
  exact hreset

/-- **Every step finds the objects it uses, and keeps the invariant.** -/
theorem step_inv (h : s.Inv) {action : TimerAction} (hg : machine.guard s action) :
    ∃ s', s.step action = some s' ∧ s'.Inv := by
  cases action with
  | addTimer p whenExpires interval n =>
    exact addTimerInLoop_inv h (h.books.addTimer hg.2 whenExpires interval) rfl rfl
  | cancel timerId => exact cancelInLoop_inv h timerId
  | remoteAddTimer p whenExpires interval n =>
    have hnew : (⟨p, n⟩ : ActiveTimer) ∉ s.added := fun hmem =>
      hg.sequence (h.books.added_created hmem)
    exact ⟨_, rfl, h.of_frame ((h.books.newTimer hg whenExpires interval).queue hnew) rfl rfl⟩
  | remoteCancel timerId =>
    refine ⟨_, rfl, h.of_frame ⟨?_, h.books.indexed, h.books.placed⟩ rfl rfl⟩
    have hqueued : (s.pending ++ [TimerFunctor.cancelInLoop timerId]).filterMap
        TimerFunctor.timer? = s.queued := by
      rw [List.filterMap_append]
      exact List.append_nil _
    show Owned (s.phase.batch ++ (List.filterMap _ _ ++ s.activeTimers.toList)) _ _ _
    rw [hqueued]
    exact h.books.owned
  | runPending =>
    obtain ⟨f, pending, hp⟩ := List.exists_cons_of_ne_nil hg.2
    have hbooks := h.books.pop hp
    have hstep : s.step .runPending =
        (note { s with pending := pending } f.timer?.toList).runFunctor f := by
      unfold step
      rw [hp]
    rw [hstep]
    cases f with
    | addTimerInLoop timer => exact addTimerInLoop_inv h hbooks rfl rfl
    | cancelInLoop timerId => exact cancelInLoop_inv (h.of_frame hbooks rfl rfl) timerId
  | handleRead =>
    obtain ⟨active, expired, hread, hbooks'⟩ := handleRead_books (h.books_idle hg)
    exact ⟨_, hread, ⟨hbooks'.owned, hbooks'.indexed, hbooks'.placed⟩, .refl _, by simp⟩
  | runCallback =>
    obtain ⟨now, expired, timer, rest, hphase⟩ := hg
    obtain ⟨hbooks, hrest⟩ := h.books_calling hphase
    obtain ⟨-, t, -, hstep⟩ := step_runCallback h hphase
    exact ⟨_, hstep, ⟨hbooks.owned, hbooks.indexed, hbooks.placed⟩,
      (List.sublist_cons_self timer rest).trans hrest,
      by rw [h.calling, hphase]; simp⟩
  | reset =>
    obtain ⟨now, expired, hphase⟩ := hg
    obtain ⟨s₁, hstep, hbooks₁, hre, -⟩ := step_reset h hphase
    have hcalling : s₁.callingExpiredTimers = false := by rw [hre.frame]
    exact ⟨_, hstep, ⟨hbooks₁.owned, hbooks₁.indexed, hbooks₁.placed⟩, .refl _, by simp [hcalling]⟩
  | fire => exact ⟨_, rfl, h.of_frame ⟨h.books.owned, h.books.indexed, h.books.placed⟩ rfl rfl⟩
  | tick now => exact ⟨_, rfl, h.of_frame ⟨h.books.owned, h.books.indexed, h.books.placed⟩ rfl rfl⟩

theorem reachable_inv (h : machine.Reachable s) : s.Inv :=
  h.invariant (fun s hs => by rw [show s = new from hs]; exact inv_new) fun s action hI hg => by
    obtain ⟨s', hstep, hinv⟩ := step_inv hI hg
    show ((s.step action).getD s).Inv
    rwa [hstep]

/-- In both sets, and the object exists. -/
def InBoth (s : TimerQueue) (a : ActiveTimer) : Prop :=
  ∃ t, s.lookup a = some t ∧ ⟨t.expiration, a.timer⟩ ∈ s.timers ∧ a ∈ s.activeTimers

/-- **The two sets agree, and every timer has one owner until it is deleted, once.** In every state
that additions, cancellations and runs of `handleRead` reach, in the middle of its callbacks too:
`(e, p)` is in `timers_` exactly when the timer at `p` expires at `e` and is in `activeTimers_`
under its own sequence number; whatever comes next finds the objects it uses; a deleted object is
gone, and is not deleted again; and when the loop thread is not in `handleRead`, every timer that
was added is in both sets or deleted. -/
theorem timers_owned (h : machine.Reachable s) :
    (∀ e p, (⟨e, p⟩ : Entry) ∈ s.timers ↔
      ∃ t, s.heap p = some t ∧ t.expiration = e ∧ ⟨p, t.sequence⟩ ∈ s.activeTimers) ∧
    (∀ a ∈ s.activeTimers, ∃ t, s.lookup a = some t) ∧
    (∀ action, machine.guard s action → (s.step action).isSome) ∧
    s.deleted.Nodup ∧
    (∀ p t, s.heap p = some t → t.sequence ∉ s.deleted) ∧
    (s.phase = .idle → ∀ a ∈ s.added, s.InBoth a ∨ a.sequence ∈ s.deleted) := by
  have hinv := reachable_inv h
  refine ⟨fun e p => hinv.books.indexed ⟨e, p⟩, ?_, ?_, ?_, ?_, ?_⟩
  · exact fun a ha => hinv.books.lookup (mem_owners_of_active ha)
  · intro action hg
    obtain ⟨s', hstep, -⟩ := step_inv hinv hg
    rw [hstep]
    rfl
  · exact (List.nodup_append.mp hinv.books.owned.nodup).1
  · intro p t ht
    exact hinv.books.owned.not_deleted (a := ⟨p, t.sequence⟩)
      ((hinv.books.owned.live ⟨p, t.sequence⟩).mpr ⟨t, ht, rfl⟩)
  · intro hidle a ha
    rcases hinv.books.placed a ha with ha' | ha' | ha'
    · obtain ⟨t, ht⟩ := hinv.books.lookup (mem_owners_of_active ha')
      obtain ⟨hheap, hseq⟩ := lookup_eq_some.mp ht
      exact .inl ⟨t, ht, (hinv.books.indexed _).mpr ⟨t, hheap, rfl, hseq ▸ ha'⟩, ha'⟩
    · rw [hidle] at ha'
      exact absurd ha' List.not_mem_nil
    · exact .inr ha'

/-- Two timers expire together; the first cancels itself and the second, and the address of the
first is used again. -/
theorem timers_owned_example :
    let s := machine.after new
      [.tick 100, .addTimer 8 50 (some 10) 1, .addTimer 16 60 none 2, .handleRead, .runCallback,
        .cancel ⟨8, 1⟩, .cancel ⟨16, 2⟩, .runCallback, .reset, .addTimer 8 70 none 3]
    s.deleted = [1, 2] ∧ s.InBoth ⟨8, 3⟩ ∧ s.activeTimers.toList = [⟨8, 3⟩] := by
  intro s
  have hlegal : machine.Legal new
      [.tick 100, .addTimer 8 50 (some 10) 1, .addTimer 16 60 none 2, .handleRead, .runCallback,
        .cancel ⟨8, 1⟩, .cancel ⟨16, 2⟩, .runCallback, .reset, .addTimer 8 70 none 3] := by
    decide +kernel
  have hdeleted : s.deleted = [1, 2] := by decide +kernel
  have hadded : (⟨8, 3⟩ : ActiveTimer) ∈ s.added := by decide +kernel
  obtain ⟨-, -, -, -, -, hplaced⟩ := timers_owned (Machine.Reachable.run (.init rfl) hlegal)
  refine ⟨hdeleted, (hplaced (by decide +kernel) _ hadded).resolve_right ?_, by decide +kernel⟩
  rw [show (machine.after new _).deleted = [1, 2] from hdeleted]
  decide

end TimerQueue

end SimpleHttpServer
