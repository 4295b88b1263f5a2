import SimpleHttpServer.Lib.Simulation
import SimpleHttpServer.Sql.SqlConnectionPool

/-!
# The wake-ups of `SqlConnectionPool`

`PoolSystem` lets a thread leave the sleep of `wait_for` at any time. Here `cv.notify_one()` is a
step of its own: `ReleaseConnection` owes it from its `push_back` on and makes it behind the block
that has the mutex, and it picks a sleeper that was not picked yet, if there is one. A thread whose
time is over sleeps until it has the mutex again.

* `NotifiedPool.simulates`: the wake-ups add nothing to what the pool can do.
* `Woken` is the invariant: while somebody sleeps whom nobody has picked, no more connections are
  free than there are threads picked, notifications owed and a test under way.
* **`NotifiedPool.no_lost_wakeup`**: while a client sleeps, some thread goes on without a time-out
  or a spurious wake-up, or every connection is in the hands of clients outside of the pool.
-/

namespace SimpleHttpServer

open Lib

/-- A pool with its condition variable. -/
structure NotifiedPool (T C : Type*) extends PoolSystem T C where
  /-- Asleep, and picked by a `notify_one`. -/
  notified : List T
  /-- Past a `push_back`, and before `cv.notify_one()`. -/
  owes : List T

/-- The steps of the threads and of the condition variable. -/
inductive WakeupAction (T C : Type*) where
  | pool (action : PoolAction T C)
  /-- `cv.notify_one()`, and whom it picks. -/
  | notify (t : T) (picked : Option T)

/-- The thread that begins a call. -/
def PoolAction.begins? {T C : Type*} : PoolAction T C → Option T
  | .getConnection t | .releaseConnection t _ | .destroyPool t => some t
  | .proceed _ | .wake _ _ => none

namespace NotifiedPool

variable {T C : Type*} [DecidableEq T] [DecidableEq C]

/-- Who owes a notification behind the statement at `pc`. -/
def owesBehind (owes : List T) (t : T) : PoolPc C → List T
  | .pushing _ => t :: owes
  | _ => owes

/-- The pool behind a step. -/
def next (s : NotifiedPool T C) : WakeupAction T C → NotifiedPool T C
  | .pool (.proceed t) =>
    { s with
      toPoolSystem := PoolSystem.machine.next s.toPoolSystem (.proceed t)
      owes := owesBehind s.owes t (s.pc t) }
  | .pool (.wake t timedOut) =>
    { s with
      toPoolSystem := PoolSystem.machine.next s.toPoolSystem (.wake t timedOut)
      notified := s.notified.erase t }
  | .pool action => { s with toPoolSystem := PoolSystem.machine.next s.toPoolSystem action }
  | .notify t picked => { s with notified := picked.toList ++ s.notified, owes := s.owes.erase t }

/-- `notify_one` comes before the next call of its thread. -/
def machine : Machine (NotifiedPool T C) (WakeupAction T C) where
  init s := PoolSystem.machine.init s.toPoolSystem ∧ s.notified = [] ∧ s.owes = []
  guard s
    | .pool action => PoolSystem.machine.guard s.toPoolSystem action ∧
      ∀ t, action.begins? = some t → t ∉ s.owes
    | .notify t picked => s.pc t = .outside ∧ t ∈ s.owes ∧
      match picked with
      | some u => s.pc u = .waiting ∧ u ∉ s.notified
      | none => ∀ u, s.pc u = .waiting → u ∈ s.notified
  next := next

/-- A pool with notifications is a pool. -/
def simulates : Machine.Simulation (machine : Machine (NotifiedPool T C) (WakeupAction T C))
    (PoolSystem.machine : Machine (PoolSystem T C) (PoolAction T C)) where
  rel s p := s.toPoolSystem = p
  shows
    | .pool action, actions => actions = [action]
    | .notify _ _, actions => actions = []
  init s h := ⟨s.toPoolSystem, h.1, rfl⟩
  step s p action := by
    rintro rfl hg
    cases action with
    | pool action =>
      refine ⟨[action], rfl, ⟨hg.1, trivial⟩, ?_⟩
      cases action <;> rfl
    | notify t picked => exact ⟨[], rfl, trivial, rfl⟩

theorem pool_reachable {s : NotifiedPool T C} (h : machine.Reachable s) :
    PoolSystem.machine.Reachable s.toPoolSystem := by
  obtain ⟨p, hp, rfl⟩ := simulates.reachable h
  exact hp

theorem inv_of_reachable {s : NotifiedPool T C} (h : machine.Reachable s) :
    s.toPoolSystem.Inv := PoolSystem.reachable_inv (pool_reachable h)

end NotifiedPool

/-! ## An empty pool -/

namespace PoolSystem

variable {T C : Type*} [DecidableEq T] [DecidableEq C] {s : PoolSystem T C} {t : T}

/-- `m_MaxConn` stays, and so does the end of the pool. -/
theorem next_fixed (s : PoolSystem T C) (action : PoolAction T C) :
    (machine.next s action).maxConn = s.maxConn ∧
      (s.destroyed = true → (machine.next s action).destroyed = true) := by
  cases action with
  | getConnection t =>
    show ((if s.connList.length = 0 then some s else some (s.goto t .locking)).getD s).maxConn = _ ∧
      (_ → ((if s.connList.length = 0 then some s else some (s.goto t .locking)).getD s).destroyed =
        true)
    split <;> exact ⟨rfl, id⟩
  | releaseConnection t con => cases con <;> exact ⟨rfl, id⟩
  | destroyPool t => exact ⟨rfl, id⟩
  | wake t timedOut => exact ⟨rfl, id⟩
  | proceed t =>
    show ((s.proceed t (s.pc t)).getD s).maxConn = s.maxConn ∧
      (s.destroyed = true → ((s.proceed t (s.pc t)).getD s).destroyed = true)
    cases s.pc t with
    | testing timedOut =>
      unfold proceed statement
      simp only
      split
      · exact ⟨rfl, id⟩
      · split <;> exact ⟨rfl, id⟩
    | taking | closing =>
      unfold proceed statement
      simp only
      split <;> exact ⟨rfl, id⟩
    | destroying => exact ⟨rfl, fun _ => rfl⟩
    | outside | waiting | locking | taken _ | counting _ | returning _ | releasing _ | pushing _
    | freeing | leaving | resettingCur | resettingFree | clearing | unlocking => exact ⟨rfl, id⟩

/-- Nobody gets past the emptiness test of a pool without any connections. -/
theorem outside_of_empty (h : machine.Reachable s) (hd : s.destroyed = false)
    (hmax : s.maxConn = 0) : ∀ u, s.pc u = .outside ∨ s.pc u = .destroying := by
  induction h with
  | init hinit =>
    obtain ⟨conns, -, rfl⟩ := hinit
    exact fun u => .inl rfl
  | @step s action hreach hg _ ih =>
    obtain ⟨hsame, hkeeps⟩ := next_fixed s action
    have hd₀ : s.destroyed = false :=
      Bool.eq_false_iff.mpr fun ht => nomatch hd.symm.trans (hkeeps ht)
    have hpc := ih hd₀ (hsame.symm.trans hmax)
    have htotal := (reachable_inv hreach).ledger.total hd₀
    rw [hsame.symm.trans hmax] at htotal
    have hlist : s.connList.length = 0 := by omega
    have hheld : s.held = [] := List.length_eq_zero_iff.mp (by omega)
    cases action with
    | getConnection t =>
      have hstep : machine.next s (.getConnection t) = s := by
        show ((if s.connList.length = 0 then some s else some (s.goto t .locking)).getD s) = s
        rw [if_pos hlist]
        rfl
      rw [hstep]
      exact hpc
    | releaseConnection t con =>
      cases con with
      | none => exact hpc
      | some con => exact absurd (hg.2 con rfl) (hheld ▸ List.not_mem_nil)
    | destroyPool t =>
      intro u
      show (s.goto t .destroying).pc u = _ ∨ (s.goto t .destroying).pc u = _
      rw [pc_goto]
      split
      · exact .inr rfl
      · exact hpc u
    | proceed t =>
      have hdestroying := (hpc t).resolve_left hg.1
      have htrue : (machine.next s (.proceed t)).destroyed = true := by
        show ((s.proceed t (s.pc t)).getD s).destroyed = true
        rw [hdestroying]
        rfl
      exact nomatch hd.symm.trans htrue
    | wake t timedOut =>
      rcases hpc t with hout | hdestroying
      · exact nomatch hout.symm.trans hg.1
      · exact nomatch hdestroying.symm.trans hg.1

/-- Whoever sleeps in a pool sleeps in one with connections. -/
theorem maxConn_pos (h : machine.Reachable s) (hd : s.destroyed = false) (ht : s.pc t = .waiting) :
    0 < s.maxConn := by
  have htotal := (reachable_inv h).ledger.total hd
  refine lt_of_le_of_ne (by omega) fun hzero => ?_
  rcases outside_of_empty h hd hzero.symm t with hout | hdestroying
  · exact nomatch hout.symm.trans ht
  · exact nomatch hdestroying.symm.trans ht

end PoolSystem

/-! ## The invariant -/

/-- A test that is under way takes a connection if there is one. -/
def PoolPc.takes {C : Type*} : PoolPc C → Nat
  | .testing _ | .taking => 1
  | _ => 0

/-- Behind a `push_back`. -/
def PoolPc.Pushed {C : Type*} : PoolPc C → Prop
  | .freeing | .leaving | .unlocking | .outside => True
  | _ => False

namespace NotifiedPool

variable {T C : Type*}

/-- The free connections are spoken for while somebody sleeps whom nobody has picked. -/
structure Woken (s : NotifiedPool T C) : Prop where
  covered : ∀ t, s.pc t = .waiting → t ∉ s.notified →
    s.connList.length ≤ s.notified.length + s.owes.length + s.ownerPc.takes
  asleep : ∀ t ∈ s.notified, s.pc t = .waiting
  nodup : s.notified.Nodup
  pushed : ∀ t ∈ s.owes, (s.pc t).Pushed

theorem ne_waiting_of_holding {s : NotifiedPool T C} {t : T} {q : PoolPc C} (hpc : s.pc t = q)
    (hq : q.holding = true) : s.pc t ≠ .waiting := by
  rw [hpc]
  rintro rfl
  cases hq

section Moves

variable [DecidableEq T]

/-- Once `t` is at `p`, a thread that owes a notification owed it before, or is `t` behind its
`push_back`. -/
def OwesAt (s : NotifiedPool T C) (t : T) (p : PoolPc C) (owes : List T) : Prop :=
  ∀ u ∈ owes, if u = t then p.Pushed else u ∈ s.owes

variable {s : NotifiedPool T C} {t : T} {q : PoolPc C}

/-- A thread that is awake goes on: it takes no more connections from the list than it was to, and
it goes to sleep only in front of an empty list. -/
theorem Woken.goto (h : s.Woken) {pool : PoolSystem T C} {p : PoolPc C} {owes : List T}
    (hawake : s.pc t ≠ .waiting) (hsame : pool.pc = s.pc) (howes : s.OwesAt t p owes)
    (hdue : pool.connList = [] ∨ p ≠ .waiting ∧
      pool.connList.length + (s.owes.length + s.ownerPc.takes) ≤
        s.connList.length + (owes.length + (pool.goto t p).ownerPc.takes)) :
    Woken ⟨pool.goto t p, s.notified, owes⟩ := by
  have hself : (pool.goto t p).pc t = p := by rw [PoolSystem.pc_goto, if_pos rfl]
  have hother : ∀ u, u ≠ t → (pool.goto t p).pc u = s.pc u := fun u hu => by
    rw [PoolSystem.pc_goto, if_neg hu, hsame]
  refine ⟨fun u hu hnot => ?_, fun u hu => ?_, h.nodup, fun u hu => ?_⟩
  · show pool.connList.length ≤ s.notified.length + owes.length + (pool.goto t p).ownerPc.takes
    rcases hdue with hnil | ⟨hp, hdue⟩
    · rw [hnil]
      exact Nat.zero_le _
    · have hne : u ≠ t := by
        rintro rfl
        exact hp (hself.symm.trans hu)
      have hcovered := h.covered u ((hother u hne).symm.trans hu) hnot
      omega
  · have hsleeps := h.asleep u hu
    show (pool.goto t p).pc u = .waiting
    rw [hother u fun heq => hawake (heq ▸ hsleeps)]
    exact hsleeps
  · have howed := howes u hu
    show ((pool.goto t p).pc u).Pushed
    split at howed
    · rename_i heq
      rw [heq, hself]
      exact howed
    · rename_i hne
      rw [hother u hne]
      exact h.pushed u howed

/-- A thread that owes nothing goes on owing nothing. -/
theorem Woken.owes_nothing (h : s.Woken) (hpc : s.pc t = q) (hq : ¬ q.Pushed) {p : PoolPc C} :
    s.OwesAt t p s.owes := by
  intro u hu
  have hne : u ≠ t := by
    rintro rfl
    exact hq (hpc ▸ h.pushed u hu)
  rw [if_neg hne]
  exact hu

theorem owes_pushed {p : PoolPc C} (hp : p.Pushed) : s.OwesAt t p s.owes := by
  intro u hu
  split
  · exact hp
  · exact hu

/-- The owner of the mutex keeps it. -/
theorem Woken.advance (h : s.Woken) (pool : PoolSystem T C) (p : PoolPc C) {owes : List T}
    (hinv : s.Inv) (hpc : s.pc t = q) (hq : q.holding = true) (hsame : pool.pc = s.pc)
    (hmtx : pool.mtx = s.mtx) (howes : s.OwesAt t p owes)
    (hdue : pool.connList = [] ∨ p ≠ .waiting ∧
      pool.connList.length + (s.owes.length + q.takes) ≤
        s.connList.length + (owes.length + p.takes)) :
    Woken ⟨pool.goto t p, s.notified, owes⟩ := by
  have ht : s.mtx = some t := (hinv.owner t).mp (by rw [hpc, hq])
  refine h.goto (ne_waiting_of_holding hpc hq) hsame howes ?_
  rwa [PoolSystem.ownerPc_self ht, hpc, PoolSystem.ownerPc_goto_self (hmtx.trans ht)]

/-- A statement that leaves the list alone. -/
theorem Woken.count (h : s.Woken) (pool : PoolSystem T C) (p : PoolPc C) (hinv : s.Inv)
    (hpc : s.pc t = q) (hq : q.holding = true) (hsame : pool.pc = s.pc) (hmtx : pool.mtx = s.mtx)
    (hlist : pool.connList = s.connList) (howes : s.OwesAt t p s.owes) (hp : p ≠ .waiting)
    (htakes : q.takes ≤ p.takes) : Woken ⟨pool.goto t p, s.notified, s.owes⟩ := by
  refine h.advance pool p hinv hpc hq hsame hmtx howes (.inr ⟨hp, ?_⟩)
  rw [hlist]
  omega

/-- The owner of the mutex gives it up. -/
theorem Woken.release (h : s.Woken) (p : PoolPc C) (hinv : s.Inv) (hpc : s.pc t = q)
    (hq : q.holding = true) (howes : s.OwesAt t p s.owes)
    (hdue : s.connList = [] ∨ p ≠ .waiting ∧ q.takes = 0) :
    Woken ⟨s.unlock.goto t p, s.notified, s.owes⟩ := by
  have ht : s.mtx = some t := (hinv.owner t).mp (by rw [hpc, hq])
  have hsame : s.unlock.pc = s.pc := rfl
  refine h.goto (ne_waiting_of_holding hpc hq) hsame howes (hdue.imp_right fun hp => ⟨hp.1, ?_⟩)
  rw [PoolSystem.ownerPc_self ht, hpc, hp.2]
  exact Nat.add_le_add_left (Nat.add_le_add_left (Nat.zero_le _) _) _

/-- A thread takes the mutex. -/
theorem Woken.acquire (h : s.Woken) (pool : PoolSystem T C) (p : PoolPc C) (hpc : s.pc t = q)
    (hawake : q ≠ .waiting) (hfree : s.mtx = none) (howes : s.OwesAt t p s.owes)
    (hp : p ≠ .waiting) (hsame : pool.pc = s.pc) (hlist : pool.connList = s.connList) :
    Woken ⟨pool.goto t p, s.notified, s.owes⟩ := by
  have houtside : s.ownerPc = .outside := by
    unfold PoolSystem.ownerPc
    rw [hfree]
  refine h.goto (hpc ▸ hawake) hsame howes (.inr ⟨hp, ?_⟩)
  rw [houtside, hlist]
  exact Nat.add_le_add_left (Nat.add_le_add_left (Nat.zero_le _) _) _

/-- A thread that owes nothing begins a call. -/
theorem Woken.begin (h : s.Woken) (hinv : s.Inv) (hpc : s.pc t = .outside) (howes : t ∉ s.owes)
    (p : PoolPc C) (hp : p ≠ .waiting) : Woken ⟨s.goto t p, s.notified, s.owes⟩ := by
  have hnot : s.mtx ≠ some t := fun ht => by
    have hholds := (hinv.owner t).mpr ht
    rw [hpc] at hholds
    cases hholds
  refine h.goto (hpc ▸ nofun) rfl (fun u hu => ?_) (.inr ⟨hp, ?_⟩)
  · have hne : u ≠ t := by
      rintro rfl
      exact howes hu
    rw [if_neg hne]
    exact hu
  · rw [PoolSystem.ownerPc_goto_other hnot]

end Moves

variable [DecidableEq T] [DecidableEq C] {s : NotifiedPool T C} {t : T}

/-- The predicate of `wait_for` holds exactly if the list is not empty. -/
theorem testing_woken (h : s.Woken) (hinv : s.Inv) {timedOut : Bool}
    (hpc : s.pc t = .testing timedOut) :
    Woken ⟨(s.proceed t (.testing timedOut)).getD s.toPoolSystem, s.notified, s.owes⟩ := by
  have hfree : s.freeConn = s.connList.length := (hinv.ledger_at hpc rfl).free
  by_cases hpos : 0 < s.freeConn
  · have hstep : s.proceed t (.testing timedOut) = some (s.goto t .taking) := if_pos hpos
    rw [hstep]
    exact h.advance s.toPoolSystem .taking hinv hpc rfl rfl rfl (h.owes_nothing hpc id)
      (.inr ⟨nofun, Nat.le_refl _⟩)
  · have hempty : s.connList = [] := List.length_eq_zero_iff.mp (by omega)
    cases timedOut with
    | true =>
      have hstep : s.proceed t (.testing true) = some (s.goto t (.returning none)) :=
        (if_neg hpos).trans (if_pos rfl)
      rw [hstep]
      exact h.advance s.toPoolSystem (.returning none) hinv hpc rfl rfl rfl (h.owes_nothing hpc id)
        (.inl hempty)
    | false =>
      have hstep : s.proceed t (.testing false) = some (s.unlock.goto t .waiting) :=
        (if_neg hpos).trans (if_neg Bool.false_ne_true)
      rw [hstep]
      exact h.release .waiting hinv hpc rfl (h.owes_nothing hpc id) (.inl hempty)

/-- A connection that was free is taken. -/
theorem taking_woken (h : s.Woken) (hinv : s.Inv) (hpc : s.pc t = .taking) :
    Woken ⟨(s.proceed t .taking).getD s.toPoolSystem, s.notified, s.owes⟩ := by
  obtain ⟨con, connList, hlist⟩ :=
    List.exists_cons_of_ne_nil ((hinv.ledger_at hpc rfl).taking rfl)
  rw [PoolSystem.proceed_taking hlist]
  refine h.advance { s.toPoolSystem with
    connList
    held := (t, con) :: s.held } (.taken con) hinv hpc rfl rfl rfl (h.owes_nothing hpc id)
    (.inr ⟨nofun, ?_⟩)
  rw [hlist, List.length_cons]
  show connList.length + (s.owes.length + 1) ≤ connList.length + 1 + (s.owes.length + 0)
  omega

/-- Whoever frees a connection owes a notification for it. -/
theorem pushing_woken (h : s.Woken) (hinv : s.Inv) {con : C} (hpc : s.pc t = .pushing con) :
    Woken ⟨(s.proceed t (.pushing con)).getD s.toPoolSystem, s.notified, t :: s.owes⟩ := by
  refine h.advance { s.toPoolSystem with
    connList := s.connList ++ [con]
    held := s.held.erase (t, con) } .freeing hinv hpc rfl rfl rfl (fun u hu => ?_)
    (.inr ⟨nofun, ?_⟩)
  · split
    · trivial
    · rename_i hne
      exact (List.mem_cons.mp hu).resolve_left hne
  · rw [List.length_append, List.length_cons]
    show s.connList.length + 1 + (s.owes.length + 0) ≤ s.connList.length + (s.owes.length + 1 + 0)
    omega

theorem closing_woken (h : s.Woken) (hinv : s.Inv) (hpc : s.pc t = .closing) :
    Woken ⟨(s.proceed t .closing).getD s.toPoolSystem, s.notified, s.owes⟩ := by
  by_cases hsize : 0 < s.connList.length
  · have hstep : s.proceed t .closing = some ({ s.toPoolSystem with
        closed := s.closed ++ s.connList }.goto t .resettingCur) := if_pos hsize
    rw [hstep]
    exact h.count { s.toPoolSystem with closed := s.closed ++ s.connList } .resettingCur hinv hpc
      rfl rfl rfl rfl (h.owes_nothing hpc id) nofun (Nat.le_refl _)
  · have hstep : s.proceed t .closing = some (s.goto t .unlocking) := if_neg hsize
    rw [hstep]
    exact h.count s.toPoolSystem .unlocking hinv hpc rfl rfl rfl rfl (owes_pushed trivial) nofun
      (Nat.le_refl _)

/-- The next statement of a thread. -/
theorem proceed_woken (h : s.Woken) (hinv : s.Inv)
    (hg : machine.guard s (.pool (.proceed t))) : (s.next (.pool (.proceed t))).Woken := by
  obtain ⟨⟨houtside, hwaiting, hlock⟩, -⟩ := hg
  show Woken ⟨(s.proceed t (s.pc t)).getD s.toPoolSystem, s.notified,
    owesBehind s.owes t (s.pc t)⟩
  cases hpc : s.pc t with
  | outside => exact absurd hpc houtside
  | waiting => exact absurd hpc hwaiting
  | locking =>
    exact h.acquire (s.lock t) (.testing false) hpc nofun (hlock (by rw [hpc]; rfl))
      (h.owes_nothing hpc id) nofun rfl rfl
  | testing timedOut => exact testing_woken h hinv hpc
  | taking => exact taking_woken h hinv hpc
  | taken con =>
    exact h.count { s.toPoolSystem with freeConn := s.freeConn - 1 } (.counting con) hinv hpc rfl
      rfl rfl rfl (h.owes_nothing hpc id) nofun (Nat.le_refl _)
  | counting con =>
    exact h.count { s.toPoolSystem with curConn := s.curConn + 1 } (.returning (some con)) hinv hpc
      rfl rfl rfl rfl (h.owes_nothing hpc id) nofun (Nat.le_refl _)
  | returning con =>
    exact h.release .outside hinv hpc rfl (owes_pushed trivial) (.inr ⟨nofun, rfl⟩)
  | releasing con =>
    exact h.acquire (s.lock t) (.pushing con) hpc nofun (hlock (by rw [hpc]; rfl))
      (h.owes_nothing hpc id) nofun rfl rfl
  | pushing con => exact pushing_woken h hinv hpc
  | freeing =>
    exact h.count { s.toPoolSystem with freeConn := s.freeConn + 1 } .leaving hinv hpc rfl rfl rfl
      rfl (owes_pushed trivial) nofun (Nat.le_refl _)
  | leaving =>
    exact h.count { s.toPoolSystem with curConn := s.curConn - 1 } .unlocking hinv hpc rfl rfl rfl
      rfl (owes_pushed trivial) nofun (Nat.le_refl _)
  | destroying =>
    exact h.acquire { s.toPoolSystem with destroyed := true, mtx := some t } .closing hpc nofun
      (hlock (by rw [hpc]; rfl)) (h.owes_nothing hpc id) nofun rfl rfl
  | closing => exact closing_woken h hinv hpc
  | resettingCur =>
    exact h.count { s.toPoolSystem with curConn := 0 } .resettingFree hinv hpc rfl rfl rfl rfl
      (h.owes_nothing hpc id) nofun (Nat.le_refl _)
  | resettingFree =>
    exact h.count { s.toPoolSystem with freeConn := 0 } .clearing hinv hpc rfl rfl rfl rfl
      (h.owes_nothing hpc id) nofun (Nat.le_refl _)
  | clearing =>
    exact h.advance { s.toPoolSystem with connList := [] } .unlocking hinv hpc rfl rfl rfl
      (owes_pushed trivial) (.inl rfl)
  | unlocking =>
    exact h.release .outside hinv hpc rfl (owes_pushed trivial) (.inr ⟨nofun, rfl⟩)

/-- Whoever wakes up, picked or not, tests for a connection. -/
theorem wake_woken (h : s.Woken) {timedOut : Bool}
    (hg : machine.guard s (.pool (.wake t timedOut))) :
    (s.next (.pool (.wake t timedOut))).Woken := by
  obtain ⟨⟨hpc, hfree⟩, -⟩ := hg
  have houtside : s.ownerPc = .outside := by
    unfold PoolSystem.ownerPc
    rw [hfree]
  have hown : ((s.lock t).goto t (.testing timedOut)).ownerPc = .testing timedOut :=
    PoolSystem.ownerPc_goto_self rfl
  have hself : ((s.lock t).goto t (.testing timedOut)).pc t = .testing timedOut := by
    rw [PoolSystem.pc_goto, if_pos rfl]
  have hother : ∀ u, u ≠ t → ((s.lock t).goto t (.testing timedOut)).pc u = s.pc u := by
    intro u hu
    rw [PoolSystem.pc_goto, if_neg hu]
    rfl
  show Woken ⟨(s.lock t).goto t (.testing timedOut), s.notified.erase t, s.owes⟩
  refine ⟨fun u hu hnot => ?_, fun u hu => ?_, h.nodup.erase t, fun u hu => ?_⟩
  · have hne : u ≠ t := by
      rintro rfl
      exact nomatch hself.symm.trans hu
    have hcovered := h.covered u ((hother u hne).symm.trans hu)
      fun hmem => hnot ((List.mem_erase_of_ne hne).mpr hmem)
    have hpicked : s.notified.length ≤ (s.notified.erase t).length + 1 := by
      rw [List.length_erase]
      split <;> omega
    show s.connList.length ≤ (s.notified.erase t).length + s.owes.length + PoolPc.takes _
    rw [hown]
    rw [houtside] at hcovered
    simp only [PoolPc.takes] at hcovered ⊢
    omega
  · obtain ⟨hne, hmem⟩ := h.nodup.mem_erase_iff.mp hu
    exact (hother u hne).trans (h.asleep u hmem)
  · have hne : u ≠ t := by
      rintro rfl
      have hpushed := h.pushed u hu
      rw [hpc] at hpushed
      exact hpushed
    show (((s.lock t).goto t (.testing timedOut)).pc u).Pushed
    rw [hother u hne]
    exact h.pushed u hu

/-- A notification that was owed is made to a sleeper, or there is nobody to pick. -/
theorem notify_woken (h : s.Woken) {picked : Option T} (hg : machine.guard s (.notify t picked)) :
    (s.next (.notify t picked)).Woken := by
  obtain ⟨-, howes, hpicked⟩ := hg
  have hlength : s.owes.length = (s.owes.erase t).length + 1 :=
    (List.perm_cons_erase howes).length_eq
  have hpushed : ∀ u ∈ s.owes.erase t, (s.pc u).Pushed :=
    fun u hu => h.pushed u (List.mem_of_mem_erase hu)
  cases picked with
  | none =>
    exact ⟨fun u hu hnot => absurd (hpicked u hu) hnot, h.asleep, h.nodup, hpushed⟩
  | some v =>
    have hnodup := List.nodup_cons.mpr ⟨hpicked.2, h.nodup⟩
    refine ⟨fun u hu hnot => ?_, fun u hu => ?_, hnodup, hpushed⟩
    · have hcovered := h.covered u hu fun hmem => hnot (List.mem_cons_of_mem v hmem)
      show s.connList.length ≤
        s.notified.length + 1 + (s.owes.erase t).length + s.ownerPc.takes
      omega
    · rcases List.mem_cons.mp hu with rfl | hu
      · exact hpicked.1
      · exact h.asleep u hu

theorem next_woken (h : s.Woken) (hinv : s.Inv) {action : WakeupAction T C}
    (hg : machine.guard s action) : (s.next action).Woken := by
  cases action with
  | notify t picked => exact notify_woken h hg
  | pool action =>
    cases action with
    | proceed t => exact proceed_woken h hinv hg
    | wake t timedOut => exact wake_woken h hg
    | getConnection t =>
      by_cases hempty : s.connList.length = 0
      · have hstep : s.step (.getConnection t) = some s.toPoolSystem := if_pos hempty
        show Woken ⟨(s.step (.getConnection t)).getD s.toPoolSystem, s.notified, s.owes⟩
        rw [hstep]
        exact h
      · have hstep : s.step (.getConnection t) = some (s.goto t .locking) := if_neg hempty
        show Woken ⟨(s.step (.getConnection t)).getD s.toPoolSystem, s.notified, s.owes⟩
        rw [hstep]
        exact h.begin hinv hg.1 (hg.2 t rfl) .locking nofun
    | releaseConnection t con =>
      cases con with
      | none => exact h
      | some con => exact h.begin hinv hg.1.1 (hg.2 t rfl) (.releasing con) nofun
    | destroyPool t => exact h.begin hinv hg.1 (hg.2 t rfl) .destroying nofun

theorem woken_of_reachable (h : machine.Reachable s) : s.Woken := by
  induction h with
  | init hinit =>
    obtain ⟨⟨conns, -, hstart⟩, hnotified, howes⟩ := hinit
    refine ⟨fun t ht _ => ?_, by rw [hnotified]; nofun, by rw [hnotified]; exact .nil,
      by rw [howes]; nofun⟩
    rw [hstart] at ht
    cases ht
  | step hreach hg _ ih => exact next_woken ih (inv_of_reachable hreach) hg

/-- Neither a time-out nor a spurious wake-up, nor the beginning of a call. -/
def Prompt (s : NotifiedPool T C) : WakeupAction T C → Prop
  | .pool (.proceed _) | .notify _ _ => True
  | .pool (.wake t _) => t ∈ s.notified
  | .pool _ => False

/-- Whoever has the mutex, or waits for it while it is free, goes on. -/
theorem prompt_of_inside (hinv : s.Inv) {u : T} (hout : s.pc u ≠ .outside)
    (hwait : s.pc u ≠ .waiting) : ∃ action, s.Prompt action ∧ machine.guard s action := by
  cases hmtx : s.mtx with
  | none =>
    exact ⟨.pool (.proceed u), trivial, ⟨hout, hwait, fun _ => hmtx⟩, nofun⟩
  | some v =>
    have hv : (s.pc v).holding = true := (hinv.owner v).mpr hmtx
    refine ⟨.pool (.proceed v), trivial, ⟨?_, ?_, fun hlock => ?_⟩, nofun⟩
    · rintro heq
      rw [heq] at hv
      cases hv
    · rintro heq
      rw [heq] at hv
      cases hv
    · cases hpc : s.pc v <;> rw [hpc] at hv hlock <;> cases hv <;> cases hlock

/-- Whoever owes a notification makes it. -/
theorem prompt_of_owing (hout : s.pc t = .outside) (howes : t ∈ s.owes) :
    ∃ action, s.Prompt action ∧ machine.guard s action := by
  by_cases hsleeps : ∃ u, s.pc u = .waiting ∧ u ∉ s.notified
  · obtain ⟨u, hu⟩ := hsleeps
    exact ⟨.notify t (some u), trivial, hout, howes, hu⟩
  · refine ⟨.notify t none, trivial, hout, howes, fun u hu => ?_⟩
    exact by_contra fun hnot => hsleeps ⟨u, hu, hnot⟩

/-- The pool stands still with a sleeper only while every connection is out. -/
theorem stands_still (h : machine.Reachable s) (ht : s.pc t = .waiting) :
    (∃ action, s.Prompt action ∧ machine.guard s action) ∨
      s.connList = [] ∧ (∀ u, s.pc u = .outside ∨ s.pc u = .waiting) ∧
        (s.destroyed = false → s.held.length = s.maxConn) := by
  have hinv := inv_of_reachable h
  have hwoken := woken_of_reachable h
  by_cases hinside : ∃ u, s.pc u ≠ .outside ∧ s.pc u ≠ .waiting
  · obtain ⟨u, hout, hwait⟩ := hinside
    exact .inl (prompt_of_inside hinv hout hwait)
  have hstill : ∀ u, s.pc u = .outside ∨ s.pc u = .waiting := fun u =>
    by_contra fun hu => hinside ⟨u, fun ho => hu (.inl ho), fun hw => hu (.inr hw)⟩
  have hmtx : s.mtx = none := by
    cases hm : s.mtx with
    | none => rfl
    | some v =>
      have hv := (hinv.owner v).mpr hm
      rcases hstill v with hpc | hpc <;> rw [hpc] at hv <;> cases hv
  by_cases howing : ∃ u, u ∈ s.owes
  · obtain ⟨u, hu⟩ := howing
    have hout : s.pc u = .outside := (hstill u).resolve_right fun hw => by
      have hpushed := hwoken.pushed u hu
      rw [hw] at hpushed
      exact hpushed
    exact .inl (prompt_of_owing hout hu)
  by_cases hpicked : ∃ u, u ∈ s.notified
  · obtain ⟨u, hu⟩ := hpicked
    exact .inl ⟨.pool (.wake u false), hu, ⟨hwoken.asleep u hu, hmtx⟩, nofun⟩
  have howes : s.owes = [] := List.eq_nil_iff_forall_not_mem.mpr fun u hu => howing ⟨u, hu⟩
  have hnotified : s.notified = [] :=
    List.eq_nil_iff_forall_not_mem.mpr fun u hu => hpicked ⟨u, hu⟩
  have houtside : s.ownerPc = .outside := by
    unfold PoolSystem.ownerPc
    rw [hmtx]
  have hcovered := hwoken.covered t ht fun hu => hpicked ⟨t, hu⟩
  rw [hnotified, howes, houtside] at hcovered
  have hempty : s.connList = [] := List.length_eq_zero_iff.mp (Nat.le_zero.mp hcovered)
  refine .inr ⟨hempty, hstill, fun hd => ?_⟩
  have htotal := hinv.ledger.total hd
  rw [hempty] at htotal
  simpa using htotal.symm

/-- **No wake-up is lost.** While a client sleeps that nobody has picked, no more connections are
free than there are sleepers picked, notifications owed and a test under way. While any client
sleeps, a thread goes on that needs no time-out and no spurious wake-up; or no connection is free,
nobody is inside of the pool but sleepers, and before `DestroyPool` every connection is in the hands
of a client. -/
theorem no_lost_wakeup (h : machine.Reachable s) (ht : s.pc t = .waiting) :
    (t ∉ s.notified →
      s.connList.length ≤ s.notified.length + s.owes.length + s.ownerPc.takes) ∧
    ((∃ action, s.Prompt action ∧ machine.guard s action) ∨
      s.connList = [] ∧ (∀ u, s.pc u = .outside ∨ s.pc u = .waiting) ∧
        (s.destroyed = false → s.held.length = s.maxConn)) :=
  ⟨(woken_of_reachable h).covered t ht, stands_still h ht⟩

/-- One connection and two clients: the second one sleeps while the first one has freed the
connection and not yet notified anybody. -/
theorem no_lost_wakeup_example :
    let s := machine.after (⟨PoolSystem.start [5], [], []⟩ : NotifiedPool Bool Nat)
      ([.getConnection true, .getConnection false, .proceed true, .proceed true, .proceed true,
        .proceed true, .proceed true, .proceed true, .proceed false, .proceed false,
        .releaseConnection true (some 5), .proceed true, .proceed true, .proceed true,
        .proceed true, .proceed true].map WakeupAction.pool)
    s.pc false = .waiting ∧ s.connList = [5] ∧ s.owes = [true] ∧
      ∃ action, s.Prompt action ∧ machine.guard s action := by
  intro s
  have hlegal : machine.Legal (⟨PoolSystem.start [5], [], []⟩ : NotifiedPool Bool Nat)
      ([.getConnection true, .getConnection false, .proceed true, .proceed true, .proceed true,
        .proceed true, .proceed true, .proceed true, .proceed false, .proceed false,
        .releaseConnection true (some 5), .proceed true, .proceed true, .proceed true,
        .proceed true, .proceed true].map WakeupAction.pool) := by
    have hnone : ∀ {action : PoolAction Bool Nat} (t : Bool), action.begins? = some t →
        t ∉ ([] : List Bool) := fun _ _ => List.not_mem_nil
    have hheld : ∀ c, some 5 = some c → (true, c) ∈ [(true, 5)] := by
      rintro c ⟨⟩
      exact List.mem_singleton.mpr rfl
    exact ⟨⟨rfl, hnone⟩, ⟨rfl, hnone⟩, ⟨⟨nofun, nofun, fun _ => rfl⟩, nofun⟩,
      ⟨⟨nofun, nofun, nofun⟩, nofun⟩, ⟨⟨nofun, nofun, nofun⟩, nofun⟩,
      ⟨⟨nofun, nofun, nofun⟩, nofun⟩, ⟨⟨nofun, nofun, nofun⟩, nofun⟩,
      ⟨⟨nofun, nofun, nofun⟩, nofun⟩, ⟨⟨nofun, nofun, fun _ => rfl⟩, nofun⟩,
      ⟨⟨nofun, nofun, nofun⟩, nofun⟩, ⟨⟨rfl, hheld⟩, hnone⟩,
      ⟨⟨nofun, nofun, fun _ => rfl⟩, nofun⟩, ⟨⟨nofun, nofun, nofun⟩, nofun⟩,
      ⟨⟨nofun, nofun, nofun⟩, nofun⟩, ⟨⟨nofun, nofun, nofun⟩, nofun⟩,
      ⟨⟨nofun, nofun, nofun⟩, nofun⟩, trivial⟩
  have hinit : machine.init (⟨PoolSystem.start [5], [], []⟩ : NotifiedPool Bool Nat) :=
    ⟨⟨[5], List.nodup_singleton 5, rfl⟩, rfl, rfl⟩
  have hwaiting : s.pc false = .waiting := rfl
  have hlist : s.connList = [5] := rfl
  obtain ⟨-, hgoes | ⟨hempty, -⟩⟩ :=
    no_lost_wakeup (Machine.Reachable.run (.init hinit) hlegal) hwaiting
  · exact ⟨hwaiting, hlist, rfl, hgoes⟩
  · exact nomatch hlist.symm.trans hempty

end NotifiedPool

end SimpleHttpServer
