import SimpleHttpServer.Basic
import SimpleHttpServer.Lib.Machine

/-!
# `SqlConnectionPool`

Model of `sql/SqlConnectionPool.cpp`: `init`, `GetConnection`, `ReleaseConnection`, `DestroyPool`.
The pool with its clients: threads `T`, connections `C`. A statement under `mtx` is a step, so the
emptiness test of `GetConnection`, which takes no lock, falls between any two of them. `wait_for`
tests its predicate with the mutex and sleeps without it; it wakes up at any time, notified,
spuriously, or because the time is over, which it finds out with the mutex again. The counters do
not overflow. `connectionRAII` is the two calls: it releases what it got, `nullptr` too.

`proceed` records in `held` who has which connection: from the statement that takes it off the list
to the one that puts it back. `closed` is what `mysql_close` was called for.

* `Ledger` is what the counters are for each place where the owner of the mutex may be, and `Inv`
  what holds besides.
* **`PoolSystem.step_inv`**: one statement of one thread keeps it, and never fails.

Left out: how a connection is made, the log, and the notifications (`PoolWakeups`).
-/

namespace SimpleHttpServer

open Lib

/-- The list and the counters. -/
structure SqlConnectionPool (C : Type*) where
  connList : List C
  maxConn : Int
  curConn : Int
  freeConn : Int

namespace SqlConnectionPool

variable {C : Type*}

/-- The constructor; `m_MaxConn` is not set there. -/
def new : SqlConnectionPool C where
  connList := []
  maxConn := 0
  curConn := 0
  freeConn := 0

/-- `init`, with the connections that `mysql_real_connect` returns. -/
def init (pool : SqlConnectionPool C) (conns : List C) : SqlConnectionPool C :=
  let pool := conns.foldl
    (fun pool con =>
      { pool with connList := pool.connList ++ [con], freeConn := pool.freeConn + 1 }) pool
  { pool with maxConn := pool.freeConn }

/-- After `init` all connections are free. -/
theorem init_new (conns : List C) :
    new.init conns = ⟨conns, conns.length, 0, conns.length⟩ := by
  have hfold : ∀ (l : List C) (pool : SqlConnectionPool C),
      l.foldl (fun pool con =>
        { pool with connList := pool.connList ++ [con], freeConn := pool.freeConn + 1 }) pool =
      { pool with connList := pool.connList ++ l, freeConn := pool.freeConn + l.length } := by
    intro l
    induction l with
    | nil => simp
    | cons con l ih =>
      intro pool
      rw [List.foldl_cons, ih]
      simp only [List.append_assoc, List.singleton_append, List.length_cons]
      congr 1
      push_cast
      omega
  unfold init
  rw [hfold]
  simp [new]

end SqlConnectionPool

/-- Where a thread is. -/
inductive PoolPc (C : Type*) where
  | outside
  /-- `GetConnection` before the lock, past the emptiness test. -/
  | locking
  /-- In `wait_for` with the mutex; the predicate is next. -/
  | testing (timedOut : Bool)
  /-- Asleep in `wait_for`. -/
  | waiting
  /-- `connList.front()` and `pop_front` are next. -/
  | taking
  /-- `--m_FreeConn` is next. -/
  | taken (con : C)
  /-- `++m_CurConn` is next. -/
  | counting (con : C)
  /-- The return is next, which unlocks. -/
  | returning (con : Option C)
  /-- `ReleaseConnection` before the lock. -/
  | releasing (con : C)
  /-- `push_back` is next. -/
  | pushing (con : C)
  /-- `++m_FreeConn` is next. -/
  | freeing
  /-- `--m_CurConn` is next. -/
  | leaving
  /-- `DestroyPool` before the lock. -/
  | destroying
  /-- The size test, and the loop that closes the connections. -/
  | closing
  /-- `m_CurConn = 0` is next. -/
  | resettingCur
  /-- `m_FreeConn = 0` is next. -/
  | resettingFree
  /-- `connList.clear()` is next. -/
  | clearing
  /-- The end of the block is next, which unlocks. -/
  | unlocking

namespace PoolPc

variable {C : Type*}

/-- With the mutex. -/
def holding : PoolPc C → Bool
  | .outside | .locking | .waiting | .releasing _ | .destroying => false
  | _ => true

/-- Before a lock. -/
def atLock : PoolPc C → Bool
  | .locking | .releasing _ | .destroying => true
  | _ => false

/-- What a thread has in `GetConnection` or `ReleaseConnection`. -/
def carries : PoolPc C → Option C
  | .taken con | .counting con | .releasing con | .pushing con => some con
  | .returning con => con
  | _ => none

/-- What `ReleaseConnection` is to give back. -/
def offers : PoolPc C → Option C
  | .releasing con | .pushing con => some con
  | _ => none

end PoolPc

/-- The pool, and where its clients are. -/
structure PoolSystem (T C : Type*) extends SqlConnectionPool C where
  /-- Who has `mtx`. -/
  mtx : Option T
  pc : T → PoolPc C
  /-- Who has which connection. -/
  held : List (T × C)
  /-- What `mysql_close` was called for. -/
  closed : List C
  /-- `DestroyPool` has run. -/
  destroyed : Bool

/-- A call, or a step of a call. -/
inductive PoolAction (T C : Type*) where
  /-- The call, and the emptiness test. -/
  | getConnection (t : T)
  | releaseConnection (t : T) (con : Option C)
  | destroyPool (t : T)
  /-- The thread's next statement. -/
  | proceed (t : T)
  /-- The thread leaves the sleep of `wait_for`. -/
  | wake (t : T) (timedOut : Bool)

namespace PoolSystem

variable {T C : Type*}

/-- After `init`. -/
def start (conns : List C) : PoolSystem T C where
  toSqlConnectionPool := SqlConnectionPool.new.init conns
  mtx := none
  pc _ := .outside
  held := []
  closed := []
  destroyed := false

section Step

variable [DecidableEq T] [DecidableEq C]

/-- The thread goes to another place. -/
def goto (s : PoolSystem T C) (t : T) (pc : PoolPc C) : PoolSystem T C :=
  { s with pc := Function.update s.pc t pc }

/-- `mtx.lock()`. -/
def lock (s : PoolSystem T C) (t : T) : PoolSystem T C := { s with mtx := some t }

/-- `mtx.unlock()`. -/
def unlock (s : PoolSystem T C) : PoolSystem T C := { s with mtx := none }

/-- The next statement; `none` where `connList.front()` finds an empty list. -/
def statement (s : PoolSystem T C) (t : T) : PoolPc C → Option (PoolSystem T C)
  | .outside | .waiting => some s
  | .locking => some ((s.lock t).goto t (.testing false))
  | .testing timedOut =>
    if 0 < s.freeConn then some (s.goto t .taking)
    else if timedOut then some (s.goto t (.returning none))
    else some (s.unlock.goto t .waiting)
  | .taking =>
    match s.connList with
    | [] => none
    | con :: connList => some ({ s with connList }.goto t (.taken con))
  | .taken con => some ({ s with freeConn := s.freeConn - 1 }.goto t (.counting con))
  | .counting con => some ({ s with curConn := s.curConn + 1 }.goto t (.returning (some con)))
  | .returning _ => some (s.unlock.goto t .outside)
  | .releasing con => some ((s.lock t).goto t (.pushing con))
  | .pushing con => some ({ s with connList := s.connList ++ [con] }.goto t .freeing)
  | .freeing => some ({ s with freeConn := s.freeConn + 1 }.goto t .leaving)
  | .leaving => some ({ s with curConn := s.curConn - 1 }.goto t .unlocking)
  | .destroying => some ({ s with destroyed := true, mtx := some t }.goto t .closing)
  | .closing =>
    if 0 < s.connList.length then
      some ({ s with closed := s.closed ++ s.connList }.goto t .resettingCur)
    else some (s.goto t .unlocking)
  | .resettingCur => some ({ s with curConn := 0 }.goto t .resettingFree)
  | .resettingFree => some ({ s with freeConn := 0 }.goto t .clearing)
  | .clearing => some ({ s with connList := [] }.goto t .unlocking)
  | .unlocking => some (s.unlock.goto t .outside)

/-- Who has what behind that statement: the thread has the first connection of the list, or has
given one back. -/
def heldBehind (s : PoolSystem T C) (t : T) : PoolPc C → List (T × C)
  | .taking =>
    match s.connList with
    | [] => s.held
    | con :: _ => (t, con) :: s.held
  | .pushing con => s.held.erase (t, con)
  | _ => s.held

/-- The next statement, recorded. -/
def proceed (s : PoolSystem T C) (t : T) (pc : PoolPc C) : Option (PoolSystem T C) :=
  { s with held := s.heldBehind t pc }.statement t pc

/-- One step; `none` where `connList.front()` finds an empty list. -/
def step (s : PoolSystem T C) : PoolAction T C → Option (PoolSystem T C)
  | .getConnection t => if s.connList.length = 0 then some s else some (s.goto t .locking)
  | .releaseConnection _ none => some s
  | .releaseConnection t (some con) => some (s.goto t (.releasing con))
  | .destroyPool t => some (s.goto t .destroying)
  | .proceed t => s.proceed t (s.pc t)
  | .wake t timedOut => some ((s.lock t).goto t (.testing timedOut))

/-- A thread releases what it has. -/
def machine : Machine (PoolSystem T C) (PoolAction T C) where
  init s := ∃ conns : List C, conns.Nodup ∧ s = start conns
  guard s
    | .getConnection t => s.pc t = .outside
    | .releaseConnection t con => s.pc t = .outside ∧ ∀ c, con = some c → (t, c) ∈ s.held
    | .destroyPool t => s.pc t = .outside
    | .proceed t =>
      s.pc t ≠ .outside ∧ s.pc t ≠ .waiting ∧ ((s.pc t).atLock = true → s.mtx = none)
    | .wake t _ => s.pc t = .waiting ∧ s.mtx = none
  next s a := (s.step a).getD s

end Step

/-! ## The invariant -/

/-- Where the owner of the mutex is. -/
def ownerPc (s : PoolSystem T C) : PoolPc C :=
  match s.mtx with
  | none => .outside
  | some t => s.pc t

/-- `m_FreeConn`, for so many connections in the list. -/
def freeDue : PoolPc C → Nat → Int
  | .taken _, n => n + 1
  | .freeing, n => n - 1
  | .clearing, _ => 0
  | _, n => n

/-- `m_CurConn`, for so many connections in hand. -/
def curDue : PoolPc C → Nat → Int
  | .taken _, n | .counting _, n => n - 1
  | .freeing, n | .leaving, n => n + 1
  | _, n => n

/-- `DestroyPool` has closed the connections, and the list still has them. -/
def Emptying : PoolPc C → Prop
  | .resettingCur | .resettingFree | .clearing => True
  | _ => False

/-- What holds when the owner of the mutex is at `pc`. -/
structure Ledger (s : PoolSystem T C) (pc : PoolPc C) : Prop where
  free : s.freeConn = freeDue pc s.connList.length
  cur : s.destroyed = false → s.curConn = curDue pc s.held.length
  total : s.destroyed = false → s.maxConn = s.connList.length + s.held.length
  taking : pc = .taking → s.connList ≠ []
  closed : ¬ Emptying pc → ∀ c ∈ s.closed, c ∉ s.connList
  destroyed : Emptying pc ∨ pc = .closing → s.destroyed = true

/-- What holds in every reachable state. -/
structure Inv (s : PoolSystem T C) : Prop where
  owner : ∀ t, (s.pc t).holding = true ↔ s.mtx = some t
  offered : ∀ t c, (s.pc t).offers = some c → (t, c) ∈ s.held
  nodup : (s.connList ++ s.held.map Prod.snd).Nodup
  closed : ∀ c ∈ s.closed, c ∉ s.held.map Prod.snd
  ledger : s.Ledger s.ownerPc

theorem inv_start {conns : List C} (h : conns.Nodup) : (start conns : PoolSystem T C).Inv where
  owner t := by simp [start, PoolPc.holding]
  offered t c hc := nomatch hc
  nodup := by simpa [start, SqlConnectionPool.init_new] using h
  closed := nofun
  ledger :=
    { free := by simp [start, SqlConnectionPool.init_new, ownerPc, freeDue]
      cur := by simp [start, SqlConnectionPool.init_new, ownerPc, curDue]
      total := by simp [start, SqlConnectionPool.init_new]
      taking := by simp [start, ownerPc]
      closed := by simp [start]
      destroyed := by simp [start, ownerPc, Emptying] }

theorem ownerPc_self {s : PoolSystem T C} {t : T} (ht : s.mtx = some t) : s.ownerPc = s.pc t := by
  unfold ownerPc
  rw [ht]

theorem Inv.ledger_at {s : PoolSystem T C} {t : T} {q : PoolPc C} (h : s.Inv)
    (hpc : s.pc t = q) (hq : q.holding = true) : s.Ledger q := by
  have ht : s.mtx = some t := (h.owner t).mp (by rw [hpc, hq])
  have hl := h.ledger
  rwa [ownerPc_self ht, hpc] at hl

section Goto

variable [DecidableEq T] {s : PoolSystem T C} {t : T} {p : PoolPc C}

theorem pc_goto (s : PoolSystem T C) (t u : T) (p : PoolPc C) :
    (s.goto t p).pc u = if u = t then p else s.pc u := Function.update_apply ..

/-- The thread keeps what it has of the mutex. -/
theorem owner_keep (h : ∀ u, (s.pc u).holding = true ↔ s.mtx = some u)
    (hp : p.holding = (s.pc t).holding) (u : T) :
    ((s.goto t p).pc u).holding = true ↔ s.mtx = some u := by
  rw [pc_goto]
  split
  · rename_i hu
    rw [hp, hu, h t]
  · exact h u

theorem owner_lock (h : ∀ u, (s.pc u).holding = true ↔ s.mtx = some u) (hfree : s.mtx = none)
    (hp : p.holding = true) (u : T) :
    ((s.goto t p).pc u).holding = true ↔ some t = some u := by
  rw [pc_goto]
  split
  · rename_i hu
    simp [hp, hu]
  · rename_i hu
    rw [h u, hfree]
    exact iff_of_false nofun fun heq => hu (Option.some.inj heq).symm

theorem owner_unlock (h : ∀ u, (s.pc u).holding = true ↔ s.mtx = some u) (ht : s.mtx = some t)
    (hp : p.holding = false) (u : T) :
    ((s.goto t p).pc u).holding = true ↔ (none : Option T) = some u := by
  rw [pc_goto]
  split
  · simp [hp]
  · rename_i hu
    rw [h u, ht]
    exact iff_of_false (fun heq => hu (Option.some.inj heq).symm) nofun

theorem offered_goto {held : List (T × C)}
    (h : ∀ u c, u ≠ t → (s.pc u).offers = some c → (u, c) ∈ held)
    (hp : ∀ c, p.offers = some c → (t, c) ∈ held) (u : T) (c : C)
    (hc : ((s.goto t p).pc u).offers = some c) : (u, c) ∈ held := by
  rw [pc_goto] at hc
  split at hc
  · rename_i hu
    rw [hu]
    exact hp c hc
  · rename_i hu
    exact h u c hu hc

/-- A thread without the mutex does not move its owner. -/
theorem ownerPc_goto_other (ht : s.mtx ≠ some t) : (s.goto t p).ownerPc = s.ownerPc := by
  unfold ownerPc
  show (match s.mtx with | none => _ | some u => (s.goto t p).pc u) = _
  cases hmtx : s.mtx with
  | none => rfl
  | some u =>
    have hne : u ≠ t := fun heq => ht (heq ▸ hmtx)
    show (s.goto t p).pc u = s.pc u
    rw [pc_goto, if_neg hne]

theorem ownerPc_goto_self (ht : s.mtx = some t) : (s.goto t p).ownerPc = p := by
  unfold ownerPc
  show (match s.mtx with | none => _ | some u => (s.goto t p).pc u) = _
  rw [ht]
  show (s.goto t p).pc t = p
  rw [pc_goto, if_pos rfl]

variable {s₁ : PoolSystem T C} {q : PoolPc C}

theorem Ledger.goto (h : s.Ledger q) (t : T) (p : PoolPc C) : (s.goto t p).Ledger q :=
  ⟨h.free, h.cur, h.total, h.taking, h.closed, h.destroyed⟩

/-- A thread without the mutex goes on without it. -/
theorem Inv.goto_outside (h : s.Inv) (hq : (s.pc t).holding = false) (hp : p.holding = false)
    (hoffers : ∀ c, p.offers = some c → (t, c) ∈ s.held) : (s.goto t p).Inv where
  owner := owner_keep h.owner (hp.trans hq.symm)
  offered := offered_goto (fun u c _ => h.offered u c) hoffers
  nodup := h.nodup
  closed := h.closed
  ledger := by
    have hne : s.mtx ≠ some t := fun heq => by simp [(h.owner t).mpr heq] at hq
    rw [ownerPc_goto_other hne]
    exact h.ledger.goto t p

/-- A thread takes the mutex. -/
theorem Inv.acquire (h : s.Inv) (hfree : s.mtx = none) (hp : p.holding = true)
    (hoffers : ∀ c, p.offers = some c → (t, c) ∈ s.held)
    (hledger : s.Ledger .outside → s.Ledger p) :
    ((s.lock t).goto t p).Inv where
  owner := owner_lock (s := s) h.owner hfree hp
  offered := offered_goto (s := s) (fun u c _ => h.offered u c) hoffers
  nodup := h.nodup
  closed := h.closed
  ledger := by
    have houtside : s.ownerPc = .outside := by
      unfold ownerPc
      rw [hfree]
    have hp' := hledger (houtside ▸ h.ledger)
    rw [ownerPc_goto_self rfl]
    exact ⟨hp'.free, hp'.cur, hp'.total, hp'.taking, hp'.closed, hp'.destroyed⟩

/-- The owner of the mutex gives it up. -/
theorem Inv.release (h : s.Inv) (hpc : s.pc t = q) (hq : q.holding = true)
    (hp : p.holding = false) (hoffers : p.offers = none) (hledger : s.Ledger .outside) :
    (s.unlock.goto t p).Inv where
  owner := owner_unlock (s := s) h.owner ((h.owner t).mp (by rw [hpc, hq])) hp
  offered := offered_goto (s := s) (fun u c _ => h.offered u c) fun c hc =>
    nomatch hoffers.symm.trans hc
  nodup := h.nodup
  closed := h.closed
  ledger := ⟨hledger.free, hledger.cur, hledger.total, hledger.taking, hledger.closed,
    hledger.destroyed⟩

/-- The owner of the mutex goes from one statement to the next. -/
theorem Inv.advance (h : s.Inv) (hpc : s.pc t = q) (hq : q.holding = true)
    (hp : p.holding = true) (hoffers : p.offers = none) (hsame : s₁.pc = s.pc)
    (hmtx : s₁.mtx = s.mtx) (hheld : ∀ u c, u ≠ t → (u, c) ∈ s.held → (u, c) ∈ s₁.held)
    (hnodup : (s₁.connList ++ s₁.held.map Prod.snd).Nodup)
    (hclosed : ∀ c ∈ s₁.closed, c ∉ s₁.held.map Prod.snd) (hledger : s₁.Ledger p) :
    (s₁.goto t p).Inv where
  owner := by
    have howner : ∀ u, (s₁.pc u).holding = true ↔ s₁.mtx = some u := by
      rw [hsame, hmtx]
      exact h.owner
    exact owner_keep howner (by rw [hsame, hpc, hp, hq])
  offered := offered_goto
    (fun u c hu hc => hheld u c hu (h.offered u c (hsame ▸ hc))) fun c hc =>
      nomatch hoffers.symm.trans hc
  nodup := hnodup
  closed := hclosed
  ledger := by
    have ht : s.mtx = some t := (h.owner t).mp (by rw [hpc, hq])
    rw [ownerPc_goto_self (hmtx.trans ht)]
    exact hledger.goto t p

/-- A statement that touches only the counters. -/
theorem Inv.count (h : s.Inv) (hpc : s.pc t = q) (hq : q.holding = true) (hp : p.holding = true)
    (hoffers : p.offers = none) (curConn freeConn : Int)
    (hledger : Ledger { s with curConn := curConn, freeConn := freeConn } p) :
    Inv ({ s with curConn := curConn, freeConn := freeConn }.goto t p) :=
  h.advance hpc hq hp hoffers rfl rfl (fun _ _ _ hc => hc) h.nodup h.closed hledger

end Goto

/-! ## Every run -/

variable [DecidableEq T] [DecidableEq C] {s : PoolSystem T C} {t : T}

/-- `connList.front()` finds the first connection, which the thread has then. -/
theorem proceed_taking {con : C} {connList : List C} (hlist : s.connList = con :: connList) :
    s.proceed t .taking =
      some ({ s with connList, held := (t, con) :: s.held }.goto t (.taken con)) := by
  unfold proceed statement heldBehind
  rw [hlist]

theorem proceed_empty (hlist : s.connList = []) : s.proceed t .taking = none := by
  unfold proceed statement
  rw [hlist]

/-- The connection is at the end of the list, and the thread has it no more. -/
theorem proceed_pushing (s : PoolSystem T C) (t : T) (con : C) :
    s.proceed t (.pushing con) =
      some ({ s with
        connList := s.connList ++ [con], held := s.held.erase (t, con) }.goto t .freeing) := rfl

/-- Where the predicate holds the list is not empty: the counter is right there. -/
theorem testing_inv (h : s.Inv) {timedOut : Bool} (hpc : s.pc t = .testing timedOut) :
    ∃ s', s.proceed t (.testing timedOut) = some s' ∧ s'.Inv := by
  have hl := h.ledger_at hpc rfl
  have hclosed := hl.closed id
  by_cases hfree : 0 < s.freeConn
  · have hne : s.connList ≠ [] := by
      intro hnil
      rw [show s.freeConn = s.connList.length from hl.free, hnil] at hfree
      exact absurd hfree (lt_irrefl _)
    exact ⟨_, if_pos hfree, h.count hpc rfl rfl rfl _ _
      ⟨hl.free, hl.cur, hl.total, fun _ => hne, fun _ => hclosed, nofun⟩⟩
  · cases timedOut with
    | true =>
      exact ⟨_, (if_neg hfree).trans (if_pos rfl), h.count hpc rfl rfl rfl _ _
        ⟨hl.free, hl.cur, hl.total, nofun, fun _ => hclosed, nofun⟩⟩
    | false =>
      exact ⟨_, (if_neg hfree).trans (if_neg Bool.false_ne_true), h.release hpc rfl rfl rfl
        ⟨hl.free, hl.cur, hl.total, nofun, fun _ => hclosed, nofun⟩⟩

/-- `connList.front()` finds a connection, and it goes from the list to the thread. -/
theorem taking_inv (h : s.Inv) (hpc : s.pc t = .taking) :
    ∃ s', s.proceed t .taking = some s' ∧ s'.Inv := by
  have hl := h.ledger_at hpc rfl
  obtain ⟨con, connList, hlist⟩ := List.exists_cons_of_ne_nil (hl.taking rfl)
  have hnodup := h.nodup
  have hclosed := hl.closed id
  have hfree := hl.free
  have htotal := hl.total
  rw [hlist] at hnodup hclosed hfree htotal
  refine ⟨_, proceed_taking hlist, h.advance hpc rfl rfl rfl rfl rfl
    (fun _ _ _ hc => List.mem_cons_of_mem _ hc)
    (List.perm_middle.nodup_iff.mpr hnodup) ?_ ?_⟩
  · intro c hc
    show c ∉ con :: s.held.map Prod.snd
    rw [List.mem_cons, not_or]
    exact ⟨fun heq => hclosed c hc (heq ▸ List.mem_cons_self), h.closed c hc⟩
  · refine ⟨hfree, fun hd => ?_, fun hd => ?_, nofun,
      fun _ c hc hmem => hclosed c hc (List.mem_cons_of_mem con hmem), nofun⟩
    · have hcur := hl.cur hd
      simp only [curDue, List.length_cons] at hcur ⊢
      omega
    · have hmax := htotal hd
      simp only [List.length_cons] at hmax ⊢
      omega

/-- `push_back`: the connection goes from the thread to the list. -/
theorem pushing_inv (h : s.Inv) {con : C} (hpc : s.pc t = .pushing con) :
    ∃ s', s.proceed t (.pushing con) = some s' ∧ s'.Inv := by
  have hl := h.ledger_at hpc rfl
  have hmem : (t, con) ∈ s.held := h.offered t con (by rw [hpc]; rfl)
  have hperm := List.perm_cons_erase hmem
  have hmap : (s.held.map Prod.snd).Perm (con :: (s.held.erase (t, con)).map Prod.snd) :=
    hperm.map Prod.snd
  have hlen : s.held.length = (s.held.erase (t, con)).length + 1 := hperm.length_eq
  refine ⟨_, proceed_pushing s t con, h.advance hpc rfl rfl rfl rfl rfl ?_ ?_ ?_ ?_⟩
  · intro u c hu hc
    exact (List.mem_erase_of_ne fun heq => hu (congrArg Prod.fst heq)).mpr hc
  · show (s.connList ++ [con] ++ (s.held.erase (t, con)).map Prod.snd).Nodup
    rw [List.append_assoc]
    exact (hmap.append_left s.connList).nodup_iff.mp h.nodup
  · intro c hc hc'
    exact h.closed c hc (hmap.mem_iff.mpr (List.mem_cons_of_mem con hc'))
  · refine ⟨?_, fun hd => ?_, fun hd => ?_, nofun, fun _ c hc hc' => ?_, nofun⟩
    · have hfree := hl.free
      simp only [freeDue, List.length_append, List.length_singleton] at hfree ⊢
      omega
    · have hcur := hl.cur hd
      simp only [curDue] at hcur ⊢
      omega
    · have hmax := hl.total hd
      simp only [List.length_append, List.length_singleton]
      omega
    · rcases List.mem_append.mp hc' with hc' | hc'
      · exact hl.closed id c hc hc'
      · rw [List.mem_singleton.mp hc'] at hc
        exact h.closed con hc (List.mem_map_of_mem hmem)

/-- `DestroyPool` closes what is in the list, and nothing that a thread has. -/
theorem closing_inv (h : s.Inv) (hpc : s.pc t = .closing) :
    ∃ s', s.proceed t .closing = some s' ∧ s'.Inv := by
  have hl := h.ledger_at hpc rfl
  have hd := hl.destroyed (.inr rfl)
  by_cases hsize : 0 < s.connList.length
  · refine ⟨_, if_pos hsize, h.advance hpc rfl rfl rfl rfl rfl (fun _ _ _ hc => hc) h.nodup ?_ ?_⟩
    · intro c hc hheld
      rcases List.mem_append.mp hc with hc | hc
      · exact h.closed c hc hheld
      · exact List.disjoint_of_nodup_append h.nodup hc hheld
    · exact ⟨hl.free, fun hd' => (nomatch hd.symm.trans hd'), hl.total, nofun,
        fun hnot => absurd trivial hnot, fun _ => hd⟩
  · exact ⟨_, if_neg hsize, h.count hpc rfl rfl rfl _ _
      ⟨hl.free, hl.cur, hl.total, nofun, fun _ => hl.closed id, nofun⟩⟩

theorem clearing_inv (h : s.Inv) (hpc : s.pc t = .clearing) :
    ∃ s', s.proceed t .clearing = some s' ∧ s'.Inv := by
  have hl := h.ledger_at hpc rfl
  have hd := hl.destroyed (.inl trivial)
  have hnodup : (([] : List C) ++ s.held.map Prod.snd).Nodup := (List.nodup_append.mp h.nodup).2.1
  exact ⟨_, rfl, h.advance hpc rfl rfl rfl rfl rfl (fun _ _ _ hc => hc) hnodup h.closed
    ⟨hl.free, fun hd' => (nomatch hd.symm.trans hd'), fun hd' => (nomatch hd.symm.trans hd'), nofun,
      fun _ _ _ => List.not_mem_nil, nofun⟩⟩

theorem destroying_inv (h : s.Inv) (hfree : s.mtx = none) :
    ∃ s', s.proceed t .destroying = some s' ∧ s'.Inv := by
  have hd : Inv { s with destroyed := true } :=
    { h with ledger := { h.ledger with
        cur := nofun
        total := nofun
        destroyed := fun _ => rfl } }
  exact ⟨_, rfl, hd.acquire hfree rfl nofun fun hl =>
    ⟨hl.free, nofun, nofun, nofun, fun _ => hl.closed id, fun _ => rfl⟩⟩

/-- **The next statement of a thread** never fails, and keeps the invariant. -/
theorem proceed_inv (h : s.Inv) (hlock : (s.pc t).atLock = true → s.mtx = none) :
    ∃ s', s.proceed t (s.pc t) = some s' ∧ s'.Inv := by
  cases hpc : s.pc t with
  | outside => exact ⟨s, rfl, h⟩
  | waiting => exact ⟨s, rfl, h⟩
  | locking =>
    exact ⟨_, rfl, h.acquire (hlock (by rw [hpc]; rfl)) rfl nofun fun hl =>
      ⟨hl.free, hl.cur, hl.total, nofun, fun _ => hl.closed id, nofun⟩⟩
  | testing timedOut => exact testing_inv h hpc
  | taking => exact taking_inv h hpc
  | taken con =>
    have hl := h.ledger_at hpc rfl
    have hfree : s.freeConn - 1 = s.connList.length := by
      have hdue := hl.free
      simp only [freeDue] at hdue
      omega
    exact ⟨_, rfl, h.count hpc rfl rfl rfl _ _
      ⟨hfree, hl.cur, hl.total, nofun, fun _ => hl.closed id, nofun⟩⟩
  | counting con =>
    have hl := h.ledger_at hpc rfl
    have hcur : s.destroyed = false → s.curConn + 1 = s.held.length := by
      intro hd
      have hdue := hl.cur hd
      simp only [curDue] at hdue
      omega
    exact ⟨_, rfl, h.count hpc rfl rfl rfl _ _
      ⟨hl.free, hcur, hl.total, nofun, fun _ => hl.closed id, nofun⟩⟩
  | returning con =>
    have hl := h.ledger_at hpc rfl
    exact ⟨_, rfl, h.release hpc rfl rfl rfl
      ⟨hl.free, hl.cur, hl.total, nofun, fun _ => hl.closed id, nofun⟩⟩
  | releasing con =>
    have hoffers := h.offered t
    rw [hpc] at hoffers
    exact ⟨_, rfl, h.acquire (hlock (by rw [hpc]; rfl)) rfl hoffers fun hl =>
      ⟨hl.free, hl.cur, hl.total, nofun, fun _ => hl.closed id, nofun⟩⟩
  | pushing con => exact pushing_inv h hpc
  | freeing =>
    have hl := h.ledger_at hpc rfl
    have hfree : s.freeConn + 1 = s.connList.length := by
      have hdue := hl.free
      simp only [freeDue] at hdue
      omega
    exact ⟨_, rfl, h.count hpc rfl rfl rfl _ _
      ⟨hfree, hl.cur, hl.total, nofun, fun _ => hl.closed id, nofun⟩⟩
  | leaving =>
    have hl := h.ledger_at hpc rfl
    have hcur : s.destroyed = false → s.curConn - 1 = s.held.length := by
      intro hd
      have hdue := hl.cur hd
      simp only [curDue] at hdue
      omega
    exact ⟨_, rfl, h.count hpc rfl rfl rfl _ _
      ⟨hl.free, hcur, hl.total, nofun, fun _ => hl.closed id, nofun⟩⟩
  | destroying => exact destroying_inv h (hlock (by rw [hpc]; rfl))
  | closing => exact closing_inv h hpc
  | resettingCur =>
    have hl := h.ledger_at hpc rfl
    have hd := hl.destroyed (.inl trivial)
    exact ⟨_, rfl, h.count hpc rfl rfl rfl _ _
      ⟨hl.free, fun hd' => (nomatch hd.symm.trans hd'), hl.total, nofun,
        fun hnot => absurd trivial hnot, fun _ => hd⟩⟩
  | resettingFree =>
    have hl := h.ledger_at hpc rfl
    exact ⟨_, rfl, h.count hpc rfl rfl rfl _ _
      ⟨rfl, hl.cur, hl.total, nofun, fun hnot => absurd trivial hnot,
        fun _ => hl.destroyed (.inl trivial)⟩⟩
  | clearing => exact clearing_inv h hpc
  | unlocking =>
    have hl := h.ledger_at hpc rfl
    exact ⟨_, rfl, h.release hpc rfl rfl rfl
      ⟨hl.free, hl.cur, hl.total, nofun, fun _ => hl.closed id, nofun⟩⟩

theorem step_inv (h : s.Inv) {action : PoolAction T C} (hg : machine.guard s action) :
    ∃ s', s.step action = some s' ∧ s'.Inv := by
  cases action with
  | getConnection t =>
    have hout : s.pc t = .outside := hg
    by_cases hempty : s.connList.length = 0
    · exact ⟨s, if_pos hempty, h⟩
    · exact ⟨_, if_neg hempty, h.goto_outside (by rw [hout]; rfl) rfl nofun⟩
  | releaseConnection t con =>
    cases con with
    | none => exact ⟨s, rfl, h⟩
    | some con =>
      refine ⟨_, rfl, h.goto_outside (by rw [hg.1]; rfl) rfl fun c hc => ?_⟩
      exact hg.2 c hc
  | destroyPool t =>
    have hout : s.pc t = .outside := hg
    exact ⟨_, rfl, h.goto_outside (by rw [hout]; rfl) rfl nofun⟩
  | proceed t => exact proceed_inv h hg.2.2
  | wake t timedOut =>
    exact ⟨_, rfl, h.acquire hg.2 rfl nofun fun hl =>
      ⟨hl.free, hl.cur, hl.total, nofun, fun _ => hl.closed id, nofun⟩⟩

theorem reachable_inv (h : machine.Reachable s) : s.Inv := by
  refine h.invariant ?_ fun s action hI hg => ?_
  · rintro s ⟨conns, hnodup, rfl⟩
    exact inv_start hnodup
  · obtain ⟨s', hstep, hinv⟩ := step_inv hI hg
    show ((s.step action).getD s).Inv
    rwa [hstep]

end PoolSystem

end SimpleHttpServer
