import SimpleHttpServer.Sql.SqlConnectionPool

/-!
# The clients of the pool

`PoolClients` is the pool with what its clients know of it: `got` lists the connections that
`GetConnection` has returned to them and that they have not called `ReleaseConnection` for. A client
releases only what it has got, once. The pool's own record of who has what, `held`, is compared with
that list.

* `Kept` says that what is held was got, or is carried by a call in the middle of it;
  `kept_next`: every step keeps this.
* **`pool_sound`**: in every interleaving no connection is lost, shared or handed out after it was
  closed, and the counters are right whenever the mutex is free.
-/

namespace SimpleHttpServer

open Lib

/-- The pool, and what its clients have got from it and not released. -/
structure PoolClients (T C : Type*) extends PoolSystem T C where
  got : List (T × C)

namespace PoolClients

variable {T C : Type*} [DecidableEq T] [DecidableEq C] {s : PoolClients T C} {t : T}

/-- What they have behind a step: a connection is got when `GetConnection` returns it, and released
by the call of `ReleaseConnection`. -/
def gotBehind (s : PoolClients T C) : PoolAction T C → List (T × C)
  | .proceed t =>
    match s.pc t with
    | .returning (some con) => (t, con) :: s.got
    | _ => s.got
  | .releaseConnection t (some con) => s.got.erase (t, con)
  | _ => s.got

/-- A client releases what it has got. -/
def machine : Machine (PoolClients T C) (PoolAction T C) where
  init s := PoolSystem.machine.init s.toPoolSystem ∧ s.got = []
  guard s
    | .releaseConnection t con => s.pc t = .outside ∧ ∀ c, con = some c → (t, c) ∈ s.got
    | action => PoolSystem.machine.guard s.toPoolSystem action
  next s action := ⟨PoolSystem.machine.next s.toPoolSystem action, s.gotBehind action⟩

/-- What is held was got, or is on its way in or out. -/
def Kept (s : PoolClients T C) : Prop :=
  ∀ t con, s.held.count (t, con) =
    s.got.count (t, con) + if (s.pc t).carries = some con then 1 else 0

theorem Kept.mem_iff (h : s.Kept) (con : C) :
    (t, con) ∈ s.held ↔ (t, con) ∈ s.got ∨ (s.pc t).carries = some con := by
  rw [← List.count_pos_iff, ← List.count_pos_iff, h t con]
  split
  · rename_i hc
    simp [hc]
  · rename_i hc
    simp [hc]

/-- A thread goes on, and what the others hold and have got stays as it is. -/
theorem Kept.move (h : s.Kept) (pool : PoolSystem T C) {got : List (T × C)} {pc : PoolPc C}
    (hpc : pool.pc = s.pc)
    (hheld : ∀ u con, u ≠ t → pool.held.count (u, con) = s.held.count (u, con))
    (hgot : ∀ u con, u ≠ t → got.count (u, con) = s.got.count (u, con))
    (hself : ∀ con, pool.held.count (t, con) =
      got.count (t, con) + if pc.carries = some con then 1 else 0) :
    Kept ⟨pool.goto t pc, got⟩ := by
  intro u con
  show pool.held.count (u, con) = got.count (u, con) +
    if ((pool.goto t pc).pc u).carries = some con then 1 else 0
  rw [PoolSystem.pc_goto, hpc]
  by_cases hu : u = t
  · rw [if_pos hu, hu]
    exact hself con
  · rw [if_neg hu, hheld u con hu, hgot u con hu]
    exact h u con

/-- A thread goes on with what it carries. -/
theorem Kept.carry (h : s.Kept) {pool : PoolSystem T C} {pc : PoolPc C} (hpc : pool.pc = s.pc)
    (hheld : pool.held = s.held) (hsame : pc.carries = (s.pc t).carries) :
    Kept ⟨pool.goto t pc, s.got⟩ :=
  h.move pool hpc (fun _ _ _ => by rw [hheld]) (fun _ _ _ => rfl) fun con => by
    rw [hheld, hsame]
    exact h t con

theorem kept_proceed (hinv : s.toPoolSystem.Inv) (h : s.Kept) :
    (machine.next s (.proceed t)).Kept := by
  show Kept ⟨(s.proceed t (s.pc t)).getD s.toPoolSystem, s.gotBehind (.proceed t)⟩
  unfold gotBehind
  simp only
  have hcarry : ∀ {q : PoolPc C} (pool : PoolSystem T C) (pc : PoolPc C), s.pc t = q →
      pool.pc = s.pc → pool.held = s.held → pc.carries = q.carries →
      Kept ⟨pool.goto t pc, s.got⟩ := by
    rintro q pool pc rfl hpc hheld hsame
    exact h.carry hpc hheld hsame
  have hother : ∀ (u : T) (con c : C), u ≠ t → ((t, c) == (u, con)) = false := by
    intro u con c hu
    simp [hu.symm]
  cases hpc : s.pc t with
  | outside | waiting => exact h
  | locking => exact hcarry (s.lock t) (.testing false) hpc rfl rfl rfl
  | testing timedOut =>
    show Kept ⟨(if 0 < s.freeConn then _ else if timedOut = true then _ else _ :
      Option (PoolSystem T C)).getD _, s.got⟩
    split
    · exact hcarry s.toPoolSystem .taking hpc rfl rfl rfl
    · split
      · exact hcarry s.toPoolSystem (.returning none) hpc rfl rfl rfl
      · exact hcarry s.unlock .waiting hpc rfl rfl rfl
  | taking =>
    obtain ⟨con, connList, hlist⟩ :=
      List.exists_cons_of_ne_nil ((hinv.ledger_at hpc rfl).taking rfl)
    rw [PoolSystem.proceed_taking hlist]
    refine h.move _ rfl (fun u c hu => ?_) (fun _ _ _ => rfl) fun c => ?_
    · show ((t, con) :: s.held).count (u, c) = _
      rw [List.count_cons, hother u c con hu]
      rfl
    · show ((t, con) :: s.held).count (t, c) = _ + if some con = some c then 1 else 0
      have hbefore := h t c
      rw [hpc] at hbefore
      rw [List.count_cons, hbefore]
      simp [PoolPc.carries]
  | taken con =>
    exact hcarry { s.toPoolSystem with freeConn := s.freeConn - 1 } (.counting con) hpc rfl rfl rfl
  | counting con =>
    exact hcarry { s.toPoolSystem with curConn := s.curConn + 1 } (.returning (some con)) hpc rfl
      rfl rfl
  | returning con =>
    cases con with
    | none => exact hcarry s.unlock .outside hpc rfl rfl rfl
    | some con =>
      refine h.move s.unlock rfl (fun _ _ _ => rfl) (fun u c hu => ?_) fun c => ?_
      · rw [List.count_cons, hother u c con hu]
        rfl
      · have hbefore := h t c
        rw [hpc] at hbefore
        show s.held.count (t, c) = ((t, con) :: s.got).count (t, c) + 0
        rw [List.count_cons, hbefore]
        simp [PoolPc.carries]
  | releasing con => exact hcarry (s.lock t) (.pushing con) hpc rfl rfl rfl
  | pushing con =>
    rw [PoolSystem.proceed_pushing]
    refine h.move _ rfl (fun u c hu => ?_) (fun _ _ _ => rfl) fun c => ?_
    · show (s.held.erase (t, con)).count (u, c) = _
      rw [List.count_erase, hother u c con hu]
      rfl
    · have hbefore := h t c
      rw [hpc] at hbefore
      show (s.held.erase (t, con)).count (t, c) = s.got.count (t, c) + 0
      rw [List.count_erase, hbefore]
      simp [PoolPc.carries]
  | freeing =>
    exact hcarry { s.toPoolSystem with freeConn := s.freeConn + 1 } .leaving hpc rfl rfl rfl
  | leaving =>
    exact hcarry { s.toPoolSystem with curConn := s.curConn - 1 } .unlocking hpc rfl rfl rfl
  | destroying =>
    exact hcarry { s.toPoolSystem with destroyed := true, mtx := some t } .closing hpc rfl rfl rfl
  | closing =>
    show Kept ⟨(if 0 < s.connList.length then _ else _ : Option (PoolSystem T C)).getD _, s.got⟩
    split
    · exact hcarry { s.toPoolSystem with closed := s.closed ++ s.connList } .resettingCur hpc rfl
        rfl rfl
    · exact hcarry s.toPoolSystem .unlocking hpc rfl rfl rfl
  | resettingCur => exact hcarry { s.toPoolSystem with curConn := 0 } .resettingFree hpc rfl rfl rfl
  | resettingFree => exact hcarry { s.toPoolSystem with freeConn := 0 } .clearing hpc rfl rfl rfl
  | clearing => exact hcarry { s.toPoolSystem with connList := [] } .unlocking hpc rfl rfl rfl
  | unlocking => exact hcarry s.unlock .outside hpc rfl rfl rfl

/-- **One step** keeps it. -/
theorem kept_next (hinv : s.toPoolSystem.Inv) (h : s.Kept) {action : PoolAction T C}
    (hg : machine.guard s action) : (machine.next s action).Kept := by
  have hcarry : ∀ (t : T) (pool : PoolSystem T C) (pc : PoolPc C), pool.pc = s.pc →
      pool.held = s.held → pc.carries = none → (s.pc t).carries = none →
      Kept ⟨pool.goto t pc, s.got⟩ := fun t pool pc hpc hheld hnone hbefore =>
    h.carry hpc hheld (hnone.trans hbefore.symm)
  cases action with
  | getConnection t =>
    have hout : s.pc t = .outside := hg
    show Kept ⟨(if s.connList.length = 0 then _ else _ : Option (PoolSystem T C)).getD _, s.got⟩
    split
    · exact h
    · exact hcarry t s.toPoolSystem .locking rfl rfl rfl (by rw [hout]; rfl)
  | releaseConnection t con =>
    obtain ⟨hout, hgot⟩ := hg
    cases con with
    | none => exact h
    | some con =>
      refine h.move s.toPoolSystem rfl (fun _ _ _ => rfl) (fun u c hu => ?_) fun c => ?_
      · show (s.got.erase (t, con)).count (u, c) = _
        rw [List.count_erase]
        simp [hu.symm]
      · have hbefore := h t c
        have hmem : 0 < s.got.count (t, con) := List.count_pos_iff.mpr (hgot con rfl)
        rw [hout] at hbefore
        show s.held.count (t, c) =
          (s.got.erase (t, con)).count (t, c) + if some con = some c then 1 else 0
        rw [List.count_erase, hbefore]
        by_cases hc : con = c
        · subst hc
          simp [PoolPc.carries]
          omega
        · simp [PoolPc.carries, hc]
  | destroyPool t =>
    have hout : s.pc t = .outside := hg
    exact hcarry t s.toPoolSystem .destroying rfl rfl rfl (by rw [hout]; rfl)
  | proceed t => exact kept_proceed hinv h
  | wake t timedOut =>
    have hwaiting : s.pc t = .waiting := hg.1
    exact hcarry t (s.lock t) (.testing timedOut) rfl rfl rfl (by rw [hwaiting]; rfl)

/-- What was got is held, so a release by a client is one that the pool is made for. -/
theorem guard_pool (h : s.Kept) {action : PoolAction T C} (hg : machine.guard s action) :
    PoolSystem.machine.guard s.toPoolSystem action := by
  cases action with
  | releaseConnection t con =>
    exact ⟨hg.1, fun c hc => (h.mem_iff c).mpr (.inl (hg.2 c hc))⟩
  | _ => exact hg

theorem reachable_kept (h : machine.Reachable s) :
    PoolSystem.machine.Reachable s.toPoolSystem ∧ s.Kept := by
  refine h.invariant (I := fun s => PoolSystem.machine.Reachable s.toPoolSystem ∧ s.Kept)
    (fun s hi => ?_) fun s action hI hg => ?_
  · refine ⟨.init hi.1, fun t con => ?_⟩
    obtain ⟨⟨conns, -, hstart⟩, hgot⟩ := hi
    rw [hgot, hstart]
    rfl
  · obtain ⟨hreach, hkept⟩ := hI
    exact ⟨.step hreach (guard_pool hkept hg) trivial,
      kept_next (PoolSystem.reachable_inv hreach) hkept hg⟩

/-- **The pool never shares or loses a connection.** In every interleaving of any number of clients,
each of which releases only what it got, and of `DestroyPool`: `m_FreeConn` is the length of the
list whenever the mutex is free; no connection is twice in the list and the hands together; a thread
holds what it has got and not released, and what a call of its own is about to return or to give
back, and nothing else; no statement takes a connection from an empty list; a connection that was
closed is in nobody's hands; and before `DestroyPool` has run, `m_CurConn` counts the connections
that are held whenever the mutex is free, and the two counters make `m_MaxConn`. -/
theorem pool_sound (h : machine.Reachable s) :
    (s.mtx = none → s.freeConn = s.connList.length) ∧
    (s.connList ++ s.held.map Prod.snd).Nodup ∧
    (∀ t con, (t, con) ∈ s.held ↔ (t, con) ∈ s.got ∨ (s.pc t).carries = some con) ∧
    (∀ action, machine.guard s action → (s.step action).isSome) ∧
    (∀ con ∈ s.closed, con ∉ s.held.map Prod.snd) ∧
    (s.mtx = none → s.destroyed = false →
      s.curConn = s.held.length ∧ s.curConn + s.freeConn = s.maxConn) := by
  obtain ⟨hreach, hkept⟩ := reachable_kept h
  have hinv := PoolSystem.reachable_inv hreach
  have hfree : s.mtx = none → s.toPoolSystem.Ledger .outside := by
    intro hmtx
    have hl := hinv.ledger
    unfold PoolSystem.ownerPc at hl
    rwa [hmtx] at hl
  refine ⟨fun hmtx => (hfree hmtx).free, hinv.nodup, fun t con => hkept.mem_iff con, ?_,
    hinv.closed, fun hmtx hd => ?_⟩
  · intro action hg
    obtain ⟨s', hstep, -⟩ := PoolSystem.step_inv hinv (guard_pool hkept hg)
    rw [hstep]
    rfl
  · have hcur : s.curConn = s.held.length := (hfree hmtx).cur hd
    have hdue : s.freeConn = s.connList.length := (hfree hmtx).free
    have htotal := (hfree hmtx).total hd
    exact ⟨hcur, by omega⟩

/-- Two clients and one connection: both find the list not empty, one gets the connection, and the
other sleeps until its time is over. -/
def twoClients : List (PoolAction Bool Nat) :=
  [.getConnection true, .getConnection false, .proceed true, .proceed true, .proceed true,
    .proceed true, .proceed true, .proceed true, .proceed false, .proceed false,
    .wake false true, .proceed false, .proceed false]

/-- The first one releases it. -/
def givenBack : List (PoolAction Bool Nat) :=
  [.releaseConnection true (some 5), .proceed true, .proceed true, .proceed true, .proceed true,
    .proceed true]

theorem pool_sound_example :
    let s := machine.after (⟨.start [5], []⟩ : PoolClients Bool Nat) twoClients
    let s' := machine.after s givenBack
    machine.Legal ⟨.start [5], []⟩ (twoClients ++ givenBack) ∧
      (s.got = [(true, 5)] ∧ s.held = [(true, 5)] ∧ s.curConn = 1 ∧ s.freeConn = 0) ∧
      s'.got = [] ∧ (true, 5) ∉ s'.held ∧ s'.curConn = 0 ∧ s'.connList = [5] := by
  intro s s'
  have hlegal : machine.Legal (⟨.start [5], []⟩ : PoolClients Bool Nat) twoClients :=
    ⟨rfl, rfl, ⟨nofun, nofun, fun _ => rfl⟩, ⟨nofun, nofun, nofun⟩, ⟨nofun, nofun, nofun⟩,
      ⟨nofun, nofun, nofun⟩, ⟨nofun, nofun, nofun⟩, ⟨nofun, nofun, nofun⟩,
      ⟨nofun, nofun, fun _ => rfl⟩, ⟨nofun, nofun, nofun⟩, ⟨rfl, rfl⟩, ⟨nofun, nofun, nofun⟩,
      ⟨nofun, nofun, nofun⟩, trivial⟩
  have hlegal' : machine.Legal s givenBack :=
    ⟨⟨rfl, fun _ hc => Option.some.inj hc ▸ List.mem_cons_self⟩, ⟨nofun, nofun, fun _ => rfl⟩,
      ⟨nofun, nofun, nofun⟩, ⟨nofun, nofun, nofun⟩, ⟨nofun, nofun, nofun⟩, ⟨nofun, nofun, nofun⟩,
      trivial⟩
  have hinit : machine.init (⟨.start [5], []⟩ : PoolClients Bool Nat) :=
    ⟨⟨[5], List.nodup_singleton 5, rfl⟩, rfl⟩
  have hreach := Machine.Reachable.run (.init hinit) hlegal
  obtain ⟨hfree, -, -, -, -, hcur⟩ := pool_sound hreach
  obtain ⟨-, -, hholds, -, -, hcur'⟩ := pool_sound (Machine.Reachable.run hreach hlegal')
  have hheld : s.held = [(true, 5)] := rfl
  have hcount : s.curConn = s.held.length := (hcur rfl rfl).1
  refine ⟨Machine.legal_append.mpr ⟨hlegal, hlegal'⟩, ⟨rfl, hheld, ?_, hfree rfl⟩, rfl,
    fun hmem => ?_, (hcur' rfl rfl).1, rfl⟩
  · rw [hcount, hheld]
    rfl
  · rcases (hholds true 5).mp hmem with hgot | hcarries
    · exact absurd hgot List.not_mem_nil
    · cases hcarries

end PoolClients

end SimpleHttpServer
