import SimpleHttpServer.Net.TcpServer

/-!
# `EventLoopThreadPool::start`

Model of `net/EventLoopThreadPool.cpp`, with `startLoop` and `threadFunc`
(`net/EventLoopThread.cpp`) and `Thread::start` (`net/Thread.cpp`). The owner of the pool creates
its threads one by one: `Thread::start` waits on a semaphore for the new thread, and
`EventLoopThread::startLoop` waits on a condition variable for its loop. The new thread runs
`threadFunc`: it constructs a loop, calls `cb` with it, publishes it under the mutex and notifies,
and goes into `loop()`; when that returns, the pointer to the loop is cleared.

A step is one statement of the owner or of a thread. A waiting owner may wake up for no reason, and
any loop may return, also before the owner has seen its pointer.

* `Inv` is the invariant, with what a thread looks like from each place of the owner;
* **`loops_handed_out`**: the loops come into `loops_` in order, none of them null, each behind one
  call of `cb`;
* **`start_ends`**: but for the wake-ups for no reason the steps are bounded, and the owner is stuck
  only where it waits for a loop that has returned;
* **`start_completes_iff`**: `start` can still return exactly as long as the loop that the owner
  waits for has not been taken back.
-/

namespace SimpleHttpServer

open Lib

/-- A pointer to an `EventLoop`. -/
inductive LoopPtr where
  | baseLoop
  /-- The loop on the stack of the thread's `threadFunc`. -/
  | ofThread (i : Nat)
  deriving DecidableEq, Repr

/-- The loop that `TcpServer` means. -/
def LoopPtr.ofLoopId {n : Nat} : LoopId n → LoopPtr
  | none => .baseLoop
  | some k => .ofThread k

/-- Who has a `mutex_`. -/
inductive MutexHolder where
  | nobody
  | owner
  | thread
  deriving DecidableEq, Repr

/-- Where a thread is in the function that `Thread::start` gives to `std::thread`. -/
inductive FuncPc where
  /-- There is no thread yet. -/
  | absent
  /-- `sem_post(&sem)` is next. -/
  | posting
  /-- `EventLoop loop` is next. -/
  | constructing
  /-- `callback_(&loop)` is next. -/
  | callingBack
  /-- Wants `mutex_`. -/
  | locking
  /-- `loop_ = &loop` is next. -/
  | publishing
  /-- `cond_.notify_one()` is next. -/
  | notifying
  /-- The block ends. -/
  | unlocking
  /-- In `loop()`. -/
  | looping
  /-- `loop()` has returned; wants `mutex_`. -/
  | relocking
  /-- `loop_ = nullptr` is next, and the function ends. -/
  | clearing
  | finished
  deriving DecidableEq, Repr

/-- An `EventLoopThread`, with its thread. -/
structure PoolThread where
  pc : FuncPc := .absent
  /-- The `sem` of `Thread::start`. -/
  sem : Nat := 0
  mutex : MutexHolder := .nobody
  loop : Option LoopPtr := none
  /-- The owner waits on `cond_`, and was picked. -/
  notified : Bool := false
  deriving DecidableEq, Repr

/-- Where the owner is in `EventLoopThreadPool::start`. -/
inductive StartPc where
  /-- `i < numThreads_` is next. -/
  | testing
  /-- In `Thread::start`, at `sem_wait(&sem)`. -/
  | semWaiting
  /-- In `startLoop`, and wants `mutex_`. -/
  | locking
  /-- `loop_ == nullptr` is next. -/
  | checking
  /-- In `cond_.wait(lock)`. -/
  | waiting
  /-- In `cond_.wait(lock)`, and wants `mutex_` back. -/
  | relocking
  /-- `loop = loop_` is next, the end of the block, and `loops_.push_back`. -/
  | reading
  /-- Behind the loop of `start`. -/
  | callingBack
  | done
  deriving DecidableEq, Repr

/-- `class EventLoopThreadPool` in `start`, with its threads. -/
structure EventLoopThreadPool where
  numThreads : Int
  /-- `cb` is not empty. -/
  hasCb : Bool
  pc : StartPc
  i : Nat
  threads : Nat → PoolThread
  loops : List (Option LoopPtr)
  /-- The loops that `cb` was called with. -/
  calls : List LoopPtr

/-- The steps of the owner and of the threads. -/
inductive StartAction where
  | owner
  | thread (j : Nat)
  /-- `cond_.wait` returns for no reason. -/
  | wakeUp
  /-- `loop()` returns in a thread. -/
  | loopReturns (j : Nat)
  deriving DecidableEq, Repr

/-- The thread's next statement can be made. -/
def PoolThread.Ready (t : PoolThread) : Prop :=
  match t.pc with
  | .absent | .looping | .finished => False
  | .locking | .relocking => t.mutex = .nobody
  | _ => True

instance PoolThread.decidableReady : ∀ t : PoolThread, Decidable t.Ready
  | ⟨.absent, _, _, _, _⟩ | ⟨.looping, _, _, _, _⟩ | ⟨.finished, _, _, _, _⟩ =>
    inferInstanceAs (Decidable False)
  | ⟨.locking, _, mutex, _, _⟩ | ⟨.relocking, _, mutex, _, _⟩ =>
    inferInstanceAs (Decidable (mutex = .nobody))
  | ⟨.posting, _, _, _, _⟩ | ⟨.constructing, _, _, _, _⟩ | ⟨.callingBack, _, _, _, _⟩
  | ⟨.publishing, _, _, _, _⟩ | ⟨.notifying, _, _, _, _⟩ | ⟨.unlocking, _, _, _, _⟩
  | ⟨.clearing, _, _, _, _⟩ => inferInstanceAs (Decidable True)

/-- The thread's next statement; `waits`: the owner waits on its `cond_`. -/
def PoolThread.step (t : PoolThread) (j : Nat) (waits : Bool) : PoolThread :=
  match t.pc with
  | .posting => { t with sem := t.sem + 1, pc := .constructing }
  | .constructing => { t with pc := .callingBack }
  | .callingBack => { t with pc := .locking }
  | .locking => { t with mutex := .thread, pc := .publishing }
  | .publishing => { t with loop := some (.ofThread j), pc := .notifying }
  | .notifying => { t with notified := t.notified || waits, pc := .unlocking }
  | .unlocking => { t with mutex := .nobody, pc := .looping }
  | .relocking => { t with mutex := .thread, pc := .clearing }
  | .clearing => { t with loop := none, mutex := .nobody, pc := .finished }
  | .absent | .looping | .finished => t

namespace EventLoopThreadPool

/-- The constructor, and `setThreadNum`. -/
def new (numThreads : Int) (hasCb : Bool) : EventLoopThreadPool where
  numThreads
  hasCb
  pc := .testing
  i := 0
  threads _ := {}
  loops := []
  calls := []

variable (s : EventLoopThreadPool)

/-- Thread `j` is now as `t`. -/
def setThread (j : Nat) (t : PoolThread) : EventLoopThreadPool :=
  { s with threads := Function.update s.threads j t }

/-- The owner is now at `p`. -/
def goto (p : StartPc) : EventLoopThreadPool := { s with pc := p }

/-- The owner waits on the `cond_` of this thread. -/
def waits (j : Nat) : Bool := s.pc == .waiting && s.i == j

/-- The calls of `cb` in the thread's next statement. -/
def threadCalls (j : Nat) : List LoopPtr :=
  if (s.threads j).pc = .callingBack ∧ s.hasCb = true then [.ofThread j] else []

/-- The owner can make its next statement. -/
def OwnerReady : Prop :=
  match s.pc with
  | .semWaiting => 0 < (s.threads s.i).sem
  | .locking | .relocking => (s.threads s.i).mutex = .nobody
  | .waiting => (s.threads s.i).notified = true
  | .done => False
  | _ => True

instance decidableOwnerReady : ∀ s : EventLoopThreadPool, Decidable s.OwnerReady
  | ⟨_, _, .semWaiting, i, threads, _, _⟩ => inferInstanceAs (Decidable (0 < (threads i).sem))
  | ⟨_, _, .locking, i, threads, _, _⟩ | ⟨_, _, .relocking, i, threads, _, _⟩ =>
    inferInstanceAs (Decidable ((threads i).mutex = .nobody))
  | ⟨_, _, .waiting, i, threads, _, _⟩ =>
    inferInstanceAs (Decidable ((threads i).notified = true))
  | ⟨_, _, .done, _, _, _, _⟩ => inferInstanceAs (Decidable False)
  | ⟨_, _, .testing, _, _, _, _⟩ | ⟨_, _, .checking, _, _, _, _⟩ | ⟨_, _, .reading, _, _, _, _⟩
  | ⟨_, _, .callingBack, _, _, _, _⟩ => inferInstanceAs (Decidable True)

/-- The owner's next statement. -/
def ownerStep : EventLoopThreadPool :=
  let t := s.threads s.i
  match s.pc with
  | .testing =>
    if s.i < s.numThreads then (s.setThread s.i { t with pc := .posting }).goto .semWaiting
    else s.goto .callingBack
  | .semWaiting => (s.setThread s.i { t with sem := t.sem - 1 }).goto .locking
  | .locking | .relocking => (s.setThread s.i { t with mutex := .owner }).goto .checking
  | .checking =>
    if t.loop = none then
      (s.setThread s.i { t with mutex := .nobody, notified := false }).goto .waiting
    else s.goto .reading
  | .waiting => s.goto .relocking
  | .reading =>
    { (s.setThread s.i { t with mutex := .nobody }).goto .testing with
      loops := s.loops ++ [t.loop]
      i := s.i + 1 }
  | .callingBack =>
    { s.goto .done with
      calls := s.calls ++ if s.numThreads = 0 ∧ s.hasCb = true then [.baseLoop] else [] }
  | .done => s

/-- `start` and its threads, in any interleaving. -/
def machine : Machine EventLoopThreadPool StartAction where
  init s := ∃ numThreads hasCb, s = new numThreads hasCb
  guard s
    | .owner => s.OwnerReady
    | .thread j => (s.threads j).Ready
    | .wakeUp => s.pc = .waiting
    | .loopReturns j => (s.threads j).pc = .looping
  next s
    | .owner => s.ownerStep
    | .thread j =>
      { s.setThread j ((s.threads j).step j (s.waits j)) with
        calls := s.calls ++ s.threadCalls j }
    | .wakeUp => s.goto .relocking
    | .loopReturns j => s.setThread j { s.threads j with pc := .relocking }

instance decidableGuard : ∀ s a, Decidable (machine.guard s a)
  | s, .owner => s.decidableOwnerReady
  | s, .thread j => (s.threads j).decidableReady
  | s, .wakeUp => inferInstanceAs (Decidable (s.pc = .waiting))
  | s, .loopReturns j => inferInstanceAs (Decidable ((s.threads j).pc = .looping))

end EventLoopThreadPool

/-! ## What the owner finds -/

namespace FuncPc

/-- With `mutex_`. -/
def holding : FuncPc → Bool
  | .publishing | .notifying | .unlocking | .clearing => true
  | _ => false

/-- `loop_` points to the loop. -/
def published : FuncPc → Bool
  | .notifying | .unlocking | .looping | .relocking | .clearing => true
  | _ => false

/-- Behind `callback_(&loop)`. -/
def calledBack : FuncPc → Bool
  | .absent | .posting | .constructing | .callingBack => false
  | _ => true

/-- The loop has been called, or has returned. -/
def past : FuncPc → Bool
  | .looping | .relocking | .clearing | .finished => true
  | _ => false

/-- Behind the notification, and `loop_` is still there. -/
def announced : FuncPc → Bool
  | .unlocking | .looping | .relocking | .clearing => true
  | _ => false

/-- A new thread on its way into `loop()`. -/
def early : FuncPc → Bool
  | .posting | .constructing | .callingBack | .locking | .publishing | .notifying | .unlocking =>
    true
  | _ => false

/-- The pointer is taken back. -/
def gone : FuncPc → Bool
  | .clearing | .finished => true
  | _ => false

/-- The statements ahead; the notification pays for the waking of the owner as well. -/
def ahead : FuncPc → Nat
  | .absent => 14
  | .posting => 13
  | .constructing => 12
  | .callingBack => 11
  | .locking => 10
  | .publishing => 9
  | .notifying => 8
  | .unlocking => 4
  | .looping => 3
  | .relocking => 2
  | .clearing => 1
  | .finished => 0

theorem early_of_unannounced {pc : FuncPc} (h : pc.announced = false) (habsent : pc ≠ .absent)
    (hgone : pc.gone = false) : pc.early = true := by
  cases pc <;> first
    | rfl
    | (cases h; done)
    | (cases hgone; done)
    | exact absurd rfl habsent

theorem announced_of_unpublished {pc : FuncPc} (h : pc.published = false) :
    pc.announced = false := by
  cases pc <;> first | rfl | cases h

/-- The pointer is taken back, and nobody is notified any more. -/
theorem finished_of_gone {pc : FuncPc} (h : pc.gone = true) (hnot : pc.announced = false) :
    pc = .finished := by
  cases pc <;> first | rfl | (cases h; done) | cases hnot

/-- Whose loop is published, and whose mutex is not taken. -/
theorem looping_of_published {pc : FuncPc} (h : pc.published = true) (hfree : pc.holding = false) :
    pc = .looping ∨ pc = .relocking := by
  cases pc <;> cases h <;> cases hfree <;> first | exact .inl rfl | exact .inr rfl

end FuncPc

namespace StartPc

/-- Between the creation of a thread and the end of its `startLoop`. -/
def inStart : StartPc → Bool
  | .testing | .callingBack | .done => false
  | _ => true

/-- With the `mutex_` of the thread. -/
def holding : StartPc → Bool
  | .checking | .reading => true
  | _ => false

/-- What the owner has ahead with a thread. It wakes up once for each notification. -/
def ahead : StartPc → Bool → Nat
  | .testing, _ | .semWaiting, _ | .waiting, true => 10
  | .locking, _ | .relocking, _ | .callingBack, _ => 9
  | .checking, _ => 8
  | .waiting, false | .reading, _ => 7
  | .done, _ => 0

theorem ahead_le (p : StartPc) (notified notified' : Bool) :
    p.ahead notified ≤ p.ahead notified' + 3 := by
  cases p <;> cases notified <;> cases notified' <;> decide

end StartPc

namespace PoolThread

/-- What a thread has done, by where it is. -/
structure Ok (t : PoolThread) (j : Nat) : Prop where
  loop : t.loop = if t.pc.published then some (.ofThread j) else none
  mutex : t.mutex = .thread ↔ t.pc.holding = true

/-- What the thread that is being started looks like from each place of the owner. -/
structure Meets (t : PoolThread) (p : StartPc) : Prop where
  present : t.pc ≠ .absent
  sem : p = .semWaiting → t.sem = if t.pc = .posting then 0 else 1
  posted : p ≠ .semWaiting → t.pc ≠ .posting
  owner : t.mutex = .owner ↔ p.holding = true
  /-- Nobody sleeps who is not to be notified, but behind a loop that has returned. -/
  asleep : p = .waiting → t.notified = false → t.pc.announced = false
  reading : p = .reading → t.pc = .looping ∨ t.pc = .relocking

variable {t : PoolThread} {j : Nat} {p : StartPc}

theorem ok_new (j : Nat) : ({} : PoolThread).Ok j := ⟨rfl, by decide⟩

theorem Ok.loop_eq_none (h : t.Ok j) : t.loop = none ↔ t.pc.published = false := by
  rw [h.loop]
  cases t.pc.published <;> simp

/-- Nobody else has a mutex that the thread has. -/
theorem Ok.free (h : t.Ok j) (hm : t.mutex ≠ .thread) : t.pc.holding = false :=
  Bool.eq_false_iff.mpr fun hholds => hm (h.mutex.mpr hholds)

theorem Ok.step (h : t.Ok j) (hr : t.Ready) (w : Bool) : (t.step j w).Ok j := by
  obtain ⟨pc, sem, mutex, loop, notified⟩ := t
  obtain ⟨hloop, hmutex⟩ := h
  cases pc <;> simp_all [PoolThread.step, Ready, FuncPc.published, FuncPc.holding] <;>
    constructor <;> simp_all [FuncPc.published, FuncPc.holding]

theorem Meets.step (h : t.Meets p) (hok : t.Ok j) (hr : t.Ready) :
    (t.step j (p == .waiting)).Meets p := by
  obtain ⟨pc, sem, mutex, loop, notified⟩ := t
  obtain ⟨hpresent, hsem, hposted, howner, hasleep, hreading⟩ := h
  obtain ⟨hloop, hmutex⟩ := hok
  have hread : p.holding = false → p ≠ .reading := by
    rintro h rfl
    cases h
  cases pc <;> constructor <;>
    simp_all [PoolThread.step, Ready, FuncPc.published, FuncPc.holding, FuncPc.announced]

/-- A thread does not take the mutex for the owner. -/
theorem owner_step (h : t.mutex ≠ .owner) (w : Bool) : (t.step j w).mutex ≠ .owner := by
  unfold step
  split <;> first | exact h | nofun

/-- A thread whose loop has been called clears its pointer at most. -/
theorem past_step (h : t.pc.past = true) (w : Bool) : (t.step j w).pc.past = true := by
  obtain ⟨pc, sem, mutex, loop, notified⟩ := t
  cases pc <;> first | rfl | cases h

theorem calledBack_step (h : t.pc ≠ .callingBack) (w : Bool) :
    (t.step j w).pc.calledBack = t.pc.calledBack := by
  obtain ⟨pc, sem, mutex, loop, notified⟩ := t
  cases pc <;> first | rfl | exact absurd rfl h

/-- A statement is one less ahead, and pays for a notification. -/
theorem ahead_step (hr : t.Ready) (w : Bool) : (t.step j w).pc.ahead + 1 ≤ t.pc.ahead ∧
    ((t.step j w).notified = t.notified ∨ (t.step j w).pc.ahead + 4 ≤ t.pc.ahead) := by
  obtain ⟨pc, sem, mutex, loop, notified⟩ := t
  cases pc <;> first
    | exact hr.elim
    | exact ⟨Nat.le_refl _, .inl rfl⟩
    | exact ⟨Nat.le_add_right 5 3, .inr (Nat.le_refl 8)⟩

/-- A thread on its way into `loop()` goes on there, if nobody else has the mutex. -/
theorem ready_of_early (h : t.pc.early = true) (hfree : t.pc = .locking → t.mutex = .nobody)
    (w : Bool) : t.Ready ∧ (t.step j w).pc.gone = false := by
  obtain ⟨pc, sem, mutex, loop, notified⟩ := t
  cases pc <;> first
    | exact ⟨trivial, rfl⟩
    | exact ⟨hfree rfl, rfl⟩
    | cases h

/-- A new thread that has not posted, or one with the mutex, goes on, and takes no pointer back that
it has not begun to. -/
theorem goes_on (h : t.pc.holding = true ∨ t.pc = .posting) (w : Bool) :
    t.Ready ∧ (t.pc.gone = false → (t.step j w).pc.gone = false) := by
  obtain ⟨pc, sem, mutex, loop, notified⟩ := t
  cases pc <;> first
    | exact ⟨trivial, fun _ => rfl⟩
    | exact ⟨trivial, fun hgone => nomatch hgone⟩
    | rcases h with h | h <;> cases h

theorem gone_step (h : t.pc.gone = true) (w : Bool) : (t.step j w).pc.gone = true := by
  obtain ⟨pc, sem, mutex, loop, notified⟩ := t
  cases pc <;> first | rfl | cases h

end PoolThread

/-! ## The invariant -/

namespace EventLoopThreadPool

variable {s : EventLoopThreadPool}

/-- `n` threads are to be created. -/
abbrev size (s : EventLoopThreadPool) : Nat := s.numThreads.toNat

/-- The calls of `cb` when `k` threads are behind theirs. -/
def called (hasCb : Bool) (k : Nat) : List LoopPtr :=
  if hasCb then (List.range k).map .ofThread else []

/-- The call of `cb` without threads. -/
def baseCall (s : EventLoopThreadPool) : List LoopPtr :=
  if s.numThreads = 0 ∧ s.hasCb = true then [.baseLoop] else []

/-- How many threads are behind their call of `cb`. -/
def initialised (s : EventLoopThreadPool) : Nat :=
  if s.pc.inStart && (s.threads s.i).pc.calledBack then s.i + 1 else s.i

/-- The invariant of `start`. -/
structure Inv (s : EventLoopThreadPool) : Prop where
  ok : ∀ j, (s.threads j).Ok j
  past : ∀ j < s.i, (s.threads j).pc.past = true ∧ (s.threads j).mutex ≠ .owner
  fresh : ∀ j, s.i ≤ j → (s.i = j → s.pc.inStart = false) → s.threads j = {}
  meets : s.pc.inStart = true → (s.threads s.i).Meets s.pc
  bound : s.i ≤ s.size
  more : s.pc.inStart = true → s.i < s.size
  all : s.pc = .callingBack ∨ s.pc = .done → s.i = s.size
  loops : s.loops = (List.range s.i).map fun j => some (.ofThread j)
  calls : s.calls = called s.hasCb s.initialised ++ if s.pc = .done then s.baseCall else []

theorem inv_new (numThreads : Int) (hasCb : Bool) : (new numThreads hasCb).Inv where
  ok := PoolThread.ok_new
  past _ hj := absurd hj (Nat.not_lt_zero _)
  fresh _ _ _ := rfl
  meets := nofun
  bound := Nat.zero_le _
  more := nofun
  all h := by
    rcases h with h | h <;> cases h
  loops := rfl
  calls := by cases hasCb <;> rfl

theorem threads_setThread (s : EventLoopThreadPool) (j k : Nat) (t : PoolThread) :
    (s.setThread j t).threads k = if k = j then t else s.threads k := Function.update_apply ..

theorem threads_self (s : EventLoopThreadPool) (j : Nat) (t : PoolThread) :
    (s.setThread j t).threads j = t := Function.update_self ..

theorem threads_other (s : EventLoopThreadPool) {j k : Nat} (t : PoolThread) (h : k ≠ j) :
    (s.setThread j t).threads k = s.threads k := Function.update_of_ne h ..

/-- The owner goes on, and the thread that is being started stays as it is. -/
theorem goto_eq (s : EventLoopThreadPool) (p : StartPc) :
    s.goto p = (s.setThread s.i (s.threads s.i)).goto p := by
  unfold setThread
  rw [Function.update_eq_self]

/-- The owner goes on with the thread that is being started. -/
theorem Inv.start (h : s.Inv) {t : PoolThread} {p : StartPc} {calls : List LoopPtr}
    (hmore : s.i < s.size) (hp : p.inStart = true) (hok : t.Ok s.i) (hmeets : t.Meets p)
    (hcalls : calls = called s.hasCb (if t.pc.calledBack then s.i + 1 else s.i)) :
    Inv { (s.setThread s.i t).goto p with calls } where
  ok j := by
    show ((s.setThread s.i t).threads j).Ok j
    rw [threads_setThread]
    split
    · rename_i heq
      rw [heq]
      exact hok
    · exact h.ok j
  past j hj := by
    change j < s.i at hj
    show ((s.setThread s.i t).threads j).pc.past = true ∧ ((s.setThread s.i t).threads j).mutex ≠ _
    rw [threads_other s t (Nat.ne_of_lt hj)]
    exact h.past j hj
  fresh j hj hnot := by
    have hne : j ≠ s.i := fun heq => nomatch hp.symm.trans (hnot heq.symm)
    show (s.setThread s.i t).threads j = _
    rw [threads_other s t hne]
    exact h.fresh j hj fun heq => absurd heq.symm hne
  meets _ := by
    show ((s.setThread s.i t).threads s.i).Meets p
    rw [threads_self]
    exact hmeets
  bound := h.bound
  more _ := hmore
  all hend := by
    change p = .callingBack ∨ p = .done at hend
    rcases hend with rfl | rfl <;> cases hp
  loops := h.loops
  calls := by
    have hne : p ≠ .done := by
      rintro rfl
      cases hp
    show calls = called s.hasCb (if p.inStart && ((s.setThread s.i t).threads s.i).pc.calledBack
      then s.i + 1 else s.i) ++ if p = .done then _ else []
    rw [threads_self, hp, Bool.true_and, if_neg hne, List.append_nil]
    exact hcalls

/-- The calls of `cb` while a thread is being started. -/
theorem Inv.calls_of_inStart (h : s.Inv) (hin : s.pc.inStart = true) :
    s.calls = called s.hasCb (if (s.threads s.i).pc.calledBack then s.i + 1 else s.i) := by
  have hne : s.pc ≠ .done := by
    intro heq
    rw [heq] at hin
    cases hin
  rw [h.calls, if_neg hne, List.append_nil, initialised, hin, Bool.true_and]

/-- A step of the owner with the thread that is being started. -/
theorem Inv.handshake (h : s.Inv) {t : PoolThread} {p : StartPc} (hin : s.pc.inStart = true)
    (hp : p.inStart = true) (hok : t.Ok s.i) (hmeets : t.Meets p)
    (hpc : t.pc = (s.threads s.i).pc) : ((s.setThread s.i t).goto p).Inv := by
  have hcalls := h.calls_of_inStart hin
  rw [← hpc] at hcalls
  exact h.start (h.more hin) hp hok hmeets hcalls

theorem called_succ (hasCb : Bool) (k : Nat) :
    called hasCb (k + 1) = called hasCb k ++ if hasCb then [.ofThread k] else [] := by
  cases hasCb
  · rfl
  · simp [called, List.range_succ]

/-- The next statement of the thread that is being started. -/
theorem Inv.startThread (h : s.Inv) (hin : s.pc.inStart = true) (hr : (s.threads s.i).Ready) :
    (machine.next s (.thread s.i)).Inv := by
  have hwaits : s.waits s.i = (s.pc == .waiting) := by simp [waits]
  show Inv { (s.setThread s.i ((s.threads s.i).step s.i (s.waits s.i))).goto s.pc with
    calls := s.calls ++ s.threadCalls s.i }
  rw [hwaits]
  refine h.start (h.more hin) hin ((h.ok s.i).step hr _) ((h.meets hin).step (h.ok s.i) hr) ?_
  rw [h.calls_of_inStart hin, threadCalls]
  generalize s.threads s.i = t
  by_cases hcalling : t.pc = .callingBack
  · have hbefore : t.pc.calledBack = false := by rw [hcalling]; rfl
    have hafter : (t.step s.i (s.pc == .waiting)).pc.calledBack = true := by
      rw [PoolThread.step, hcalling]
      rfl
    rw [hbefore, hafter, if_neg Bool.false_ne_true, if_pos rfl, called_succ]
    simp [hcalling]
  · have hnone : (if t.pc = .callingBack ∧ s.hasCb = true then [LoopPtr.ofThread s.i] else []) =
        [] := if_neg fun hc => hcalling hc.1
    rw [PoolThread.calledBack_step hcalling, hnone, List.append_nil]

/-- A thread whose loop was handed out changes. -/
theorem Inv.later (h : s.Inv) {j : Nat} {t : PoolThread} (hj : j < s.i) (hok : t.Ok j)
    (hpast : t.pc.past = true) (hmutex : t.mutex ≠ .owner) : (s.setThread j t).Inv where
  ok k := by
    rw [threads_setThread]
    split
    · rename_i heq
      rw [heq]
      exact hok
    · exact h.ok k
  past k hk := by
    rw [threads_setThread]
    split
    · exact ⟨hpast, hmutex⟩
    · exact h.past k hk
  fresh k hk hnot := by
    rw [threads_other s t (Nat.ne_of_gt (hj.trans_le hk))]
    exact h.fresh k hk hnot
  meets hin := by
    show ((s.setThread j t).threads s.i).Meets s.pc
    rw [threads_other s t (Nat.ne_of_gt hj)]
    exact h.meets hin
  bound := h.bound
  more := h.more
  all := h.all
  loops := h.loops
  calls := by
    have hsame : (s.setThread j t).initialised = s.initialised := by
      show (if s.pc.inStart && ((s.setThread j t).threads s.i).pc.calledBack then _ else _) = _
      rw [threads_other s t (Nat.ne_of_gt hj)]
      rfl
    rw [hsame]
    exact h.calls

/-- A thread that can do something was created. -/
theorem Inv.created (h : s.Inv) {j : Nat} (hpc : (s.threads j).pc ≠ .absent) :
    j < s.i ∨ j = s.i ∧ s.pc.inStart = true := by
  rcases Nat.lt_trichotomy j s.i with hj | rfl | hj
  · exact .inl hj
  · refine .inr ⟨rfl, ?_⟩
    by_contra hin
    rw [h.fresh s.i (Nat.le_refl _) fun _ => Bool.eq_false_iff.mpr hin] at hpc
    exact hpc rfl
  · rw [h.fresh j hj.le fun heq => absurd heq (Nat.ne_of_lt hj)] at hpc
    exact absurd rfl hpc

/-- The next statement of a thread. -/
theorem Inv.thread (h : s.Inv) {j : Nat} (hr : (s.threads j).Ready) :
    (machine.next s (.thread j)).Inv := by
  have hpresent : (s.threads j).pc ≠ .absent := by
    intro habsent
    unfold PoolThread.Ready at hr
    rw [habsent] at hr
    exact hr
  rcases h.created hpresent with hj | ⟨rfl, hin⟩
  · obtain ⟨hpast, hmutex⟩ := h.past j hj
    have hnone : s.threadCalls j = [] := by
      refine if_neg fun hc => ?_
      rw [hc.1] at hpast
      cases hpast
    show Inv { s.setThread j ((s.threads j).step j (s.waits j)) with
      calls := s.calls ++ s.threadCalls j }
    rw [hnone, List.append_nil]
    exact h.later hj ((h.ok j).step hr _) (PoolThread.past_step hpast _)
      (PoolThread.owner_step hmutex _)
  · exact h.startThread hin hr

/-- `loop()` returns. -/
theorem Inv.loopReturns (h : s.Inv) {j : Nat} (hpc : (s.threads j).pc = .looping) :
    (machine.next s (.loopReturns j)).Inv := by
  have hok : PoolThread.Ok { s.threads j with pc := .relocking } j := by
    obtain ⟨hloop, hmutex⟩ := h.ok j
    rw [hpc] at hloop hmutex
    exact ⟨hloop, hmutex⟩
  have hpresent : (s.threads j).pc ≠ .absent := by
    rw [hpc]
    nofun
  rcases h.created hpresent with hj | ⟨rfl, hin⟩
  · exact h.later hj hok rfl (h.past j hj).2
  · obtain ⟨-, hsem, hposted, howner, hasleep, hreading⟩ := h.meets hin
    rw [hpc] at hsem hasleep
    have hcalls := h.calls_of_inStart hin
    rw [hpc] at hcalls
    exact h.start (h.more hin) hin hok
      ⟨nofun, hsem, fun _ => nofun, howner, hasleep, fun _ => .inr rfl⟩ hcalls

/-- The owner goes on between two threads, or behind the last one. -/
theorem Inv.between (h : s.Inv) {p : StartPc} {calls : List LoopPtr} (hin : s.pc.inStart = false)
    (hp : p.inStart = false) (hall : s.i = s.size)
    (hcalls : calls = called s.hasCb s.i ++ if p = .done then s.baseCall else []) :
    Inv { s.goto p with calls } where
  ok := h.ok
  past := h.past
  fresh j hj _ := h.fresh j hj fun _ => hin
  meets hnot := nomatch hp.symm.trans hnot
  bound := h.bound
  more hnot := nomatch hp.symm.trans hnot
  all _ := hall
  loops := h.loops
  calls := by
    show calls = called s.hasCb (if p.inStart && (s.threads s.i).pc.calledBack then s.i + 1
      else s.i) ++ if p = .done then _ else []
    rw [hp]
    exact hcalls

theorem Inv.calls_between (h : s.Inv) (hin : s.pc.inStart = false) (hne : s.pc ≠ .done) :
    s.calls = called s.hasCb s.i := by
  rw [h.calls, if_neg hne, List.append_nil, initialised, hin]
  rfl

/-- `i < numThreads_`, and the next thread. -/
theorem Inv.testing (h : s.Inv) (hpc : s.pc = .testing) : s.ownerStep.Inv := by
  have hin : s.pc.inStart = false := by rw [hpc]; rfl
  have hcalls := h.calls_between hin (by rw [hpc]; nofun)
  have hbound := h.bound
  unfold size at hbound
  unfold ownerStep
  rw [hpc]
  simp only
  by_cases hmore : (s.i : Int) < s.numThreads
  · rw [if_pos hmore, h.fresh s.i (Nat.le_refl _) fun _ => hin]
    show Inv { (s.setThread s.i { pc := .posting }).goto .semWaiting with calls := s.calls }
    exact h.start (by unfold size; omega) rfl ⟨rfl, by decide⟩
      ⟨nofun, fun _ => rfl, fun hne => absurd rfl hne, by decide, nofun, nofun⟩ hcalls
  · rw [if_neg hmore]
    show Inv { s.goto .callingBack with calls := s.calls }
    refine h.between hin rfl (by unfold size; omega) ?_
    rw [if_neg nofun, List.append_nil]
    exact hcalls

/-- The owner has the loop. -/
theorem Inv.reading (h : s.Inv) (hpc : s.pc = .reading) : s.ownerStep.Inv := by
  have hin : s.pc.inStart = true := by rw [hpc]; rfl
  obtain ⟨-, -, -, -, -, hlooping⟩ := h.meets hin
  have hcalls := h.calls_of_inStart hin
  have hpast : (s.threads s.i).pc.past = true ∧ (s.threads s.i).pc.holding = false ∧
      (s.threads s.i).pc.published = true ∧ (s.threads s.i).pc.calledBack = true := by
    rcases hlooping hpc with h | h <;> rw [h] <;> exact ⟨rfl, rfl, rfl, rfl⟩
  obtain ⟨hpast, hfree, hpublished, hcalled⟩ := hpast
  have hloop := (h.ok s.i).loop
  rw [hpublished, if_pos rfl] at hloop
  rw [hcalled, if_pos rfl] at hcalls
  unfold ownerStep
  rw [hpc]
  simp only
  generalize ht : ({ s.threads s.i with mutex := .nobody } : PoolThread) = t
  rw [hloop]
  have hok : t.Ok s.i := by
    rw [← ht]
    refine ⟨(h.ok s.i).loop, nofun, fun hholds => ?_⟩
    exact nomatch hfree.symm.trans hholds
  refine ⟨fun j => ?_, fun j hj => ?_, fun j hj _ => ?_, nofun, h.more hin, nofun, ?_, ?_, ?_⟩
  · show ((s.setThread s.i t).threads j).Ok j
    rw [threads_setThread]
    split
    · rename_i heq
      rw [heq]
      exact hok
    · exact h.ok j
  · show ((s.setThread s.i t).threads j).pc.past = true ∧ ((s.setThread s.i t).threads j).mutex ≠ _
    rcases Nat.lt_succ_iff_lt_or_eq.mp hj with hj | rfl
    · rw [threads_other s t (Nat.ne_of_lt hj)]
      exact h.past j hj
    · rw [threads_self, ← ht]
      exact ⟨hpast, nofun⟩
  · change s.i + 1 ≤ j at hj
    show (s.setThread s.i t).threads j = _
    rw [threads_other s t (Nat.ne_of_gt hj)]
    exact h.fresh j (Nat.le_of_succ_le hj) fun heq => absurd heq (Nat.ne_of_lt hj)
  · rintro (h | h) <;> cases h
  · show s.loops ++ [some (.ofThread s.i)] = (List.range (s.i + 1)).map _
    rw [h.loops, List.range_succ, List.map_append]
    rfl
  · show s.calls = called s.hasCb (s.i + 1) ++ []
    rw [List.append_nil]
    exact hcalls

/-- The owner takes the mutex of the thread that is being started. -/
theorem Inv.locking (h : s.Inv) (hin : s.pc.inStart = true)
    (hfree : (s.threads s.i).mutex = .nobody) (hposted : s.pc ≠ .semWaiting) :
    ((s.setThread s.i { s.threads s.i with mutex := .owner }).goto .checking).Inv := by
  have hmeets := h.meets hin
  have hok := h.ok s.i
  have hholds := hok.free (by rw [hfree]; nofun)
  exact h.handshake hin rfl ⟨hok.loop, nofun, fun hh => nomatch hholds.symm.trans hh⟩
    ⟨hmeets.present, nofun, fun _ => hmeets.posted hposted, iff_of_true rfl rfl, nofun, nofun⟩ rfl

/-- The predicate of the wait. -/
theorem Inv.checking (h : s.Inv) (hpc : s.pc = .checking) : s.ownerStep.Inv := by
  have hin : s.pc.inStart = true := by rw [hpc]; rfl
  have hmeets := h.meets hin
  have hok := h.ok s.i
  have howner : (s.threads s.i).mutex = .owner := hmeets.owner.mpr (by rw [hpc]; rfl)
  have hholds := hok.free (by rw [howner]; nofun)
  have hposted := hmeets.posted (by rw [hpc]; nofun)
  unfold ownerStep
  rw [hpc]
  simp only
  split
  · rename_i hnone
    have hannounced := FuncPc.announced_of_unpublished (hok.loop_eq_none.mp hnone)
    exact h.handshake hin rfl ⟨hok.loop, nofun, fun hh => nomatch hholds.symm.trans hh⟩
      ⟨hmeets.present, nofun, fun _ => hposted, iff_of_false nofun nofun, fun _ _ => hannounced,
        nofun⟩ rfl
  · rename_i hsome
    have hpublished : (s.threads s.i).pc.published = true :=
      Bool.not_eq_false _ ▸ fun hnot => hsome (hok.loop_eq_none.mpr hnot)
    rw [goto_eq]
    exact h.handshake hin rfl hok ⟨hmeets.present, nofun, fun _ => hposted, iff_of_true howner rfl,
      nofun, fun _ => FuncPc.looping_of_published hpublished hholds⟩ rfl

/-- The owner wakes up, notified or not. -/
theorem Inv.waking (h : s.Inv) (hpc : s.pc = .waiting) : (s.goto .relocking).Inv := by
  have hin : s.pc.inStart = true := by rw [hpc]; rfl
  have hmeets := h.meets hin
  have howner : (s.threads s.i).mutex ≠ .owner := fun howner => by
    have hholds := hmeets.owner.mp howner
    rw [hpc] at hholds
    cases hholds
  rw [goto_eq]
  exact h.handshake hin rfl (h.ok s.i) ⟨hmeets.present, nofun,
    fun _ => hmeets.posted (by rw [hpc]; nofun), iff_of_false howner nofun, nofun, nofun⟩ rfl

/-- The owner's next statement. -/
theorem Inv.owner (h : s.Inv) (hr : s.OwnerReady) : s.ownerStep.Inv := by
  unfold OwnerReady at hr
  cases hpc : s.pc with
  | testing => exact h.testing hpc
  | semWaiting =>
    rw [hpc] at hr
    have hin : s.pc.inStart = true := by rw [hpc]; rfl
    obtain ⟨hpresent, hsem, -, howner, -, -⟩ := h.meets hin
    rw [hpc] at howner
    have hposted : (s.threads s.i).pc ≠ .posting := fun hposting => by
      have hzero := hsem hpc
      rw [if_pos hposting] at hzero
      exact absurd hr (by rw [hzero]; exact Nat.lt_irrefl 0)
    unfold ownerStep
    rw [hpc]
    exact h.handshake hin rfl ⟨(h.ok s.i).loop, (h.ok s.i).mutex⟩
      ⟨hpresent, nofun, fun _ => hposted, howner, nofun, nofun⟩ rfl
  | locking =>
    rw [hpc] at hr
    unfold ownerStep
    rw [hpc]
    exact h.locking (by rw [hpc]; rfl) hr (by rw [hpc]; nofun)
  | checking => exact h.checking hpc
  | waiting =>
    unfold ownerStep
    rw [hpc]
    exact h.waking hpc
  | relocking =>
    rw [hpc] at hr
    unfold ownerStep
    rw [hpc]
    exact h.locking (by rw [hpc]; rfl) hr (by rw [hpc]; nofun)
  | reading => exact h.reading hpc
  | callingBack =>
    have hin : s.pc.inStart = false := by rw [hpc]; rfl
    unfold ownerStep
    rw [hpc]
    show Inv { s.goto .done with calls := s.calls ++ s.baseCall }
    refine h.between hin rfl (h.all (.inl hpc)) ?_
    rw [if_pos rfl, h.calls_between hin (by rw [hpc]; nofun)]
  | done =>
    rw [hpc] at hr
    exact hr.elim

theorem inv_next (h : s.Inv) {a : StartAction} (hg : machine.guard s a) :
    (machine.next s a).Inv := by
  cases a with
  | owner => exact h.owner hg
  | thread j => exact h.thread hg
  | wakeUp => exact h.waking hg
  | loopReturns j => exact h.loopReturns hg

theorem inv_of_reachable (h : machine.Reachable s) : s.Inv := by
  refine Machine.Reachable.invariant h ?_ fun s a hi hg => inv_next hi hg
  rintro s ⟨numThreads, hasCb, rfl⟩
  exact inv_new numThreads hasCb

/-! ## The loops that are handed out -/

/-- `getNextLoop`, with `next_`. -/
def nextLoop (s : EventLoopThreadPool) (next : Nat) : Option LoopPtr :=
  if s.loops.isEmpty then some .baseLoop else s.loops[next]?.join

/-- `getAllLoops()`. -/
def getAllLoops (s : EventLoopThreadPool) : List (Option LoopPtr) :=
  if s.loops.isEmpty then [some .baseLoop] else s.loops

/-- **The loops are handed out in order**, whatever the interleaving: `loops_` has the loop of each
thread that was started, none is null, each of them has been called, and `cb` was called once for
each, in the same order, and for nobody but the thread that is being started. When `start` is done,
`getNextLoop` picks the loop that the server takes it for. -/
theorem loops_handed_out (h : machine.Reachable s) :
    s.loops = (List.range s.i).map (fun j => some (.ofThread j)) ∧
    (∀ j < s.i, (s.threads j).pc.past = true) ∧
    s.calls = called s.hasCb s.initialised ++ (if s.pc = .done then s.baseCall else []) ∧
    (s.pc = .done → s.i = s.size ∧
      s.getAllLoops = (if s.size = 0 then [some .baseLoop]
        else (List.range s.size).map fun j => some (.ofThread j)) ∧
      ∀ next, next < s.size ∨ s.size = 0 →
        s.nextLoop next = some (.ofLoopId (TcpServer.getNextLoop (n := s.size) next).1)) := by
  have hi := inv_of_reachable h
  refine ⟨hi.loops, fun j hj => (hi.past j hj).1, hi.calls, fun hdone => ?_⟩
  have hall := hi.all (.inr hdone)
  have hloops := hi.loops
  rw [hall] at hloops
  refine ⟨hall, ?_, fun next hnext => ?_⟩
  · unfold getAllLoops
    rw [hloops, List.isEmpty_map]
    by_cases hzero : s.size = 0
    · rw [hzero]
      rfl
    · rw [if_neg hzero, if_neg (by simpa [List.isEmpty_iff] using hzero)]
  · unfold nextLoop TcpServer.getNextLoop
    rw [hloops, List.isEmpty_map]
    rcases hnext with hlt | hzero
    · have hne : ¬ (List.range s.size).isEmpty = true := by
        simp only [List.isEmpty_iff, List.range_eq_nil]
        omega
      rw [if_neg hne, dif_pos hlt, List.getElem?_map, List.getElem?_range hlt]
      rfl
    · have hnot : ¬ next < s.size := by omega
      rw [hzero, dif_neg (Nat.not_lt_zero next)]
      rfl

/-- The owner waits for the loop of one thread, and is notified. -/
def oneThread : List StartAction :=
  [.owner, .thread 0, .owner, .owner, .owner, .thread 0, .thread 0, .thread 0, .thread 0, .thread 0,
    .thread 0, .owner, .owner, .owner, .owner, .owner, .owner]

theorem oneThread_legal : machine.Legal (new 1 true) oneThread := by decide +kernel

theorem loops_handed_out_example :
    let s := machine.after (new 1 true) oneThread
    s.loops = [some (.ofThread 0)] ∧ s.calls = [.ofThread 0] ∧
      s.nextLoop 0 = some (.ofThread 0) := by
  intro s
  have hdone : s.pc = .done := by decide +kernel
  have hi : s.i = 1 := by decide +kernel
  have hbase : s.baseCall = [] := by decide +kernel
  have hinitialised : s.initialised = 1 := by decide +kernel
  have hcb : s.hasCb = true := by decide +kernel
  obtain ⟨hloops, -, hcalls, hend⟩ :=
    loops_handed_out (Machine.Reachable.run (.init ⟨1, true, rfl⟩) oneThread_legal)
  obtain ⟨hall, -, hnext⟩ := hend hdone
  have hsize : s.size = 1 := hall.symm.trans hi
  refine ⟨?_, ?_, ?_⟩
  · show s.loops = _
    rw [hloops, hi]
    rfl
  · show s.calls = _
    rw [hcalls, hbase, hinitialised, hcb, ite_self, List.append_nil]
    rfl
  · show s.nextLoop 0 = _
    rw [hnext 0 (.inl (by rw [hsize]; exact Nat.one_pos))]
    decide +kernel

/-! ## The statements ahead -/

/-- The statements ahead of the first `n` threads. -/
def threadsAhead (threads : Nat → PoolThread) : Nat → Nat
  | 0 => 0
  | n + 1 => threadsAhead threads n + (threads n).pc.ahead

/-- All of them, with those of the owner. -/
def ahead (s : EventLoopThreadPool) : Nat :=
  threadsAhead s.threads s.size + (8 * (s.size - s.i) + s.pc.ahead (s.threads s.i).notified)

theorem threadsAhead_of_le (threads : Nat → PoolThread) {j : Nat} (t : PoolThread) :
    ∀ {n : Nat}, n ≤ j → threadsAhead (Function.update threads j t) n = threadsAhead threads n
  | 0, _ => rfl
  | n + 1, h => by
    rw [threadsAhead, threadsAhead, threadsAhead_of_le threads t (Nat.le_of_succ_le h),
      Function.update_of_ne (Nat.ne_of_lt h)]

theorem threadsAhead_update (threads : Nat → PoolThread) {j : Nat} (t : PoolThread) :
    ∀ {n : Nat}, j < n → threadsAhead (Function.update threads j t) n + (threads j).pc.ahead =
      threadsAhead threads n + t.pc.ahead
  | n + 1, h => by
    rw [threadsAhead, threadsAhead]
    rcases Nat.lt_succ_iff_lt_or_eq.mp h with hlt | rfl
    · have hrest := threadsAhead_update threads t hlt
      rw [Function.update_of_ne (Nat.ne_of_gt hlt)]
      omega
    · rw [threadsAhead_of_le threads t (Nat.le_refl j), Function.update_self]
      omega

/-- A thread goes on, and the owner stays where it is. -/
theorem ahead_setThread {j : Nat} {t : PoolThread} (hj : j < s.size)
    (hless : t.pc.ahead + 1 ≤ (s.threads j).pc.ahead)
    (hpays : t.notified = (s.threads j).notified ∨ t.pc.ahead + 4 ≤ (s.threads j).pc.ahead) :
    (s.setThread j t).ahead + 1 ≤ s.ahead := by
  have hsum := threadsAhead_update s.threads t hj
  have hother := s.pc.ahead_le ((s.setThread j t).threads s.i).notified (s.threads s.i).notified
  show threadsAhead (Function.update s.threads j t) s.size +
    (8 * (s.size - s.i) + s.pc.ahead ((s.setThread j t).threads s.i).notified) + 1 ≤ s.ahead
  unfold ahead
  rcases hpays with hsame | hpays
  · have hnotified : ((s.setThread j t).threads s.i).notified = (s.threads s.i).notified := by
      rw [threads_setThread]
      split
      · rename_i heq
        rw [heq, hsame]
      · rfl
    rw [hnotified]
    omega
  · omega

/-- The owner goes on with the thread that is being started, which stays where it is. -/
theorem ahead_goto {t : PoolThread} {p : StartPc} (cost : Nat) (hi : s.i < s.size)
    (hsame : t.pc = (s.threads s.i).pc)
    (hless : p.ahead t.notified + 1 ≤ s.pc.ahead (s.threads s.i).notified + cost) :
    ((s.setThread s.i t).goto p).ahead + 1 ≤ s.ahead + cost := by
  have hsum := threadsAhead_update s.threads t hi
  rw [hsame] at hsum
  show threadsAhead (Function.update s.threads s.i t) s.size +
    (8 * (s.size - s.i) + p.ahead ((s.setThread s.i t).threads s.i).notified) + 1 ≤ s.ahead + cost
  unfold ahead
  rw [threads_self]
  omega

/-- The owner wakes up. -/
theorem ahead_waking (cost : Nat) (h : s.Inv) (hpc : s.pc = .waiting)
    (hcost : 10 ≤ StartPc.waiting.ahead (s.threads s.i).notified + cost) :
    (s.goto .relocking).ahead + 1 ≤ s.ahead + cost := by
  rw [goto_eq]
  exact ahead_goto cost (h.more (by rw [hpc]; rfl)) rfl (by rw [hpc]; exact hcost)

theorem ahead_owner (h : s.Inv) (hr : s.OwnerReady) : s.ownerStep.ahead + 1 ≤ s.ahead := by
  unfold OwnerReady at hr
  have hmore : s.pc.inStart = true → s.i < s.size := h.more
  cases hpc : s.pc with
  | testing =>
    have hnew : s.threads s.i = {} := h.fresh s.i (Nat.le_refl _) fun _ => by rw [hpc]; rfl
    unfold ownerStep
    rw [hpc]
    simp only
    split
    · rename_i hlt
      have hi : s.i < s.size := by unfold size; omega
      have hsum := threadsAhead_update s.threads { s.threads s.i with pc := .posting } hi
      show threadsAhead (Function.update s.threads s.i _) s.size +
        (8 * (s.size - s.i) + StartPc.semWaiting.ahead _) + 1 ≤ s.ahead
      unfold ahead
      rw [hpc]
      rw [hnew] at hsum ⊢
      simp only [FuncPc.ahead, StartPc.ahead] at hsum ⊢
      omega
    · show threadsAhead s.threads s.size + (8 * (s.size - s.i) + 9) + 1 ≤ s.ahead
      unfold ahead
      rw [hpc]
      simp only [StartPc.ahead]
      omega
  | semWaiting =>
    unfold ownerStep
    rw [hpc]
    exact ahead_goto 0 (hmore (by rw [hpc]; rfl)) rfl (by rw [hpc]; exact Nat.le_refl _)
  | locking | relocking =>
    unfold ownerStep
    rw [hpc]
    exact ahead_goto 0 (hmore (by rw [hpc]; rfl)) rfl (by rw [hpc]; exact Nat.le_refl _)
  | checking =>
    unfold ownerStep
    rw [hpc]
    simp only
    split
    · exact ahead_goto 0 (hmore (by rw [hpc]; rfl)) rfl (by rw [hpc]; exact Nat.le_refl _)
    · show threadsAhead s.threads s.size + (8 * (s.size - s.i) + 7) + 1 ≤ s.ahead
      unfold ahead
      rw [hpc]
      simp only [StartPc.ahead]
      omega
  | waiting =>
    rw [hpc] at hr
    unfold ownerStep
    rw [hpc]
    exact ahead_waking 0 h hpc (by rw [hr]; exact Nat.le_refl _)
  | reading =>
    have hi := hmore (by rw [hpc]; rfl)
    have hsum := threadsAhead_update s.threads { s.threads s.i with mutex := .nobody } hi
    unfold ownerStep
    rw [hpc]
    show threadsAhead (Function.update s.threads s.i _) s.size +
      (8 * (s.size - (s.i + 1)) + 10) + 1 ≤ s.ahead
    unfold ahead
    rw [hpc]
    simp only [StartPc.ahead] at hsum ⊢
    omega
  | callingBack =>
    unfold ownerStep
    rw [hpc]
    show threadsAhead s.threads s.size + (8 * (s.size - s.i) + 0) + 1 ≤ s.ahead
    unfold ahead
    rw [hpc]
    simp only [StartPc.ahead]
    omega
  | done =>
    rw [hpc] at hr
    exact hr.elim

/-- What a step may cost. -/
def cost : StartAction → Nat
  | .wakeUp => 3
  | _ => 0

/-- **Every step is one less ahead**, but for a wake-up for no reason. -/
theorem ahead_next (h : s.Inv) {a : StartAction} (hg : machine.guard s a) :
    (machine.next s a).ahead + 1 ≤ s.ahead + cost a := by
  have hcreated : ∀ {j}, (s.threads j).pc ≠ .absent → j < s.size := by
    intro j hpresent
    rcases h.created hpresent with hj | ⟨rfl, hin⟩
    · exact hj.trans_le h.bound
    · exact h.more hin
  cases a with
  | owner => exact ahead_owner h hg
  | thread j =>
    have hpresent : (s.threads j).pc ≠ .absent := by
      intro habsent
      change (s.threads j).Ready at hg
      unfold PoolThread.Ready at hg
      rw [habsent] at hg
      exact hg
    obtain ⟨hless, hpays⟩ := PoolThread.ahead_step (j := j) hg (s.waits j)
    exact ahead_setThread (hcreated hpresent) hless hpays
  | wakeUp =>
    have hleast : 7 ≤ StartPc.waiting.ahead (s.threads s.i).notified := by
      cases (s.threads s.i).notified <;> decide
    exact ahead_waking 3 h hg (by omega)
  | loopReturns j =>
    change (s.threads j).pc = .looping at hg
    refine ahead_setThread (hcreated (by rw [hg]; nofun)) ?_ (.inl rfl)
    rw [hg]
    exact Nat.le_refl _

theorem ahead_new (numThreads : Int) (hasCb : Bool) :
    (new numThreads hasCb).ahead = 22 * numThreads.toNat + 10 := by
  have hthreads : ∀ n, threadsAhead (fun _ => {}) n = 14 * n := by
    intro n
    induction n with
    | zero => rfl
    | succ n ih =>
      rw [threadsAhead, ih]
      rfl
  show threadsAhead (fun _ => {}) numThreads.toNat + (8 * (numThreads.toNat - 0) + 10) = _
  rw [hthreads]
  omega

/-- What a run may cost. -/
theorem costs_eq (as : List StartAction) :
    as.foldr (fun a n => cost a + n) 0 = 3 * as.count .wakeUp := by
  induction as with
  | nil => rfl
  | cons a as ih =>
    rw [List.foldr_cons, ih, List.count_cons]
    cases a <;> simp [cost]
    omega

/-! ## The end of `start` -/

/-- The loop that the owner waits for has been taken back. -/
def Overlooked (s : EventLoopThreadPool) : Prop :=
  s.pc.inStart = true ∧ (s.threads s.i).pc.gone = true

instance (s : EventLoopThreadPool) : Decidable s.Overlooked :=
  inferInstanceAs (Decidable (_ ∧ _))

/-- While a thread is being started, the owner or the thread can go on, and a thread that goes on
does not take its pointer back first; or the owner sleeps, and nobody is left to notify it. -/
theorem Inv.goesOn (h : s.Inv) (hin : s.pc.inStart = true) :
    s.OwnerReady ∨
    ((s.threads s.i).Ready ∧ ((s.threads s.i).pc.gone = false →
      ((s.threads s.i).step s.i (s.waits s.i)).pc.gone = false)) ∨
    (s.pc = .waiting ∧ (s.threads s.i).notified = false ∧ (s.threads s.i).pc = .finished) := by
  have hmeets := h.meets hin
  have hok := h.ok s.i
  have hmutex : s.pc.holding = false → (s.threads s.i).mutex = .nobody ∨
      (s.threads s.i).pc.holding = true := by
    intro hfree
    cases hm : (s.threads s.i).mutex with
    | nobody => exact .inl rfl
    | owner => exact nomatch hfree.symm.trans (hmeets.owner.mp hm)
    | thread => exact .inr (hok.mutex.mp hm)
  unfold OwnerReady
  cases hpc : s.pc with
  | testing | callingBack | done =>
    rw [hpc] at hin
    cases hin
  | checking | reading => exact .inl trivial
  | semWaiting =>
    by_cases hposting : (s.threads s.i).pc = .posting
    · exact .inr (.inl (PoolThread.goes_on (.inr hposting) _))
    · refine .inl ?_
      show 0 < (s.threads s.i).sem
      rw [hmeets.sem hpc, if_neg hposting]
      exact Nat.one_pos
  | locking | relocking =>
    rcases hmutex (by rw [hpc]; rfl) with hfree | hholds
    · exact .inl hfree
    · exact .inr (.inl (PoolThread.goes_on (.inl hholds) _))
  | waiting =>
    cases hnotified : (s.threads s.i).notified with
    | true => exact .inl rfl
    | false =>
      have hunannounced := hmeets.asleep hpc hnotified
      by_cases hgone : (s.threads s.i).pc.gone = true
      · refine .inr (.inr ⟨rfl, rfl, ?_⟩)
        exact FuncPc.finished_of_gone hgone hunannounced
      · have hearly := FuncPc.early_of_unannounced hunannounced hmeets.present
          (Bool.eq_false_iff.mpr hgone)
        have hfree : (s.threads s.i).pc = .locking → (s.threads s.i).mutex = .nobody := by
          intro hlocking
          rcases hmutex (by rw [hpc]; rfl) with hfree | hholds
          · exact hfree
          · rw [hlocking] at hholds
            cases hholds
        obtain ⟨hr, hstays⟩ := PoolThread.ready_of_early (j := s.i) hearly hfree (s.waits s.i)
        exact .inr (.inl ⟨hr, fun _ => hstays⟩)

/-- The owner does not lose a loop. -/
theorem owner_keeps (hnot : ¬ s.Overlooked) : ¬ s.ownerStep.Overlooked := by
  have hsame : ∀ {t : PoolThread} {p : StartPc}, s.pc.inStart = true →
      t.pc = (s.threads s.i).pc → ¬ ((s.setThread s.i t).goto p).Overlooked := by
    rintro t p hin hpc ⟨-, hgone⟩
    change ((s.setThread s.i t).threads s.i).pc.gone = true at hgone
    rw [threads_self, hpc] at hgone
    exact hnot ⟨hin, hgone⟩
  unfold ownerStep
  cases hpc : s.pc with
  | testing =>
    simp only
    split
    · rintro ⟨-, hgone⟩
      change ((s.setThread s.i { s.threads s.i with pc := .posting }).threads s.i).pc.gone = true
        at hgone
      rw [threads_self] at hgone
      cases hgone
    · exact fun hlost => nomatch hlost.1
  | semWaiting | locking | relocking => exact hsame (by rw [hpc]; rfl) rfl
  | checking =>
    simp only
    split
    · exact hsame (by rw [hpc]; rfl) rfl
    · exact fun hlost => hnot ⟨by rw [hpc]; rfl, hlost.2⟩
  | waiting => exact fun hlost => hnot ⟨by rw [hpc]; rfl, hlost.2⟩
  | reading | callingBack => exact fun hlost => nomatch hlost.1
  | done => exact fun hlost => nomatch hpc ▸ hlost.1

/-- The owner or the thread that is being started goes on, and the loop is not lost. -/
theorem exists_step (h : s.Inv) (hnot : ¬ s.Overlooked) (hdone : s.pc ≠ .done) :
    ∃ a, machine.guard s a ∧ cost a = 0 ∧ ¬ (machine.next s a).Overlooked := by
  by_cases hin : s.pc.inStart = true
  · have hgone : (s.threads s.i).pc.gone = false := Bool.eq_false_iff.mpr fun hgone =>
      hnot ⟨hin, hgone⟩
    rcases h.goesOn hin with hr | ⟨hr, hstays⟩ | ⟨-, -, hfinished⟩
    · exact ⟨.owner, hr, rfl, owner_keeps hnot⟩
    · refine ⟨.thread s.i, hr, rfl, fun hlost => ?_⟩
      have hlost := hlost.2
      change ((s.setThread s.i _).threads s.i).pc.gone = true at hlost
      rw [threads_self] at hlost
      exact nomatch (hstays hgone).symm.trans hlost
    · rw [hfinished] at hgone
      cases hgone
  · refine ⟨.owner, ?_, rfl, owner_keeps hnot⟩
    show s.OwnerReady
    unfold OwnerReady
    cases hpc : s.pc <;> first | trivial | exact absurd hpc hdone | exact absurd (hpc ▸ rfl) hin

/-- A loop that was taken back before the owner saw it is never seen. -/
theorem overlooked_next (h : s.Inv) (hlost : s.Overlooked) {a : StartAction}
    (hg : machine.guard s a) : (machine.next s a).Overlooked := by
  obtain ⟨hin, hgone⟩ := hlost
  have hother : ∀ {j : Nat} {t : PoolThread}, (j = s.i → t.pc.gone = true) →
      ((s.setThread j t).threads s.i).pc.gone = true := by
    intro j t ht
    rw [threads_setThread]
    split
    · rename_i heq
      exact ht heq.symm
    · exact hgone
  cases a with
  | owner =>
    show s.ownerStep.Overlooked
    unfold ownerStep
    cases hpc : s.pc with
    | testing | callingBack | done =>
      rw [hpc] at hin
      cases hin
    | semWaiting | locking | relocking => exact ⟨rfl, hother fun _ => hgone⟩
    | checking =>
      simp only
      split
      · exact ⟨rfl, hother fun _ => hgone⟩
      · exact ⟨rfl, hgone⟩
    | waiting => exact ⟨rfl, hgone⟩
    | reading =>
      rcases (h.meets hin).reading hpc with hlooping | hlooping <;> rw [hlooping] at hgone <;>
        cases hgone
  | thread j =>
    refine ⟨hin, hother ?_⟩
    rintro rfl
    exact PoolThread.gone_step hgone _
  | wakeUp => exact ⟨rfl, hgone⟩
  | loopReturns j =>
    refine ⟨hin, hother ?_⟩
    rintro rfl
    change (s.threads s.i).pc = .looping at hg
    rw [hg] at hgone
    cases hgone

theorem exists_completes (h : s.Inv) (hnot : ¬ s.Overlooked) :
    ∃ as, machine.Legal s as ∧ (machine.after s as).pc = .done := by
  induction hn : s.ahead using Nat.strong_induction_on generalizing s with
  | _ n ih =>
    subst hn
    by_cases hdone : s.pc = .done
    · exact ⟨[], trivial, hdone⟩
    · obtain ⟨a, hg, hfree, hkeeps⟩ := exists_step h hnot hdone
      have hless := ahead_next h hg
      obtain ⟨as, hl, hend⟩ := ih _ (by omega) (inv_next h hg) hkeeps rfl
      exact ⟨a :: as, ⟨hg, hl⟩, hend⟩

/-- **`start` comes to an end**, whatever the interleaving: but for the wake-ups for no reason its
steps are bounded by the number of threads, and where the owner and the thread that is being
started can both not go on, `start` has returned, or the owner sleeps, not notified, on the
condition variable of a thread that has run to its end. -/
theorem start_ends (numThreads : Int) (hasCb : Bool) {as : List StartAction}
    (hl : machine.Legal (new numThreads hasCb) as)
    (hs : machine.after (new numThreads hasCb) as = s) :
    as.length ≤ 22 * numThreads.toNat + 10 + 3 * as.count .wakeUp ∧
    (¬ s.OwnerReady → ¬ (s.threads s.i).Ready → s.pc = .done ∨
      (s.pc = .waiting ∧ (s.threads s.i).notified = false ∧
        (s.threads s.i).pc = .finished)) := by
  have hnew := inv_new numThreads hasCb
  constructor
  · have hlength := Machine.Legal.length_le (fun _ _ h hg => inv_next h hg)
      (fun _ _ h hg => ahead_next h hg) hl hnew
    rw [ahead_new, costs_eq] at hlength
    omega
  · intro howner hthread
    have h : s.Inv := hs ▸ Machine.Legal.invariant (fun _ _ h hg => inv_next h hg) hl hnew
    by_cases hin : s.pc.inStart = true
    · rcases h.goesOn hin with hr | ⟨hr, -⟩ | hstuck
      · exact absurd hr howner
      · exact absurd hr hthread
      · exact .inr hstuck
    · refine .inl ?_
      unfold OwnerReady at howner
      cases hpc : s.pc <;> rw [hpc] at howner hin <;>
        first | rfl | exact absurd trivial howner | exact absurd rfl hin

/-- The loop of the only thread returns before the owner looks for it. -/
def earlyReturn : List StartAction :=
  [.owner, .thread 0, .thread 0, .thread 0, .thread 0, .thread 0, .thread 0, .thread 0,
    .loopReturns 0, .thread 0, .thread 0]

theorem earlyReturn_legal :
    machine.Legal (new 1 true) (earlyReturn ++ [.owner, .owner, .owner]) := by decide +kernel

theorem start_ends_example :
    ∃ s, machine.after (new 1 true) (earlyReturn ++ [.owner, .owner, .owner]) = s ∧
      s.pc = .waiting ∧ (s.threads s.i).notified = false ∧ (s.threads s.i).pc = .finished := by
  obtain ⟨s, hs⟩ : ∃ s, machine.after (new 1 true) (earlyReturn ++ [.owner, .owner, .owner]) = s :=
    ⟨_, rfl⟩
  have hnotDone : s.pc ≠ .done := by
    rw [← hs]
    decide +kernel
  have howner : ¬ s.OwnerReady := by
    rw [← hs]
    decide +kernel
  have hthread : ¬ (s.threads s.i).Ready := by
    rw [← hs]
    decide +kernel
  have hend := (start_ends 1 true earlyReturn_legal hs).2 howner hthread
  exact ⟨s, hs, hend.resolve_left hnotDone⟩

/-- **`start` can still return exactly as long as no loop was overlooked**: as long as the thread
that is being started has not taken its pointer back. -/
theorem start_completes_iff (h : machine.Reachable s) :
    (∃ as, machine.Legal s as ∧ (machine.after s as).pc = .done) ↔ ¬ s.Overlooked := by
  have hi := inv_of_reachable h
  constructor
  · rintro ⟨as, hl, hdone⟩ hlost
    have hend : (machine.after s as).Inv ∧ (machine.after s as).Overlooked :=
      Machine.Legal.invariant (I := fun s => s.Inv ∧ s.Overlooked)
        (fun _ _ ⟨h, hlost⟩ hg => ⟨inv_next h hg, overlooked_next h hlost hg⟩) hl ⟨hi, hlost⟩
    have hin := hend.2.1
    rw [hdone] at hin
    cases hin
  · exact exists_completes hi

theorem start_completes_iff_example :
    (∃ as, machine.Legal (new 1 true) as ∧ (machine.after (new 1 true) as).pc = .done) ∧
    ¬ ∃ as, machine.Legal (machine.after (new 1 true) earlyReturn) as ∧
      (machine.after (machine.after (new 1 true) earlyReturn) as).pc = .done := by
  have hnew : machine.Reachable (new 1 true) := .init ⟨1, true, rfl⟩
  have hlegal := (Machine.legal_append.mp earlyReturn_legal).1
  have hlost : (machine.after (new 1 true) earlyReturn).Overlooked := by decide +kernel
  exact ⟨(start_completes_iff hnew).mpr fun h => absurd h.1 Bool.false_ne_true,
    fun hend => (start_completes_iff (hnew.run hlegal)).mp hend hlost⟩

end EventLoopThreadPool

end SimpleHttpServer
