import SimpleHttpServer.App.OnRequest
import SimpleHttpServer.Sql.PoolWakeups

/-!
# The io threads and the pool

`TcpServer` runs `onRequest` of `example/test.cpp` on several io threads, and they share one
`SqlConnectionPool`. `WorkerSystem` is the threads with what each has left of its handler, over the
pool with its wake-ups: a `GetConnection` or `ReleaseConnection` that a handler makes runs statement
by statement, and everything else it calls is answered at once, and arbitrarily.

* `poolProtocol`: one connection at a time, used only while one has it; **`onRequest_keeps`**.
* `WorkerStage` is where a thread is, in its handler and in the pool together.
* `WorkerSystem.simulates`: what the handlers do is what the pool is made for.
* **`WorkerSystem.workers_share`**: queries are made on connections of one's own, and a thread whose
  handler has returned has none.
* **`WorkerSystem.workers_go_on`**: while a handler runs, the threads are not stuck in the pool.
-/

namespace SimpleHttpServer

open Lib Lib.Program

/-! ## The protocol -/

section

variable {Conn : Type}

/-- A handler asks for a connection when it has none, uses and releases the one it has, and reads
files without one. -/
def poolProtocol : Protocol (ExternalCall Conn) ExternalCall.Answer (Option Conn) where
  allows
    | held, .getConnection | held, .stat _ | held, .mmap _ _ => held = none
    | held, .realQuery sqlconn _ | held, .releaseConnection sqlconn => held = some sqlconn
    | _, .abort _ => True
  move
    | _, .getConnection, sqlconn => sqlconn
    | _, .releaseConnection _, _ => none
    | held, .realQuery _ _, _ | held, .stat _, _ | held, .mmap _ _, _ | held, .abort _, _ => held

/-- The rest of a handler that has a connection, or none. It ends with none. -/
abbrev Disciplined {α : Type} (held : Option Conn) (p : Handler Conn α) : Prop :=
  p.Keeps poolProtocol (fun _ held => held = none) held

theorem orAbort_keeps {α β : Type} {x : Except Abort α} {f : α → Handler Conn β}
    (hf : ∀ a, Disciplined none (f a)) : Disciplined none (orAbort x >>= f) := by
  cases x with
  | ok a => exact hf a
  | error why => exact ⟨trivial, nofun⟩

theorem fileToString_keeps (filename : Bytes) (resp : HttpResponse) :
    Disciplined none (fileToString filename resp : Handler Conn HttpResponse) := by
  refine keeps_perform rfl fun size => ?_
  cases size with
  | none => exact rfl
  | some size =>
    refine keeps_perform rfl fun mapFile => ?_
    cases mapFile with
    | some mapFile => exact rfl
    | none => exact Keeps.ite (fun _ => rfl) fun _ => ⟨trivial, nofun⟩

/-- The last thing that a handler does with its connection. -/
theorem release_keeps {α : Type} (sqlconn : Conn) (a : α) :
    Disciplined (some sqlconn) (releaseConnection sqlconn >>= fun _ => (pure a : Handler Conn α)) :=
  keeps_perform rfl fun _ => rfl

theorem getQueryRes_keeps (username : Bytes) :
    Disciplined none (getQueryRes username : Handler Conn (List Bytes)) := by
  refine keeps_perform rfl fun sqlconn => ?_
  cases sqlconn with
  | none => exact rfl
  | some sqlconn =>
    refine keeps_perform rfl fun answer => ?_
    cases answer with
    | error => exact release_keeps sqlconn []
    | noResult => exact ⟨trivial, nofun⟩
    | noRow => exact release_keeps sqlconn []
    | row fields =>
      show Disciplined (some sqlconn) (readRow fields >>= fun res =>
        releaseConnection sqlconn >>= fun _ => (pure res : Handler Conn (List Bytes)))
      unfold readRow
      cases fields.mapM id with
      | some values => exact release_keeps sqlconn (values.map cString)
      | none => exact ⟨trivial, nofun⟩

theorem insertNewUser_keeps (username userpasswd : Bytes) :
    Disciplined none (insertNewUser username userpasswd : Handler Conn Bool) := by
  refine (getQueryRes_keeps username).bind ?_
  rintro preQuery _ rfl
  refine Keeps.ite (fun _ => rfl) fun _ => keeps_perform rfl fun sqlconn => ?_
  cases sqlconn with
  | none => exact rfl
  | some sqlconn =>
    refine keeps_perform rfl fun answer => ?_
    cases answer <;> exact release_keeps sqlconn _

theorem loginReply_keeps (resp : HttpResponse) (form : Option (Bytes × Bytes)) :
    Disciplined none (loginReply resp form : Handler Conn HttpResponse) := by
  cases form with
  | none => exact fileToString_keeps _ resp
  | some form =>
    refine (getQueryRes_keeps form.1).bind ?_
    rintro queryRes _ rfl
    exact orAbort_keeps fun ok =>
      Keeps.ite (fun _ => fileToString_keeps _ resp) fun _ => fileToString_keeps _ resp

theorem registerReply_keeps (resp : HttpResponse) (form : Option (Bytes × Bytes)) :
    Disciplined none (registerReply resp form : Handler Conn HttpResponse) := by
  cases form with
  | none => exact fileToString_keeps _ resp
  | some form =>
    refine Keeps.ite (fun _ => (insertNewUser_keeps form.1 form.2).bind ?_) fun _ =>
      fileToString_keeps _ resp
    rintro ok _ rfl
    exact Keeps.ite (fun _ => fileToString_keeps _ resp) fun _ => fileToString_keeps _ resp

/-- **Every handler keeps to the protocol of the pool**, whatever it is answered. -/
theorem onRequest_keeps (req : HttpRequest) (resp : HttpResponse) :
    Disciplined none (onRequest req resp : Handler Conn HttpResponse) := by
  by_cases hget : req.method = .kGet
  · unfold onRequest
    rw [if_pos hget]
    exact Keeps.ite (fun _ => fileToString_keeps _ resp) fun _ =>
      Keeps.ite (fun _ => fileToString_keeps _ resp) fun _ => fileToString_keeps _ resp
  by_cases hpost : req.method = .kPost
  · by_cases hlogin : req.path = ascii "/login"
    · rw [onRequest_login hpost hlogin]
      exact orAbort_keeps (loginReply_keeps resp)
    by_cases hregister : req.path = ascii "/register"
    · rw [onRequest_register hpost hregister]
      exact orAbort_keeps (registerReply_keeps resp)
    rw [onRequest_otherPost hpost hlogin hregister]
    exact rfl
  · rw [onRequest_notFound hget hpost]
    exact rfl

end

/-! ## The threads -/

/-- What a handler is answered by anything but the pool. -/
inductive ServiceAnswer where
  | realQuery (answer : QueryAnswer)
  | stat (size : Option Nat)
  | mmap (mapFile : Option Bytes)

section

variable {Conn α : Type}

/-- The handler goes on with an answer, if it has asked for it. -/
def answered : Handler Conn α → ServiceAnswer → Option (Handler Conn α)
  | .call (.realQuery _ _) next, .realQuery answer => some (next answer)
  | .call (.stat _) next, .stat size => some (next size)
  | .call (.mmap _ _) next, .mmap mapFile => some (next mapFile)
  | _, _ => none

/-- `GetConnection` returns. -/
def got (sqlconn : Option Conn) : Handler Conn α → Handler Conn α
  | .call .getConnection next => next sqlconn
  | p => p

/-- `ReleaseConnection` returns. -/
def released : Handler Conn α → Handler Conn α
  | .call (.releaseConnection _) next => next ()
  | p => p

end

/-- Threads with handlers, and the pool they share. -/
structure WorkerSystem (T Conn : Type) extends NotifiedPool T Conn where
  /-- What a thread has left of its handler. -/
  handler : T → Option (Handler Conn HttpResponse)

/-- The steps of the threads. -/
inductive WorkerAction (T Conn : Type) where
  /-- `HttpServer` calls `onRequest`. -/
  | request (t : T) (req : HttpRequest) (resp : HttpResponse)
  | service (t : T) (answer : ServiceAnswer)
  /-- A step in the pool; its calls are the handlers' and, when it ends, the program's. -/
  | pool (action : WakeupAction T Conn)
  /-- The handler has returned. -/
  | finish (t : T)

namespace WorkerSystem

variable {T Conn : Type} [DecidableEq T] [DecidableEq Conn]

/-- Between two calls of the pool. -/
def Ready (s : WorkerSystem T Conn) (t : T) : Prop := s.pc t = .outside ∧ t ∉ s.owes

/-- The handlers behind the statement of `t` at a place in the pool. -/
def handlerPast (s : WorkerSystem T Conn) (t : T) :
    PoolPc Conn → T → Option (Handler Conn HttpResponse)
  | .returning sqlconn => Function.update s.handler t ((s.handler t).map (got sqlconn))
  | _ => s.handler

/-- The handlers behind a step in the pool: a call of the pool that returns is answered. -/
def handlerBehind (s : WorkerSystem T Conn) :
    WakeupAction T Conn → T → Option (Handler Conn HttpResponse)
  | .pool (.getConnection t) =>
    if s.connList.length = 0 then
      Function.update s.handler t ((s.handler t).map (got none))
    else s.handler
  | .pool (.proceed t) => s.handlerPast t (s.pc t)
  | .notify t _ => Function.update s.handler t ((s.handler t).map released)
  | _ => s.handler

/-- The system behind a step. -/
def next (s : WorkerSystem T Conn) : WorkerAction T Conn → WorkerSystem T Conn
  | .request t req resp =>
    { s with handler := Function.update s.handler t (some (onRequest req resp)) }
  | .service t answer =>
    { s with handler := Function.update s.handler t ((s.handler t).bind (answered · answer)) }
  | .pool action => ⟨s.toNotifiedPool.next action, s.handlerBehind action⟩
  | .finish t => { s with handler := Function.update s.handler t none }

/-- A step in the pool is one of a call under way, or begins the call that the handler makes next.
Whoever has no handler may end the program. -/
def Calls (s : WorkerSystem T Conn) : WakeupAction T Conn → Prop
  | .pool (.getConnection t) =>
    s.Ready t ∧ ∃ next, s.handler t = some (.call .getConnection next)
  | .pool (.releaseConnection t sqlconn) => s.Ready t ∧
    ∃ con next, sqlconn = some con ∧ s.handler t = some (.call (.releaseConnection con) next)
  | .pool (.destroyPool t) => s.Ready t ∧ s.handler t = none
  | action => NotifiedPool.machine.guard s.toNotifiedPool action

/-- The threads, in any interleaving; every answer is one that the call can have. -/
def machine : Machine (WorkerSystem T Conn) (WorkerAction T Conn) where
  init s := NotifiedPool.machine.init s.toNotifiedPool ∧ ∀ t, s.handler t = none
  guard s
    | .request t _ _ => s.Ready t ∧ s.handler t = none
    | .service t answer => s.Ready t ∧ ((s.handler t).bind (answered · answer)).isSome
    | .pool action => s.Calls action
    | .finish t => s.Ready t ∧ ∃ resp, s.handler t = some (.done resp)
  next := next

end WorkerSystem

/-! ## Where a thread is -/

namespace PoolPc

variable {C : Type}

/-- In `GetConnection`, with what the thread has there. -/
def Gets (held : Option C) : PoolPc C → Prop
  | .locking | .testing _ | .waiting | .taking => held = none
  | .taken con | .counting con => held = some con
  | .returning con => held = con
  | _ => False

/-- In `ReleaseConnection(con)`, with the notifications owed, and with what the thread has there. -/
def Gives (con : C) (owed : Nat) (held : Option C) : PoolPc C → Prop
  | .releasing c | .pushing c => c = con ∧ owed = 0 ∧ held = some con
  | .freeing | .leaving | .unlocking | .outside => owed = 1 ∧ held = none
  | _ => False

/-- In `DestroyPool`. -/
def Closes : PoolPc C → Prop
  | .destroying | .closing | .resettingCur | .resettingFree | .clearing | .unlocking => True
  | _ => False

end PoolPc

/-- Where a thread is: what is left of its handler, its place in the pool, the notifications it
owes, and the connection it has. -/
inductive WorkerStage {Conn : Type} :
    Option (Handler Conn HttpResponse) → PoolPc Conn → Nat → Option Conn → Prop
  | idle : WorkerStage none .outside 0 none
  | closing {pc : PoolPc Conn} (hpc : pc.Closes) : WorkerStage none pc 0 none
  | ready {p : Handler Conn HttpResponse} {held : Option Conn} (h : Disciplined held p) :
      WorkerStage (some p) .outside 0 held
  | getting {next : Option Conn → Handler Conn HttpResponse} {pc : PoolPc Conn}
      {held : Option Conn} (h : ∀ r, Disciplined r (next r)) (hpc : pc.Gets held) :
      WorkerStage (some (.call .getConnection next)) pc 0 held
  | giving {con : Conn} {next : Unit → Handler Conn HttpResponse} {pc : PoolPc Conn} {owed : Nat}
      {held : Option Conn} (h : Disciplined none (next ())) (hpc : pc.Gives con owed held) :
      WorkerStage (some (.call (.releaseConnection con) next)) pc owed held

namespace WorkerSystem

section

variable {T Conn : Type} [DecidableEq T] {s s' : WorkerSystem T Conn} {t : T}

/-- The stage of a thread. -/
def StageOf (s : WorkerSystem T Conn) (t : T) : Prop :=
  ∃ held, WorkerStage (s.handler t) (s.pc t) (s.owes.count t) held ∧
    ∀ con, (t, con) ∈ s.held ↔ held = some con

/-- A step leaves a thread where it is. -/
structure Leaves (s s' : WorkerSystem T Conn) (u : T) : Prop where
  handler : s'.handler u = s.handler u
  pc : s'.pc u = s.pc u
  owes : s'.owes.count u = s.owes.count u
  held : ∀ con, (u, con) ∈ s'.held ↔ (u, con) ∈ s.held

theorem StageOf.frame {u : T} (h : s.StageOf u) (hleaves : s.Leaves s' u) : s'.StageOf u := by
  obtain ⟨held, hstage, hheld⟩ := h
  refine ⟨held, ?_, fun con => (hleaves.held con).trans (hheld con)⟩
  rw [hleaves.handler, hleaves.pc, hleaves.owes]
  exact hstage

/-- A thread that is ready and has a handler is at its next call. -/
theorem ready_stage (h : s.StageOf t) (hready : s.Ready t) {p : Handler Conn HttpResponse}
    (hp : s.handler t = some p) :
    ∃ held, Disciplined held p ∧ ∀ con, (t, con) ∈ s.held ↔ held = some con := by
  obtain ⟨held, hstage, hheld⟩ := h
  rw [hp, hready.1, List.count_eq_zero_of_not_mem hready.2] at hstage
  refine ⟨held, ?_, hheld⟩
  cases hstage with
  | ready h => exact h
  | getting h hpc => exact hpc.elim
  | giving h hpc => exact absurd hpc.1 Nat.zero_ne_one

/-- Whoever has no handler has no connection. -/
theorem idle_stage (h : s.StageOf t) (hidle : s.handler t = none) (con : Conn) :
    (t, con) ∉ s.held := by
  obtain ⟨held, hstage, hheld⟩ := h
  rw [hidle] at hstage
  generalize s.pc t = pc at hstage
  generalize s.owes.count t = owed at hstage
  intro hmem
  cases hstage with
  | idle => exact nomatch (hheld con).mp hmem
  | closing hpc => exact nomatch (hheld con).mp hmem

/-- A thread that has a connection does not sleep for another one. -/
theorem ready_of_held (h : s.StageOf t) {con : Conn} (hmem : (t, con) ∈ s.held)
    (hstill : s.pc t = .outside ∨ s.pc t = .waiting) : s.Ready t ∧ ∃ p, s.handler t = some p := by
  obtain ⟨held, hstage, hheld⟩ := h
  obtain rfl := (hheld con).mp hmem
  have hzero : s.owes.count t = 0 → t ∉ s.owes := List.count_eq_zero.mp
  unfold Ready
  generalize s.handler t = p at hstage ⊢
  generalize s.pc t = pc at hstage hstill ⊢
  generalize s.owes.count t = owed at hstage hzero
  cases hstage with
  | ready _ => exact ⟨⟨rfl, hzero rfl⟩, _, rfl⟩
  | getting _ hgets => rcases hstill with rfl | rfl <;> cases hgets
  | giving _ hgives =>
    rcases hstill with rfl | rfl
    · exact nomatch hgives.2
    · exact hgives.elim

/-- A thread goes to another place in the pool. -/
theorem stageOf_goto (pool : PoolSystem T Conn) {pc : PoolPc Conn} {notified owes : List T}
    {handler : T → Option (Handler Conn HttpResponse)} {held : Option Conn}
    (hstage : WorkerStage (handler t) pc (owes.count t) held)
    (hheld : ∀ con, (t, con) ∈ pool.held ↔ held = some con) :
    StageOf ⟨⟨pool.goto t pc, notified, owes⟩, handler⟩ t := by
  have hself : (pool.goto t pc).pc t = pc := by rw [PoolSystem.pc_goto, if_pos rfl]
  refine ⟨held, ?_, hheld⟩
  show WorkerStage (handler t) ((pool.goto t pc).pc t) (owes.count t) held
  rw [hself]
  exact hstage

end

variable {T Conn : Type} [DecidableEq T] [DecidableEq Conn] {s s' : WorkerSystem T Conn} {t : T}

/-- A statement of one thread leaves the others where they are. -/
theorem proceed_others (pool : PoolSystem T Conn) {u : T} (hu : u ≠ t) (pc : PoolPc Conn) :
    ((pool.proceed t pc).getD pool).pc u = pool.pc u ∧
      ∀ con, (u, con) ∈ ((pool.proceed t pc).getD pool).held ↔ (u, con) ∈ pool.held := by
  have hgoto : ∀ (pool' : PoolSystem T Conn) (p : PoolPc Conn), pool'.pc = pool.pc →
      (pool'.goto t p).pc u = pool.pc u := fun pool' p hsame => by
    rw [PoolSystem.pc_goto, if_neg hu, hsame]
  cases pc with
  | outside => exact ⟨rfl, fun _ => Iff.rfl⟩
  | waiting => exact ⟨rfl, fun _ => Iff.rfl⟩
  | testing timedOut =>
    unfold PoolSystem.proceed PoolSystem.statement
    simp only
    split
    · exact ⟨hgoto _ _ rfl, fun _ => Iff.rfl⟩
    · split
      · exact ⟨hgoto _ _ rfl, fun _ => Iff.rfl⟩
      · exact ⟨hgoto _ _ rfl, fun _ => Iff.rfl⟩
  | taking =>
    cases hlist : pool.connList with
    | nil =>
      rw [PoolSystem.proceed_empty hlist]
      exact ⟨rfl, fun _ => Iff.rfl⟩
    | cons con connList =>
      rw [PoolSystem.proceed_taking hlist]
      refine ⟨hgoto _ _ rfl, fun c => ?_⟩
      show (u, c) ∈ (t, _) :: pool.held ↔ _
      rw [List.mem_cons]
      exact or_iff_right fun heq => hu (congrArg Prod.fst heq)
  | pushing con =>
    refine ⟨hgoto _ _ rfl, fun c => ?_⟩
    exact List.mem_erase_of_ne fun heq => hu (congrArg Prod.fst heq)
  | closing =>
    unfold PoolSystem.proceed PoolSystem.statement
    simp only
    split
    · exact ⟨hgoto _ _ rfl, fun _ => Iff.rfl⟩
    · exact ⟨hgoto _ _ rfl, fun _ => Iff.rfl⟩
  | locking | taken _ | counting _ | returning _ | releasing _ | freeing | leaving | destroying
  | resettingCur | resettingFree | clearing | unlocking =>
    exact ⟨hgoto _ _ rfl, fun _ => Iff.rfl⟩

/-- The program ends its statement of `DestroyPool`. -/
theorem closing_stage {pc : PoolPc Conn} {handler : T → Option (Handler Conn HttpResponse)}
    (hcloses : pc.Closes) (howes : s.owes.count t = 0) (hidle : handler t = none)
    (hheld : ∀ con, (t, con) ∈ s.held ↔ none = some con) :
    StageOf ⟨⟨(s.proceed t pc).getD s.toPoolSystem, s.notified, s.owes⟩, handler⟩ t := by
  have hto : ∀ (pool : PoolSystem T Conn) (p : PoolPc Conn), pool.held = s.held →
      p.Closes ∨ p = .outside → StageOf ⟨⟨pool.goto t p, s.notified, s.owes⟩, handler⟩ t := by
    rintro pool p hsame (hp | rfl)
    · refine stageOf_goto _ ?_ (hsame ▸ hheld)
      rw [hidle, howes]
      exact .closing hp
    · refine stageOf_goto _ ?_ (hsame ▸ hheld)
      rw [hidle, howes]
      exact .idle
  cases pc with
  | destroying => exact hto _ .closing rfl (.inl trivial)
  | closing =>
    unfold PoolSystem.proceed PoolSystem.statement
    simp only
    split
    · exact hto _ .resettingCur rfl (.inl trivial)
    · exact hto _ .unlocking rfl (.inl trivial)
  | resettingCur => exact hto _ .resettingFree rfl (.inl trivial)
  | resettingFree => exact hto _ .clearing rfl (.inl trivial)
  | clearing => exact hto _ .unlocking rfl (.inl trivial)
  | unlocking => exact hto _ .outside rfl (.inr rfl)
  | outside | locking | testing _ | waiting | taking | taken _ | counting _ | returning _
  | releasing _ | pushing _ | freeing | leaving => exact hcloses.elim

/-- A handler's statement of `GetConnection`: in the end it has what it is given. -/
theorem getting_stage {pc : PoolPc Conn} {held : Option Conn}
    {next : Option Conn → Handler Conn HttpResponse} (hpc : s.pc t = pc) (hgets : pc.Gets held)
    (hwaiting : pc ≠ .waiting) (howes : s.owes.count t = 0)
    (hhandler : s.handler t = some (.call .getConnection next))
    (hnext : ∀ r, Disciplined r (next r)) (hheld : ∀ con, (t, con) ∈ s.held ↔ held = some con) :
    StageOf ⟨⟨(s.proceed t pc).getD s.toPoolSystem, s.notified, s.owes⟩, s.handlerPast t pc⟩ t := by
  have hto : ∀ (pool : PoolSystem T Conn) (p : PoolPc Conn) {held : Option Conn}, p.Gets held →
      (∀ con, (t, con) ∈ pool.held ↔ held = some con) →
        StageOf ⟨⟨pool.goto t p, s.notified, s.owes⟩, s.handler⟩ t := by
    intro pool p held hp hheld
    refine stageOf_goto _ ?_ hheld
    rw [hhandler, howes]
    exact .getting hnext hp
  cases pc with
  | locking => exact hto _ (.testing false) hgets hheld
  | testing timedOut =>
    unfold PoolSystem.proceed PoolSystem.statement
    simp only
    split
    · exact hto _ .taking hgets hheld
    · split
      · exact hto _ (.returning none) hgets hheld
      · exact hto _ .waiting hgets hheld
  | waiting => exact absurd rfl hwaiting
  | taking =>
    cases hlist : s.connList with
    | nil =>
      rw [PoolSystem.proceed_empty hlist]
      refine ⟨held, ?_, hheld⟩
      show WorkerStage (s.handler t) (s.pc t) (s.owes.count t) held
      rw [hhandler, hpc, howes]
      exact .getting hnext hgets
    | cons con connList =>
      rw [PoolSystem.proceed_taking hlist]
      refine hto _ (.taken con) rfl fun c => ?_
      show (t, c) ∈ (t, con) :: s.held ↔ some con = some c
      obtain rfl : held = none := hgets
      rw [List.mem_cons, or_iff_left fun hmem => nomatch (hheld c).mp hmem]
      exact ⟨fun heq => congrArg some (congrArg Prod.snd heq).symm,
        fun heq => congrArg (Prod.mk t) (Option.some.inj heq).symm⟩
  | taken con => exact hto _ (.counting con) hgets hheld
  | counting con => exact hto _ (.returning (some con)) hgets hheld
  | returning con =>
    obtain rfl : held = con := hgets
    have hself : s.handlerPast t (.returning held) t = some (next held) := by
      unfold handlerPast
      simp only
      rw [Function.update_self, hhandler]
      rfl
    refine stageOf_goto _ ?_ hheld
    rw [hself, howes]
    exact .ready (hnext held)
  | outside | releasing _ | pushing _ | freeing | leaving | destroying | closing | resettingCur
  | resettingFree | clearing | unlocking => exact hgets.elim

/-- A handler's statement of `ReleaseConnection`: behind its `push_back` it has nothing, and owes a
notification. -/
theorem giving_stage {pc : PoolPc Conn} {con : Conn} {held : Option Conn} {owed : Nat}
    {next : Unit → Handler Conn HttpResponse} (hnodup : s.held.Nodup)
    (hgives : pc.Gives con owed held) (houtside : pc ≠ .outside) (howes : s.owes.count t = owed)
    (hhandler : s.handler t = some (.call (.releaseConnection con) next))
    (hnext : Disciplined none (next ())) (hheld : ∀ con, (t, con) ∈ s.held ↔ held = some con) :
    StageOf ⟨⟨(s.proceed t pc).getD s.toPoolSystem, s.notified,
      NotifiedPool.owesBehind s.owes t pc⟩, s.handlerPast t pc⟩ t := by
  have hto : ∀ (pool : PoolSystem T Conn) (p : PoolPc Conn) {owes : List T} {held : Option Conn},
      p.Gives con (owes.count t) held → (∀ con, (t, con) ∈ pool.held ↔ held = some con) →
        StageOf ⟨⟨pool.goto t p, s.notified, owes⟩, s.handler⟩ t := by
    intro pool p owes held hp hheld
    refine stageOf_goto _ ?_ hheld
    rw [hhandler]
    exact .giving hnext hp
  cases pc with
  | releasing c =>
    obtain ⟨rfl, rfl, rfl⟩ := hgives
    exact hto _ (.pushing c) ⟨rfl, howes, rfl⟩ hheld
  | pushing c =>
    obtain ⟨rfl, rfl, rfl⟩ := hgives
    refine hto _ .freeing ⟨?_, rfl⟩ fun c' => ?_
    · show (t :: s.owes).count t = 1
      rw [List.count_cons_self, howes]
    · show (t, c') ∈ s.held.erase (t, c) ↔ none = some c'
      rw [hnodup.mem_erase_iff, hheld]
      constructor
      · rintro ⟨hne, heq⟩
        exact absurd (congrArg (Prod.mk t) (Option.some.inj heq).symm) hne
      · exact nofun
  | freeing => exact hto _ .leaving ⟨howes ▸ hgives.1, hgives.2⟩ hheld
  | leaving => exact hto _ .unlocking ⟨howes ▸ hgives.1, hgives.2⟩ hheld
  | unlocking => exact hto _ .outside ⟨howes ▸ hgives.1, hgives.2⟩ hheld
  | outside => exact absurd rfl houtside
  | locking | testing _ | waiting | taking | taken _ | counting _ | returning _ | destroying
  | closing | resettingCur | resettingFree | clearing => exact hgives.elim

/-- The next statement of a thread in the pool. -/
theorem proceed_stage (hinv : s.Inv) (h : s.StageOf t)
    (hg : machine.guard s (.pool (.pool (.proceed t)))) :
    (s.next (.pool (.pool (.proceed t)))).StageOf t := by
  obtain ⟨⟨houtside, hwaiting, -⟩, -⟩ := hg
  obtain ⟨held, hstage, hheld⟩ := h
  have hnodup : s.held.Nodup := (List.nodup_append.mp hinv.nodup).2.1.of_map
  show StageOf ⟨⟨(s.proceed t (s.pc t)).getD s.toPoolSystem, s.notified,
    NotifiedPool.owesBehind s.owes t (s.pc t)⟩, s.handlerPast t (s.pc t)⟩ t
  generalize hp : s.handler t = p at hstage
  generalize hpc : s.pc t = pc at hstage houtside hwaiting ⊢
  generalize howes : s.owes.count t = owed at hstage
  cases hstage with
  | idle => exact absurd rfl houtside
  | ready _ => exact absurd rfl houtside
  | closing hcloses =>
    have hkeep : s.handlerPast t pc = s.handler ∧ NotifiedPool.owesBehind s.owes t pc = s.owes := by
      cases pc <;> first | exact ⟨rfl, rfl⟩ | exact hcloses.elim
    rw [hkeep.1, hkeep.2]
    exact closing_stage hcloses howes hp hheld
  | getting hnext hgets =>
    have hkeep : NotifiedPool.owesBehind s.owes t pc = s.owes := by
      cases pc <;> first | rfl | exact hgets.elim
    rw [hkeep]
    exact getting_stage hpc hgets hwaiting howes hp hnext hheld
  | giving hnext hgives => exact giving_stage hnodup hgives houtside howes hp hnext hheld

/-- A sleeper goes on in `GetConnection`. -/
theorem wake_stage (h : s.StageOf t) {timedOut : Bool} (hpc : s.pc t = .waiting) :
    (s.next (.pool (.pool (.wake t timedOut)))).StageOf t := by
  obtain ⟨held, hstage, hheld⟩ := h
  rw [hpc] at hstage
  refine stageOf_goto (s.lock t) ?_ hheld
  show WorkerStage (s.handler t) _ (s.owes.count t) held
  generalize s.handler t = p at hstage ⊢
  generalize s.owes.count t = owed at hstage ⊢
  cases hstage with
  | closing hcloses => exact hcloses.elim
  | getting hnext hgets => exact .getting hnext hgets
  | giving hnext hgives => exact hgives.elim

/-- `ReleaseConnection` returns behind its notification. -/
theorem notify_stage (h : s.StageOf t) {picked : Option T} (hpc : s.pc t = .outside)
    (howes : t ∈ s.owes) : (s.next (.pool (.notify t picked))).StageOf t := by
  obtain ⟨held, hstage, hheld⟩ := h
  have hpos : 0 < s.owes.count t := List.count_pos_iff.mpr howes
  refine ⟨held, ?_, hheld⟩
  show WorkerStage (Function.update s.handler t ((s.handler t).map released) t) (s.pc t)
    ((s.owes.erase t).count t) held
  rw [Function.update_self, List.count_erase_self, hpc]
  rw [hpc] at hstage
  generalize s.handler t = p at hstage ⊢
  generalize s.owes.count t = owed at hstage hpos ⊢
  cases hstage with
  | idle => exact absurd hpos (Nat.lt_irrefl 0)
  | closing _ => exact absurd hpos (Nat.lt_irrefl 0)
  | ready _ => exact absurd hpos (Nat.lt_irrefl 0)
  | getting _ hgets => exact hgets.elim
  | giving hnext hgives =>
    obtain ⟨rfl, rfl⟩ := hgives
    exact .ready hnext

/-- A handler begins `GetConnection`, and is answered at once if the list is empty. -/
theorem getConnection_stage (h : s.StageOf t) (hready : s.Ready t)
    {next : Option Conn → Handler Conn HttpResponse}
    (hhandler : s.handler t = some (.call .getConnection next)) :
    (s.next (.pool (.pool (.getConnection t)))).StageOf t := by
  obtain ⟨held, ⟨hheldNone, hnext⟩, hheld⟩ := ready_stage h hready hhandler
  obtain rfl : held = none := hheldNone
  have howes : s.owes.count t = 0 := List.count_eq_zero_of_not_mem hready.2
  by_cases hempty : s.connList.length = 0
  · have hstep : s.step (.getConnection t) = some s.toPoolSystem := if_pos hempty
    have hupdate : s.handlerBehind (.pool (.getConnection t)) =
        Function.update s.handler t ((s.handler t).map (got none)) := if_pos hempty
    have hbehind : s.handlerBehind (.pool (.getConnection t)) t = some (next none) := by
      rw [hupdate, Function.update_self, hhandler]
      rfl
    show StageOf ⟨⟨(s.step (.getConnection t)).getD s.toPoolSystem, s.notified, s.owes⟩,
      s.handlerBehind (.pool (.getConnection t))⟩ t
    rw [hstep]
    refine ⟨none, ?_, hheld⟩
    show WorkerStage (s.handlerBehind (.pool (.getConnection t)) t) (s.pc t) (s.owes.count t) none
    rw [hbehind, hready.1, howes]
    exact .ready (hnext none)
  · have hstep : s.step (.getConnection t) = some (s.goto t .locking) := if_neg hempty
    have hbehind : s.handlerBehind (.pool (.getConnection t)) = s.handler := if_neg hempty
    show StageOf ⟨⟨(s.step (.getConnection t)).getD s.toPoolSystem, s.notified, s.owes⟩,
      s.handlerBehind (.pool (.getConnection t))⟩ t
    rw [hstep]
    refine stageOf_goto _ ?_ hheld
    rw [hbehind, hhandler, howes]
    exact .getting hnext rfl

/-- A handler begins to release the connection that it has. -/
theorem releaseConnection_stage (h : s.StageOf t) (hready : s.Ready t) {con : Conn}
    {next : Unit → Handler Conn HttpResponse}
    (hhandler : s.handler t = some (.call (.releaseConnection con) next)) :
    (t, con) ∈ s.held ∧
      (s.next (.pool (.pool (.releaseConnection t (some con))))).StageOf t := by
  obtain ⟨held, ⟨hhas, hnext⟩, hheld⟩ := ready_stage h hready hhandler
  refine ⟨(hheld con).mpr hhas, stageOf_goto s.toPoolSystem ?_ hheld⟩
  show WorkerStage (s.handler t) (.releasing con) (s.owes.count t) held
  rw [hhandler, List.count_eq_zero_of_not_mem hready.2]
  exact .giving (hnext ()) ⟨rfl, rfl, hhas⟩

/-- A handler is answered by something else than the pool. -/
theorem service_stage (h : s.StageOf t) (hready : s.Ready t) {answer : ServiceAnswer}
    (hanswered : ((s.handler t).bind (answered · answer)).isSome) :
    (s.next (.service t answer)).StageOf t := by
  obtain ⟨p', hp'⟩ := Option.isSome_iff_exists.mp hanswered
  obtain ⟨p, hp, hstep⟩ := Option.bind_eq_some_iff.mp hp'
  obtain ⟨held, hdisciplined, hheld⟩ := ready_stage h hready hp
  refine ⟨held, ?_, hheld⟩
  show WorkerStage (Function.update s.handler t ((s.handler t).bind (answered · answer)) t) (s.pc t)
    (s.owes.count t) held
  rw [Function.update_self, hp', hready.1, List.count_eq_zero_of_not_mem hready.2]
  refine .ready ?_
  unfold answered at hstep
  split at hstep
  · rw [← Option.some.inj hstep]
    exact hdisciplined.2 _
  · rw [← Option.some.inj hstep]
    exact hdisciplined.2 _
  · rw [← Option.some.inj hstep]
    exact hdisciplined.2 _
  · exact nomatch hstep

/-! ## Every run -/

/-- Whose step it is. -/
def actor : WorkerAction T Conn → T
  | .request t _ _ | .service t _ | .finish t => t
  | .pool (.pool (.getConnection t)) | .pool (.pool (.releaseConnection t _))
  | .pool (.pool (.destroyPool t)) | .pool (.pool (.proceed t)) | .pool (.pool (.wake t _)) => t
  | .pool (.notify t _) => t

/-- A step leaves all other threads where they are. -/
theorem next_leaves {action : WorkerAction T Conn} {u : T} (hu : u ≠ actor action) :
    s.Leaves (s.next action) u := by
  have hgoto : ∀ (pool : PoolSystem T Conn) {t : T} {p : PoolPc Conn}, u ≠ t →
      pool.pc = s.pc → (pool.goto t p).pc u = s.pc u := by
    intro pool t p hu hsame
    rw [PoolSystem.pc_goto, if_neg hu, hsame]
  cases action with
  | request t req resp => exact ⟨Function.update_of_ne hu .., rfl, rfl, fun _ => Iff.rfl⟩
  | service t answer => exact ⟨Function.update_of_ne hu .., rfl, rfl, fun _ => Iff.rfl⟩
  | finish t => exact ⟨Function.update_of_ne hu .., rfl, rfl, fun _ => Iff.rfl⟩
  | pool action =>
    cases action with
    | notify t picked =>
      exact ⟨Function.update_of_ne hu .., rfl, List.count_erase_of_ne hu, fun _ => Iff.rfl⟩
    | pool action =>
      cases action with
      | getConnection t =>
        by_cases hempty : s.connList.length = 0
        · have hstep : s.step (.getConnection t) = some s.toPoolSystem := if_pos hempty
          have hbehind : s.handlerBehind (.pool (.getConnection t)) =
              Function.update s.handler t ((s.handler t).map (got none)) := if_pos hempty
          show s.Leaves ⟨⟨(s.step (.getConnection t)).getD s.toPoolSystem, s.notified, s.owes⟩,
            s.handlerBehind (.pool (.getConnection t))⟩ u
          rw [hstep, hbehind]
          exact ⟨Function.update_of_ne hu .., rfl, rfl, fun _ => Iff.rfl⟩
        · have hstep : s.step (.getConnection t) = some (s.goto t .locking) := if_neg hempty
          have hbehind : s.handlerBehind (.pool (.getConnection t)) = s.handler := if_neg hempty
          show s.Leaves ⟨⟨(s.step (.getConnection t)).getD s.toPoolSystem, s.notified, s.owes⟩,
            s.handlerBehind (.pool (.getConnection t))⟩ u
          rw [hstep, hbehind]
          exact ⟨rfl, hgoto _ hu rfl, rfl, fun _ => Iff.rfl⟩
      | releaseConnection t con =>
        cases con with
        | none => exact ⟨rfl, rfl, rfl, fun _ => Iff.rfl⟩
        | some con => exact ⟨rfl, hgoto _ hu rfl, rfl, fun _ => Iff.rfl⟩
      | destroyPool t => exact ⟨rfl, hgoto _ hu rfl, rfl, fun _ => Iff.rfl⟩
      | wake t timedOut => exact ⟨rfl, hgoto (s.lock t) hu rfl, rfl, fun _ => Iff.rfl⟩
      | proceed t =>
        obtain ⟨hpc, hheld⟩ := proceed_others s.toPoolSystem hu (s.pc t)
        refine ⟨?_, hpc, ?_, hheld⟩
        · show s.handlerPast t (s.pc t) u = s.handler u
          cases s.pc t <;> first | rfl | exact Function.update_of_ne hu ..
        · show (NotifiedPool.owesBehind s.owes t (s.pc t)).count u = s.owes.count u
          unfold NotifiedPool.owesBehind
          split
          · exact List.count_cons_of_ne hu.symm
          · rfl

/-- **One step**: the step of a handler in the pool is one that the pool is made for, and every
thread is at a stage behind it. -/
theorem staged_next (hinv : s.Inv) (h : ∀ t, s.StageOf t) {action : WorkerAction T Conn}
    (hg : machine.guard s action) :
    (∀ a, action = .pool a → NotifiedPool.machine.guard s.toNotifiedPool a) ∧
      ∀ t, (s.next action).StageOf t := by
  suffices hself : (∀ a, action = .pool a → NotifiedPool.machine.guard s.toNotifiedPool a) ∧
      (s.next action).StageOf (actor action) by
    refine ⟨hself.1, fun u => ?_⟩
    by_cases hu : u = actor action
    · rw [hu]
      exact hself.2
    · exact (h u).frame (next_leaves hu)
  cases action with
  | request t req resp =>
    obtain ⟨hready, hidle⟩ := hg
    refine ⟨nofun, none, ?_, fun con => iff_of_false (idle_stage (h t) hidle con) nofun⟩
    show WorkerStage (Function.update s.handler t (some (onRequest req resp)) t) (s.pc t)
      (s.owes.count t) none
    rw [Function.update_self, hready.1, List.count_eq_zero_of_not_mem hready.2]
    exact .ready (onRequest_keeps req resp)
  | service t answer => exact ⟨nofun, service_stage (h t) hg.1 hg.2⟩
  | finish t =>
    obtain ⟨hready, resp, hdone⟩ := hg
    obtain ⟨held, hnone, hheld⟩ := ready_stage (h t) hready hdone
    refine ⟨nofun, held, ?_, hheld⟩
    show WorkerStage (Function.update s.handler t none t) (s.pc t) (s.owes.count t) held
    obtain rfl : held = none := hnone
    rw [Function.update_self, hready.1, List.count_eq_zero_of_not_mem hready.2]
    exact .idle
  | pool action =>
    cases action with
    | notify t picked =>
      refine ⟨?_, notify_stage (h t) hg.1 hg.2.1⟩
      rintro _ ⟨⟩
      exact hg
    | pool action =>
      cases action with
      | getConnection t =>
        obtain ⟨hready, next, hhandler⟩ := hg
        refine ⟨?_, getConnection_stage (h t) hready hhandler⟩
        rintro _ ⟨⟩
        refine ⟨hready.1, ?_⟩
        rintro _ ⟨⟩
        exact hready.2
      | releaseConnection t con =>
        obtain ⟨hready, con, next, rfl, hhandler⟩ := hg
        obtain ⟨hmem, hstage⟩ := releaseConnection_stage (h t) hready hhandler
        refine ⟨?_, hstage⟩
        rintro _ ⟨⟩
        refine ⟨⟨hready.1, ?_⟩, ?_⟩
        · rintro _ ⟨⟩
          exact hmem
        · rintro _ ⟨⟩
          exact hready.2
      | destroyPool t =>
        obtain ⟨hready, hidle⟩ := hg
        have hheld : ∀ con, (t, con) ∈ s.held ↔ none = some con :=
          fun con => iff_of_false (idle_stage (h t) hidle con) nofun
        refine ⟨?_, stageOf_goto s.toPoolSystem ?_ hheld⟩
        · rintro _ ⟨⟩
          refine ⟨hready.1, ?_⟩
          rintro _ ⟨⟩
          exact hready.2
        · show WorkerStage (s.handler t) .destroying (s.owes.count t) none
          rw [hidle, List.count_eq_zero_of_not_mem hready.2]
          exact .closing trivial
      | proceed t =>
        refine ⟨?_, proceed_stage hinv (h t) hg⟩
        rintro _ ⟨⟩
        exact hg
      | wake t timedOut =>
        refine ⟨?_, wake_stage (h t) hg.1.1⟩
        rintro _ ⟨⟩
        exact hg

/-- **What the handlers do is what the pool is made for.** -/
def simulates : Machine.Simulation (machine : Machine (WorkerSystem T Conn) (WorkerAction T Conn))
    (NotifiedPool.machine : Machine (NotifiedPool T Conn) (WakeupAction T Conn)) where
  rel s p := s.toNotifiedPool = p ∧ NotifiedPool.machine.Reachable p ∧ ∀ t, s.StageOf t
  shows
    | .pool action, actions => actions = [action]
    | _, actions => actions = []
  init s h := by
    refine ⟨s.toNotifiedPool, h.1, rfl, .init h.1, fun t => ?_⟩
    obtain ⟨⟨⟨conns, -, hstart⟩, -, howes⟩, hidle⟩ := h
    refine ⟨none, ?_, fun con => ?_⟩
    · rw [hidle t, howes, hstart]
      exact .idle
    · rw [hstart]
      exact iff_of_false List.not_mem_nil nofun
  step s p action := by
    rintro ⟨rfl, hreach, hstages⟩ hg
    obtain ⟨hguard, hstages'⟩ := staged_next (NotifiedPool.inv_of_reachable hreach) hstages hg
    cases action with
    | pool action =>
      have hg' := hguard action rfl
      exact ⟨[action], rfl, ⟨hg', trivial⟩, rfl, .step hreach hg' trivial, hstages'⟩
    | request t req resp => exact ⟨[], rfl, trivial, rfl, hreach, hstages'⟩
    | service t answer => exact ⟨[], rfl, trivial, rfl, hreach, hstages'⟩
    | finish t => exact ⟨[], rfl, trivial, rfl, hreach, hstages'⟩

theorem staged_of_reachable (h : machine.Reachable s) :
    NotifiedPool.machine.Reachable s.toNotifiedPool ∧ ∀ t, s.StageOf t := by
  obtain ⟨_, -, rfl, hreach, hstages⟩ := simulates.reachable h
  exact ⟨hreach, hstages⟩

/-- **The io threads share the pool.** In every interleaving of any number of threads that handle
any requests, whatever they are answered: the calls they make are the calls that the pool is made
for; no connection is twice in the list and the hands together; a thread without a handler has no
connection; a query is made on a connection that its thread has and no other thread, and that is
neither free nor closed; and when no thread has a handler, and before `DestroyPool`, the list has
all connections. -/
theorem workers_share (h : machine.Reachable s) :
    NotifiedPool.machine.Reachable s.toNotifiedPool ∧
    (s.connList ++ s.held.map Prod.snd).Nodup ∧
    (∀ t con, s.handler t = none → (t, con) ∉ s.held) ∧
    (∀ t con query next, s.Ready t → s.handler t = some (.call (.realQuery con query) next) →
      (t, con) ∈ s.held ∧ (∀ u, (u, con) ∈ s.held → u = t) ∧ con ∉ s.connList ∧ con ∉ s.closed) ∧
    ((∀ t, s.handler t = none) → s.destroyed = false → s.connList.length = s.maxConn) := by
  obtain ⟨hreach, hstages⟩ := staged_of_reachable h
  have hinv := NotifiedPool.inv_of_reachable hreach
  refine ⟨hreach, hinv.nodup, fun t con hidle => idle_stage (hstages t) hidle con, ?_, ?_⟩
  · intro t con query next hready hhandler
    obtain ⟨held, ⟨hhas, -⟩, hheld⟩ := ready_stage (hstages t) hready hhandler
    have hmem : (t, con) ∈ s.held := (hheld con).mpr hhas
    have hsnd : con ∈ s.held.map Prod.snd := List.mem_map_of_mem hmem
    have hinj := (List.nodup_append.mp hinv.nodup).2.1
    refine ⟨hmem, fun u hu => ?_, fun hfree => ?_, fun hclosed => hinv.closed con hclosed hsnd⟩
    · exact congrArg Prod.fst (List.inj_on_of_nodup_map hinj hu hmem rfl)
    · exact List.disjoint_of_nodup_append hinv.nodup hfree hsnd
  · intro hidle hd
    have hnil : s.held = [] := List.eq_nil_iff_forall_not_mem.mpr fun ⟨t, con⟩ hmem =>
      idle_stage (hstages t) (hidle t) con hmem
    have htotal := hinv.ledger.total hd
    rw [hnil] at htotal
    simpa using htotal.symm

/-- Neither a time-out nor a spurious wake-up, nor a new request, nor the end of the program. -/
def Prompt (s : WorkerSystem T Conn) : WorkerAction T Conn → Prop
  | .service _ _ | .finish _ | .pool (.pool (.getConnection _))
  | .pool (.pool (.releaseConnection _ _)) => True
  | .request _ _ _ => False
  | .pool action => s.toNotifiedPool.Prompt action

/-- A step of the pool that no handler begins. -/
theorem prompt_of_pool (h : ∃ action, s.toNotifiedPool.Prompt action ∧
    NotifiedPool.machine.guard s.toNotifiedPool action) :
    ∃ action, s.Prompt action ∧ machine.guard s action := by
  obtain ⟨action, hprompt, hg⟩ := h
  cases action with
  | notify t picked => exact ⟨.pool (.notify t picked), hprompt, hg⟩
  | pool action =>
    cases action with
    | proceed t => exact ⟨.pool (.pool (.proceed t)), hprompt, hg⟩
    | wake t timedOut => exact ⟨.pool (.pool (.wake t timedOut)), hprompt, hg⟩
    | getConnection t => exact hprompt.elim
    | releaseConnection t con => exact hprompt.elim
    | destroyPool t => exact hprompt.elim

/-- A handler that is not in the pool makes its next call, returns, or has aborted. -/
theorem prompt_of_ready (hready : s.Ready t) {p : Handler Conn HttpResponse}
    (hp : s.handler t = some p) :
    (∃ u why next, s.handler u = some (.call (.abort why) next)) ∨
      ∃ action, s.Prompt action ∧ machine.guard s action := by
  cases p with
  | done resp => exact .inr ⟨.finish t, trivial, hready, resp, hp⟩
  | call op next =>
    have hservice : ∀ answer, (answered (.call op next) answer).isSome →
        ∃ action, s.Prompt action ∧ machine.guard s action := by
      intro answer hanswered
      refine ⟨.service t answer, trivial, hready, ?_⟩
      rw [hp]
      exact hanswered
    cases op with
    | getConnection =>
      exact .inr ⟨.pool (.pool (.getConnection t)), trivial, hready, next, hp⟩
    | releaseConnection con =>
      exact .inr ⟨.pool (.pool (.releaseConnection t (some con))), trivial, hready, con, next, rfl,
        hp⟩
    | realQuery con query => exact .inr (hservice (.realQuery .error) rfl)
    | stat filename => exact .inr (hservice (.stat none) rfl)
    | mmap filename size => exact .inr (hservice (.mmap none) rfl)
    | abort why => exact .inl ⟨t, why, next, hp⟩

/-- **The io threads are not stuck in the pool.** While a handler runs, and before `DestroyPool`, a
handler has aborted, or some thread goes on with a statement, an answer or a notification, without
anybody's time being over: who waits for a connection waits for a handler that has one, and that
handler waits for nobody. -/
theorem workers_go_on (h : machine.Reachable s) (hd : s.destroyed = false)
    (hbusy : s.handler t ≠ none) :
    (∃ u why next, s.handler u = some (.call (.abort why) next)) ∨
      ∃ action, s.Prompt action ∧ machine.guard s action := by
  obtain ⟨hreach, hstages⟩ := staged_of_reachable h
  by_cases hout : s.pc t = .outside
  · by_cases howes : t ∈ s.owes
    · exact .inr (prompt_of_pool (NotifiedPool.prompt_of_owing hout howes))
    · obtain ⟨p, hp⟩ := Option.ne_none_iff_exists'.mp hbusy
      exact prompt_of_ready ⟨hout, howes⟩ hp
  by_cases hwaiting : s.pc t = .waiting
  · rcases NotifiedPool.stands_still hreach hwaiting with hgoes | ⟨-, hstill, hlength⟩
    · exact .inr (prompt_of_pool hgoes)
    -- every connection is out, and its handler is not in the pool
    have hpos := PoolSystem.maxConn_pos (NotifiedPool.pool_reachable hreach) hd hwaiting
    obtain ⟨⟨u, con⟩, hmem⟩ : ∃ e, e ∈ s.held := by
      refine List.exists_mem_of_length_pos ?_
      have hall := hlength hd
      omega
    obtain ⟨hready, p, hp⟩ := ready_of_held (hstages u) hmem (hstill u)
    exact prompt_of_ready hready hp
  · have hinv := NotifiedPool.inv_of_reachable hreach
    exact .inr (prompt_of_pool (NotifiedPool.prompt_of_inside hinv hout hwaiting))

/-! ## Two logins and one connection -/

/-- A login, as the parser leaves it. -/
def loginRequest : HttpRequest where
  method := .kPost
  path := ascii "/login"
  body := ascii "u=alice&p=secret"

/-- What `onRequest` does with it first. -/
theorem onRequest_loginRequest (resp : HttpResponse) :
    ∃ next query next', (onRequest loginRequest resp : Handler Nat HttpResponse) =
      .call .getConnection next ∧ next (some 5) = .call (.realQuery 5 query) next' := by
  have hsplit : splitForm loginRequest.body = .ok (some (ascii "alice", ascii "secret")) := by
    decide +kernel
  rw [onRequest_login rfl rfl, orAbort_ok hsplit]
  exact ⟨_, _, _, rfl, rfl⟩

/-- Two threads log in, one behind the other on the same connection. -/
def twoLogins : List (WorkerAction Bool Nat) :=
  [.request true loginRequest { closeConnection := false },
    .request false loginRequest { closeConnection := false }] ++
  ([.getConnection true, .getConnection false, .proceed true, .proceed true, .proceed true,
    .proceed true, .proceed true, .proceed true, .proceed false, .proceed false].map
      fun action => .pool (.pool action))

/-- A pool of one connection. -/
def oneConnection : WorkerSystem Bool Nat := ⟨⟨PoolSystem.start [5], [], []⟩, fun _ => none⟩

theorem twoLogins_legal : machine.Legal oneConnection twoLogins := by
  obtain ⟨next, query, next', hbegin, hquery⟩ :=
    onRequest_loginRequest { closeConnection := false }
  have hready : ∀ t : Bool, t ∉ ([] : List Bool) := fun _ => List.not_mem_nil
  refine ⟨⟨⟨rfl, hready _⟩, rfl⟩, ⟨⟨rfl, hready _⟩, rfl⟩, ⟨⟨rfl, hready _⟩, next, ?_⟩,
    ⟨⟨rfl, hready _⟩, next, ?_⟩, ⟨⟨nofun, nofun, fun _ => rfl⟩, nofun⟩,
    ⟨⟨nofun, nofun, nofun⟩, nofun⟩, ⟨⟨nofun, nofun, nofun⟩, nofun⟩, ⟨⟨nofun, nofun, nofun⟩, nofun⟩,
    ⟨⟨nofun, nofun, nofun⟩, nofun⟩, ⟨⟨nofun, nofun, nofun⟩, nofun⟩,
    ⟨⟨nofun, nofun, fun _ => rfl⟩, nofun⟩, ⟨⟨nofun, nofun, nofun⟩, nofun⟩, trivial⟩
  · exact congrArg some hbegin
  · exact congrArg some hbegin

theorem twoLogins_reachable : machine.Reachable (machine.after oneConnection twoLogins) :=
  Machine.Reachable.run (.init ⟨⟨⟨[5], List.nodup_singleton 5, rfl⟩, rfl, rfl⟩, fun _ => rfl⟩)
    twoLogins_legal

/-- The first one has the connection and is about to ask, and the second one sleeps. -/
theorem twoLogins_handlers : let s := machine.after oneConnection twoLogins
    (∃ query next, s.handler true = some (.call (.realQuery 5 query) next)) ∧
      ∃ next, s.handler false = some (.call .getConnection next) := by
  obtain ⟨next, query, next', hbegin, hquery⟩ :=
    onRequest_loginRequest { closeConnection := false }
  refine ⟨⟨query, next', ?_⟩, next, congrArg some hbegin⟩
  show some (got (some 5) (onRequest loginRequest { closeConnection := false })) = _
  rw [hbegin, ← hquery]
  rfl

theorem workers_share_example : let s := machine.after oneConnection twoLogins
    (true, 5) ∈ s.held ∧ (∀ u, (u, 5) ∈ s.held → u = true) ∧ 5 ∉ s.connList := by
  obtain ⟨⟨query, next, hquery⟩, -⟩ := twoLogins_handlers
  obtain ⟨-, -, -, hown, -⟩ := workers_share twoLogins_reachable
  obtain ⟨hmem, halone, hfree, -⟩ := hown true 5 query next ⟨rfl, List.not_mem_nil⟩ hquery
  exact ⟨hmem, halone, hfree⟩

theorem workers_go_on_example : let s := machine.after oneConnection twoLogins
    s.pc false = .waiting ∧ ∃ action, s.Prompt action ∧ machine.guard s action := by
  obtain ⟨⟨query, next, hquery⟩, next', hget⟩ := twoLogins_handlers
  refine ⟨rfl, (workers_go_on twoLogins_reachable rfl (t := false) ?_).resolve_left ?_⟩
  · rw [hget]
    exact Option.some_ne_none _
  · rintro ⟨u, why, rest, habort⟩
    cases u with
    | false => exact nomatch Option.some.inj (hget.symm.trans habort)
    | true => exact nomatch Option.some.inj (hquery.symm.trans habort)

end WorkerSystem

end SimpleHttpServer
