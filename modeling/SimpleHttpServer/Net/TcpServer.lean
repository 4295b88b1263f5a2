import SimpleHttpServer.Net.EventLoop
import SimpleHttpServer.Net.InetAddress

/-!
# `TcpServer`: connections across loops

Model of `newConnection`, `removeConnection` and `removeConnectionInLoop` (`net/TcpServer.cpp`), of
`EventLoopThreadPool::getNextLoop` and of the `runInLoop` that these call. A server with a base loop
and `n` io loops; a loop's thread is named by its loop. The base loop accepts (`newConnection`), and
each connection is set up and torn down on a loop of its own. A function that ends in `runInLoop` or
`queueInLoop` is one step up to that call's push; the wakeup that follows is a step of the called
loop (`EventLoop`), and until it is made the thread does nothing else. Other functors may be queued
at any time.

What the machine records: `accepted` lists the connections that the base loop was given, with the
name and the loop that are theirs, whatever `newConnection` makes of them; `closed` lists those
whose `handleClose` has run; `ran` lists what has been run, on which loop, and whether in its
pending-functor phase.

* `Inv hand` is the invariant, with the functors that a thread has in hand, between taking and
  running them or between creating and queueing them;
* **`server_bookkept`**: in every reachable state, up to `2 ^ 31 - 1` accepts, the names are
  distinct, `connections_` is what it should be, and every accepted connection is set up once and
  torn down at most once, in that order, on its own loop.

Left out: the sockets and the addresses of a connection, its callbacks, and what
`connectEstablished` and `connectDestroyed` do to it (`TcpConnection`); `start` and the end of a
server.
-/

namespace SimpleHttpServer

open Lib

/-- The base loop, or one of the `n` io loops. -/
abbrev LoopId (n : Nat) := Option (Fin n)

/-- A connection as the server knows it: its object, its name and its loop. -/
structure Connection (n : Nat) where
  /-- Which object it is: how many were accepted before. -/
  serial : Nat
  name : Bytes
  loop : LoopId n
  deriving DecidableEq

/-- What the server queues. -/
inductive ServerFunctor (n : Nat) where
  | connectEstablished (conn : Connection n)
  | removeConnectionInLoop (conn : Connection n)
  | connectDestroyed (conn : Connection n)
  /-- Anything else. -/
  | other
  deriving DecidableEq

/-- The loop a functor is for. -/
def ServerFunctor.home {n : Nat} : ServerFunctor n → LoopId n
  | .connectEstablished conn | .connectDestroyed conn => conn.loop
  | _ => none

/-- A functor was run on a loop. -/
structure Ran (n : Nat) where
  functor : ServerFunctor n
  loop : LoopId n
  inFunctors : Bool
  deriving DecidableEq

/-- A server, its loops, and what has happened. -/
structure TcpServer (n : Nat) where
  ipPort : Bytes
  name : Bytes
  /-- `threadPool_->next_`. -/
  next : Nat
  nextConnId : BitVec 32
  connections : Bytes → Option (Connection n)
  loops : LoopId n → EventLoop (LoopId n) (ServerFunctor n)
  accepted : List (Connection n)
  closed : List (Connection n)
  ran : List (Ran n)

/-- A step of a loop, or what its poll has reported to it. -/
inductive ServerAction (n : Nat) where
  /-- A step of a loop's thread in `loop()`, or of another thread on that loop. -/
  | inLoop (l : LoopId n) (a : LoopAction (LoopId n) (ServerFunctor n))
  /-- The base loop accepts a connection. -/
  | newConnection
  /-- The loop of `conn` runs its `handleClose`. -/
  | handleClose (conn : Connection n)

namespace TcpServer

variable {n : Nat}

/-- `EventLoopThreadPool::getNextLoop`: the loop, and `next_` after the call. There are no io loops,
or `next_` is the index of one. -/
def getNextLoop (next : Nat) : LoopId n × Nat :=
  if h : next < n then (some ⟨next, h⟩, if n ≤ next + 1 then 0 else next + 1) else (none, next)

/-- What `snprintf` leaves in `char buf[64]`. -/
def nameSuffix (ipPort : Bytes) (connId : BitVec 32) : Bytes :=
  (ascii "-" ++ ipPort ++ ascii "#" ++ printInt connId.toInt).take 63

/-- The name of the next connection. -/
def connName (s : TcpServer n) : Bytes := s.name ++ nameSuffix s.ipPort s.nextConnId

/-- A step of loop `l`. -/
def stepLoop (s : TcpServer n) (l : LoopId n) (a : LoopAction (LoopId n) (ServerFunctor n)) :
    TcpServer n :=
  { s with loops := Function.update s.loops l ((s.loops l).next a) }

/-- `loops l ->queueInLoop(f)` on thread `t`, up to the push. -/
def queueInLoop (s : TcpServer n) (t l : LoopId n) (f : ServerFunctor n) : TcpServer n :=
  s.stepLoop l (if t = l then .selfPush f else .push t f)

/-- Thread `t` runs a functor. -/
def run (s : TcpServer n) (t : LoopId n) (f : ServerFunctor n) : TcpServer n :=
  let s := { s with ran := s.ran ++ [⟨f, t, (s.loops t).pc.inFunctors⟩] }
  match f with
  | .removeConnectionInLoop conn =>
    { s with connections := Function.update s.connections conn.name none }.queueInLoop t conn.loop
      (.connectDestroyed conn)
  | _ => s

/-- `loops l ->runInLoop(f)` on thread `t`. -/
def runInLoop (s : TcpServer n) (t l : LoopId n) (f : ServerFunctor n) : TcpServer n :=
  if t = l then s.run t f else s.queueInLoop t l f

/-- `newConnection` up to its `runInLoop`. -/
def insertConnection (s : TcpServer n) (conn : Connection n) (next : Nat) : TcpServer n :=
  { s with
    next, nextConnId := s.nextConnId + 1
    connections := Function.update s.connections conn.name (some conn) }

/-- `newConnection`; `serial` is the new object. -/
def newConnection (s : TcpServer n) (serial : Nat) : TcpServer n :=
  let (ioLoop, next) := getNextLoop (n := n) s.next
  let conn : Connection n := ⟨serial, s.connName, ioLoop⟩
  (s.insertConnection conn next).runInLoop none ioLoop (.connectEstablished conn)

/-- The connection that is accepted next. -/
def coming (s : TcpServer n) : Connection n :=
  ⟨s.accepted.length, s.connName, (getNextLoop s.next).1⟩

/-- `closeCallback_` of `handleClose`, on the connection's thread. -/
def removeConnection (s : TcpServer n) (conn : Connection n) : TcpServer n :=
  s.runInLoop conn.loop none (.removeConnectionInLoop conn)

/-- Thread `t` is not in a call of `queueInLoop` or `quit`. -/
def Free (s : TcpServer n) (t : LoopId n) : Prop :=
  (s.loops t).self = .idle ∧ ∀ l, (s.loops l).callers t = .idle

/-- How often a functor has been run. -/
def runs (s : TcpServer n) (f : ServerFunctor n) : Nat := (s.ran.map Ran.functor).count f

/-- Runs start before the first accept. -/
def machine (n : Nat) : Machine (TcpServer n) (ServerAction n) where
  init s := (∃ listenAddr : InetAddress, s.ipPort = listenAddr.toIpPort) ∧ s.next = 0 ∧
    s.nextConnId = 1 ∧ s.connections = (fun _ => none) ∧ s.accepted = [] ∧ s.closed = [] ∧
    s.ran = [] ∧ ∀ l, ∀ f ∈ (s.loops l).queue, f = .other
  guard s
    | .inLoop l a => (s.loops l).guard a ∧ (∀ f ∈ a.pushed, f = .other) ∧
        match a with
        | .push t _ | .storeQuit t => t ≠ l ∧ s.Free t ∧ (s.loops t).pc.inUserCode = true
        | .advance _ | .selfPush _ | .selfQuit => s.Free l
        | _ => True
    | .newConnection => s.Free none ∧ ∃ woken, (s.loops none).pc = .dispatching woken
    | .handleClose conn => s.Free conn.loop ∧
        (∃ woken, (s.loops conn.loop).pc = .dispatching woken) ∧
        0 < s.runs (.connectEstablished conn) ∧ conn ∉ s.closed
  next s
    | .inLoop l a => ((s.loops l).started a).foldl (fun s f => s.run l f) (s.stepLoop l a)
    | .newConnection =>
      { s with accepted := s.accepted ++ [s.coming] }.newConnection s.coming.serial
    | .handleClose conn => { s with closed := s.closed ++ [conn] }.removeConnection conn

/-- Whenever `g` was run, `f` had been run before. -/
def Before (f g : ServerFunctor n) (ran : List (Ran n)) : Prop :=
  ∀ pre r post, ran = pre ++ r :: post → r.functor = g → ∃ e ∈ pre, e.functor = f

/-- What the bookkeeping of a server is for. -/
structure Bookkept (s : TcpServer n) : Prop where
  names : (s.accepted.map Connection.name).Nodup
  /-- The next insertion into `connections_` replaces no entry. -/
  inserts : s.accepted.length + 1 < 2 ^ 31 → s.connections s.connName = none
  /-- `connections_` holds the accepted connections that were not removed. -/
  connections : ∀ name conn, s.connections name = some conn ↔
    conn ∈ s.accepted ∧ conn.name = name ∧ s.runs (.removeConnectionInLoop conn) = 0
  /-- `connectEstablished` has run once, or is queued once. -/
  established : ∀ conn ∈ s.accepted, s.runs (.connectEstablished conn) +
    (s.loops conn.loop).queue.count (.connectEstablished conn) = 1
  destroyed : ∀ conn, s.runs (.connectDestroyed conn) ≤ 1
  ownLoop : ∀ r ∈ s.ran, ∀ conn, r.functor = .connectEstablished conn ∨
    r.functor = .connectDestroyed conn → conn ∈ s.accepted ∧ r.loop = conn.loop
  order : ∀ conn, Before (.connectEstablished conn) (.connectDestroyed conn) s.ran
  phase : ∀ r ∈ s.ran, ∀ conn, r.functor = .connectDestroyed conn → r.inFunctors = true

/-! ## Names -/

theorem nameSuffix_of_lt {ipPort : Bytes} (hip : ipPort.length ≤ 21) {i : Nat} (hi : i < 2 ^ 31) :
    nameSuffix ipPort (BitVec.ofNat 32 i) = ascii "-" ++ ipPort ++ ascii "#" ++ decimal i := by
  have hprint : printInt (BitVec.ofNat 32 i).toInt = decimal i := by
    rw [show (BitVec.ofNat 32 i).toInt = i from toInt_of_lt hi, printInt_natCast]
  have hlen : (decimal i).length ≤ 10 := length_decimal_le (by omega) (by omega)
  have hdash : (ascii "-").length = 1 := by decide
  have hhash : (ascii "#").length = 1 := by decide
  unfold nameSuffix
  rw [hprint, List.take_of_length_le]
  simp only [List.length_append]
  omega

/-- The ids of the connections give them distinct names. -/
theorem nameSuffix_inj {ipPort : Bytes} (hip : ipPort.length ≤ 21) {i j : Nat} (hi : i < 2 ^ 31)
    (hj : j < 2 ^ 31)
    (h : nameSuffix ipPort (BitVec.ofNat 32 i) = nameSuffix ipPort (BitVec.ofNat 32 j)) :
    i = j := by
  rw [nameSuffix_of_lt hip hi, nameSuffix_of_lt hip hj] at h
  exact decimal_injective (List.append_cancel_left h)

/-! ## The invariant -/

/-- How often a functor is queued, was run, or is in hand. -/
def tally (s : TcpServer n) (hand : List (ServerFunctor n)) (f : ServerFunctor n) : Nat :=
  (s.loops f.home).queue.count f + s.runs f + hand.count f

/-- The invariant, with the functors in hand. -/
structure Inv (hand : List (ServerFunctor n)) (s : TcpServer n) : Prop where
  ipPort : s.ipPort.length ≤ 21
  atHome : ∀ l, ∀ f ∈ (s.loops l).queue, f = .other ∨ l = f.home
  ranHome : ∀ r ∈ s.ran, r.functor = .other ∨ r.loop = r.functor.home
  /-- Each accepted connection is set up once. -/
  established : ∀ conn, s.tally hand (.connectEstablished conn) = s.accepted.count conn
  /-- Each closed connection is removed once. -/
  removed : ∀ conn, s.tally hand (.removeConnectionInLoop conn) = s.closed.count conn
  /-- Each removed connection is destroyed once. -/
  destroyed : ∀ conn,
    s.tally hand (.connectDestroyed conn) = s.runs (.removeConnectionInLoop conn)
  closedOnce : s.closed.Nodup
  closed : ∀ conn ∈ s.closed, 0 < s.runs (.connectEstablished conn)
  serials : s.accepted.map Connection.serial = List.range s.accepted.length
  connId : s.nextConnId = BitVec.ofNat 32 (s.accepted.length + 1)
  named : ∀ conn ∈ s.accepted,
    conn.name = s.name ++ nameSuffix s.ipPort (BitVec.ofNat 32 (conn.serial + 1))
  order : ∀ conn, Before (.connectEstablished conn) (.connectDestroyed conn) s.ran
  phase : ∀ r ∈ s.ran, ∀ conn, r.functor = .connectDestroyed conn → r.inFunctors = true
  connections : s.accepted.length < 2 ^ 31 → ∀ name conn, s.connections name = some conn ↔
    conn ∈ s.accepted ∧ conn.name = name ∧ s.runs (.removeConnectionInLoop conn) = 0

variable {s : TcpServer n} {hand : List (ServerFunctor n)}

theorem Inv.serial_lt (h : Inv hand s) {conn : Connection n} (hconn : conn ∈ s.accepted) :
    conn.serial < s.accepted.length := by
  have hmem := List.mem_map_of_mem (f := Connection.serial) hconn
  rw [h.serials] at hmem
  exact List.mem_range.mp hmem

theorem Inv.serial_inj (h : Inv hand s) {conn conn' : Connection n} (hconn : conn ∈ s.accepted)
    (hconn' : conn' ∈ s.accepted) (heq : conn.serial = conn'.serial) : conn = conn' :=
  List.inj_on_of_nodup_map (by rw [h.serials]; exact List.nodup_range) hconn hconn' heq

theorem Inv.accepted_nodup (h : Inv hand s) : s.accepted.Nodup :=
  List.Nodup.of_map Connection.serial (by rw [h.serials]; exact List.nodup_range)

theorem Inv.name_inj (h : Inv hand s) (hlt : s.accepted.length < 2 ^ 31) {conn conn' : Connection n}
    (hconn : conn ∈ s.accepted) (hconn' : conn' ∈ s.accepted) (heq : conn.name = conn'.name) :
    conn = conn' := by
  rw [h.named conn hconn, h.named conn' hconn'] at heq
  have hser := h.serial_lt hconn
  have hser' := h.serial_lt hconn'
  have hid := nameSuffix_inj h.ipPort (by omega) (by omega) (List.append_cancel_left heq)
  exact h.serial_inj hconn hconn' (by omega)

/-- The next name is new. -/
theorem Inv.connName_ne (h : Inv hand s) (hlt : s.accepted.length + 1 < 2 ^ 31)
    {conn : Connection n} (hconn : conn ∈ s.accepted) : conn.name ≠ s.connName := by
  intro heq
  rw [h.named conn hconn, connName, h.connId] at heq
  have hser := h.serial_lt hconn
  have hid := nameSuffix_inj h.ipPort (by omega) (by omega) (List.append_cancel_left heq)
  omega

/-- What was run of a connection says how far it has come. -/
theorem Inv.mem_closed (h : Inv hand s) {conn : Connection n}
    (hpos : 0 < s.tally hand (.removeConnectionInLoop conn)) : conn ∈ s.closed := by
  rw [h.removed conn] at hpos
  exact List.count_pos_iff.mp hpos

theorem Inv.mem_accepted (h : Inv hand s) {conn : Connection n}
    (hpos : 0 < s.tally hand (.connectEstablished conn)) : conn ∈ s.accepted := by
  rw [h.established conn] at hpos
  exact List.count_pos_iff.mp hpos

theorem runs_le_tally (s : TcpServer n) (hand : List (ServerFunctor n)) (f : ServerFunctor n) :
    s.runs f ≤ s.tally hand f := by
  unfold tally
  omega

theorem Inv.accepted_of_closed (h : Inv hand s) {conn : Connection n} (hconn : conn ∈ s.closed) :
    conn ∈ s.accepted :=
  h.mem_accepted ((h.closed conn hconn).trans_le (runs_le_tally s hand _))

/-! ## Steps of a loop -/

theorem stepLoop_self (s : TcpServer n) (l : LoopId n)
    (a : LoopAction (LoopId n) (ServerFunctor n)) :
    (s.stepLoop l a).loops l = (s.loops l).next a :=
  Function.update_self _ _ _

/-- The queues after a step of loop `l`. -/
theorem count_stepLoop (s : TcpServer n) (l : LoopId n)
    (a : LoopAction (LoopId n) (ServerFunctor n)) (f : ServerFunctor n) :
    (s.loops l).queue.count f + a.pushed.count f =
      ((s.loops l).started a).count f + ((s.stepLoop l a).loops l).queue.count f := by
  rw [stepLoop_self, ← List.count_append, ← List.count_append, ((s.loops l).next_queue a).1]

theorem stepLoop_of_ne (s : TcpServer n) {l l' : LoopId n} (h : l' ≠ l)
    (a : LoopAction (LoopId n) (ServerFunctor n)) : (s.stepLoop l a).loops l' = s.loops l' :=
  Function.update_of_ne h _ _

theorem mem_queue_stepLoop {l l' : LoopId n} {a : LoopAction (LoopId n) (ServerFunctor n)}
    {f : ServerFunctor n} (h : f ∈ ((s.stepLoop l a).loops l').queue) :
    f ∈ (s.loops l').queue ∨ l' = l ∧ f ∈ a.pushed := by
  by_cases hl : l' = l
  · subst hl
    have hmem : f ∈ (s.loops l').queue ++ a.pushed := by
      rw [stepLoop_self] at h
      rw [((s.loops l').next_queue a).1]
      exact List.mem_append_right _ h
    exact (List.mem_append.mp hmem).imp_right fun hp => ⟨rfl, hp⟩
  · rw [stepLoop_of_ne s hl] at h
    exact .inl h

theorem mem_queue_of_started {l : LoopId n} {a : LoopAction (LoopId n) (ServerFunctor n)}
    {f : ServerFunctor n} (hpushed : a.pushed = [] ∨ (s.loops l).started a = [])
    (h : f ∈ (s.loops l).started a) : f ∈ (s.loops l).queue := by
  rcases hpushed with hnil | hnil
  · have hqueue := ((s.loops l).next_queue a).1
    rw [hnil, List.append_nil] at hqueue
    rw [hqueue]
    exact List.mem_append_left _ h
  · rw [hnil] at h
    exact absurd h nofun

theorem pushed_or_started (e : EventLoop (LoopId n) (ServerFunctor n))
    (a : LoopAction (LoopId n) (ServerFunctor n)) : a.pushed = [] ∨ e.started a = [] := by
  cases a with
  | advance woken => exact .inl rfl
  | _ => exact .inr rfl

/-- A step that changes the loops alone, the queues and the hand together keeping the tallies. -/
theorem Inv.of_loops (h : Inv hand s) {hand' : List (ServerFunctor n)}
    {loops : LoopId n → EventLoop (LoopId n) (ServerFunctor n)}
    (hhome : ∀ l, ∀ f ∈ (loops l).queue, f = .other ∨ l = f.home)
    (htally : ∀ f, f ≠ .other → (loops f.home).queue.count f + hand'.count f =
      (s.loops f.home).queue.count f + hand.count f) : Inv hand' { s with loops } := by
  have htally' : ∀ f, f ≠ .other → tally { s with loops } hand' f = s.tally hand f := by
    intro f hf
    have heq := htally f hf
    show (loops f.home).queue.count f + s.runs f + hand'.count f = s.tally hand f
    unfold tally
    omega
  exact { h with
    atHome := hhome
    established := fun conn =>
      (htally' (.connectEstablished conn) nofun).trans (h.established conn)
    removed := fun conn => (htally' (.removeConnectionInLoop conn) nofun).trans (h.removed conn)
    destroyed := fun conn => (htally' (.connectDestroyed conn) nofun).trans (h.destroyed conn) }

/-- The functor a step starts is in hand afterwards. -/
theorem inv_stepLoop (h : Inv [] s) (l : LoopId n) {a : LoopAction (LoopId n) (ServerFunctor n)}
    (hother : ∀ f ∈ a.pushed, f = .other) :
    Inv ((s.loops l).started a) (s.stepLoop l a) := by
  refine h.of_loops (fun l' f hf => ?_) fun f hf => ?_
  · rcases mem_queue_stepLoop hf with hq | ⟨-, hp⟩
    · exact h.atHome l' f hq
    · exact .inl (hother f hp)
  · by_cases hl : f.home = l
    · subst hl
      have hcount := count_stepLoop s f.home a f
      have hpushed : a.pushed.count f = 0 := List.count_eq_zero.mpr fun hp => hf (hother f hp)
      change _ = _ + ((s.stepLoop f.home a).loops f.home).queue.count f at hcount
      show ((s.stepLoop f.home a).loops f.home).queue.count f + _ = _ + 0
      omega
    · have hstarted : ((s.loops l).started a).count f = 0 := List.count_eq_zero.mpr fun hst => by
        rcases h.atHome l f (mem_queue_of_started (pushed_or_started _ a) hst) with hother' | heq
        · exact hf hother'
        · exact hl heq.symm
      show ((s.stepLoop l a).loops f.home).queue.count f + _ = _ + 0
      rw [stepLoop_of_ne s hl, hstarted]

/-- The functor in hand is queued. -/
theorem inv_queueInLoop {f : ServerFunctor n} (h : Inv [f] s) (t : LoopId n) :
    Inv [] (s.queueInLoop t f.home f) := by
  unfold queueInLoop
  generalize ha : (if t = f.home then LoopAction.selfPush f else .push t f) = a
  have hpushed : a.pushed = [f] := by
    rw [← ha]
    split <;> rfl
  have hstarted : ∀ e : EventLoop (LoopId n) (ServerFunctor n), e.started a = [] := by
    intro e
    rw [← ha]
    split <;> rfl
  refine h.of_loops (fun l g hg => ?_) fun g hg => ?_
  · rcases mem_queue_stepLoop hg with hq | ⟨rfl, hp⟩
    · exact h.atHome l g hq
    · rw [hpushed, List.mem_singleton] at hp
      exact .inr (by rw [hp])
  · by_cases hl : g.home = f.home
    · have hcount := count_stepLoop s f.home a g
      rw [hpushed, hstarted] at hcount
      show ((s.stepLoop f.home a).loops g.home).queue.count g + 0 = _
      rw [hl]
      simpa using hcount.symm
    · have hne : [f].count g = 0 := List.count_eq_zero.mpr fun hmem => by
        rw [List.mem_singleton.mp hmem] at hl
        exact hl rfl
      show ((s.stepLoop f.home a).loops g.home).queue.count g + 0 = _
      rw [stepLoop_of_ne s hl, hne]

/-! ## Running a functor -/

theorem before_append {f g : ServerFunctor n} {ran : List (Ran n)} {r : Ran n}
    (h : Before f g ran) (hr : r.functor = g → ∃ e ∈ ran, e.functor = f) :
    Before f g (ran ++ [r]) := by
  intro pre x post heq hx
  rcases List.eq_nil_or_concat post with rfl | ⟨post', last, rfl⟩
  · obtain ⟨rfl, hlast⟩ := List.append_inj' heq rfl
    exact hr (by rw [List.singleton_inj.mp hlast]; exact hx)
  · have hcut : ran ++ [r] = (pre ++ x :: post') ++ [last] := by
      rw [heq]
      simp
    exact h pre x post' (List.append_inj' hcut rfl).1 hx

theorem exists_of_runs {f : ServerFunctor n} (h : 0 < s.runs f) :
    ∃ e ∈ s.ran, e.functor = f := by
  obtain ⟨e, he, hef⟩ := List.mem_map.mp (List.count_pos_iff.mp h)
  exact ⟨e, he, hef⟩

/-- The functor in hand is run. What it issues is in hand then. -/
theorem inv_record {f : ServerFunctor n} (h : Inv [f] s) (hand : List (ServerFunctor n))
    (connections : Bytes → Option (Connection n)) {t : LoopId n}
    (hhome : f = .other ∨ t = f.home)
    (hphase : ∀ conn, f = .connectDestroyed conn → (s.loops t).pc.inFunctors = true)
    (hissues : ∀ conn, hand.count (.connectEstablished conn) = 0 ∧
      hand.count (.removeConnectionInLoop conn) = 0 ∧
      hand.count (.connectDestroyed conn) = [f].count (.removeConnectionInLoop conn))
    (hconnections : s.accepted.length < 2 ^ 31 → ∀ name conn, connections name = some conn ↔
      conn ∈ s.accepted ∧ conn.name = name ∧
        s.runs (.removeConnectionInLoop conn) + [f].count (.removeConnectionInLoop conn) = 0) :
    Inv hand { s with ran := s.ran ++ [⟨f, t, (s.loops t).pc.inFunctors⟩], connections } := by
  have hruns : ∀ g, runs { s with
      ran := s.ran ++ [⟨f, t, (s.loops t).pc.inFunctors⟩], connections } g =
      s.runs g + [f].count g := fun g => by
    simp [runs]
  have htally : ∀ g, tally { s with
      ran := s.ran ++ [⟨f, t, (s.loops t).pc.inFunctors⟩], connections } hand g =
      s.tally [f] g + hand.count g := fun g => by
    unfold tally
    rw [hruns]
    show (s.loops g.home).queue.count g + _ + _ = _
    omega
  refine {
    ipPort := h.ipPort, atHome := h.atHome, closedOnce := h.closedOnce, serials := h.serials
    connId := h.connId, named := h.named, ranHome := ?_, established := ?_, removed := ?_
    destroyed := ?_, closed := ?_, order := ?_, phase := ?_, connections := ?_ }
  · intro r hr
    rcases List.mem_append.mp hr with hr | hr
    · exact h.ranHome r hr
    · rw [List.mem_singleton.mp hr]
      exact hhome
  · intro conn
    rw [htally, (hissues conn).1]
    exact h.established conn
  · intro conn
    rw [htally, (hissues conn).2.1]
    exact h.removed conn
  · intro conn
    rw [htally, (hissues conn).2.2, hruns, h.destroyed conn]
  · intro conn hconn
    rw [hruns]
    exact Nat.add_pos_left (h.closed conn hconn) _
  · intro conn
    refine before_append (h.order conn) fun hr => ?_
    -- it is destroyed because it was removed, so it was closed, so it was established
    have hhand : 0 < s.tally [f] (.connectDestroyed conn) := by
      have heq : f = .connectDestroyed conn := hr
      rw [heq]
      unfold tally
      simp
    rw [h.destroyed conn] at hhand
    have hclosed := h.mem_closed (hhand.trans_le (runs_le_tally s [f] _))
    exact exists_of_runs (h.closed conn hclosed)
  · intro r hr conn hconn
    rcases List.mem_append.mp hr with hr | hr
    · exact h.phase r hr conn hconn
    · rw [List.mem_singleton.mp hr] at hconn ⊢
      exact hphase conn hconn
  · intro hlt name conn
    rw [hruns]
    exact hconnections hlt name conn

theorem count_removal {f : ServerFunctor n} (hf : ∀ conn, f ≠ .removeConnectionInLoop conn)
    (conn : Connection n) : [f].count (.removeConnectionInLoop conn) = 0 :=
  List.count_eq_zero.mpr fun hmem => hf conn (List.mem_singleton.mp hmem).symm

theorem inv_run {f : ServerFunctor n} (h : Inv [f] s) {t : LoopId n}
    (hhome : f = .other ∨ t = f.home)
    (hphase : ∀ conn, f = .connectDestroyed conn → (s.loops t).pc.inFunctors = true) :
    Inv [] (s.run t f) := by
  have hplain : (∀ conn, f ≠ .removeConnectionInLoop conn) →
      Inv [] { s with ran := s.ran ++ [⟨f, t, (s.loops t).pc.inFunctors⟩] } := fun hf =>
    inv_record h [] s.connections hhome hphase
      (fun conn => ⟨rfl, rfl, (count_removal hf conn).symm⟩) fun hlt name conn => by
        rw [count_removal hf conn]
        exact h.connections hlt name conn
  cases f with
  | removeConnectionInLoop conn =>
    have haccepted : conn ∈ s.accepted :=
      h.accepted_of_closed (h.mem_closed (by unfold tally; simp))
    have hrecord := inv_record h [.connectDestroyed conn]
      (Function.update s.connections conn.name none) hhome hphase
      (fun conn' => ⟨rfl, rfl, ?_⟩) fun hlt name conn' => ?_
    · exact inv_queueInLoop hrecord t
    · by_cases hc : conn = conn'
      · subst hc
        simp
      · rw [List.count_eq_zero.mpr, List.count_eq_zero.mpr]
        · simpa using Ne.symm hc
        · simpa using Ne.symm hc
    · by_cases hname : name = conn.name
      · subst hname
        rw [Function.update_self]
        refine iff_of_false nofun ?_
        rintro ⟨hmem, heq, hnone⟩
        obtain rfl := h.name_inj hlt hmem haccepted heq
        simp at hnone
      · rw [Function.update_of_ne hname, h.connections hlt name conn']
        have hcount : conn'.name = name →
            [ServerFunctor.removeConnectionInLoop conn].count
              (.removeConnectionInLoop conn') = 0 := by
          rintro rfl
          refine List.count_eq_zero.mpr fun hmem => hname ?_
          rw [ServerFunctor.removeConnectionInLoop.inj (List.mem_singleton.mp hmem)]
        constructor
        · rintro ⟨hmem, heq, hnone⟩
          exact ⟨hmem, heq, by rw [hcount heq]; exact hnone⟩
        · rintro ⟨hmem, heq, hnone⟩
          exact ⟨hmem, heq, by omega⟩
  | _ => exact hplain nofun

/-- `runInLoop` runs the functor at once, or queues it. -/
theorem inv_runInLoop {f : ServerFunctor n} (h : Inv [f] s)
    (hf : ∀ conn, f ≠ .connectDestroyed conn) (t : LoopId n) : Inv [] (s.runInLoop t f.home f) := by
  unfold runInLoop
  split
  · rename_i hl
    exact inv_run h (.inr hl) fun conn heq => absurd heq (hf conn)
  · exact inv_queueInLoop h t

/-! ## Steps -/

/-- What was accepted goes into `connections_`, and is to be set up. -/
theorem inv_insertConnection (h : Inv [] s) (next : Nat) : Inv [.connectEstablished s.coming]
    ({ s with accepted := s.accepted ++ [s.coming] }.insertConnection s.coming next) := by
  have hnone : ∀ conn : Connection n, conn.serial = s.accepted.length →
      s.runs (.removeConnectionInLoop conn) = 0 := by
    intro conn hser
    by_contra hne
    have hpos := (Nat.pos_of_ne_zero hne).trans_le (runs_le_tally s [] _)
    exact (h.serial_lt (h.accepted_of_closed (h.mem_closed hpos))).ne hser
  have hserial : s.coming.serial = s.accepted.length := rfl
  have hname₀ : s.coming.name = s.connName := rfl
  generalize s.coming = conn₀ at hserial hname₀ ⊢
  refine { h with
    established := fun conn => ?_, connId := ?_, serials := ?_, named := ?_
    connections := fun hlt name conn => ?_ }
  · have hcount : [ServerFunctor.connectEstablished conn₀].count (.connectEstablished conn) =
        [conn₀].count conn := by
      simp [List.count_singleton]
    show s.tally [] (.connectEstablished conn) +
      [ServerFunctor.connectEstablished conn₀].count (.connectEstablished conn) =
        (s.accepted ++ [conn₀]).count conn
    rw [List.count_append, h.established conn, hcount]
  · show (s.accepted ++ [conn₀]).map Connection.serial = List.range (s.accepted ++ [conn₀]).length
    rw [List.map_append, h.serials, List.length_append, List.length_singleton, List.range_succ,
      List.map_singleton, hserial]
  · show s.nextConnId + 1 = BitVec.ofNat 32 ((s.accepted ++ [conn₀]).length + 1)
    rw [h.connId, List.length_append, List.length_singleton]
    exact (BitVec.ofNat_add (s.accepted.length + 1) 1).symm
  · intro conn hmem
    rcases List.mem_append.mp hmem with hmem | hmem
    · exact h.named conn hmem
    · rw [List.mem_singleton.mp hmem, hname₀, hserial, connName, h.connId]
      rfl
  · change (s.accepted ++ [conn₀]).length < _ at hlt
    rw [List.length_append, List.length_singleton] at hlt
    show Function.update s.connections conn₀.name (some conn₀) name = _ ↔
      conn ∈ s.accepted ++ [conn₀] ∧ _
    rw [List.mem_append, List.mem_singleton]
    by_cases hname : name = conn₀.name
    · subst hname
      rw [Function.update_self]
      constructor
      · intro heq
        obtain rfl := Option.some.inj heq
        exact ⟨.inr rfl, rfl, hnone _ hserial⟩
      · rintro ⟨hmem | rfl, heq, -⟩
        · exact absurd (heq.trans hname₀) (h.connName_ne hlt hmem)
        · rfl
    · rw [Function.update_of_ne hname, h.connections (by omega) name conn]
      constructor
      · rintro ⟨hmem, heq, hrun⟩
        exact ⟨.inl hmem, heq, hrun⟩
      · rintro ⟨hmem | rfl, heq, hrun⟩
        · exact ⟨hmem, heq, hrun⟩
        · exact absurd heq.symm hname

/-- `newConnection` makes what was accepted. -/
theorem inv_newConnection (h : Inv [] s) : Inv []
    ({ s with accepted := s.accepted ++ [s.coming] }.newConnection s.coming.serial) :=
  inv_runInLoop (inv_insertConnection h (getNextLoop (n := n) s.next).2) nofun none

theorem inv_handleClose (h : Inv [] s) {conn : Connection n}
    (hestablished : 0 < s.runs (.connectEstablished conn)) (hopen : conn ∉ s.closed) :
    Inv [] ({ s with closed := s.closed ++ [conn] }.removeConnection conn) := by
  have hclose : Inv [.removeConnectionInLoop conn] { s with closed := s.closed ++ [conn] } := by
    refine { h with removed := fun conn' => ?_, closedOnce := ?_, closed := fun conn' hmem => ?_ }
    · have hcount : [ServerFunctor.removeConnectionInLoop conn].count
          (.removeConnectionInLoop conn') = [conn].count conn' := by
        simp [List.count_singleton]
      show s.tally [] (.removeConnectionInLoop conn') +
        [ServerFunctor.removeConnectionInLoop conn].count (.removeConnectionInLoop conn') = _
      rw [List.count_append, h.removed conn', hcount]
    · refine List.nodup_append.mpr ⟨h.closedOnce, List.nodup_singleton conn, ?_⟩
      rintro c hc _ hmem rfl
      rw [List.mem_singleton.mp hmem] at hc
      exact hopen hc
    · rcases List.mem_append.mp hmem with hmem | hmem
      · exact h.closed conn' hmem
      · rw [List.mem_singleton.mp hmem]
        exact hestablished
  exact inv_runInLoop hclose nofun conn.loop

/-- A functor is started in the pending-functor phase. -/
theorem inFunctors_of_started {e : EventLoop (LoopId n) (ServerFunctor n)}
    {a : LoopAction (LoopId n) (ServerFunctor n)} (h : e.started a ≠ []) :
    (e.next a).pc.inFunctors = true := by
  cases a with
  | advance woken =>
    show (e.advance woken).pc.inFunctors = true
    change e.pc.starts ≠ [] at h
    unfold EventLoop.advance
    cases hpc : e.pc with
    | iterating rest =>
      rw [hpc] at h
      cases rest with
      | nil => exact absurd rfl h
      | cons f rest => rfl
    | _ =>
      rw [hpc] at h
      exact absurd rfl h
  | _ => exact absurd rfl h

theorem inv_inLoop (h : Inv [] s) {l : LoopId n} {a : LoopAction (LoopId n) (ServerFunctor n)}
    (hother : ∀ f ∈ a.pushed, f = .other) : Inv [] ((machine n).next s (.inLoop l a)) := by
  show Inv [] (((s.loops l).started a).foldl (fun s f => s.run l f) (s.stepLoop l a))
  have hstep := inv_stepLoop h l hother
  rcases (s.loops l).started_cases a with hst | ⟨f, hst⟩
  · rw [hst] at hstep ⊢
    exact hstep
  · rw [hst] at hstep ⊢
    have hqueued : f ∈ (s.loops l).queue :=
      mem_queue_of_started (pushed_or_started _ a) (by rw [hst]; exact List.mem_singleton_self f)
    refine inv_run hstep (h.atHome l f hqueued) fun _ _ => ?_
    rw [stepLoop_self]
    exact inFunctors_of_started (by rw [hst]; nofun)

theorem inv_next (h : Inv [] s) {a : ServerAction n} (hg : (machine n).guard s a) :
    Inv [] ((machine n).next s a) := by
  cases a with
  | inLoop l a => exact inv_inLoop h hg.2.1
  | newConnection => exact inv_newConnection h
  | handleClose conn => exact inv_handleClose h hg.2.2.1 hg.2.2.2

theorem inv_init (h : (machine n).init s) : Inv [] s := by
  obtain ⟨⟨addr, hip⟩, -, hid, hconn, hacc, hclosed, hran, hqueue⟩ := h
  have htally : ∀ f : ServerFunctor n, f ≠ .other → s.tally [] f = 0 := by
    intro f hf
    have hcount : (s.loops f.home).queue.count f = 0 :=
      List.count_eq_zero.mpr fun hmem => hf (hqueue _ f hmem)
    unfold tally runs
    rw [hcount, hran]
    rfl
  refine {
    ipPort := by rw [hip]; exact addr.length_toIpPort_le
    atHome := fun l f hf => .inl (hqueue l f hf)
    ranHome := by rw [hran]; nofun
    established := fun conn => ?_, removed := fun conn => ?_, destroyed := fun conn => ?_
    closedOnce := by rw [hclosed]; exact .nil
    closed := by rw [hclosed]; nofun
    serials := by rw [hacc]; rfl
    connId := by rw [hid, hacc]; rfl
    named := by rw [hacc]; nofun
    order := fun conn pre r post heq => ?_
    phase := by rw [hran]; nofun
    connections := fun _ name conn => ?_ }
  · rw [htally (.connectEstablished conn) nofun, hacc]
    rfl
  · rw [htally (.removeConnectionInLoop conn) nofun, hclosed]
    rfl
  · rw [htally (.connectDestroyed conn) nofun, runs, hran]
    rfl
  · rw [hran] at heq
    simp at heq
  · rw [hconn, hacc]
    exact iff_of_false nofun fun hmem => absurd hmem.1 nofun

theorem inv_of_reachable (h : (machine n).Reachable s) : Inv [] s :=
  Machine.Reachable.invariant h (fun _ => inv_init) fun _ _ hi hg => inv_next hi hg

/-! ## The round robin -/

theorem next_run (s : TcpServer n) (t : LoopId n) (f : ServerFunctor n) :
    (s.run t f).next = s.next := by
  cases f <;> rfl

theorem next_runInLoop (s : TcpServer n) (t l : LoopId n) (f : ServerFunctor n) :
    (s.runInLoop t l f).next = s.next := by
  unfold runInLoop
  split
  · exact next_run s t f
  · rfl

theorem getNextLoop_lt (next : Nat) (h : 0 < n) (hnext : next < n) :
    (getNextLoop (n := n) next).2 < n := by
  unfold getNextLoop
  rw [dif_pos hnext]
  show (if n ≤ next + 1 then 0 else next + 1) < n
  split <;> omega

/-- `loops_[next_]` is always in range. -/
theorem next_lt_of_reachable (hn : 0 < n) (h : (machine n).Reachable s) : s.next < n := by
  refine Machine.Reachable.invariant (I := fun s => s.next < n) h (fun s hi => ?_)
    fun s a hi _ => ?_
  · rw [hi.2.1]
    exact hn
  · cases a with
    | inLoop l a =>
      show (((s.loops l).started a).foldl (fun s f => s.run l f) (s.stepLoop l a)).next < n
      rcases (s.loops l).started_cases a with hst | ⟨f, hst⟩
      · rw [hst]
        exact hi
      · rw [hst, List.foldl_cons, List.foldl_nil, next_run]
        exact hi
    | newConnection =>
      show (runInLoop _ _ _ _).next < n
      rw [next_runInLoop]
      exact getNextLoop_lt s.next hn hi
    | handleClose conn =>
      show (runInLoop _ _ _ _).next < n
      rw [next_runInLoop]
      exact hi

/-! ## The bookkeeping -/

theorem Inv.runs_remove_le (h : Inv [] s) (conn : Connection n) :
    s.runs (.removeConnectionInLoop conn) ≤ 1 := by
  have hle := runs_le_tally s [] (.removeConnectionInLoop conn)
  rw [h.removed conn] at hle
  exact hle.trans (List.nodup_iff_count_le_one.mp h.closedOnce conn)

/-- **The server's bookkeeping holds in every reachable state**, up to `2 ^ 31 - 1` accepts. -/
theorem server_bookkept (h : (machine n).Reachable s) (hlt : s.accepted.length < 2 ^ 31) :
    s.Bookkept := by
  have hi := inv_of_reachable h
  have hfirst : ∀ conn : Connection n, 0 < s.runs (.connectDestroyed conn) →
      conn ∈ s.accepted := by
    intro conn hpos
    have hremoved := hpos.trans_le (runs_le_tally s [] _)
    rw [hi.destroyed conn] at hremoved
    exact hi.accepted_of_closed (hi.mem_closed (hremoved.trans_le (runs_le_tally s [] _)))
  refine ⟨?_, fun hnext => ?_, hi.connections hlt, fun conn hconn => ?_, fun conn => ?_, ?_,
    hi.order, hi.phase⟩
  · exact hi.accepted_nodup.map_on fun c hc c' hc' heq => hi.name_inj hlt hc hc' heq
  · rw [Option.eq_none_iff_forall_ne_some]
    intro conn heq
    obtain ⟨hmem, hname, -⟩ := (hi.connections hlt s.connName conn).mp heq
    exact hi.connName_ne hnext hmem hname
  · have hest := hi.established conn
    rw [List.count_eq_one_of_mem hi.accepted_nodup hconn] at hest
    unfold tally at hest
    rw [Nat.add_comm]
    exact hest
  · have hle := runs_le_tally s [] (.connectDestroyed conn)
    rw [hi.destroyed conn] at hle
    exact hle.trans (hi.runs_remove_le conn)
  · intro r hr conn hconn
    have hpos : 0 < s.runs r.functor := List.count_pos_iff.mpr (List.mem_map_of_mem hr)
    have hhome := hi.ranHome r hr
    rcases hconn with heq | heq
    · rw [heq] at hpos hhome
      exact ⟨hi.mem_accepted (hpos.trans_le (runs_le_tally s [] _)), hhome.resolve_left nofun⟩
    · rw [heq] at hpos hhome
      exact ⟨hfirst conn hpos, hhome.resolve_left nofun⟩

/-- A server on a loop that has not started, without io loops. -/
def listening : TcpServer 0 where
  ipPort := InetAddress.toIpPort ⟨(127, 0, 0, 1), 0x401F⟩
  name := ascii "http"
  next := 0
  nextConnId := 1
  connections _ := none
  loops _ := .new
  accepted := []
  closed := []
  ran := []

/-- The connection it accepts first. -/
def firstConnection : Connection 0 := ⟨0, ascii "http-127.0.0.1:8000#1", none⟩

/-- It is accepted, closed and destroyed on the only loop. -/
def onlyLoop : List (ServerAction 0) :=
  [.inLoop none (.advance false), .inLoop none (.advance false), .inLoop none (.advance false),
    .inLoop none (.advance false), .newConnection, .handleClose firstConnection,
    .inLoop none .selfTest, .inLoop none (.advance false), .inLoop none (.advance false),
    .inLoop none (.advance false)]

theorem server_bookkept_example : let s := (machine 0).after listening onlyLoop
    (machine 0).Legal listening onlyLoop ∧ s.closed = [firstConnection] ∧
      s.runs (.connectDestroyed firstConnection) = 1 ∧ s.Bookkept := by
  have hinit : (machine 0).init listening :=
    ⟨⟨_, rfl⟩, rfl, rfl, rfl, rfl, rfl, rfl, fun _ => nofun⟩
  have hfree : ∀ s : TcpServer 0, (s.loops none).self = .idle →
      (s.loops none).callers none = .idle → s.Free none := by
    intro s hself hcallers
    refine ⟨hself, fun l => ?_⟩
    match l with
    | none => exact hcallers
  have hlegal : (machine 0).Legal listening onlyLoop := by
    refine ⟨⟨⟨rfl, nofun⟩, nofun, hfree _ rfl rfl⟩, ⟨⟨rfl, nofun⟩, nofun, hfree _ rfl rfl⟩,
      ⟨⟨rfl, nofun⟩, nofun, hfree _ rfl rfl⟩, ⟨⟨rfl, nofun⟩, nofun, hfree _ rfl rfl⟩,
      ⟨hfree _ rfl rfl, false, rfl⟩, ⟨hfree _ rfl rfl, ⟨false, rfl⟩, ?_, nofun⟩,
      ⟨rfl, nofun, trivial⟩, ⟨⟨rfl, nofun⟩, nofun, hfree _ rfl rfl⟩,
      ⟨⟨rfl, nofun⟩, nofun, hfree _ rfl rfl⟩, ⟨⟨rfl, nofun⟩, nofun, hfree _ rfl rfl⟩, trivial⟩
    decide +kernel
  have hreach := Machine.Reachable.run (.init hinit) hlegal
  have hlt : ((machine 0).after listening onlyLoop).accepted.length < 2 ^ 31 := by
    decide +kernel
  exact ⟨hlegal, by decide +kernel, by decide +kernel, server_bookkept hreach hlt⟩

end TcpServer

end SimpleHttpServer
