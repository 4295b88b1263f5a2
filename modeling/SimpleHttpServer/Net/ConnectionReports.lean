import SimpleHttpServer.Net.Disconnected

/-!
# What a connection reports

One connection on its loop thread, from `connectEstablished` to `connectDestroyed`: `poll` delivers
event masks to its channel while that is in the epoll set, and the user calls `send` and `shutdown`
in the callbacks. `handleEvent` is `Channel::handleEventWithGuard` (`net/Channel.cpp`) with the
callbacks that `TcpConnection` sets. The calls the user makes while the connection is reported down
have no effect (`handleClose_userCalls`, `connectDestroyed_userCalls`), so a step only has those of
`messageCallback_`.

* `Up` and `Down` are the two phases of a connection, with what it has reported in each;
* **`reported_once_iff`**: a connection is reported up once, down once and closed at most once
  exactly when no event mask closes it twice and it is not destroyed in `kDisconnecting`.
-/

namespace SimpleHttpServer

open Lib TcpConnection

/-- Both sides are closed. -/
def EPOLLHUP : BitVec 32 := 0x010

namespace Channel

/-- The condition of `closeCallback_` in `handleEventWithGuard`. -/
def hangsUp (revents : BitVec 32) : Bool :=
  revents &&& EPOLLHUP != 0 && revents &&& EPOLLIN == 0

/-- The condition of `readCallback_`. -/
def reads (revents : BitVec 32) : Bool := revents &&& (EPOLLIN ||| EPOLLPRI) != 0

/-- The condition of `writeCallback_`. -/
def writes (revents : BitVec 32) : Bool := revents &&& EPOLLOUT != 0

end Channel

/-- A call the user makes in a callback. -/
inductive UserCall where
  | send (data : Bytes) (w : WriteResult)
  | shutdown
  deriving DecidableEq, Repr

namespace TcpConnection

/-- A call that the user makes on the connection. -/
def userCall (c : TcpConnection) : UserCall → TcpConnection
  | .send data w => c.send data w
  | .shutdown => c.shutdown

/-- The calls that the user makes in one callback. -/
def userCalls (c : TcpConnection) (calls : List UserCall) : TcpConnection :=
  calls.foldl userCall c

/-- `handleEventWithGuard`; `errorCallback_` only logs. -/
def handleEvent (c : TcpConnection) (revents : BitVec 32) (receiveTime : Timestamp)
    (r : ReadResult) (calls : List UserCall) (w : WriteResult) : TcpConnection :=
  let c := if Channel.hangsUp revents then c.handleClose else c
  let c := if Channel.reads revents then (c.handleRead receiveTime r).userCalls calls else c
  if Channel.writes revents then c.handleWrite w else c

variable {c : TcpConnection}

theorem userCalls_of_disconnected (h : c.state = .kDisconnected) (calls : List UserCall) :
    c.userCalls calls = c := by
  induction calls with
  | nil => rfl
  | cons call calls ih =>
    have hcall : c.userCall call = c := by
      cases call with
      | send data w =>
        show c.send data w = c
        rw [TcpConnection.send, h]
        exact if_neg (by decide)
      | shutdown =>
        show c.shutdown = c
        rw [TcpConnection.shutdown, h]
        exact if_neg (by decide)
    show (c.userCall call).userCalls calls = c
    rw [hcall]
    exact ih

/-- The user's calls in the `connectionCallback_` of `handleClose` have no effect. -/
theorem handleClose_userCalls (c : TcpConnection) (calls : List UserCall) :
    ((c.setState .kDisconnected).disableAndReport.userCalls calls).call .closeCallback =
      c.handleClose := by
  rw [userCalls_of_disconnected (by rfl), handleClose_eq]

/-- Nor do those in the `connectionCallback_` of `connectDestroyed`. -/
theorem connectDestroyed_userCalls (h : c.state = .kConnected) (calls : List UserCall) :
    ((c.setState .kDisconnected).disableAndReport.userCalls calls).removeChannel =
      c.connectDestroyed := by
  rw [userCalls_of_disconnected (by rfl), connectDestroyed_eq, if_pos h]

/-! ## The two phases -/

/-- Reported up, and in the epoll set. -/
structure Up (c : TcpConnection) : Prop where
  state : c.state = .kConnected ∨ c.state = .kDisconnecting
  registered : c.channel.Registered
  reports : c.reports = [.connectionCallback true]

/-- Reported up and down, by `handleClose` or by `connectDestroyed`, and not in the epoll set. -/
structure Down (c : TcpConnection) : Prop where
  state : c.state = .kDisconnected
  interest : c.channel.interest = none
  idle : c.channel.isWriting = false
  reports : c.reports = [.connectionCallback true, .connectionCallback false] ∨
    c.reports = [.connectionCallback true, .connectionCallback false, .closeCallback]

theorem up_connectEstablished (hlog : c.log = []) : c.connectEstablished.Up := by
  refine ⟨.inl rfl, Channel.registered_enableReading _, ?_⟩
  show (c.log ++ [ConnectionCall.connectionCallback true]).filter _ = _
  rw [hlog]
  rfl

theorem Up.of_kept {c' : TcpConnection} (h : c.Up) (hkept : Kept c c') : c'.Up :=
  ⟨by rw [hkept.state]; exact h.state, hkept.registered h.registered,
    hkept.reports.trans h.reports⟩

theorem Up.userCall (h : c.Up) (call : UserCall) : (c.userCall call).Up := by
  cases call with
  | send data w =>
    show (c.send data w).Up
    unfold TcpConnection.send
    split
    · exact h.of_kept (kept_sendInLoop c data w)
    · exact h
  | shutdown =>
    show c.shutdown.Up
    unfold TcpConnection.shutdown
    split
    · have hset : (c.setState .kDisconnecting).Up := ⟨.inr rfl, h.registered, h.reports⟩
      exact hset.of_kept (kept_shutdownInLoop _)
    · exact h

theorem Up.userCalls (h : c.Up) : ∀ calls : List UserCall, (c.userCalls calls).Up := by
  intro calls
  induction calls generalizing c with
  | nil => exact h
  | cons call calls ih => exact ih (h.userCall call)

theorem reports_handleClose (c : TcpConnection) :
    c.handleClose.reports = c.reports ++ [.connectionCallback false, .closeCallback] := by
  show (c.log ++ [ConnectionCall.connectionCallback false] ++
    [ConnectionCall.closeCallback]).filter _ = _
  rw [List.filter_append, List.filter_append, List.append_assoc]
  rfl

theorem Up.handleClose (h : c.Up) : c.handleClose.Down := by
  refine ⟨rfl, (Channel.interest_disableAll _).mpr h.registered.index,
    Channel.isWriting_disableAll _, .inr ?_⟩
  rw [reports_handleClose, h.reports]
  rfl

theorem Down.handleWrite (h : c.Down) (w : WriteResult) : c.handleWrite w = c :=
  handleWrite_of_idle fun hp => absurd (h.idle.symm.trans hp.1) Bool.false_ne_true

theorem Down.removeChannel (h : c.Down) : c.removeChannel.Down :=
  ⟨h.state, Channel.interest_remove _ h.interest, h.idle, h.reports⟩

theorem Down.connectDestroyed (h : c.Down) : c.connectDestroyed.Down := by
  have hnot : ¬ c.state = .kConnected := by
    rw [h.state]
    nofun
  rw [connectDestroyed_eq, if_neg hnot]
  exact h.removeChannel

/-- `connectDestroyed` reports a connection down that is in `kConnected`. -/
theorem Up.connectDestroyed (h : c.Up) (hc : c.state = .kConnected) : c.connectDestroyed.Down := by
  have hdown : (c.setState .kDisconnected).disableAndReport.Down := by
    refine ⟨rfl, (Channel.interest_disableAll _).mpr h.registered.index,
      Channel.isWriting_disableAll _, .inl ?_⟩
    show (c.log ++ [ConnectionCall.connectionCallback false]).filter _ = _
    rw [List.filter_append]
    exact congrArg (· ++ [ConnectionCall.connectionCallback false]) h.reports
  rw [connectDestroyed_eq, if_pos hc]
  exact hdown.removeChannel

/-- It reports nothing in `kDisconnecting`. -/
theorem reports_connectDestroyed (hc : c.state ≠ .kConnected) :
    c.connectDestroyed.reports = c.reports := by
  rw [connectDestroyed_eq, if_neg hc]
  rfl

/-! ## One event mask -/

/-- The mask makes `handleEvent` close the connection twice: on the hang-up and on the read. -/
def ClosesTwice (revents : BitVec 32) (r : ReadResult) : Prop :=
  Channel.hangsUp revents = true ∧ Channel.reads revents = true ∧ r = .bytes []

/-- The read of an event, before the connection is closed. -/
theorem Up.read (h : c.Up) (receiveTime : Timestamp) (r : ReadResult) (calls : List UserCall) :
    ((c.handleRead receiveTime r).userCalls calls).Up ∨
      ((c.handleRead receiveTime r).userCalls calls).Down := by
  by_cases hr : r = .bytes []
  · subst hr
    have hclose : (c.handleClose.userCalls calls).Down := by
      rw [userCalls_of_disconnected h.handleClose.state]
      exact h.handleClose
    exact .inr hclose
  · exact .inl ((h.of_kept (kept_handleRead c receiveTime hr)).userCalls calls)

/-- The read of an event whose hang-up has closed the connection. -/
theorem Down.read (h : c.Down) (receiveTime : Timestamp) {r : ReadResult} (hr : r ≠ .bytes [])
    (calls : List UserCall) : ((c.handleRead receiveTime r).userCalls calls).Down := by
  have hkept := kept_handleRead c receiveTime hr
  have hdown : (c.handleRead receiveTime r).Down := by
    match r with
    | .bytes (b :: data) => exact ⟨h.state, h.interest, h.idle, hkept.reports ▸ h.reports⟩
    | .failed e => exact h
  rw [userCalls_of_disconnected hdown.state]
  exact hdown

/-- **One event mask closes the connection at most once**, if it is not one that closes twice. -/
theorem Up.handleEvent (h : c.Up) {revents : BitVec 32} {r : ReadResult}
    (hr : ¬ ClosesTwice revents r) (receiveTime : Timestamp) (calls : List UserCall)
    (w : WriteResult) :
    (c.handleEvent revents receiveTime r calls w).Up ∨
      (c.handleEvent revents receiveTime r calls w).Down := by
  have hwrite : ∀ {c' : TcpConnection}, c'.Up ∨ c'.Down →
      (if Channel.writes revents then c'.handleWrite w else c').Up ∨
        (if Channel.writes revents then c'.handleWrite w else c').Down := by
    intro c' hc'
    split
    · rcases hc' with hup | hdown
      · exact .inl (hup.of_kept (kept_handleWrite c' w))
      · rw [hdown.handleWrite w]
        exact .inr hdown
    · exact hc'
  refine hwrite ?_
  by_cases hhup : Channel.hangsUp revents = true
  · rw [if_pos hhup]
    split
    · rename_i hread
      exact .inr (h.handleClose.read receiveTime (fun hnil => hr ⟨hhup, hread, hnil⟩) calls)
    · exact .inr h.handleClose
  · rw [if_neg hhup]
    split
    · exact h.read receiveTime r calls
    · exact .inl h

/-- One that closes twice reports down twice. -/
theorem reports_handleEvent_of_closesTwice {revents : BitVec 32} {r : ReadResult}
    (h : ClosesTwice revents r) (receiveTime : Timestamp) (calls : List UserCall)
    (w : WriteResult) :
    (c.handleEvent revents receiveTime r calls w).reports = c.reports ++
      [.connectionCallback false, .closeCallback, .connectionCallback false, .closeCallback] := by
  obtain ⟨hhup, hread, rfl⟩ := h
  have hclosed : c.handleClose.handleClose.reports = c.reports ++
      [.connectionCallback false, .closeCallback, .connectionCallback false, .closeCallback] := by
    rw [reports_handleClose, reports_handleClose, List.append_assoc]
    rfl
  unfold handleEvent
  simp only
  rw [if_pos hhup, if_pos hread]
  show (if _ then (c.handleClose.handleClose.userCalls calls).handleWrite w
    else c.handleClose.handleClose.userCalls calls).reports = _
  rw [userCalls_of_disconnected (by rfl)]
  split
  · rw [(kept_handleWrite _ w).reports]
    exact hclosed
  · exact hclosed

end TcpConnection

/-! ## Runs -/

/-- A connection, and whether `connectDestroyed` has run. -/
structure ConnectionRun where
  conn : TcpConnection
  destroyed : Bool

/-- What happens to a connection. -/
inductive ConnectionStep where
  /-- `poll` has reported `revents`; `calls` are the user's in `messageCallback_`. -/
  | event (revents : BitVec 32) (receiveTime : Timestamp) (r : ReadResult)
      (calls : List UserCall) (w : WriteResult)
  /-- A call of the user in another callback. -/
  | user (call : UserCall)
  /-- Queued by `removeConnectionInLoop`, or run by `~TcpServer`. -/
  | connectDestroyed

namespace ConnectionRun

/-- Events, calls of the user, and one `connectDestroyed`, in any order. -/
def machine : Machine ConnectionRun ConnectionStep where
  init s := (∃ c : TcpConnection, c.Unused ∧ c.log = [] ∧ s.conn = c.connectEstablished) ∧
    s.destroyed = false
  guard s
    | .event _ _ _ _ _ => s.conn.channel.interest ≠ none
    | .user _ => True
    | .connectDestroyed => s.destroyed = false
  next s
    | .event revents receiveTime r calls w =>
      { s with conn := s.conn.handleEvent revents receiveTime r calls w }
    | .user call => { s with conn := s.conn.userCall call }
    | .connectDestroyed => { conn := s.conn.connectDestroyed, destroyed := true }

/-- Reported up once, down at most once and by the end of `connectDestroyed`, closed at most
once. -/
def ReportedOnce (s : ConnectionRun) : Prop :=
  s.conn.log.count (.connectionCallback true) = 1 ∧
    s.conn.log.count (.connectionCallback false) ≤ 1 ∧ s.conn.log.count .closeCallback ≤ 1 ∧
    (s.destroyed = true → s.conn.log.count (.connectionCallback false) = 1)

/-- No event closes the connection twice, and it is not destroyed while it is shutting down. -/
def EndsOnce (s : ConnectionRun) : ConnectionStep → Prop
  | .event revents _ r _ _ => ¬ ClosesTwice revents r
  | .connectDestroyed => s.conn.state ≠ .kDisconnecting
  | .user _ => True

variable {s : ConnectionRun}

/-- The invariant. -/
def Inv (s : ConnectionRun) : Prop := s.conn.Up ∧ s.destroyed = false ∨ s.conn.Down

theorem count_log (c : TcpConnection) {x : ConnectionCall} (hx : x.isReport = true) :
    c.log.count x = c.reports.count x :=
  (List.count_filter hx).symm

theorem reportedOnce_iff : s.ReportedOnce ↔
    s.conn.reports.count (.connectionCallback true) = 1 ∧
      s.conn.reports.count (.connectionCallback false) ≤ 1 ∧
      s.conn.reports.count .closeCallback ≤ 1 ∧
      (s.destroyed = true → s.conn.reports.count (.connectionCallback false) = 1) := by
  unfold ReportedOnce
  rw [count_log _ rfl, count_log _ rfl, count_log _ rfl]

/-- In both phases the reports are as they should be. -/
theorem reportedOnce_of_inv (h : s.Inv) : s.ReportedOnce := by
  rw [reportedOnce_iff]
  rcases h with ⟨hup, hnot⟩ | hdown
  · rw [hup.reports, hnot]
    exact ⟨rfl, by decide, by decide, nofun⟩
  · rcases hdown.reports with hr | hr
    · rw [hr]
      exact ⟨rfl, by decide, by decide, fun _ => rfl⟩
    · rw [hr]
      exact ⟨rfl, by decide, by decide, fun _ => rfl⟩

theorem inv_next (h : s.Inv) {a : ConnectionStep} (hg : machine.guard s a) (hC : s.EndsOnce a) :
    (machine.next s a).Inv := by
  cases a with
  | event revents receiveTime r calls w =>
    rcases h with ⟨hup, hnot⟩ | hdown
    · exact (hup.handleEvent hC receiveTime calls w).imp_left fun hup' => ⟨hup', hnot⟩
    · exact absurd hdown.interest hg
  | user call =>
    rcases h with ⟨hup, hnot⟩ | hdown
    · exact .inl ⟨hup.userCall call, hnot⟩
    · have hsame : s.conn.userCall call = s.conn := userCalls_of_disconnected hdown.state [call]
      refine .inr ?_
      show (s.conn.userCall call).Down
      rw [hsame]
      exact hdown
  | connectDestroyed =>
    rcases h with ⟨hup, -⟩ | hdown
    · exact .inr (hup.connectDestroyed (hup.state.resolve_right hC))
    · exact .inr hdown.connectDestroyed

/-- A step that does not end the connection once leaves the reports wrong. -/
theorem endsOnce_of_reportedOnce (h : s.Inv) {a : ConnectionStep} (hg : machine.guard s a)
    (hP : (machine.next s a).ReportedOnce) : s.EndsOnce a := by
  rw [reportedOnce_iff] at hP
  cases a with
  | event revents receiveTime r calls w =>
    rcases h with ⟨hup, -⟩ | hdown
    · intro htwice
      have hdowns := hP.2.1
      change (s.conn.handleEvent revents receiveTime r calls w).reports.count _ ≤ 1 at hdowns
      rw [reports_handleEvent_of_closesTwice htwice, hup.reports] at hdowns
      exact absurd hdowns (by decide)
    · exact absurd hdown.interest hg
  | user call => trivial
  | connectDestroyed =>
    intro hstate
    have hdowns := hP.2.2.2 rfl
    change s.conn.connectDestroyed.reports.count _ = 1 at hdowns
    rw [reports_connectDestroyed (by rw [hstate]; nofun)] at hdowns
    rcases h with ⟨hup, -⟩ | hdown
    · rw [hup.reports] at hdowns
      exact absurd hdowns (by decide)
    · exact absurd (hdown.state.symm.trans hstate) nofun

theorem inv_init (h : machine.init s) : s.Inv := by
  obtain ⟨⟨c, -, hlog, hconn⟩, hnot⟩ := h
  refine .inl ⟨?_, hnot⟩
  rw [hconn]
  exact up_connectEstablished hlog

/-- **A connection is reported up exactly once and down exactly once, and closed at most once,
exactly when it ends once**: over any run. -/
theorem reported_once_iff (h : machine.init s) {as : List ConnectionStep}
    (hl : machine.Legal s as) :
    machine.Always ReportedOnce s as ↔ machine.Along EndsOnce s as :=
  Machine.always_iff_along (fun _ _ hi _ hg hC => inv_next hi hg hC)
    (fun _ _ hi _ hg => ⟨endsOnce_of_reportedOnce hi hg, fun hC =>
      reportedOnce_of_inv (inv_next hi hg hC)⟩)
    (inv_init h) (reportedOnce_of_inv (inv_init h)) hl

/-- A connection that has just been established. -/
def established : ConnectionRun := ⟨TcpConnection.new.connectEstablished, false⟩

theorem established_init : machine.init established := ⟨⟨_, unused_new, rfl, rfl⟩, rfl⟩

/-- The peer closes its side, the user having replied; then the connection is destroyed. -/
theorem reported_once_iff_example :
    machine.Always ReportedOnce established
      [.event EPOLLIN ⟨0⟩ (.bytes [1]) [.send [2] (.accepted 1)] (.accepted 0),
        .event EPOLLIN ⟨1⟩ (.bytes []) [] (.accepted 0), .connectDestroyed] := by
  refine (reported_once_iff established_init ?_).mpr ?_
  · refine ⟨?_, ?_, rfl, trivial⟩
    · show _ ≠ (none : Option (BitVec 32))
      decide +kernel
    · show _ ≠ (none : Option (BitVec 32))
      decide +kernel
  · refine ⟨fun h => absurd h.2.2 nofun, fun h => absurd h.1 (by decide), ?_, trivial⟩
    show _ ≠ StateE.kDisconnecting
    decide +kernel

/-- **A connection that is shutting down is never reported down** when `~TcpServer` destroys it. -/
theorem destroyed_in_shutdown_example :
    ¬ ∀ s, machine.init s → ∀ as, machine.Legal s as → machine.Always ReportedOnce s as := by
  intro h
  have hrun := h established established_init [.user .shutdown, .connectDestroyed]
    ⟨trivial, rfl, trivial⟩
  obtain ⟨-, -, hlast⟩ := hrun
  exact absurd (hlast.2.2.2 rfl) (by decide +kernel)

end ConnectionRun

end SimpleHttpServer
