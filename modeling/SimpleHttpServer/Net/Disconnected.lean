import SimpleHttpServer.Net.RemoteSend

/-!
# `kDisconnected` and what comes after it

One connection between `connectEstablished` and its end. The loop thread handles its events, runs
its functors and the user's `send` and `shutdown`; any number `T` of other threads call `send` and
`shutdown`. Each load or store of `state_` is a step of its own, so `handleClose`,
`connectDestroyed` and `shutdown` take several: `stage` is where the loop thread is in one of
them. Other threads share nothing else with the connection. `writes` counts the `::write` calls,
and `closed` holds what there was when `kDisconnected` was stored and the channel disabled.

* `Inv` is the invariant while nothing went wrong;
* **`closed_final_iff`**: `kDisconnected` is final exactly when nothing comes late (`NothingLate`):
  no store of `kDisconnecting`, no functor of `send` with something to do, and no `handleClose` of
  a channel that the poller does not have.
-/

namespace SimpleHttpServer

open Lib TcpConnection

namespace TcpConnection

/-- What `handleClose` and `connectDestroyed` do after they have stored `kDisconnected`. -/
def disableAndReport (c : TcpConnection) : TcpConnection :=
  let c := { c with channel := c.channel.disableAll }
  c.call (.connectionCallback c.connected)

/-- `channel_->remove()`. -/
def removeChannel (c : TcpConnection) : TcpConnection := { c with channel := c.channel.remove }

theorem handleClose_eq (c : TcpConnection) :
    c.handleClose = (c.setState .kDisconnected).disableAndReport.call .closeCallback := rfl

theorem connectDestroyed_eq (c : TcpConnection) :
    c.connectDestroyed = (if c.state = .kConnected then (c.setState .kDisconnected).disableAndReport
      else c).removeChannel := rfl

/-- `sendInLoop` calls `::write`. -/
def writesInLoop (c : TcpConnection) : Bool :=
  !c.channel.isWriting && c.outputBuffer.readableBytes == 0

/-- Without the `::write`, `sendInLoop` buffers its data. -/
theorem sendInLoop_of_not_writes {c : TcpConnection} (h : c.writesInLoop = false) (data : Bytes)
    (w : WriteResult) : c.sendInLoop data w = if 0 < data.length then c.bufferRest data else c := by
  unfold writesInLoop at h
  unfold sendInLoop
  rw [h]
  simp

theorem readable_bufferRest (c : TcpConnection) (rest : Bytes) :
    (c.bufferRest rest).outputBuffer.readable = c.outputBuffer.readable ++ rest := by
  obtain ⟨log, hlog⟩ := queueHighWaterMark_eq c c.outputBuffer.readableBytes rest.length
  unfold bufferRest
  rw [hlog]
  simp only
  split <;> simp

end TcpConnection

/-- A functor of the connection's loop. -/
inductive ConnTask where
  | run (f : ConnFunctor)
  | connectDestroyed
  deriving DecidableEq

/-- Where the loop thread is in a function of the connection. -/
inductive ConnStage where
  | idle
  /-- `handleClose` has stored `kDisconnected`. -/
  | closing
  /-- `connectDestroyed` has read `kConnected`. -/
  | destroying
  /-- `connectDestroyed` has stored `kDisconnected`. -/
  | destroyed
  /-- `connectDestroyed` is at `channel_->remove()`. -/
  | removing
  /-- `shutdown` has read `kConnected`. -/
  | shutting
  deriving DecidableEq

/-- Where another thread is in `send` or `shutdown`. -/
inductive RemoteCall where
  | idle
  /-- `send(data)` has read `kConnected`. -/
  | sending (data : Bytes)
  /-- `shutdown` has read `kConnected`. -/
  | shutting
  /-- `shutdown` has stored `kDisconnecting`. -/
  | stored
  deriving DecidableEq

/-- What there was when the connection was closed. -/
structure Closed where
  writes : Nat
  outputBuffer : Bytes
  deriving DecidableEq

/-- A connection on its loop, and the calls of other threads. -/
structure Disconnection (T : Type*) where
  loop : EventLoop T ConnTask
  conn : TcpConnection
  stage : ConnStage
  callers : T → RemoteCall
  writes : Nat
  closed : Option Closed

/-- The steps of the loop thread and of the others. -/
inductive DisconnectionAction (T : Type*) where
  /-- A step of `loop()`, or of another thread that does not call the connection; `w` is for the
  functor it may start. -/
  | inLoop (a : LoopAction T ConnTask) (w : WriteResult)
  | handleRead (receiveTime : Timestamp) (r : ReadResult)
  | handleWrite (w : WriteResult)
  | handleClose
  /-- The user calls `send` on the loop thread. -/
  | send (data : Bytes) (w : WriteResult)
  /-- The user calls `shutdown` on the loop thread. -/
  | shutdown
  /-- The loop thread goes on in the function it is in. -/
  | proceed
  /-- Thread `t` calls `send(data)`, and loads `state_`. -/
  | remoteSend (t : T) (data : Bytes)
  /-- Thread `t` calls `shutdown`, and loads `state_`. -/
  | remoteShutdown (t : T)
  /-- Thread `t` goes on in its call. -/
  | remoteProceed (t : T)

namespace Disconnection

variable {T : Type*}

/-- `kDisconnected` is stored and the channel disabled. -/
def close (s : Disconnection T) : Disconnection T :=
  { s with closed := some (s.closed.getD ⟨s.writes, s.conn.outputBuffer.readable⟩) }

/-- The store of `handleClose`. -/
def beginClose (s : Disconnection T) : Disconnection T :=
  { s with conn := s.conn.setState .kDisconnected, stage := .closing }

/-- The loop thread starts a functor. -/
def start (w : WriteResult) (s : Disconnection T) : ConnTask → Disconnection T
  | .run f => { s with
      conn := f.run w s.conn
      writes := s.writes + match f with
        | .sendInLoop _ => s.conn.writesInLoop.toNat
        | _ => 0 }
  | .connectDestroyed =>
    { s with stage := if s.conn.state = .kConnected then .destroying else .removing }

/-- The loop thread goes on in a function of the connection. -/
def proceed (s : Disconnection T) : Disconnection T :=
  match s.stage with
  | .idle => s
  | .closing =>
    close { s with conn := s.conn.disableAndReport.call .closeCallback, stage := .idle }
  | .destroying => { s with conn := s.conn.setState .kDisconnected, stage := .destroyed }
  | .destroyed => close { s with conn := s.conn.disableAndReport, stage := .removing }
  | .removing => { s with conn := s.conn.removeChannel, stage := .idle }
  | .shutting =>
    { s with conn := (s.conn.setState .kDisconnecting).shutdownInLoop, stage := .idle }

/-- Where thread `t` is in its call. -/
def setCaller [DecidableEq T] (s : Disconnection T) (t : T) (call : RemoteCall) : Disconnection T :=
  { s with callers := Function.update s.callers t call }

/-- Thread `t` goes on in `send` or `shutdown`. -/
def remoteProceed [DecidableEq T] (s : Disconnection T) (t : T) : Disconnection T :=
  match s.callers t with
  | .idle => s
  | .sending data =>
    { s with loop := s.loop.next (.push t (.run (.sendInLoop data))) }.setCaller t .idle
  | .shutting => { s with conn := s.conn.setState .kDisconnecting }.setCaller t .stored
  | .stored => { s with loop := s.loop.next (.push t (.run .shutdownInLoop)) }.setCaller t .idle

/-- Runs start when `connectEstablished` has run, with none of the connection's functors queued. -/
def machine [DecidableEq T] : Machine (Disconnection T) (DisconnectionAction T) where
  init s := (∃ c : TcpConnection, c.Unused ∧ s.conn = c.connectEstablished) ∧
    (∀ f ∈ s.loop.queue, f = .run .other) ∧ s.stage = .idle ∧ (∀ t, s.callers t = .idle) ∧
    s.writes = 0 ∧ s.closed = none
  guard s
    | .inLoop a _ => (a.ofLoopThread = true → s.stage = .idle) ∧ s.loop.guard a ∧
        (∀ f ∈ a.pushed, f = .run .other ∨ f = .connectDestroyed) ∧
        (∀ t f, a = .push t f → s.callers t = .idle)
    | .handleRead _ _ | .handleWrite _ | .handleClose =>
        s.stage = .idle ∧ s.loop.self = .idle ∧ ∃ woken, s.loop.pc = .dispatching woken
    | .send _ _ | .shutdown => (s.stage = .idle ∨ s.stage = .removing) ∧ s.loop.self = .idle ∧
        s.loop.pc.inUserCode = true
    | .proceed => s.stage ≠ .idle
    | .remoteSend t _ | .remoteShutdown t => s.callers t = .idle ∧ s.loop.callers t = .idle
    | .remoteProceed t => s.callers t ≠ .idle ∧ s.loop.callers t = .idle
  next s
    | .inLoop a w => (s.loop.started a).foldl (start w) { s with loop := s.loop.next a }
    | .handleRead _ (.bytes []) | .handleClose => s.beginClose
    | .handleRead t r => { s with conn := s.conn.handleRead t r }
    | .handleWrite w => { s with
        conn := s.conn.handleWrite w, writes := s.writes + s.conn.channel.isWriting.toNat }
    | .send data w => { s with
        conn := s.conn.send data w
        writes := s.writes +
          if s.conn.state = .kConnected then s.conn.writesInLoop.toNat else 0 }
    | .shutdown => if s.conn.state = .kConnected then { s with stage := .shutting } else s
    | .proceed => s.proceed
    | .remoteSend t data => if s.conn.state = .kConnected then s.setCaller t (.sending data) else s
    | .remoteShutdown t => if s.conn.state = .kConnected then s.setCaller t .shutting else s
    | .remoteProceed t => s.remoteProceed t

/-- Once closed, the connection stays in `kDisconnected`, makes no `::write`, gains no output, and
is not in the epoll set. -/
def ClosedIsFinal (s : Disconnection T) : Prop :=
  ∀ k, s.closed = some k → s.conn.state = .kDisconnected ∧ s.writes = k.writes ∧
    s.conn.outputBuffer.readable <:+ k.outputBuffer ∧ s.conn.channel.interest = none

/-- A functor of `send` that runs after the close has no data and finds output still buffered. -/
def InTime (s : Disconnection T) : ConnTask → Prop
  | .run (.sendInLoop data) =>
    s.closed ≠ none → data = [] ∧ s.conn.outputBuffer.readable ≠ []
  | _ => True

/-- Nothing comes late: the functors are in time, `handleClose` disables a channel that is in the
epoll set, and no `kDisconnecting` replaces `kDisconnected`. -/
def NothingLate (s : Disconnection T) : DisconnectionAction T → Prop
  | .proceed =>
    (s.stage = .closing → s.conn.state = .kDisconnected ∧ s.conn.channel.index = .kAdded) ∧
      (s.stage = .destroyed → s.conn.state = .kDisconnected)
  | .remoteProceed t => s.callers t = .shutting → s.closed = none
  | .inLoop a _ => ∀ f ∈ s.loop.started a, s.InTime f
  | _ => True

/-! ## The invariant -/

variable {s : Disconnection T}

/-- The invariant: what the stages have read and stored, and what the close left behind. -/
structure Inv (s : Disconnection T) : Prop where
  connected : s.conn.state = .kConnected → s.conn.channel.Registered
  destroying : s.stage = .destroying ∨ s.stage = .destroyed →
    s.conn.channel.Registered ∧ s.closed = none
  removing : s.stage = .removing → s.conn.state ≠ .kConnected
  shutting : s.stage = .shutting → s.closed = none
  closed : ∀ k, s.closed = some k → s.conn.channel.isWriting = false ∧
    s.conn.outputBuffer.readable = k.outputBuffer

/-- A step that keeps the state, and after the close the channel, the output and the count. -/
theorem Inv.of_kept (h : s.Inv) (hP : s.ClosedIsFinal) {s' : Disconnection T}
    (hkept : Kept s.conn s'.conn) (hstage : s'.stage = s.stage) (hclosed : s'.closed = s.closed)
    (hsame : s.closed ≠ none → s'.conn.channel = s.conn.channel ∧
      s'.conn.outputBuffer = s.conn.outputBuffer ∧ s'.writes = s.writes) :
    s'.Inv ∧ s'.ClosedIsFinal := by
  refine ⟨⟨fun hc => ?_, fun hs => ?_, fun hs => ?_, fun hs => ?_, fun k hk => ?_⟩, fun k hk => ?_⟩
  · exact hkept.registered (h.connected (hkept.state.symm.trans hc))
  · rw [hstage] at hs
    obtain ⟨hreg, hnone⟩ := h.destroying hs
    exact ⟨hkept.registered hreg, hclosed.trans hnone⟩
  · rw [hkept.state]
    exact h.removing (hstage ▸ hs)
  · exact hclosed.trans (h.shutting (hstage ▸ hs))
  · rw [hclosed] at hk
    obtain ⟨hchannel, hout, -⟩ := hsame (by rw [hk]; nofun)
    rw [hchannel, hout]
    exact h.closed k hk
  · rw [hclosed] at hk
    obtain ⟨hchannel, hout, hwrites⟩ := hsame (by rw [hk]; nofun)
    rw [hkept.state, hchannel, hout, hwrites]
    exact hP k hk

theorem inv_init [DecidableEq T] (h : machine.init s) : s.Inv := by
  obtain ⟨⟨c, hc, hconn⟩, -, hstage, -, -, hclosed⟩ := h
  have hreg : s.conn.channel.Registered := by
    rw [hconn]
    exact Channel.registered_enableReading _
  refine ⟨fun _ => hreg, fun hs => ?_, fun hs => ?_, fun hs => ?_, fun k hk => ?_⟩
  · rw [hstage] at hs
    exact absurd hs (by nofun)
  · exact absurd (hstage.symm.trans hs) nofun
  · exact absurd (hstage.symm.trans hs) nofun
  · exact absurd (hclosed.symm.trans hk) nofun

theorem ClosedIsFinal.closed_eq_none (hP : s.ClosedIsFinal) (h : s.conn.state ≠ .kDisconnected) :
    s.closed = none := by
  by_contra hne
  obtain ⟨k, hk⟩ := Option.ne_none_iff_exists'.mp hne
  exact h (hP k hk).1

/-! ## One step -/

/-- After the close, a functor of `send` is harmless exactly when it finds output still buffered
and has nothing to add. -/
theorem start_sendInLoop (h : s.Inv) (hP : s.ClosedIsFinal) (data : Bytes) (w : WriteResult) :
    (s.InTime (.run (.sendInLoop data)) → (s.start w (.run (.sendInLoop data))).Inv) ∧
      ((s.start w (.run (.sendInLoop data))).ClosedIsFinal ↔
        s.InTime (.run (.sendInLoop data))) := by
  have hconn : (s.start w (.run (.sendInLoop data))).conn = s.conn.sendInLoop data w := rfl
  have hstage : (s.start w (.run (.sendInLoop data))).stage = s.stage := rfl
  have hclosed : (s.start w (.run (.sendInLoop data))).closed = s.closed := rfl
  have hcount : (s.start w (.run (.sendInLoop data))).writes =
      s.writes + s.conn.writesInLoop.toNat := rfl
  generalize s.start w (.run (.sendInLoop data)) = s' at hconn hstage hclosed hcount ⊢
  have hkept : Kept s.conn s'.conn := by
    rw [hconn]
    exact kept_sendInLoop s.conn data w
  by_cases hopen : s.closed = none
  · obtain ⟨hI, hF⟩ := h.of_kept hP hkept hstage hclosed fun hne => absurd hopen hne
    exact ⟨fun _ => hI, iff_of_true hF fun hne => absurd hopen hne⟩
  · obtain ⟨k, hk⟩ := Option.ne_none_iff_exists'.mp hopen
    obtain ⟨hwriting, hout⟩ := h.closed k hk
    obtain ⟨-, hwrites, -, -⟩ := hP k hk
    have hk' : s'.closed = some k := hclosed.trans hk
    by_cases hnil : s.conn.outputBuffer.readable = []
    · -- the `::write` is made
      have hdirect : s.conn.writesInLoop = true := by
        rw [writesInLoop, hwriting, (readableBytes_eq_zero _).mpr hnil]
        rfl
      refine ⟨fun hC => absurd hnil (hC hopen).2, iff_of_false (fun hF => ?_) fun hC =>
        (hC hopen).2 hnil⟩
      have hsame := (hF k hk').2.1
      rw [hdirect, Bool.toNat_true] at hcount
      omega
    · have hdirect : s.conn.writesInLoop = false := by
        rw [writesInLoop, hwriting, Bool.not_false, Bool.true_and, beq_eq_false_iff_ne]
        exact fun h0 => hnil ((readableBytes_eq_zero _).mp h0)
      rw [hdirect, Bool.toNat_false] at hcount
      rw [sendInLoop_of_not_writes hdirect] at hconn
      by_cases hdata : data = []
      · rw [hdata] at hconn ⊢
        obtain ⟨hI, hF⟩ := h.of_kept hP hkept hstage hclosed fun _ =>
          ⟨by rw [hconn]; rfl, by rw [hconn]; rfl, hcount⟩
        exact ⟨fun _ => hI, iff_of_true hF fun _ => ⟨rfl, hnil⟩⟩
      · refine ⟨fun hC => absurd (hC hopen).1 hdata, iff_of_false (fun hF => ?_) fun hC =>
          hdata (hC hopen).1⟩
        have hpos := List.length_pos_iff.mpr hdata
        have hgains := (hF k hk').2.2.1.length_le
        rw [hconn, if_pos hpos, readable_bufferRest, hout, List.length_append] at hgains
        omega

/-- The other functors are in time at any time. -/
theorem start_shutdownInLoop (h : s.Inv) (hP : s.ClosedIsFinal) (w : WriteResult) :
    (s.start w (.run .shutdownInLoop)).Inv ∧ (s.start w (.run .shutdownInLoop)).ClosedIsFinal := by
  refine h.of_kept hP (kept_shutdownInLoop s.conn) rfl rfl fun _ => ?_
  show s.conn.shutdownInLoop.channel = _ ∧ s.conn.shutdownInLoop.outputBuffer = _ ∧ _
  unfold shutdownInLoop
  split
  · exact ⟨rfl, rfl, rfl⟩
  · exact ⟨rfl, rfl, rfl⟩

theorem start_connectDestroyed (h : s.Inv) (hP : s.ClosedIsFinal) (w : WriteResult) :
    (s.start w .connectDestroyed).Inv ∧ (s.start w .connectDestroyed).ClosedIsFinal := by
  refine ⟨?_, hP⟩
  show Inv { s with stage := if s.conn.state = .kConnected then .destroying else .removing }
  by_cases hc : s.conn.state = .kConnected
  · rw [if_pos hc]
    have hopen : s.closed = none := hP.closed_eq_none (by rw [hc]; nofun)
    exact ⟨h.connected, fun _ => ⟨h.connected hc, hopen⟩, nofun, nofun, h.closed⟩
  · rw [if_neg hc]
    exact ⟨h.connected, fun hs => absurd hs (by nofun), fun _ => hc, nofun, h.closed⟩

theorem step_start (h : s.Inv) (hP : s.ClosedIsFinal) (w : WriteResult) (f : ConnTask) :
    (s.InTime f → (s.start w f).Inv) ∧ ((s.start w f).ClosedIsFinal ↔ s.InTime f) := by
  cases f with
  | connectDestroyed =>
    obtain ⟨hI, hF⟩ := start_connectDestroyed h hP w
    exact ⟨fun _ => hI, iff_of_true hF trivial⟩
  | run f =>
    cases f with
    | sendInLoop data => exact start_sendInLoop h hP data w
    | shutdownInLoop =>
      obtain ⟨hI, hF⟩ := start_shutdownInLoop h hP w
      exact ⟨fun _ => hI, iff_of_true hF trivial⟩
    | other =>
      have hkept : Kept s.conn (s.start w (.run .other)).conn := .refl _
      obtain ⟨hI, hF⟩ := h.of_kept hP hkept rfl rfl fun _ => ⟨rfl, rfl, rfl⟩
      exact ⟨fun _ => hI, iff_of_true hF trivial⟩

theorem step_inLoop [DecidableEq T] (h : s.Inv) (hP : s.ClosedIsFinal) (a : LoopAction T ConnTask)
    (w : WriteResult) :
    (s.NothingLate (.inLoop a w) → (machine.next s (.inLoop a w)).Inv) ∧
      ((machine.next s (.inLoop a w)).ClosedIsFinal ↔ s.NothingLate (.inLoop a w)) := by
  obtain ⟨hloop, hfinal⟩ : Inv { s with loop := s.loop.next a } ∧
      ClosedIsFinal { s with loop := s.loop.next a } :=
    h.of_kept hP (.refl _) rfl rfl fun _ => ⟨rfl, rfl, rfl⟩
  show ((∀ f ∈ s.loop.started a, s.InTime f) →
      Inv ((s.loop.started a).foldl (start w) { s with loop := s.loop.next a })) ∧
    (ClosedIsFinal ((s.loop.started a).foldl (start w) { s with loop := s.loop.next a }) ↔
      ∀ f ∈ s.loop.started a, s.InTime f)
  rcases s.loop.started_cases a with hst | ⟨f, hst⟩
  · rw [hst]
    exact ⟨fun _ => hloop, iff_of_true hfinal nofun⟩
  · rw [hst, List.forall_mem_singleton]
    exact step_start hloop hfinal w f

/-! ## The functions of several steps -/

theorem step_beginClose (h : s.Inv) (hP : s.ClosedIsFinal) :
    s.beginClose.Inv ∧ s.beginClose.ClosedIsFinal := by
  refine ⟨⟨nofun, fun hs => absurd hs (by nofun), nofun, nofun, h.closed⟩, fun k hk => ?_⟩
  exact ⟨rfl, (hP k hk).2⟩

/-- A close: what it disables must be in the epoll set, and `kDisconnected` must be stored still. -/
theorem step_close (h : s.Inv) (hP : s.ClosedIsFinal) (c : TcpConnection) (stage : ConnStage)
    (hstate : c.state = s.conn.state) (hchannel : c.channel = s.conn.channel.disableAll)
    (hout : c.outputBuffer = s.conn.outputBuffer)
    (hstage : stage = .idle ∨ stage = .removing) :
    let s' := close { s with conn := c, stage }
    let C := s.conn.state = .kDisconnected ∧ s.conn.channel.index = .kAdded
    (C → s'.Inv) ∧ (s'.ClosedIsFinal ↔ C) := by
  intro s' C
  have hsnap : s'.closed = some (s.closed.getD ⟨s.writes, s.conn.outputBuffer.readable⟩) := by
    show some (s.closed.getD ⟨s.writes, c.outputBuffer.readable⟩) = _
    rw [hout]
  have hreadable : (s.closed.getD ⟨s.writes, s.conn.outputBuffer.readable⟩).outputBuffer =
      s.conn.outputBuffer.readable := by
    cases hk : s.closed with
    | none => rfl
    | some k => exact (h.closed k hk).2.symm
  have hwrites : (s.closed.getD ⟨s.writes, s.conn.outputBuffer.readable⟩).writes = s.writes := by
    cases hk : s.closed with
    | none => rfl
    | some k => exact (hP k hk).2.1.symm
  constructor
  · rintro ⟨hdisc, -⟩
    refine ⟨fun hc => ?_, fun hs => ?_, fun _ hc => ?_, fun hs => ?_, fun k hk => ?_⟩
    · exact absurd ((hstate.trans hdisc).symm.trans hc) nofun
    · rcases hstage with rfl | rfl <;> exact absurd hs (by nofun)
    · exact absurd ((hstate.trans hdisc).symm.trans hc) nofun
    · rcases hstage with rfl | rfl <;> exact absurd hs nofun
    · obtain rfl := Option.some.inj (hsnap.symm.trans hk)
      refine ⟨?_, ?_⟩
      · show c.channel.isWriting = false
        rw [hchannel]
        exact Channel.isWriting_disableAll _
      · show c.outputBuffer.readable = _
        rw [hout, hreadable]
  · have hiff : s'.ClosedIsFinal ↔ c.state = .kDisconnected ∧ c.channel.interest = none := by
      constructor
      · intro hF
        exact ⟨(hF _ hsnap).1, (hF _ hsnap).2.2.2⟩
      · rintro ⟨hdisc, hnone⟩ k hk
        obtain rfl := Option.some.inj (hsnap.symm.trans hk)
        refine ⟨hdisc, hwrites.symm, ?_, hnone⟩
        show c.outputBuffer.readable <:+ _
        rw [hout, hreadable]
    rw [hiff, hstate, hchannel, Channel.interest_disableAll]

theorem step_proceed (h : s.Inv) (hP : s.ClosedIsFinal) :
    (s.NothingLate .proceed → s.proceed.Inv) ∧
      (s.proceed.ClosedIsFinal ↔ s.NothingLate .proceed) := by
  unfold proceed NothingLate
  cases hstage : s.stage with
  | idle => exact ⟨fun _ => h, iff_of_true hP ⟨nofun, nofun⟩⟩
  | closing =>
    obtain ⟨hI, hF⟩ := step_close h hP (s.conn.disableAndReport.call .closeCallback) .idle
      rfl rfl rfl (.inl rfl)
    exact ⟨fun hC => hI (hC.1 rfl), hF.trans ⟨fun hC => ⟨fun _ => hC, nofun⟩, fun hC => hC.1 rfl⟩⟩
  | destroying =>
    obtain ⟨hreg, hopen⟩ := h.destroying (.inl hstage)
    refine ⟨fun _ => ⟨nofun, fun _ => ⟨hreg, hopen⟩, nofun, nofun, h.closed⟩, ?_⟩
    exact iff_of_true (fun k hk => absurd (hopen.symm.trans hk) nofun) ⟨nofun, nofun⟩
  | destroyed =>
    obtain ⟨hreg, -⟩ := h.destroying (.inr hstage)
    obtain ⟨hI, hF⟩ := step_close h hP s.conn.disableAndReport .removing
      rfl rfl rfl (.inr rfl)
    refine ⟨fun hC => hI ⟨hC.2 rfl, hreg.index⟩, hF.trans ⟨fun hC => ⟨nofun, fun _ => hC.1⟩, ?_⟩⟩
    exact fun hC => ⟨hC.2 rfl, hreg.index⟩
  | removing =>
    refine ⟨fun _ => ⟨fun hc => absurd hc (h.removing hstage), ?_, nofun, nofun, h.closed⟩, ?_⟩
    · exact fun hs => absurd hs (by nofun)
    · refine iff_of_true (fun k hk => ?_) ⟨nofun, nofun⟩
      obtain ⟨hstate, hwrites, hout, hinterest⟩ := hP k hk
      exact ⟨hstate, hwrites, hout, Channel.interest_remove _ hinterest⟩
  | shutting =>
    have hopen := h.shutting hstage
    refine ⟨fun _ => ⟨fun hc => ?_, fun hs => absurd hs (by nofun), nofun, nofun, ?_⟩, ?_⟩
    · exact absurd ((kept_shutdownInLoop _).state.symm.trans hc) nofun
    · exact fun k hk => absurd (hopen.symm.trans hk) nofun
    · exact iff_of_true (fun k hk => absurd (hopen.symm.trans hk) nofun) ⟨nofun, nofun⟩

/-- Another thread changes the connection only by its store of `kDisconnecting`. -/
theorem step_remoteProceed [DecidableEq T] (h : s.Inv) (hP : s.ClosedIsFinal) (t : T) :
    (s.NothingLate (.remoteProceed t) → (s.remoteProceed t).Inv) ∧
      ((s.remoteProceed t).ClosedIsFinal ↔ s.NothingLate (.remoteProceed t)) := by
  unfold remoteProceed
  cases hcall : s.callers t with
  | shutting =>
    refine ⟨fun _ => ⟨nofun, h.destroying, fun _ => nofun, h.shutting, h.closed⟩, ?_⟩
    constructor
    · intro hF _
      by_contra hne
      obtain ⟨k, hk⟩ := Option.ne_none_iff_exists'.mp hne
      exact absurd (hF k hk).1 nofun
    · intro hC k hk
      exact absurd ((hC hcall).symm.trans hk) nofun
  | _ =>
    refine ⟨fun _ => ⟨h.connected, h.destroying, h.removing, h.shutting, h.closed⟩, ?_⟩
    exact iff_of_true hP fun hs => absurd (hcall.symm.trans hs) nofun

/-! ## The other steps -/

theorem step_handleRead [DecidableEq T] (h : s.Inv) (hP : s.ClosedIsFinal) (receiveTime : Timestamp)
    (r : ReadResult) :
    (machine.next s (.handleRead receiveTime r)).Inv ∧
      (machine.next s (.handleRead receiveTime r)).ClosedIsFinal := by
  match r with
  | .bytes [] => exact step_beginClose h hP
  | .bytes (b :: data) =>
    have hkept := kept_handleRead s.conn receiveTime (r := .bytes (b :: data)) (by simp)
    exact h.of_kept hP hkept rfl rfl fun _ => ⟨rfl, rfl, rfl⟩
  | .failed e => exact h.of_kept hP (.refl _) rfl rfl fun _ => ⟨rfl, rfl, rfl⟩

/-- A closed connection has no write interest, so `handleWrite` does nothing. -/
theorem step_handleWrite [DecidableEq T] (h : s.Inv) (hP : s.ClosedIsFinal) (w : WriteResult) :
    (machine.next s (.handleWrite w)).Inv ∧ (machine.next s (.handleWrite w)).ClosedIsFinal := by
  refine h.of_kept hP (kept_handleWrite s.conn w) rfl rfl fun hne => ?_
  obtain ⟨k, hk⟩ := Option.ne_none_iff_exists'.mp hne
  have hwriting := (h.closed k hk).1
  have hidle : s.conn.handleWrite w = s.conn :=
    handleWrite_of_idle fun hp => absurd (hwriting.symm.trans hp.1) Bool.false_ne_true
  show (s.conn.handleWrite w).channel = _ ∧ (s.conn.handleWrite w).outputBuffer = _ ∧
    s.writes + s.conn.channel.isWriting.toNat = s.writes
  rw [hidle, hwriting]
  exact ⟨rfl, rfl, rfl⟩

/-- `send` does nothing unless it finds `kConnected`. -/
theorem step_send [DecidableEq T] (h : s.Inv) (hP : s.ClosedIsFinal) (data : Bytes)
    (w : WriteResult) :
    (machine.next s (.send data w)).Inv ∧ (machine.next s (.send data w)).ClosedIsFinal := by
  have hkept : Kept s.conn (s.conn.send data w) := by
    unfold TcpConnection.send
    split
    · exact kept_sendInLoop s.conn data w
    · exact .refl _
  refine h.of_kept hP hkept rfl rfl fun hne => ?_
  obtain ⟨k, hk⟩ := Option.ne_none_iff_exists'.mp hne
  have hnot : ¬ s.conn.state = .kConnected := by
    rw [(hP k hk).1]
    nofun
  show (s.conn.send data w).channel = _ ∧ (s.conn.send data w).outputBuffer = _ ∧
    (s.writes + if s.conn.state = .kConnected then s.conn.writesInLoop.toNat else 0) = s.writes
  rw [TcpConnection.send, if_neg hnot, if_neg hnot]
  exact ⟨rfl, rfl, rfl⟩

theorem step_shutdown [DecidableEq T] (h : s.Inv) (hP : s.ClosedIsFinal) :
    (machine.next s .shutdown).Inv ∧ (machine.next s .shutdown).ClosedIsFinal := by
  show Inv (if s.conn.state = .kConnected then { s with stage := .shutting } else s) ∧
    ClosedIsFinal (if s.conn.state = .kConnected then { s with stage := .shutting } else s)
  split
  · rename_i hc
    have hopen : s.closed = none := hP.closed_eq_none (by rw [hc]; nofun)
    exact ⟨⟨h.connected, fun hs => absurd hs (by nofun), nofun, fun _ => hopen, h.closed⟩, hP⟩
  · exact ⟨h, hP⟩

/-- The loads of another thread change nothing else. -/
theorem step_load [DecidableEq T] (h : s.Inv) (hP : s.ClosedIsFinal) (t : T) (call : RemoteCall)
    (p : Prop) [Decidable p] :
    (if p then s.setCaller t call else s).Inv ∧
      (if p then s.setCaller t call else s).ClosedIsFinal := by
  split
  · exact ⟨⟨h.connected, h.destroying, h.removing, h.shutting, h.closed⟩, hP⟩
  · exact ⟨h, hP⟩

/-- **What one step does**: it keeps `kDisconnected` final exactly when it is not late. -/
theorem step [DecidableEq T] (h : s.Inv) (hP : s.ClosedIsFinal) (a : DisconnectionAction T) :
    (s.NothingLate a → (machine.next s a).Inv) ∧
      ((machine.next s a).ClosedIsFinal ↔ s.NothingLate a) := by
  have of_true : ∀ {s' : Disconnection T}, s'.Inv ∧ s'.ClosedIsFinal →
      (True → s'.Inv) ∧ (s'.ClosedIsFinal ↔ True) := fun hs =>
    ⟨fun _ => hs.1, iff_of_true hs.2 trivial⟩
  cases a with
  | inLoop a w => exact step_inLoop h hP a w
  | handleRead receiveTime r => exact of_true (step_handleRead h hP receiveTime r)
  | handleWrite w => exact of_true (step_handleWrite h hP w)
  | handleClose => exact of_true (step_beginClose h hP)
  | send data w => exact of_true (step_send h hP data w)
  | shutdown => exact of_true (step_shutdown h hP)
  | proceed => exact step_proceed h hP
  | remoteSend t data => exact of_true (step_load h hP t (.sending data) _)
  | remoteShutdown t => exact of_true (step_load h hP t .shutting _)
  | remoteProceed t => exact step_remoteProceed h hP t

/-- **`kDisconnected` is final exactly when nothing comes late**, over any run. -/
theorem closed_final_iff [DecidableEq T] (h : machine.init s) {as : List (DisconnectionAction T)}
    (hl : machine.Legal s as) :
    machine.Always ClosedIsFinal s as ↔ machine.Along NothingLate s as := by
  have hopen : s.ClosedIsFinal := fun k hk => absurd (h.2.2.2.2.2.symm.trans hk) nofun
  exact Machine.always_iff_along (fun s a hi hP _ hC => (step hi hP a).1 hC)
    (fun s a hi hP _ => (step hi hP a).2) (inv_init h) hopen hl

/-- A connection just established, and one other thread. -/
def established : Disconnection Unit where
  loop := .new
  conn := TcpConnection.new.connectEstablished
  stage := .idle
  callers _ := .idle
  writes := 0
  closed := none

theorem established_init : machine.init established :=
  ⟨⟨_, unused_new, rfl⟩, nofun, rfl, fun _ => rfl, rfl, rfl⟩

/-- `send` on the other thread reads `state_` after the peer has closed. -/
theorem closed_final_iff_example :
    machine.Always ClosedIsFinal established
      [.inLoop (.advance false) (.accepted 0), .inLoop (.advance false) (.accepted 0),
        .inLoop (.advance false) (.accepted 0), .inLoop (.advance false) (.accepted 0),
        .handleRead ⟨0⟩ (.bytes []), .proceed, .remoteSend () [1]] := by
  have hadvance : ∀ f ∈ (LoopAction.advance false : LoopAction Unit ConnTask).pushed,
      f = .run .other ∨ f = .connectDestroyed := nofun
  refine (closed_final_iff established_init ?_).mpr ?_
  · exact ⟨⟨fun _ => rfl, ⟨rfl, nofun⟩, hadvance, nofun⟩,
      ⟨fun _ => rfl, ⟨rfl, nofun⟩, hadvance, nofun⟩,
      ⟨fun _ => rfl, ⟨rfl, nofun⟩, hadvance, nofun⟩, ⟨fun _ => rfl, ⟨rfl, nofun⟩, hadvance, nofun⟩,
      ⟨rfl, rfl, false, rfl⟩, nofun, ⟨rfl, rfl⟩, trivial⟩
  · exact ⟨nofun, nofun, nofun, nofun, trivial, ⟨fun _ => ⟨rfl, rfl⟩, nofun⟩, trivial, trivial⟩

/-- **`kDisconnected` is not always final**: `send` on the other thread finds `kConnected`, the
peer closes, and then the functor calls `::write`. -/
theorem late_send_example :
    ¬ ∀ s : Disconnection Unit, machine.init s → ∀ as, machine.Legal s as →
      machine.Always ClosedIsFinal s as := by
  intro h
  have hadvance : ∀ b, ∀ f ∈ (LoopAction.advance b : LoopAction Unit ConnTask).pushed,
      f = .run .other ∨ f = .connectDestroyed := nofun
  have hlegal : machine.Legal established
      [.inLoop (.advance false) (.accepted 0), .inLoop (.advance false) (.accepted 0),
        .inLoop (.advance false) (.accepted 0), .remoteSend () [1], .remoteProceed (),
        .inLoop (.wakeup ()) (.accepted 0), .inLoop (.advance true) (.accepted 0),
        .handleRead ⟨0⟩ (.bytes []), .proceed, .inLoop (.advance false) (.accepted 0),
        .inLoop (.advance false) (.accepted 0), .inLoop (.advance false) (.accepted 0),
        .inLoop (.advance false) (.accepted 1)] :=
    ⟨⟨fun _ => rfl, ⟨rfl, nofun⟩, hadvance _, nofun⟩,
      ⟨fun _ => rfl, ⟨rfl, nofun⟩, hadvance _, nofun⟩,
      ⟨fun _ => rfl, ⟨rfl, nofun⟩, hadvance _, nofun⟩, ⟨rfl, rfl⟩, ⟨nofun, rfl⟩,
      ⟨nofun, nofun, nofun, nofun⟩, ⟨fun _ => rfl, ⟨rfl, fun _ _ => by decide⟩, hadvance _, nofun⟩,
      ⟨rfl, rfl, true, rfl⟩, nofun, ⟨fun _ => rfl, ⟨rfl, nofun⟩, hadvance _, nofun⟩,
      ⟨fun _ => rfl, ⟨rfl, nofun⟩, hadvance _, nofun⟩,
      ⟨fun _ => rfl, ⟨rfl, nofun⟩, hadvance _, nofun⟩,
      ⟨fun _ => rfl, ⟨rfl, nofun⟩, hadvance _, nofun⟩, trivial⟩
  obtain ⟨-, -, -, -, -, -, -, -, -, -, -, -, -, hlast⟩ := h established established_init _ hlegal
  exact absurd (hlast ⟨0, []⟩ (by decide +kernel)).2.1 (by decide +kernel)

end Disconnection

end SimpleHttpServer
