import SimpleHttpServer.Net.EventLoop
import SimpleHttpServer.Net.TcpConnection

/-!
# `send` and `shutdown` from another thread

Another thread calls `send(p)` for each payload of a list and then `shutdown()` on a connected
connection, while the loop thread handles events and runs functors. `send` queues its payload;
`shutdown` changes `state_` at once and only then queues `shutdownInLoop`. A payload is taken as
copied at the call.

The other thread does not touch what `handleWrite` and the functors work on, but for `state_`,
which `handleWrite` reads once: each is one step, at that read. `other` functors stand for
everything else the loop runs.

* `Inv`: no payload is queued behind `shutdownInLoop`, which is queued only when all are;
* **`closed_behind_sends_iff`**: the write side is closed only behind the last byte exactly when
  no `handleWrite` drains the buffer in `kDisconnecting` while payloads are still queued.
-/

namespace SimpleHttpServer

open Lib TcpConnection

/-- A functor of the loop. -/
inductive ConnFunctor where
  | sendInLoop (data : Bytes)
  | shutdownInLoop
  | other
  deriving DecidableEq

/-- The bytes a functor will send. -/
def ConnFunctor.payload : ConnFunctor → Bytes
  | .sendInLoop data => data
  | _ => []

/-- Running a functor; `w` is the result of the `::write` it may make. -/
def ConnFunctor.run (w : WriteResult) (c : TcpConnection) : ConnFunctor → TcpConnection
  | .sendInLoop data => c.sendInLoop data w
  | .shutdownInLoop => c.shutdownInLoop
  | .other => c

/-- Where the other thread is. -/
inductive CallerPc where
  /-- About to call `send` for each of these, then `shutdown`. -/
  | calling (payloads : List Bytes)
  /-- In `send(data)`: has read `kConnected`. -/
  | sending (data : Bytes) (payloads : List Bytes)
  /-- In `shutdown()`: has read `kConnected`. -/
  | shutting
  /-- In `shutdown()`: has stored `kDisconnecting`. -/
  | stored
  | returned
  deriving DecidableEq

/-- `shutdown()` has not changed `state_` yet. -/
def CallerPc.beforeShutdown : CallerPc → Bool
  | .stored | .returned => false
  | _ => true

/-- A connection on its loop, and another thread that calls `send`. -/
structure RemoteSend where
  loop : EventLoop Unit ConnFunctor
  conn : TcpConnection
  caller : CallerPc

/-- The steps of the loop thread and of the other one. -/
inductive RemoteAction where
  /-- A step of the loop thread; `w` is for the functor it may start. -/
  | inLoop (a : LoopAction Unit ConnFunctor) (w : WriteResult)
  /-- The loop thread handles a write event of the connection. -/
  | handleWrite (w : WriteResult)
  /-- The next step of the other thread. -/
  | call

namespace RemoteSend

/-- The next step of `send` or `shutdown` on the other thread. -/
def callNext (s : RemoteSend) : RemoteSend :=
  match s.caller with
  | .calling (data :: payloads) =>
    { s with caller :=
        if s.conn.state = .kConnected then .sending data payloads else .calling payloads }
  | .calling [] =>
    { s with caller := if s.conn.state = .kConnected then .shutting else .returned }
  | .sending data payloads =>
    { s with loop := s.loop.next (.push () (.sendInLoop data)), caller := .calling payloads }
  | .shutting => { s with conn := s.conn.setState .kDisconnecting, caller := .stored }
  | .stored => { s with loop := s.loop.next (.push () .shutdownInLoop), caller := .returned }
  | .returned => s

/-- Runs start with a connected connection, whatever output it has buffered, and none of the
payloads queued. -/
def machine : Machine RemoteSend RemoteAction where
  init s := s.conn.state = .kConnected ∧ s.conn.InterestIffBuffered ∧
    s.conn.socket.writeClosed = false ∧ (∀ f ∈ s.loop.queue, f = .other) ∧
    s.loop.callers () = .idle ∧ ∃ payloads, s.caller = .calling payloads
  guard s
    | .inLoop a w => a.ofLoopThread = true ∧ s.loop.guard a ∧ (∀ f ∈ a.pushed, f = .other) ∧
        w.peerGone = false
    | .handleWrite w => s.loop.self = .idle ∧ (∃ woken, s.loop.pc = .dispatching woken) ∧
        w.peerGone = false
    | .call => s.loop.callers () = .pushed ∨ s.caller ≠ .returned
  next s
    | .inLoop a w =>
      { s with loop := s.loop.next a
               conn := (s.loop.started a).foldl (ConnFunctor.run w) s.conn }
    | .handleWrite w => { s with conn := s.conn.handleWrite w }
    | .call =>
      if s.loop.callers () = .pushed then { s with loop := s.loop.next (.wakeup ()) }
      else s.callNext

/-- The payload bytes that are queued. -/
def queued (s : RemoteSend) : Bytes := s.loop.queue.flatMap ConnFunctor.payload

/-- The bytes not written yet, queued or in `outputBuffer_`. -/
def unwritten (s : RemoteSend) : Bytes := s.conn.outputBuffer.readable ++ s.queued

/-- The write side is closed only behind the last byte. -/
def ClosedBehindSends (s : RemoteSend) : Prop :=
  s.conn.socket.writeClosed = true → s.unwritten = []

/-- `handleWrite` does not drain the buffer in `kDisconnecting` while payload bytes are queued. -/
def NoEarlyDrain (s : RemoteSend) : RemoteAction → Prop
  | .handleWrite w => s.conn.Drains w → s.conn.state = .kDisconnecting → s.queued = []
  | _ => True

variable {s : RemoteSend}

/-! ## Running a functor -/

/-- What running `f` does to the connection. -/
structure Ran (c c' : TcpConnection) (f : ConnFunctor) : Prop where
  interest : c'.InterestIffBuffered
  state : c'.state = c.state
  output : f.payload = [] → c'.outputBuffer = c.outputBuffer
  closed : c'.socket.writeClosed = true → c.socket.writeClosed = true ∨
    f = .shutdownInLoop ∧ c.outputBuffer.readable = []

theorem run_ran {c : TcpConnection} (hi : c.InterestIffBuffered) {w : WriteResult}
    (hw : w.peerGone = false) (f : ConnFunctor) : Ran c (f.run w c) f := by
  cases f with
  | sendInLoop data =>
    have hsent := sendInLoop_sent hi data hw
    refine ⟨hsent.interest, hsent.state, fun hnil => ?_, fun hc => .inl ?_⟩
    · obtain rfl : data = [] := hnil
      exact outputBuffer_sendInLoop_nil c w
    · exact hsent.writeClosed.symm.trans hc
  | shutdownInLoop =>
    show Ran c c.shutdownInLoop .shutdownInLoop
    unfold TcpConnection.shutdownInLoop
    split
    · exact ⟨hi, rfl, fun _ => rfl, .inl⟩
    · rename_i hwriting
      exact ⟨hi, rfl, fun _ => rfl, fun _ => .inr ⟨rfl, hi.readable_eq_nil hwriting⟩⟩
  | other => exact ⟨hi, rfl, fun _ => rfl, .inl⟩

/-! ## The invariant -/

/-- No payload bytes are queued behind `shutdownInLoop`. -/
def Behind (q : List ConnFunctor) : Prop :=
  q.Pairwise fun f g => f = .shutdownInLoop → g.payload = []

theorem behind_append {q : List ConnFunctor} (hq : Behind q) {fs : List ConnFunctor}
    (h : .shutdownInLoop ∉ q ∧ .shutdownInLoop ∉ fs ∨ ∀ f ∈ fs, f.payload = []) :
    Behind (q ++ fs) := by
  refine List.pairwise_append.mpr ⟨hq, List.pairwise_of_forall_mem_list ?_, ?_⟩
  · rintro f hf g hg rfl
    exact h.elim (fun hno => absurd hf hno.2) fun hnil => hnil g hg
  · rintro f hf g hg rfl
    exact h.elim (fun hno => absurd hf hno.1) fun hnil => hnil g hg

/-- The invariant: what `shutdown()` has done so far. -/
structure Inv (s : RemoteSend) : Prop where
  interest : s.conn.InterestIffBuffered
  behind : Behind s.loop.queue
  before : s.caller.beforeShutdown = true → s.conn.state = .kConnected ∧
    s.conn.socket.writeClosed = false ∧ .shutdownInLoop ∉ s.loop.queue
  after : s.caller.beforeShutdown = false → s.conn.state = .kDisconnecting

theorem inv_init (h : machine.init s) : s.Inv := by
  obtain ⟨hstate, hinterest, hclosed, hother, -, payloads, hcaller⟩ := h
  have hno : .shutdownInLoop ∉ s.loop.queue := fun hmem => absurd (hother _ hmem) nofun
  refine ⟨hinterest, ?_, fun _ => ⟨hstate, hclosed, hno⟩, fun h => ?_⟩
  · exact behind_append .nil (.inr fun f hf => by rw [hother f hf]; rfl)
  · simp [hcaller, CallerPc.beforeShutdown] at h

/-- The loop thread pushes `other` functors only. -/
theorem mem_started {l : EventLoop Unit ConnFunctor} {a : LoopAction Unit ConnFunctor}
    (hother : ∀ f ∈ a.pushed, f = .other) {f : ConnFunctor}
    (hf : f ∈ l.started a ++ (l.next a).queue) : f ∈ l.queue ∨ f = .other :=
  (EventLoop.mem_started hf).imp_right (hother f)

theorem behind_started {l : EventLoop Unit ConnFunctor} {a : LoopAction Unit ConnFunctor}
    (hother : ∀ f ∈ a.pushed, f = .other) (hq : Behind l.queue) :
    Behind (l.started a ++ (l.next a).queue) := by
  rw [← (l.next_queue a).1]
  exact behind_append hq (.inr fun f hf => by rw [hother f hf]; rfl)

/-- The step's effect on the connection: that of the functor it starts, if it starts one. -/
theorem conn_inLoop (hi : s.conn.InterestIffBuffered) (a : LoopAction Unit ConnFunctor)
    {w : WriteResult} (hw : w.peerGone = false) :
    s.loop.started a = [] ∧ (machine.next s (.inLoop a w)).conn = s.conn ∨
      ∃ f, s.loop.started a = [f] ∧ Ran s.conn (machine.next s (.inLoop a w)).conn f := by
  show s.loop.started a = [] ∧ (s.loop.started a).foldl (ConnFunctor.run w) s.conn = s.conn ∨
    ∃ f, s.loop.started a = [f] ∧ Ran s.conn ((s.loop.started a).foldl (ConnFunctor.run w) s.conn) f
  rcases s.loop.started_cases a with hst | ⟨f, hst⟩
  · rw [hst]
    exact .inl ⟨rfl, rfl⟩
  · rw [hst]
    exact .inr ⟨f, rfl, run_ran hi hw f⟩

theorem inv_inLoop (h : s.Inv) {a : LoopAction Unit ConnFunctor} {w : WriteResult}
    (hg : machine.guard s (.inLoop a w)) : (machine.next s (.inLoop a w)).Inv := by
  obtain ⟨-, -, hother, hw⟩ := hg
  have hbehind : Behind (s.loop.next a).queue :=
    (List.pairwise_append.mp (behind_started hother h.behind)).2.1
  have hno : .shutdownInLoop ∉ s.loop.queue →
      .shutdownInLoop ∉ s.loop.started a ++ (s.loop.next a).queue := fun hq hmem =>
    (mem_started hother hmem).elim hq nofun
  rcases conn_inLoop h.interest a hw with ⟨hst, hconn⟩ | ⟨f, hst, hran⟩
  · refine ⟨by rw [hconn]; exact h.interest, hbehind, fun hb => ?_, fun hb => ?_⟩
    · obtain ⟨hstate, hclosed, hq⟩ := h.before hb
      rw [hconn]
      exact ⟨hstate, hclosed, fun hmem => hno hq (List.mem_append_right _ hmem)⟩
    · rw [hconn]
      exact h.after hb
  · refine ⟨hran.interest, hbehind, fun hb => ?_, fun hb => hran.state.trans (h.after hb)⟩
    obtain ⟨hstate, hclosed, hq⟩ := h.before hb
    refine ⟨hran.state.trans hstate, ?_, fun hmem => hno hq (List.mem_append_right _ hmem)⟩
    rw [Bool.eq_false_iff]
    intro hc
    rcases hran.closed hc with hc | ⟨rfl, -⟩
    · exact absurd (hclosed.symm.trans hc) Bool.false_ne_true
    · exact hno hq (by rw [hst]; exact List.mem_append_left _ (List.mem_singleton_self _))

theorem inv_handleWrite (h : s.Inv) (w : WriteResult) :
    (machine.next s (.handleWrite w)).Inv := by
  have hw := handleWrite_written h.interest w
  refine ⟨hw.interest, h.behind, fun hb => ?_, fun hb => hw.state.trans (h.after hb)⟩
  obtain ⟨hstate, hclosed, hq⟩ := h.before hb
  exact ⟨hw.state.trans hstate, (hw.writeClosed_of_connected hstate).trans hclosed, hq⟩

/-- The queue after a push. -/
theorem queue_push (s : RemoteSend) (f : ConnFunctor) :
    (s.loop.next (.push () f)).queue = s.loop.queue ++ [f] :=
  (s.loop.next_queue (.push () f)).1.symm

theorem inv_callNext (h : s.Inv) : s.callNext.Inv := by
  obtain ⟨hinterest, hbehind, hbefore, hafter⟩ := h
  unfold callNext
  cases hcaller : s.caller with
  | calling payloads =>
    rw [hcaller] at hbefore
    obtain ⟨hstate, hrest⟩ := hbefore rfl
    cases payloads with
    | nil =>
      simp only [hstate, if_true]
      exact ⟨hinterest, hbehind, fun _ => ⟨hstate, hrest⟩, nofun⟩
    | cons data payloads =>
      simp only [hstate, if_true]
      exact ⟨hinterest, hbehind, fun _ => ⟨hstate, hrest⟩, nofun⟩
  | sending data payloads =>
    rw [hcaller] at hbefore
    obtain ⟨hstate, hclosed, hq⟩ := hbefore rfl
    have hno : ConnFunctor.shutdownInLoop ∉ [ConnFunctor.sendInLoop data] := by simp
    refine ⟨hinterest, ?_, fun _ => ⟨hstate, hclosed, ?_⟩, nofun⟩
    · show Behind (s.loop.next _).queue
      rw [queue_push]
      exact behind_append hbehind (.inl ⟨hq, hno⟩)
    · show _ ∉ (s.loop.next _).queue
      rw [queue_push, List.mem_append, not_or]
      exact ⟨hq, hno⟩
  | shutting => exact ⟨hinterest, hbehind, nofun, fun _ => rfl⟩
  | stored =>
    rw [hcaller] at hafter
    refine ⟨hinterest, ?_, nofun, fun _ => hafter rfl⟩
    show Behind (s.loop.next _).queue
    rw [queue_push]
    exact behind_append hbehind (.inr (List.forall_mem_singleton.mpr rfl))
  | returned => exact ⟨hinterest, hbehind, hbefore, hafter⟩

theorem inv_call (h : s.Inv) : (machine.next s .call).Inv := by
  show Inv (if s.loop.callers () = .pushed then _ else s.callNext)
  split
  · exact ⟨h.interest, h.behind, h.before, h.after⟩
  · exact inv_callNext h

theorem inv_next (h : s.Inv) {a : RemoteAction} (hg : machine.guard s a) :
    (machine.next s a).Inv := by
  cases a with
  | inLoop a w => exact inv_inLoop h hg
  | handleWrite w => exact inv_handleWrite h w
  | call => exact inv_call h

/-! ## When the write side is closed too early -/

theorem unwritten_eq_nil_iff : s.unwritten = [] ↔
    s.conn.outputBuffer.readable = [] ∧ ∀ f ∈ s.loop.queue, f.payload = [] := by
  rw [unwritten, queued, List.append_eq_nil_iff, List.flatMap_eq_nil_iff]

/-- A functor cannot close the write side too early: `shutdownInLoop` is behind all payloads. -/
theorem closedBehindSends_inLoop (h : s.Inv) (hP : s.ClosedBehindSends)
    {a : LoopAction Unit ConnFunctor} {w : WriteResult}
    (hg : machine.guard s (.inLoop a w)) :
    (machine.next s (.inLoop a w)).ClosedBehindSends := by
  obtain ⟨-, -, hother, hw⟩ := hg
  -- a payload that is still queued was queued before this step
  have hstill : (∀ f ∈ s.loop.queue, f.payload = []) →
      ∀ f ∈ s.loop.started a ++ (s.loop.next a).queue, f.payload = [] := by
    intro hq f hf
    rcases mem_started hother hf with hf | rfl
    · exact hq f hf
    · rfl
  intro hclosed
  rw [unwritten_eq_nil_iff]
  rcases conn_inLoop h.interest a hw with ⟨hst, hconn⟩ | ⟨f, hst, hran⟩
  · rw [hconn] at hclosed ⊢
    obtain ⟨hout, hq⟩ := unwritten_eq_nil_iff.mp (hP hclosed)
    exact ⟨hout, fun g hmem => hstill hq g (List.mem_append_right _ hmem)⟩
  · rw [hst] at hstill
    rcases hran.closed hclosed with hclosed | ⟨rfl, hout⟩
    · obtain ⟨hout, hq⟩ := unwritten_eq_nil_iff.mp (hP hclosed)
      have hf : f.payload = [] := hstill hq f (List.mem_append_left _ (List.mem_singleton_self f))
      rw [hran.output hf]
      exact ⟨hout, fun g hmem => hstill hq g (List.mem_append_right _ hmem)⟩
    · have hbehind := behind_started hother h.behind
      rw [hst] at hbehind
      rw [hran.output rfl]
      exact ⟨hout, fun g hmem => (List.pairwise_cons.mp hbehind).1 g hmem rfl⟩

/-- `handleWrite` closes the write side too early exactly when it drains the buffer early. -/
theorem closedBehindSends_handleWrite (h : s.Inv) (hP : s.ClosedBehindSends) (w : WriteResult) :
    (machine.next s (.handleWrite w)).ClosedBehindSends ↔ s.NoEarlyDrain (.handleWrite w) := by
  have hw := handleWrite_written h.interest w
  constructor
  · intro hnext hdrains hstate
    have hnil := hnext (hw.writeClosed_iff.mpr (.inr ⟨hdrains, hstate⟩))
    exact (List.append_eq_nil_iff.mp hnil).2
  · intro hearly hclosed
    refine List.append_eq_nil_iff.mpr ?_
    rcases hw.writeClosed_iff.mp hclosed with hclosed | ⟨hdrains, hstate⟩
    · obtain ⟨hout, hq⟩ := List.append_eq_nil_iff.mp (hP hclosed)
      exact ⟨hw.empty_iff.mpr (.inl hout), hq⟩
    · exact ⟨hw.empty_iff.mpr (.inr hdrains), hearly hdrains hstate⟩

theorem socket_callNext (s : RemoteSend) : s.callNext.conn.socket = s.conn.socket := by
  unfold callNext
  split <;> rfl

/-- The other thread does not close the write side, and queues payloads only while it is open. -/
theorem closedBehindSends_callNext (h : s.Inv) (hP : s.ClosedBehindSends) :
    s.callNext.ClosedBehindSends := by
  intro hclosed
  rw [socket_callNext] at hclosed
  cases hcaller : s.caller with
  | stored =>
    obtain ⟨hout, hq⟩ := unwritten_eq_nil_iff.mp (hP hclosed)
    have hnext : s.callNext =
        { s with loop := s.loop.next (.push () .shutdownInLoop), caller := .returned } := by
      simp only [callNext, hcaller]
    rw [hnext, unwritten_eq_nil_iff]
    refine ⟨hout, fun f hmem => ?_⟩
    rw [queue_push] at hmem
    rcases List.mem_append.mp hmem with hmem | hmem
    · exact hq f hmem
    · rw [List.mem_singleton.mp hmem]
      rfl
  | returned =>
    have hnext : s.callNext = s := by
      simp only [callNext, hcaller]
    rw [hnext]
    exact hP hclosed
  | _ =>
    have hopen := (h.before (by rw [hcaller]; rfl)).2.1
    exact absurd (hopen.symm.trans hclosed) Bool.false_ne_true

theorem closedBehindSends_next (h : s.Inv) (hP : s.ClosedBehindSends) {a : RemoteAction}
    (hg : machine.guard s a) :
    (machine.next s a).ClosedBehindSends ↔ s.NoEarlyDrain a := by
  cases a with
  | inLoop a w => exact iff_of_true (closedBehindSends_inLoop h hP hg) trivial
  | handleWrite w => exact closedBehindSends_handleWrite h hP w
  | call =>
    refine iff_of_true ?_ trivial
    show ClosedBehindSends (if s.loop.callers () = .pushed then _ else s.callNext)
    split
    · exact hP
    · exact closedBehindSends_callNext h hP

/-- **The write side is closed only behind the last byte exactly when no `handleWrite` drains the
buffer early**, over any run. -/
theorem closed_behind_sends_iff (h : machine.init s) {as : List RemoteAction}
    (hl : machine.Legal s as) :
    machine.Always ClosedBehindSends s as ↔ machine.Along NoEarlyDrain s as := by
  have hopen : s.ClosedBehindSends := fun hclosed =>
    absurd (h.2.2.1.symm.trans hclosed) Bool.false_ne_true
  exact Machine.always_iff_along (fun s a hi _ hg _ => inv_next hi hg)
    (fun s a hi hP hg => closedBehindSends_next hi hP hg) (inv_init h) hopen hl

/-- One byte of output is buffered; another thread is about to send one more. -/
def backlog : RemoteSend where
  loop := .new
  conn := TcpConnection.new.connectEstablished.send [9] (.failed .EWOULDBLOCK)
  caller := .calling [[1]]

theorem backlog_init : machine.init backlog := by
  have hconn : TcpConnection.new.connectEstablished.InterestIffBuffered := by
    show _ = true ↔ (ByteQueue.new Buffer.kInitialSize).readable ≠ []
    rw [ByteQueue.readable_new]
    decide
  have hsent : Sent _ backlog.conn [9] := sendInLoop_sent (w := .failed .EWOULDBLOCK) hconn [9] rfl
  exact ⟨hsent.state, hsent.interest, hsent.writeClosed, nofun, rfl, [[1]], rfl⟩

/-- The buffer drains while the payload is queued, but before `shutdown()`. -/
theorem closed_behind_sends_iff_example :
    machine.Always ClosedBehindSends backlog
      [.inLoop (.advance false) (.accepted 0), .inLoop (.advance false) (.accepted 0),
        .inLoop (.advance false) (.accepted 0), .call, .call, .call,
        .inLoop (.advance true) (.accepted 0), .handleWrite (.accepted 1), .call] := by
  refine (closed_behind_sends_iff backlog_init ?_).mpr ?_
  · refine ⟨⟨rfl, ⟨rfl, nofun⟩, nofun, rfl⟩, ⟨rfl, ⟨rfl, nofun⟩, nofun, rfl⟩,
      ⟨rfl, ⟨rfl, nofun⟩, nofun, rfl⟩, .inr nofun, .inr nofun, .inl rfl,
      ⟨rfl, ⟨rfl, fun _ _ => by decide⟩, nofun, rfl⟩, ⟨rfl, ⟨true, rfl⟩, rfl⟩, .inr nofun, trivial⟩
  · exact ⟨trivial, trivial, trivial, trivial, trivial, trivial, trivial, fun _ => nofun, trivial,
      trivial⟩

/-- **The write side can be closed too early**: `shutdown()` changes `state_` while its payload is
still queued, and `handleWrite` drains the older output. -/
theorem closed_early_example :
    ¬ ∀ s, machine.init s → ∀ as, machine.Legal s as → machine.Always ClosedBehindSends s as := by
  intro h
  have hlegal : machine.Legal backlog
      [.inLoop (.advance false) (.accepted 0), .inLoop (.advance false) (.accepted 0),
        .inLoop (.advance false) (.accepted 0), .call, .call, .call, .call, .call,
        .inLoop (.advance true) (.accepted 0), .handleWrite (.accepted 1)] :=
    ⟨⟨rfl, ⟨rfl, nofun⟩, nofun, rfl⟩, ⟨rfl, ⟨rfl, nofun⟩, nofun, rfl⟩,
      ⟨rfl, ⟨rfl, nofun⟩, nofun, rfl⟩, .inr nofun, .inr nofun, .inl rfl, .inr nofun, .inr nofun,
      ⟨rfl, ⟨rfl, fun _ _ => by decide⟩, nofun, rfl⟩, ⟨rfl, ⟨true, rfl⟩, rfl⟩, trivial⟩
  obtain ⟨-, -, -, -, -, -, -, -, -, -, hlast⟩ := h backlog backlog_init _ hlegal
  exact absurd (hlast (by decide +kernel)) (by decide +kernel)

end RemoteSend

end SimpleHttpServer
