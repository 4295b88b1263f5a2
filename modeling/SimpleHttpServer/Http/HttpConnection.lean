import SimpleHttpServer.Http.HalfClosed
import SimpleHttpServer.Net.ConnectionReports
import SimpleHttpServer.Net.OutputStream

/-!
# A connection that `HttpServer` serves

`HttpServer` (`http/HttpServer.cpp`) on top of `TcpConnection`, on the connection's loop thread: the
callbacks of `ConnectionReports` are those that the constructor of `HttpServer` sets. `onConnection`
puts an `HttpContext` into `context_` when the connection is up, `onMessage` parses out of
`inputBuffer_` and calls `send` and `shutdown` of the connection where `HttpServer.run` only logs
these calls.

* `onMessage_session`, `handleRead_session`: the calls on the connection leave the session as
  `HttpServer.deliver` has it;
* `Flow` is the invariant of the bytes: while the connection is not closed, its output stream is
  `accepted` of the log, the payloads in front of the first `shutdown`;
* **`served_of_reachable`**: whatever events `poll` delivers and however much each `::write` takes,
  what the server does is decided by the chunks read, and the client gets a prefix of what it was
  sent in front of the first `shutdown`; the write side is closed behind all of it.

In a run no write fails with `EPIPE` or `ECONNRESET` (`EventWrites.PeerThere`), on which
`sendInLoop` drops what it was given, and every event returns.
-/

namespace SimpleHttpServer

open Lib

/-- What the calls of `::write` return in one event: for the reply to a bad request, for the
response, and in `handleWrite`. -/
structure EventWrites where
  reject : WriteResult
  respond : WriteResult
  flush : WriteResult

/-- No write of the event finds that the peer is gone. -/
structure EventWrites.PeerThere (ws : EventWrites) : Prop where
  reject : ws.reject.peerGone = false
  respond : ws.respond.peerGone = false
  flush : ws.flush.peerGone = false

/-- A connection with its `context_`, and the calls that `HttpServer` has made. -/
structure HttpConnection where
  conn : TcpConnection
  /-- What `std::any_cast<HttpContext>` finds in `context_`. -/
  context : Option HttpContext
  log : List ServerCall

namespace HttpConnection

/-- `HttpServer::onConnection`. -/
def onConnection (h : HttpConnection) : HttpConnection :=
  if h.conn.connected then { h with context := some {} } else h

/-- `connectEstablished` ends in `connectionCallback_`. -/
def connectEstablished (c : TcpConnection) : HttpConnection :=
  onConnection ⟨c.connectEstablished, none, []⟩

/-- The call is logged. -/
def call (h : HttpConnection) (c : ServerCall) : HttpConnection := { h with log := h.log ++ [c] }

/-- `conn->send(buf)`. -/
def send (h : HttpConnection) (buf : Bytes) (w : WriteResult) : HttpConnection :=
  { h with conn := h.conn.send buf w }.call (.send buf)

/-- `conn->shutdown()`. -/
def shutdown (h : HttpConnection) : HttpConnection :=
  { h with conn := h.conn.shutdown }.call .shutdown

/-- `handleClose` with `connectionCallback_`. -/
def handleClose (h : HttpConnection) : HttpConnection :=
  onConnection { h with conn := h.conn.handleClose }

/-- `connectDestroyed`, which calls `connectionCallback_` in `kConnected` only. -/
def connectDestroyed (h : HttpConnection) : HttpConnection :=
  if h.conn.state = .kConnected then onConnection { h with conn := h.conn.connectDestroyed }
  else { h with conn := h.conn.connectDestroyed }

variable (httpCallback : HttpCallback)

/-- `HttpServer::onRequest(conn, req)`. -/
def onRequest (h : HttpConnection) (req : HttpRequest) (w : WriteResult) :
    Except Fault HttpConnection :=
  let response := httpCallback h.log req { closeConnection := HttpServer.wantsClose req }
  let h := h.call (.httpCallback req)
  match response.appendToBuffer (ByteQueue.new Buffer.kInitialSize) with
  | .error f => .error f
  | .ok buf =>
    let h := h.send buf.retrieveAllAsString.1 w
    if response.closeConnection then .ok h.shutdown else .ok h

/-- `parseRequest` works on the context and on the input buffer in place. -/
def parsed (h : HttpConnection) (v : HttpContext.ParseVars) : HttpConnection :=
  { h with context := some v.context, conn := { h.conn with inputBuffer := v.buf } }

/-- What `onMessage` does when `parseRequest` has returned `false`. -/
def rejectUnless (h : HttpConnection) (ok : Bool) (w : WriteResult) : HttpConnection :=
  if ok then h else (h.send HttpServer.badRequest w).shutdown

/-- `HttpServer::onMessage(conn, buf, receiveTime)`, with the context that was found. -/
def onMessageWith (h : HttpConnection) (context : HttpContext) (receiveTime : Timestamp)
    (ws : EventWrites) : Outcome HttpConnection :=
  match context.parseRequest h.conn.inputBuffer receiveTime with
  | .faults f => .faults f
  | .diverges => .diverges
  | .returns v =>
    let h := (h.parsed v).rejectUnless v.ok ws.reject
    if v.context.gotAll then
      match onRequest httpCallback h v.context.request ws.respond with
      | .error f => .faults f
      | .ok h => .returns { h with context := some v.context.reset }
    else .returns h

/-- `onMessage`. `none`: nothing was set, and the null pointer that `any_cast` gives is followed. -/
def onMessage (h : HttpConnection) (receiveTime : Timestamp) (ws : EventWrites) :
    Option (Outcome HttpConnection) :=
  h.context.map fun context => onMessageWith httpCallback h context receiveTime ws

/-- `handleRead` with the callbacks of `HttpServer`. -/
def handleRead (h : HttpConnection) (receiveTime : Timestamp) (ws : EventWrites) :
    ReadResult → Option (Outcome HttpConnection)
  | .bytes [] => some (.returns h.handleClose)
  | .bytes (b :: data) =>
    onMessage httpCallback { h with conn := h.conn.handleRead receiveTime (.bytes (b :: data)) }
      receiveTime ws
  | .failed e => some (.returns { h with conn := h.conn.handleRead receiveTime (.failed e) })

/-- `handleEventWithGuard` with the callbacks of `HttpServer`. -/
def handleEvent (h : HttpConnection) (revents : BitVec 32) (receiveTime : Timestamp)
    (r : ReadResult) (ws : EventWrites) : Option (Outcome HttpConnection) :=
  let h := if Channel.hangsUp revents then h.handleClose else h
  match if Channel.reads revents then handleRead httpCallback h receiveTime ws r
    else some (.returns h) with
  | some (.returns h) =>
    some (.returns
      (if Channel.writes revents then { h with conn := h.conn.handleWrite ws.flush } else h))
  | o => o

/-! ## The session of the connection -/

/-- The connection and the session end their call alike, with the same context, input and log. -/
inductive SameSession : Outcome HttpConnection → Outcome Session → Prop where
  | returns {h : HttpConnection} {s : Session} (context : h.context = some s.context)
      (inputBuffer : h.conn.inputBuffer = s.inputBuffer) (log : h.log = s.log) :
      SameSession (.returns h) (.returns s)
  | faults (f : Fault) : SameSession (.faults f) (.faults f)
  | diverges : SameSession .diverges .diverges

end HttpConnection

namespace TcpConnection

/-- Sending does not touch the input buffer. -/
@[simp] theorem inputBuffer_sendInLoop (c : TcpConnection) (data : Bytes) (w : WriteResult) :
    (c.sendInLoop data w).inputBuffer = c.inputBuffer := by
  have hdirect : (c.writeDirect data w).1.inputBuffer = c.inputBuffer := by
    cases w with
    | accepted n =>
      obtain ⟨log, hlog⟩ := writeDirect_accepted c data n
      rw [hlog]
      rfl
    | failed e => rfl
  have hrest : ∀ (c' : TcpConnection) (rest : Bytes),
      (c'.bufferRest rest).inputBuffer = c'.inputBuffer := by
    intro c' rest
    obtain ⟨log, hlog⟩ := queueHighWaterMark_eq c' c'.outputBuffer.readableBytes rest.length
    unfold bufferRest
    rw [hlog]
    simp only
    split <;> rfl
  unfold sendInLoop
  by_cases hd : (!c.channel.isWriting && c.outputBuffer.readableBytes == 0) = true
  · rw [if_pos hd]
    simp only
    split
    · rw [hrest, hdirect]
    · exact hdirect
  · rw [if_neg hd]
    simp only
    split
    · exact hrest c _
    · rfl

@[simp] theorem inputBuffer_send (c : TcpConnection) (data : Bytes) (w : WriteResult) :
    (c.send data w).inputBuffer = c.inputBuffer := by
  unfold send
  split
  · exact inputBuffer_sendInLoop c data w
  · rfl

theorem inputBuffer_shutdownInLoop (c : TcpConnection) :
    c.shutdownInLoop.inputBuffer = c.inputBuffer := by
  unfold shutdownInLoop
  split <;> rfl

@[simp] theorem inputBuffer_shutdown (c : TcpConnection) :
    c.shutdown.inputBuffer = c.inputBuffer := by
  unfold shutdown
  split
  · exact inputBuffer_shutdownInLoop _
  · rfl

@[simp] theorem inputBuffer_handleWrite (c : TcpConnection) (w : WriteResult) :
    (c.handleWrite w).inputBuffer = c.inputBuffer := by
  by_cases hp : c.channel.isWriting = true ∧ ∃ n, w = .accepted n ∧ 0 < n
  · obtain ⟨hw, n, rfl, hn⟩ := hp
    rw [handleWrite_of_progress hw hn]
    split
    · obtain ⟨log, hlog⟩ := outputDrained_eq (c.takeOutput n)
      rw [hlog]
      rfl
    · rfl
  · rw [handleWrite_of_idle hp]

@[simp] theorem inputBuffer_connectDestroyed (c : TcpConnection) :
    c.connectDestroyed.inputBuffer = c.inputBuffer := by
  rw [connectDestroyed_eq]
  split <;> rfl

end TcpConnection

namespace HttpConnection

@[simp] theorem inputBuffer_send (h : HttpConnection) (buf : Bytes) (w : WriteResult) :
    (h.send buf w).conn.inputBuffer = h.conn.inputBuffer :=
  TcpConnection.inputBuffer_send h.conn buf w

@[simp] theorem inputBuffer_shutdown (h : HttpConnection) :
    h.shutdown.conn.inputBuffer = h.conn.inputBuffer :=
  TcpConnection.inputBuffer_shutdown h.conn

variable (httpCallback : HttpCallback)

/-- `onRequest` makes the calls of the session's `onRequest`, on the connection. -/
theorem onRequest_session {h : HttpConnection} {s : Session} (hlog : h.log = s.log)
    (hbuf : h.conn.inputBuffer = s.inputBuffer) (req : HttpRequest) (w : WriteResult) :
    (∃ f, onRequest httpCallback h req w = .error f ∧
      HttpServer.onRequest httpCallback s req = .error f) ∨
    ∃ h' s', onRequest httpCallback h req w = .ok h' ∧
      HttpServer.onRequest httpCallback s req = .ok s' ∧
      h'.conn.inputBuffer = s'.inputBuffer ∧ h'.log = s'.log := by
  unfold onRequest HttpServer.onRequest
  rw [← hlog]
  simp only
  cases hresp : (httpCallback h.log req { closeConnection := HttpServer.wantsClose req }
      ).appendToBuffer (ByteQueue.new Buffer.kInitialSize) with
  | error f => exact .inl ⟨f, rfl, rfl⟩
  | ok buf =>
    refine .inr ?_
    simp only
    split
    · refine ⟨_, _, rfl, rfl, ?_, ?_⟩
      · rw [inputBuffer_shutdown, inputBuffer_send]
        exact hbuf
      · simp [call, send, shutdown, Session.call, hlog]
    · refine ⟨_, _, rfl, rfl, ?_, ?_⟩
      · rw [inputBuffer_send]
        exact hbuf
      · simp [call, send, Session.call, hlog]

/-- **`onMessage` on the connection is `onMessage` of the session.** -/
theorem onMessage_session {h : HttpConnection} {s : Session} (hctx : h.context = some s.context)
    (hbuf : h.conn.inputBuffer = s.inputBuffer) (hlog : h.log = s.log) (t : Timestamp)
    (ws : EventWrites) :
    ∃ o, onMessage httpCallback h t ws = some o ∧
      SameSession o (HttpServer.onMessage httpCallback s t) := by
  refine ⟨onMessageWith httpCallback h s.context t ws, by rw [onMessage, hctx]; rfl, ?_⟩
  unfold onMessageWith HttpServer.onMessage
  rw [hbuf]
  cases hv : s.context.parseRequest s.inputBuffer t with
  | faults f => exact .faults f
  | diverges => exact .diverges
  | returns v =>
    simp only
    -- the session and the connection behind the reply to a bad request
    obtain ⟨s₁, hs₁, hsctx₁, hctx₁, hbuf₁, hlog₁⟩ : ∃ s₁ : Session,
        (if v.ok = true then { s with context := v.context, inputBuffer := v.buf }
          else (({ s with context := v.context, inputBuffer := v.buf } : Session).call
            (.send HttpServer.badRequest)).call .shutdown) = s₁ ∧ s₁.context = v.context ∧
        ((h.parsed v).rejectUnless v.ok ws.reject).context = some v.context ∧
        ((h.parsed v).rejectUnless v.ok ws.reject).conn.inputBuffer = s₁.inputBuffer ∧
        ((h.parsed v).rejectUnless v.ok ws.reject).log = s₁.log := by
      refine ⟨_, rfl, ?_⟩
      unfold rejectUnless
      by_cases hok : v.ok = true
      · rw [if_pos hok, if_pos hok]
        exact ⟨rfl, rfl, rfl, hlog⟩
      · rw [if_neg hok, if_neg hok]
        refine ⟨rfl, rfl, ?_, ?_⟩
        · rw [inputBuffer_shutdown, inputBuffer_send]
          rfl
        · simp [call, send, shutdown, parsed, Session.call, hlog]
    rw [hs₁, hsctx₁]
    by_cases hgot : v.context.gotAll = true
    · rw [if_pos hgot, if_pos hgot]
      rcases onRequest_session httpCallback hlog₁ hbuf₁ v.context.request
        ws.respond with ⟨f, hf, hf'⟩ | ⟨h', s', hh, hs, hb, hl⟩
      · rw [hf, hf']
        exact .faults f
      · rw [hh, hs]
        have hreset : s'.context.reset = v.context.reset := rfl
        exact .returns (congrArg some hreset.symm) hb hl
    · rw [if_neg hgot, if_neg hgot]
      exact .returns (by rw [hctx₁, hsctx₁]) hbuf₁ hlog₁

/-- A read of some data is a delivery to the session. -/
theorem handleRead_session {h : HttpConnection} {s : Session} (hctx : h.context = some s.context)
    (hbuf : h.conn.inputBuffer = s.inputBuffer) (hlog : h.log = s.log) (t : Timestamp)
    (ws : EventWrites) (b : UInt8) (data : Bytes) :
    ∃ o, handleRead httpCallback h t ws (.bytes (b :: data)) = some o ∧
      SameSession o (HttpServer.deliver httpCallback s (b :: data) t) := by
  have hread : (h.conn.handleRead t (.bytes (b :: data))).inputBuffer =
      s.inputBuffer.readFd (b :: data) := by
    show h.conn.inputBuffer.readFd (b :: data) = _
    rw [hbuf]
  exact onMessage_session httpCallback
    (h := { h with conn := h.conn.handleRead t (.bytes (b :: data)) })
    (s := { s with inputBuffer := s.inputBuffer.readFd (b :: data) }) hctx hread hlog t ws

end HttpConnection

/-! ## The bytes of the connection -/

namespace ServerCall

/-- The payloads in front of the first `shutdown`. -/
def accepted : List ServerCall → List Bytes
  | [] => []
  | .send buf :: log => buf :: accepted log
  | .shutdown :: _ => []
  | .httpCallback _ :: log => accepted log

/-- Behind a `shutdown` nothing is accepted. -/
theorem accepted_append (xs ys : List ServerCall) :
    accepted (xs ++ ys) = accepted xs ++ if .shutdown ∈ xs then [] else accepted ys := by
  induction xs with
  | nil => simp [accepted]
  | cons x xs ih =>
    cases x with
    | send buf => simp [accepted, ih]
    | shutdown => simp [accepted]
    | httpCallback req => simp [accepted, ih]

end ServerCall

namespace HttpConnection

open ServerCall TcpConnection

/-- Not closed: the output stream is what was accepted. -/
structure Open (c : TcpConnection) (log : List ServerCall) : Prop where
  intact : OutputRun.Intact ⟨c, accepted log⟩
  state : c.state = .kConnected ∧ .shutdown ∉ log ∨ c.state = .kDisconnecting ∧ .shutdown ∈ log

/-- Closed: nothing more is written. -/
structure Closed (c : TcpConnection) (log : List ServerCall) : Prop where
  state : c.state = .kDisconnected
  idle : c.channel.isWriting = false
  stream : c.stream <+: (accepted log).flatten
  behind : c.socket.writeClosed = true →
    .shutdown ∈ log ∧ c.socket.written = (accepted log).flatten

/-- The invariant of the bytes. -/
def Flow (c : TcpConnection) (log : List ServerCall) : Prop := Open c log ∨ Closed c log

variable {c c' : TcpConnection} {log : List ServerCall}

/-- Output that has drained has been written. -/
theorem Open.written (h : Open c log) (hdrained : c.outputBuffer.readable = []) :
    c.socket.written = (accepted log).flatten := by
  have hstream : c.socket.written ++ c.outputBuffer.readable = (accepted log).flatten :=
    h.intact.stream
  rwa [hdrained, List.append_nil] at hstream

/-- The write side is closed behind the last byte that was accepted. -/
theorem Open.behind (h : Open c log) (hw : c.socket.writeClosed = true) :
    .shutdown ∈ log ∧ c.socket.written = (accepted log).flatten := by
  rcases h.state with ⟨hs, -⟩ | ⟨-, hmem⟩
  · exact absurd (hw.symm.trans (h.intact.openWhileConnected hs)) nofun
  · exact ⟨hmem, h.written (h.intact.closedWhenEmpty hw)⟩

/-- Only the state, the channel, the socket and the output buffer matter. -/
theorem Flow.congr (h : Flow c log) (hstate : c'.state = c.state)
    (hchannel : c'.channel = c.channel) (hsocket : c'.socket = c.socket)
    (hbuffer : c'.outputBuffer = c.outputBuffer) : Flow c' log := by
  obtain ⟨state, channel, socket, input, output, wc, hw, mark, calls⟩ := c
  obtain ⟨state', channel', socket', input', output', wc', hw', mark', calls'⟩ := c'
  obtain ⟨rfl, rfl, rfl, rfl⟩ :
      state' = state ∧ channel' = channel ∧ socket' = socket ∧ output' = output :=
    ⟨hstate, hchannel, hsocket, hbuffer⟩
  rcases h with ho | hc
  · exact .inl ⟨⟨ho.intact.stream, ho.intact.interest, ho.intact.openWhileConnected,
      ho.intact.closedWhenEmpty, ho.intact.deferred⟩, ho.state⟩
  · exact .inr ⟨hc.state, hc.idle, hc.stream, hc.behind⟩

/-- A call behind which nothing more is accepted than before. -/
theorem Closed.append (h : Closed c log) (x : ServerCall) : Closed c (log ++ [x]) := by
  have hprefix : (accepted log).flatten <+: (accepted (log ++ [x])).flatten := by
    rw [accepted_append, List.flatten_append]
    exact List.prefix_append _ _
  refine ⟨h.state, h.idle, h.stream.trans hprefix, fun hw => ?_⟩
  obtain ⟨hmem, hwritten⟩ := h.behind hw
  refine ⟨List.mem_append_left _ hmem, ?_⟩
  rw [accepted_append, if_pos hmem, List.append_nil]
  exact hwritten

theorem Flow.request (h : Flow c log) (req : HttpRequest) :
    Flow c (log ++ [.httpCallback req]) := by
  rcases h with ho | hc
  · have hacc : accepted (log ++ [.httpCallback req]) = accepted log := by
      rw [accepted_append]
      simp [accepted]
    refine .inl ⟨by rw [hacc]; exact ho.intact, ?_⟩
    simpa using ho.state
  · exact .inr (hc.append _)

/-- `send` gives the stream its payload, or the connection is shutting down. -/
theorem Flow.send (h : Flow c log) (buf : Bytes) {w : WriteResult} (hw : w.peerGone = false) :
    Flow (c.send buf w) (log ++ [.send buf]) := by
  rcases h with ho | hc
  · have hi := OutputRun.intact_send ho.intact buf hw
    rcases ho.state with ⟨hs, hmem⟩ | ⟨hs, hmem⟩
    · have hnext : OutputRun.machine.next ⟨c, accepted log⟩ (.send buf w) =
          ⟨c.send buf w, accepted (log ++ [.send buf])⟩ := by
        simp [OutputRun.machine, hs, accepted_append, hmem, accepted]
      rw [hnext] at hi
      refine .inl ⟨hi, .inl ⟨?_, by simpa using hmem⟩⟩
      rw [TcpConnection.send, if_pos hs, (kept_sendInLoop c buf w).state]
      exact hs
    · have hsame : c.send buf w = c := by
        rw [TcpConnection.send, hs]
        exact if_neg (by decide)
      have hacc : accepted (log ++ [.send buf]) = accepted log := by
        rw [accepted_append, if_pos hmem, List.append_nil]
      rw [hsame]
      exact .inl ⟨by rw [hacc]; exact ho.intact, .inr ⟨hs, List.mem_append_left _ hmem⟩⟩
  · have hsame : c.send buf w = c := by
      rw [TcpConnection.send, hc.state]
      exact if_neg (by decide)
    rw [hsame]
    exact .inr (hc.append _)

theorem Flow.shutdown (h : Flow c log) : Flow c.shutdown (log ++ [.shutdown]) := by
  have hmem' : ServerCall.shutdown ∈ log ++ [.shutdown] := by simp
  rcases h with ho | hc
  · have hacc : accepted (log ++ [.shutdown]) = accepted log := by
      rw [accepted_append]
      simp [accepted]
    have hi : OutputRun.Intact ⟨c.shutdown, accepted log⟩ := OutputRun.intact_shutdown ho.intact
    have hstate : c.shutdown.state = .kDisconnecting := by
      rcases ho.state with ⟨hs, -⟩ | ⟨hs, -⟩
      · rw [TcpConnection.shutdown, if_pos hs, (kept_shutdownInLoop _).state]
        rfl
      · rw [TcpConnection.shutdown, hs]
        exact hs
    exact .inl ⟨by rw [hacc]; exact hi, .inr ⟨hstate, hmem'⟩⟩
  · have hsame : c.shutdown = c := by
      rw [TcpConnection.shutdown, hc.state]
      exact if_neg (by decide)
    rw [hsame]
    exact .inr (hc.append _)

theorem Flow.handleWrite (h : Flow c log) (w : WriteResult) : Flow (c.handleWrite w) log := by
  rcases h with ho | hc
  · have hi : OutputRun.Intact ⟨c.handleWrite w, accepted log⟩ :=
      OutputRun.intact_handleWrite ho.intact w
    exact .inl ⟨hi, by rw [(kept_handleWrite c w).state]; exact ho.state⟩
  · have hsame : c.handleWrite w = c :=
      handleWrite_of_idle fun hp => absurd (hc.idle.symm.trans hp.1) nofun
    rw [hsame]
    exact .inr hc

/-- What is buffered when the connection is closed is not written any more. -/
theorem Flow.close (h : Flow c log) (hstate : c'.state = .kDisconnected)
    (hidle : c'.channel.isWriting = false) (hsocket : c'.socket = c.socket)
    (hbuffer : c'.outputBuffer = c.outputBuffer) : Closed c' log := by
  have hstream : c'.stream = c.stream := by
    rw [stream, stream, hsocket, hbuffer]
  rcases h with ho | hc
  · refine ⟨hstate, hidle, ?_, fun hw => ?_⟩
    · rw [hstream, show c.stream = (accepted log).flatten from ho.intact.stream]
    · rw [hsocket] at hw ⊢
      exact ho.behind hw
  · refine ⟨hstate, hidle, hstream ▸ hc.stream, fun hw => ?_⟩
    rw [hsocket] at hw ⊢
    exact hc.behind hw

theorem Flow.handleClose (h : Flow c log) : Closed c.handleClose log :=
  h.close rfl (Channel.isWriting_disableAll _) rfl rfl

theorem Flow.connectDestroyed (h : Flow c log) : Flow c.connectDestroyed log := by
  rw [connectDestroyed_eq]
  split
  · exact .inr (h.close rfl (Channel.isWriting_disableAll _) rfl rfl)
  · rcases h with ho | hc
    · exact .inl ⟨⟨ho.intact.stream, ho.intact.interest, ho.intact.openWhileConnected,
        ho.intact.closedWhenEmpty, ho.intact.deferred⟩, ho.state⟩
    · exact .inr ⟨hc.state, hc.idle, hc.stream, hc.behind⟩

/-- A read that does not close the connection leaves the bytes alone. -/
theorem Flow.handleRead (h : Flow c log) (t : Timestamp) {r : ReadResult} (hr : r ≠ .bytes []) :
    Flow (c.handleRead t r) log := by
  match r with
  | .bytes [] => exact absurd rfl hr
  | .bytes (b :: data) => exact h.congr rfl rfl rfl rfl
  | .failed e => exact h

/-! ## One event -/

variable {httpCallback : HttpCallback} {h h' : HttpConnection} {ws : EventWrites}

/-- The bytes of the connection and its log. -/
abbrev Flows (h : HttpConnection) : Prop := Flow h.conn h.log

theorem onRequest_flows (hf : h.Flows) {w : WriteResult} (hw : w.peerGone = false)
    {req : HttpRequest} (hrun : onRequest httpCallback h req w = .ok h') : h'.Flows := by
  unfold onRequest at hrun
  simp only at hrun
  split at hrun
  · cases hrun
  · rename_i buf hbuf
    have hsent := (hf.request req).send buf.retrieveAllAsString.1 hw
    split at hrun
    · obtain rfl := Except.ok.inj hrun
      exact hsent.shutdown
    · obtain rfl := Except.ok.inj hrun
      exact hsent

theorem onMessageWith_flows (hf : h.Flows) (hws : ws.PeerThere) {context : HttpContext}
    {t : Timestamp} (hrun : onMessageWith httpCallback h context t ws = .returns h') :
    h'.Flows := by
  unfold onMessageWith at hrun
  split at hrun
  · cases hrun
  · cases hrun
  · rename_i v hv
    have hparsed : (h.parsed v).Flows := hf.congr rfl rfl rfl rfl
    -- a bad request is answered, and the connection shut down
    have hreplied : ((h.parsed v).rejectUnless v.ok ws.reject).Flows := by
      unfold rejectUnless
      split
      · exact hparsed
      · exact (hparsed.send HttpServer.badRequest hws.reject).shutdown
    simp only at hrun
    split at hrun
    · split at hrun
      · cases hrun
      · rename_i h₁ hreq
        obtain rfl := Outcome.returns.inj hrun
        have hflows : h₁.Flows := onRequest_flows hreplied hws.respond hreq
        exact hflows
    · obtain rfl := Outcome.returns.inj hrun
      exact hreplied

theorem onConnection_of_closed (hc : Closed h.conn h.log) : h.onConnection = h := by
  unfold onConnection TcpConnection.connected
  rw [hc.state]
  rfl

theorem handleClose_eq (hf : h.Flows) :
    h.handleClose = { h with conn := h.conn.handleClose } :=
  onConnection_of_closed (h := { h with conn := h.conn.handleClose }) hf.handleClose

theorem handleRead_flows (hf : h.Flows) (hws : ws.PeerThere) {t : Timestamp} {r : ReadResult}
    (hrun : handleRead httpCallback h t ws r = some (.returns h')) : h'.Flows := by
  match r with
  | .bytes [] =>
    obtain rfl := Outcome.returns.inj (Option.some.inj hrun)
    rw [handleClose_eq hf]
    exact .inr hf.handleClose
  | .bytes (b :: data) =>
    have hread : Flow (h.conn.handleRead t (.bytes (b :: data))) h.log := hf.handleRead t nofun
    obtain ⟨context, -, hmessage⟩ := Option.map_eq_some_iff.mp hrun
    exact onMessageWith_flows (h := { h with
      conn := h.conn.handleRead t (.bytes (b :: data)) }) hread hws hmessage
  | .failed e =>
    have hread : Flow (h.conn.handleRead t (.failed e)) h.log := hf.handleRead t nofun
    obtain rfl := Outcome.returns.inj (Option.some.inj hrun)
    exact hread

end HttpConnection

/-! ## Runs -/

/-- A connection, and the data it has read with the times of the reads. -/
structure ServedRun where
  http : HttpConnection
  reads : List (Bytes × Timestamp)

/-- What happens to a connection. -/
inductive ServedStep where
  /-- `poll` has reported `revents`. -/
  | event (revents : BitVec 32) (receiveTime : Timestamp) (r : ReadResult) (ws : EventWrites)
  /-- Queued by `removeConnectionInLoop`, or run by `~TcpServer`. -/
  | connectDestroyed

namespace ServedRun

open HttpConnection TcpConnection

/-- The data an event reads. -/
def readOf (revents : BitVec 32) (receiveTime : Timestamp) : ReadResult → List (Bytes × Timestamp)
  | .bytes [] => []
  | .bytes (b :: data) => if Channel.reads revents then [(b :: data, receiveTime)] else []
  | .failed _ => []

/-- The peer stays, and a run ends in front of the first event that does not return. -/
def machine (httpCallback : HttpCallback) : Machine ServedRun ServedStep where
  init s := ∃ c : TcpConnection, c.Unused ∧ c.inputBuffer = ByteQueue.new Buffer.kInitialSize ∧
    s = ⟨HttpConnection.connectEstablished c, []⟩
  guard s
    | .event revents receiveTime r ws => s.http.conn.channel.interest ≠ none ∧ ws.PeerThere ∧
      ∃ h, handleEvent httpCallback s.http revents receiveTime r ws = some (.returns h)
    | .connectDestroyed => True
  next s
    | .event revents receiveTime r ws =>
      match handleEvent httpCallback s.http revents receiveTime r ws with
      | some (.returns h) => ⟨h, s.reads ++ readOf revents receiveTime r⟩
      | _ => s
    | .connectDestroyed => { s with http := s.http.connectDestroyed }

variable {httpCallback : HttpCallback} {h h' : HttpConnection} {s : ServedRun}

/-- The session is that of a run over the data read. -/
def Tracks (httpCallback : HttpCallback) (h : HttpConnection) (reads : List (Bytes × Timestamp)) :
    Prop :=
  ∃ s : Session, HttpServer.run httpCallback {} reads = .returns s ∧ h.context = some s.context ∧
    h.conn.inputBuffer = s.inputBuffer ∧ h.log = s.log

/-- A run, and one delivery more. -/
theorem run_concat : ∀ {reads : List (Bytes × Timestamp)} {s₀ s s' : Session} {chunk : Bytes}
    {t : Timestamp}, HttpServer.run httpCallback s₀ reads = .returns s →
      HttpServer.deliver httpCallback s chunk t = .returns s' →
      HttpServer.run httpCallback s₀ (reads ++ [(chunk, t)]) = .returns s'
  | [], s₀, s, s', chunk, t, hrun, hd => by
    obtain rfl : s₀ = s := Outcome.returns.inj hrun
    rw [List.nil_append, HttpServer.run, hd]
    rfl
  | (chunk₀, t₀) :: reads, s₀, s, s', chunk, t, hrun, hd => by
    rw [HttpServer.run] at hrun
    rw [List.cons_append, HttpServer.run]
    cases hfirst : HttpServer.deliver httpCallback s₀ chunk₀ t₀ with
    | returns s₁ =>
      rw [hfirst] at hrun
      exact run_concat hrun hd
    | faults f =>
      rw [hfirst] at hrun
      cases hrun
    | diverges =>
      rw [hfirst] at hrun
      cases hrun

/-- A read goes to the session, if it has data. -/
theorem Tracks.handleRead {reads : List (Bytes × Timestamp)} (ht : Tracks httpCallback h reads)
    (hf : h.Flows) {t : Timestamp} {r : ReadResult} {ws : EventWrites} {revents : BitVec 32}
    (hread : Channel.reads revents = true)
    (hrun : HttpConnection.handleRead httpCallback h t ws r = some (.returns h')) :
    Tracks httpCallback h' (reads ++ readOf revents t r) := by
  match r with
  | .bytes [] =>
    obtain rfl := Outcome.returns.inj (Option.some.inj hrun)
    rw [handleClose_eq hf, readOf, List.append_nil]
    exact ht
  | .bytes (b :: data) =>
    obtain ⟨s, hs, hctx, hbuf, hlog⟩ := ht
    obtain ⟨o, ho, hsame⟩ := handleRead_session httpCallback hctx hbuf hlog t ws b data
    obtain rfl : o = .returns h' := Option.some.inj (ho.symm.trans hrun)
    rw [readOf, if_pos hread]
    generalize hd : HttpServer.deliver httpCallback s (b :: data) t = d at hsame
    cases hsame with
    | returns hctx' hbuf' hlog' => exact ⟨_, run_concat hs hd, hctx', hbuf', hlog'⟩
  | .failed e =>
    obtain rfl := Outcome.returns.inj (Option.some.inj hrun)
    rw [readOf, List.append_nil]
    exact ht

/-- The invariant of a run. -/
structure Inv (httpCallback : HttpCallback) (s : ServedRun) : Prop where
  tracks : Tracks httpCallback s.http s.reads
  flows : s.http.Flows

theorem inv_init (hinit : (machine httpCallback).init s) : Inv httpCallback s := by
  obtain ⟨c, hc, hinput, rfl⟩ := hinit
  refine ⟨⟨{}, rfl, rfl, hinput, rfl⟩, .inl ⟨?_, .inl ⟨rfl, List.not_mem_nil⟩⟩⟩
  exact OutputRun.intact_init ⟨c, hc, rfl⟩

/-- One event mask. -/
theorem inv_handleEvent {reads : List (Bytes × Timestamp)} (hi : Inv httpCallback ⟨h, reads⟩)
    {revents : BitVec 32} {t : Timestamp} {r : ReadResult} {ws : EventWrites} (hws : ws.PeerThere)
    (hrun : handleEvent httpCallback h revents t r ws = some (.returns h')) :
    Inv httpCallback ⟨h', reads ++ readOf revents t r⟩ := by
  unfold HttpConnection.handleEvent at hrun
  simp only at hrun
  have hclosed : Inv httpCallback
      ⟨if Channel.hangsUp revents = true then h.handleClose else h, reads⟩ := by
    split
    · rw [handleClose_eq hi.flows]
      exact ⟨hi.tracks, .inr hi.flows.handleClose⟩
    · exact hi
  generalize (if Channel.hangsUp revents = true then h.handleClose else h) = h₀ at hrun hclosed
  have hwrite : ∀ {h₁ : HttpConnection} {reads' : List (Bytes × Timestamp)},
      Inv httpCallback ⟨h₁, reads'⟩ → Inv httpCallback ⟨if Channel.writes revents = true then
        { h₁ with conn := h₁.conn.handleWrite ws.flush } else h₁, reads'⟩ := by
    intro h₁ reads' hi₁
    split
    · obtain ⟨s, hs, hctx, hbuf, hlog⟩ := hi₁.tracks
      exact ⟨⟨s, hs, hctx, (inputBuffer_handleWrite _ _).trans hbuf, hlog⟩,
        hi₁.flows.handleWrite ws.flush⟩
    · exact hi₁
  by_cases hread : Channel.reads revents = true
  · rw [if_pos hread] at hrun
    split at hrun
    · rename_i h₁ hr
      obtain rfl := Outcome.returns.inj (Option.some.inj hrun)
      exact hwrite ⟨hclosed.tracks.handleRead hclosed.flows hread hr,
        handleRead_flows hclosed.flows hws hr⟩
    · rename_i hnot
      exact absurd hrun (hnot h')
  · rw [if_neg hread] at hrun
    obtain rfl := Outcome.returns.inj (Option.some.inj hrun)
    have hnone : readOf revents t r = [] := by
      unfold readOf
      split
      · rfl
      · exact if_neg hread
      · rfl
    rw [hnone, List.append_nil]
    exact hwrite hclosed

theorem inv_next (hi : Inv httpCallback s) {a : ServedStep}
    (hg : (machine httpCallback).guard s a) :
    Inv httpCallback ((machine httpCallback).next s a) := by
  cases a with
  | event revents t r ws =>
    obtain ⟨-, hws, h', hrun⟩ := hg
    have hnext : (machine httpCallback).next s (.event revents t r ws) =
        ⟨h', s.reads ++ readOf revents t r⟩ := by
      simp only [machine, hrun]
    rw [hnext]
    exact inv_handleEvent hi hws hrun
  | connectDestroyed =>
    have hsame : s.http.connectDestroyed =
        { s.http with conn := s.http.conn.connectDestroyed } := by
      unfold HttpConnection.connectDestroyed
      split
      · rename_i hs
        unfold onConnection connected
        rw [connectDestroyed_eq, if_pos hs]
        rfl
      · rfl
    show Inv httpCallback ⟨s.http.connectDestroyed, s.reads⟩
    rw [hsame]
    obtain ⟨s', hs, hctx, hbuf, hlog⟩ := hi.tracks
    exact ⟨⟨s', hs, hctx, (inputBuffer_connectDestroyed _).trans hbuf, hlog⟩,
      hi.flows.connectDestroyed⟩

theorem inv_of_reachable (h : (machine httpCallback).Reachable s) : Inv httpCallback s :=
  Machine.Reachable.invariant h (fun _ => inv_init) fun _ _ hi hg => inv_next hi hg

/-- **A served connection.** In every reachable state: the context is set, and context, input
buffer and log are those of `HttpServer.run` over the data read; what was written and what is
buffered is a first part of the payloads in front of the first `shutdown`, and all of them while
the connection is not closed; the write side is closed only behind all of them; and a connection
that was shut down has its write side closed, or waits for `handleWrite` to do it. -/
theorem served_of_reachable (h : (machine httpCallback).Reachable s) :
    (∃ context, s.http.context = some context ∧ HttpServer.run httpCallback {} s.reads =
      .returns ⟨context, s.http.conn.inputBuffer, s.http.log⟩) ∧
    s.http.conn.socket.written ++ s.http.conn.outputBuffer.readable <+:
      (ServerCall.accepted s.http.log).flatten ∧
    (s.http.conn.state ≠ .kDisconnected →
      s.http.conn.socket.written ++ s.http.conn.outputBuffer.readable =
        (ServerCall.accepted s.http.log).flatten) ∧
    (s.http.conn.socket.writeClosed = true → .shutdown ∈ s.http.log ∧
      s.http.conn.socket.written = (ServerCall.accepted s.http.log).flatten) ∧
    (.shutdown ∈ s.http.log → s.http.conn.state ≠ .kDisconnected →
      s.http.conn.socket.writeClosed = true ∨
        s.http.conn.outputBuffer.readable ≠ [] ∧ s.http.conn.channel.isWriting = true) := by
  obtain ⟨⟨s', hrun, hctx, hbuf, hlog⟩, hflow⟩ := inv_of_reachable h
  refine ⟨⟨s'.context, hctx, by rw [hbuf, hlog]; exact hrun⟩, ?_⟩
  rcases hflow with ho | hc
  · have hstream : s.http.conn.stream = _ := ho.intact.stream
    refine ⟨by rw [← stream, hstream], fun _ => hstream, ho.behind, fun hmem _ => ?_⟩
    have hstate := ho.state.resolve_left fun hs => hs.2 hmem
    exact (ho.intact.deferred hstate.1).imp_right fun hne => ⟨hne, ho.intact.interest.mpr hne⟩
  · exact ⟨hc.stream, fun hs => absurd hc.state hs, hc.behind, fun _ hs => absurd hc.state hs⟩

theorem exists_returns {o : Option (Outcome HttpConnection)}
    (hsome : (o.bind Outcome.value?).isSome = true) : ∃ h, o = some (.returns h) := by
  cases o with
  | none => cases hsome
  | some o =>
    cases o with
    | returns h => exact ⟨h, rfl⟩
    | faults f => cases hsome
    | diverges => cases hsome

/-- A connection that has just been established. -/
def fresh : ServedRun := ⟨HttpConnection.connectEstablished TcpConnection.new, []⟩

theorem fresh_init (httpCallback : HttpCallback) : (machine httpCallback).init fresh :=
  ⟨_, unused_new, rfl, rfl⟩

/-- A request whose response the socket takes in part, and the event that takes the rest. -/
def requestThenDrain (request : Bytes) : List ServedStep :=
  [.event EPOLLIN ⟨1⟩ (.bytes request) ⟨.accepted 0, .accepted 5, .accepted 0⟩,
    .event EPOLLOUT ⟨2⟩ (.failed .EWOULDBLOCK) ⟨.accepted 0, .accepted 0, .accepted 1000⟩]

/-- The first response closes the connection, behind its last byte. -/
theorem served_of_reachable_example :
    ∃ s, (machine defaultHttpCallback).Reachable s ∧ s.http.conn.socket.writeClosed = true ∧
      s.http.conn.socket.written = (ServerCall.accepted s.http.log).flatten := by
  have hlegal : (machine defaultHttpCallback).Legal fresh
      (requestThenDrain (ascii "GET / HTTP/1.1\r\n\r\n")) := by
    refine ⟨⟨?_, ⟨rfl, rfl, rfl⟩, exists_returns (by decide +kernel)⟩,
      ⟨?_, ⟨rfl, rfl, rfl⟩, exists_returns (by decide +kernel)⟩, trivial⟩
    · show _ ≠ (none : Option (BitVec 32))
      decide +kernel
    · show _ ≠ (none : Option (BitVec 32))
      decide +kernel
  have hrun := Machine.Reachable.run (.init (fresh_init defaultHttpCallback)) hlegal
  have hclosed : ((machine defaultHttpCallback).after fresh
      (requestThenDrain (ascii "GET / HTTP/1.1\r\n\r\n"))).http.conn.socket.writeClosed = true := by
    decide +kernel
  exact ⟨_, hrun, hclosed, ((served_of_reachable hrun).2.2.2.1 hclosed).2⟩

end ServedRun

end SimpleHttpServer
