import SimpleHttpServer.Net.ByteQueue
import SimpleHttpServer.Net.Channel

/-!
# `TcpConnection` on its loop thread

Model of `net/TcpConnection.cpp` (`net/TcpConnection.h`, `net/Socket.cpp` for `shutdownWrite`): one
connection, its state, its channel, what its socket was given, its buffers, and the calls it has
made to the outside (`log`). A function that makes a system call takes what that call returns as an
argument. What a callback of the user does is not part of the function that calls it: the callback
is the last thing `connectEstablished` and `handleRead` do, and the user's calls are calls of their
own.

`stream` is what was written to the socket and then what is still buffered.

* **`sendInLoop_sent`**: `sendInLoop` appends its data to the stream;
* **`handleWrite_written`**: `handleWrite` leaves the stream as it is, and says when it closes the
  write side. Both keep write interest on exactly while output is buffered.

Left out: other threads (`RemoteSend`, `Disconnected`, `SendStorage`), the name and the addresses,
`context_` (`HttpConnection`), `reading_`, which nothing reads, `handleError`, which only logs, and
the log.
-/

namespace SimpleHttpServer

/-- What `::write` returns: it takes the first `n` bytes, or fails. -/
inductive WriteResult where
  | accepted (n : Nat)
  | failed (e : Errno)
  deriving DecidableEq, Repr

namespace WriteResult

/-- `::write` takes no more than it was given. -/
def Fits (len : Nat) : WriteResult → Prop
  | .accepted n => n ≤ len
  | .failed _ => True

instance (len : Nat) : DecidablePred (Fits len)
  | .accepted n => inferInstanceAs (Decidable (n ≤ len))
  | .failed _ => inferInstanceAs (Decidable True)

/-- `EPIPE` and `ECONNRESET`: the peer is gone. -/
def peerGone : WriteResult → Bool
  | .failed e => e == .EPIPE || e == .ECONNRESET
  | .accepted _ => false

end WriteResult

/-- `Socket`: the bytes written to it, and whether its write side was closed. -/
structure Socket where
  written : Bytes := []
  writeClosed : Bool := false
  deriving DecidableEq

/-- `StateE`. -/
inductive StateE where
  | kDisconnected
  | kConnecting
  | kConnected
  | kDisconnecting
  deriving DecidableEq, Repr

/-- What a connection has called or queued. -/
inductive ConnectionCall where
  | connectionCallback (connected : Bool)
  | messageCallback (receiveTime : Timestamp)
  | closeCallback
  | queueWriteComplete
  | queueHighWaterMark (len : Nat)
  deriving DecidableEq, Repr

/-- A call of `connectionCallback_` or `closeCallback_`. -/
def ConnectionCall.isReport : ConnectionCall → Bool
  | .connectionCallback _ | .closeCallback => true
  | _ => false

/-- `class TcpConnection`, with the calls it has made. -/
structure TcpConnection where
  state : StateE
  channel : Channel
  socket : Socket
  inputBuffer : ByteQueue
  outputBuffer : ByteQueue
  /-- Whether a `writeCompleteCallback_` is set. -/
  writeCompleteCallback : Bool
  /-- Whether a `highWaterMarkCallback_` is set. -/
  highWaterMarkCallback : Bool
  highWaterMark : Nat
  log : List ConnectionCall

namespace TcpConnection

/-- The constructor. -/
def new : TcpConnection where
  state := .kConnecting
  channel := {}
  socket := {}
  inputBuffer := .new Buffer.kInitialSize
  outputBuffer := .new Buffer.kInitialSize
  writeCompleteCallback := false
  highWaterMarkCallback := false
  highWaterMark := 64 * 1024 * 1024
  log := []

/-- `setWriteCompleteCallback(cb)`. -/
def setWriteCompleteCallback (c : TcpConnection) : TcpConnection :=
  { c with writeCompleteCallback := true }

/-- `setHighWaterMarkCallback(cb, highWaterMark)`. -/
def setHighWaterMarkCallback (c : TcpConnection) (highWaterMark : Nat) : TcpConnection :=
  { c with highWaterMarkCallback := true, highWaterMark }

/-- `setState(state)`. -/
def setState (c : TcpConnection) (state : StateE) : TcpConnection := { c with state }

/-- `connected()`. -/
def connected (c : TcpConnection) : Bool := c.state == .kConnected

/-- A callback is run or queued. -/
def call (c : TcpConnection) (x : ConnectionCall) : TcpConnection := { c with log := c.log ++ [x] }

/-- `::write` took `data`. -/
def written (c : TcpConnection) (data : Bytes) : TcpConnection :=
  { c with socket := { c.socket with written := c.socket.written ++ data } }

/-- `socket_->shutdownWrite()`. -/
def shutdownWrite (c : TcpConnection) : TcpConnection :=
  { c with socket := { c.socket with writeClosed := true } }

/-! ## Sending -/

/-- `loop_->queueInLoop(writeCompleteCallback_)`, if it is set. -/
def queueWriteComplete (c : TcpConnection) : TcpConnection :=
  if c.writeCompleteCallback then c.call .queueWriteComplete else c

/-- The direct write of `sendInLoop`, with its `nwrote` and `faultError`. -/
def writeDirect (c : TcpConnection) (data : Bytes) : WriteResult → TcpConnection × Nat × Bool
  | .accepted nwrote =>
    let c := c.written (data.take nwrote)
    (if data.length - nwrote = 0 then c.queueWriteComplete else c, nwrote, false)
  | .failed e =>
    (c, 0, e != .EWOULDBLOCK && (e == .EPIPE || e == .ECONNRESET))

/-- `loop_->queueInLoop(highWaterMarkCallback_)`, if it is set and the mark is now reached. -/
def queueHighWaterMark (c : TcpConnection) (oldLen remaining : Nat) : TcpConnection :=
  if c.highWaterMark ≤ oldLen + remaining ∧ oldLen < c.highWaterMark ∧
      c.highWaterMarkCallback = true then
    c.call (.queueHighWaterMark (oldLen + remaining))
  else c

/-- The buffering half of `sendInLoop`, for the `remaining > 0` bytes `rest`. -/
def bufferRest (c : TcpConnection) (rest : Bytes) : TcpConnection :=
  let c := c.queueHighWaterMark c.outputBuffer.readableBytes rest.length
  let c := { c with outputBuffer := c.outputBuffer.append rest }
  if c.channel.isWriting then c else { c with channel := c.channel.enableWriting }

/-- The state is not looked at: in `kDisconnected` the code only logs an error and goes on. -/
def sendInLoop (c : TcpConnection) (data : Bytes) (w : WriteResult) : TcpConnection :=
  let (c, nwrote, faultError) :=
    if !c.channel.isWriting && c.outputBuffer.readableBytes == 0 then c.writeDirect data w
    else (c, 0, false)
  if !faultError && 0 < data.length - nwrote then c.bufferRest (data.drop nwrote) else c

/-- `send` on the loop thread. -/
def send (c : TcpConnection) (buf : Bytes) (w : WriteResult) : TcpConnection :=
  if c.state = .kConnected then c.sendInLoop buf w else c

/-! ## Shutting down -/

/-- `shutdownInLoop()`. -/
def shutdownInLoop (c : TcpConnection) : TcpConnection :=
  if c.channel.isWriting then c else c.shutdownWrite

/-- `shutdown` on the loop thread, where `runInLoop` calls at once. -/
def shutdown (c : TcpConnection) : TcpConnection :=
  if c.state = .kConnected then (c.setState .kDisconnecting).shutdownInLoop else c

/-! ## Establishing, events, destroying -/

/-- `connectEstablished()`. -/
def connectEstablished (c : TcpConnection) : TcpConnection :=
  let c := c.setState .kConnected
  let c := { c with channel := c.channel.enableReading }
  c.call (.connectionCallback c.connected)

/-- `writeFd` took `n` of the readable bytes, and `retrieve(n)` dropped them. -/
def takeOutput (c : TcpConnection) (n : Nat) : TcpConnection :=
  { c.written (c.outputBuffer.readable.take n) with outputBuffer := c.outputBuffer.retrieve n }

/-- What `handleWrite` does when `outputBuffer_` has become empty. -/
def outputDrained (c : TcpConnection) : TcpConnection :=
  let c := { c with channel := c.channel.disableWriting }
  let c := c.queueWriteComplete
  if c.state = .kDisconnecting then c.shutdownInLoop else c

/-- `handleWrite()`, where `::write` returns `w`. -/
def handleWrite (c : TcpConnection) (w : WriteResult) : TcpConnection :=
  if c.channel.isWriting then
    match w with
    | .accepted n =>
      if 0 < n then
        let c := c.takeOutput n
        if c.outputBuffer.readableBytes = 0 then c.outputDrained else c
      else c
    | .failed _ => c
  else c

/-- `handleClose()`. -/
def handleClose (c : TcpConnection) : TcpConnection :=
  let c := c.setState .kDisconnected
  let c := { c with channel := c.channel.disableAll }
  (c.call (.connectionCallback c.connected)).call .closeCallback

/-- `handleError` reads `SO_ERROR` and logs it. -/
def handleRead (c : TcpConnection) (receiveTime : Timestamp) : ReadResult → TcpConnection
  | .bytes [] => c.handleClose
  | .bytes data =>
    { c with inputBuffer := c.inputBuffer.readFd data }.call (.messageCallback receiveTime)
  | .failed _ => c

/-- `connectDestroyed()`. -/
def connectDestroyed (c : TcpConnection) : TcpConnection :=
  let c :=
    if c.state = .kConnected then
      let c := c.setState .kDisconnected
      let c := { c with channel := c.channel.disableAll }
      c.call (.connectionCallback c.connected)
    else c
  { c with channel := c.channel.remove }

/-! ## The output stream -/

/-- A connection as the constructor and the setters of the callbacks leave it. -/
structure Unused (c : TcpConnection) : Prop where
  state : c.state = .kConnecting
  channel : c.channel = {}
  socket : c.socket = {}
  outputBuffer : c.outputBuffer.readable = []

/-- The bytes written to the socket, then those still buffered. -/
def stream (c : TcpConnection) : Bytes := c.socket.written ++ c.outputBuffer.readable

/-- Write interest is on exactly while output is buffered. -/
def InterestIffBuffered (c : TcpConnection) : Prop :=
  c.channel.isWriting = true ↔ c.outputBuffer.readable ≠ []

/-- The write of `handleWrite` empties `outputBuffer_`. -/
def Drains (c : TcpConnection) : WriteResult → Prop
  | .accepted n => c.channel.isWriting = true ∧ 0 < n ∧ c.outputBuffer.readableBytes ≤ n
  | .failed _ => False

variable {c : TcpConnection}

theorem unused_new : Unused new := ⟨rfl, rfl, rfl, ByteQueue.readable_new _⟩

theorem Unused.setWriteCompleteCallback (h : c.Unused) : c.setWriteCompleteCallback.Unused :=
  ⟨h.state, h.channel, h.socket, h.outputBuffer⟩

theorem Unused.setHighWaterMarkCallback (h : c.Unused) (highWaterMark : Nat) :
    (c.setHighWaterMarkCallback highWaterMark).Unused :=
  ⟨h.state, h.channel, h.socket, h.outputBuffer⟩

theorem readableBytes_eq_zero (q : ByteQueue) : q.readableBytes = 0 ↔ q.readable = [] := by
  rw [← q.length_readable, List.length_eq_zero_iff]

theorem InterestIffBuffered.readable_eq_nil (hi : c.InterestIffBuffered)
    (h : ¬ c.channel.isWriting = true) : c.outputBuffer.readable = [] := by
  by_contra hne
  exact h (hi.mpr hne)

/-- The output stream of `c'` is that of `c` and `data`; nothing else that matters changed. -/
structure Sent (c c' : TcpConnection) (data : Bytes) : Prop where
  stream : c'.stream = c.stream ++ data
  interest : c'.InterestIffBuffered
  state : c'.state = c.state
  writeClosed : c'.socket.writeClosed = c.socket.writeClosed

theorem queueWriteComplete_eq (c : TcpConnection) :
    ∃ log, c.queueWriteComplete = { c with log } := by
  unfold queueWriteComplete
  split
  · exact ⟨_, rfl⟩
  · exact ⟨_, rfl⟩

theorem queueHighWaterMark_eq (c : TcpConnection) (oldLen remaining : Nat) :
    ∃ log, c.queueHighWaterMark oldLen remaining = { c with log } := by
  unfold queueHighWaterMark
  split
  · exact ⟨_, rfl⟩
  · exact ⟨_, rfl⟩

/-- Buffering some bytes turns write interest on, if it was not. -/
theorem bufferRest_sent (c : TcpConnection) {rest : Bytes} (h : rest ≠ []) :
    Sent c (c.bufferRest rest) rest := by
  obtain ⟨log, hlog⟩ := queueHighWaterMark_eq c c.outputBuffer.readableBytes rest.length
  have hne : c.outputBuffer.readable ++ rest ≠ [] := List.append_ne_nil_of_right_ne_nil _ h
  unfold bufferRest
  rw [hlog]
  simp only
  split
  · rename_i hw
    exact ⟨by simp [stream], by simpa [InterestIffBuffered, hw] using fun _ => h, rfl, rfl⟩
  · exact ⟨by simp [stream], by simpa [InterestIffBuffered] using fun _ => h, rfl, rfl⟩

theorem writeDirect_accepted (c : TcpConnection) (data : Bytes) (n : Nat) :
    ∃ log, c.writeDirect data (.accepted n) = ({ c.written (data.take n) with log }, n, false) := by
  unfold writeDirect
  simp only
  split
  · obtain ⟨log, hlog⟩ := queueWriteComplete_eq (c.written (data.take n))
    exact ⟨log, by rw [hlog]⟩
  · exact ⟨_, rfl⟩

theorem writeDirect_failed (c : TcpConnection) (data : Bytes) {e : Errno}
    (hpeer : WriteResult.peerGone (.failed e) = false) :
    c.writeDirect data (.failed e) = (c, 0, false) := by
  have h : (e == .EPIPE || e == .ECONNRESET) = false := hpeer
  rw [writeDirect, h, Bool.and_false]

/-- The second half of `sendInLoop`: what the direct write left over is buffered. -/
theorem bufferUnsent_sent (hi : c.InterestIffBuffered) (data : Bytes) (n : Nat) :
    Sent c (if !false && 0 < data.length - n then c.bufferRest (data.drop n) else c)
      (data.drop n) := by
  by_cases h : 0 < data.length - n
  · rw [if_pos (by simpa using h)]
    exact bufferRest_sent c fun hnil => by
      have hlen := List.drop_eq_nil_iff.mp hnil
      omega
  · rw [if_neg (by simpa using h), List.drop_eq_nil_of_le (by omega)]
    exact ⟨(List.append_nil _).symm, hi, rfl, rfl⟩

/-- **`sendInLoop` appends its data to the output stream**, unless the peer is gone. -/
theorem sendInLoop_sent (hi : c.InterestIffBuffered) (data : Bytes) {w : WriteResult}
    (hpeer : w.peerGone = false) : Sent c (c.sendInLoop data w) data := by
  unfold sendInLoop
  by_cases hd : (!c.channel.isWriting && c.outputBuffer.readableBytes == 0) = true
  · rw [if_pos hd]
    cases w with
    | accepted n =>
      obtain ⟨log, hlog⟩ := writeDirect_accepted c data n
      rw [hlog]
      have hi' : InterestIffBuffered { c.written (data.take n) with log } := hi
      have hrest := bufferUnsent_sent hi' data n
      -- nothing was buffered, so the bytes written directly come next in the stream
      have hnil : c.outputBuffer.readable = [] := by
        rw [Bool.and_eq_true, beq_iff_eq, readableBytes_eq_zero] at hd
        exact hd.2
      refine ⟨?_, hrest.interest, hrest.state, hrest.writeClosed⟩
      rw [hrest.stream]
      simp only [stream, written, hnil, List.append_nil, List.append_assoc, List.take_append_drop]
    | failed e =>
      rw [writeDirect_failed c data hpeer]
      exact bufferUnsent_sent hi data 0
  · rw [if_neg hd]
    exact bufferUnsent_sent hi data 0

/-- Nothing is buffered for an empty payload. -/
theorem outputBuffer_sendInLoop_nil (c : TcpConnection) (w : WriteResult) :
    (c.sendInLoop [] w).outputBuffer = c.outputBuffer := by
  unfold sendInLoop
  by_cases hd : (!c.channel.isWriting && c.outputBuffer.readableBytes == 0) = true
  · rw [if_pos hd]
    cases w with
    | accepted n =>
      obtain ⟨log, hlog⟩ := writeDirect_accepted c [] n
      simp [hlog, written]
    | failed e => simp [writeDirect]
  · rw [if_neg hd]
    simp

/-! ## `handleWrite` and `shutdownInLoop` -/

/-- What `handleWrite` does, but for the bytes moved. -/
structure Written (c c' : TcpConnection) (w : WriteResult) : Prop where
  stream : c'.stream = c.stream
  interest : c'.InterestIffBuffered
  state : c'.state = c.state
  empty_iff : c'.outputBuffer.readable = [] ↔ c.outputBuffer.readable = [] ∨ c.Drains w
  writeClosed_iff : c'.socket.writeClosed = true ↔
    c.socket.writeClosed = true ∨ c.Drains w ∧ c.state = .kDisconnecting

theorem shutdownInLoop_of_not_writing (h : c.channel.isWriting = false) :
    c.shutdownInLoop = c.shutdownWrite := by
  rw [shutdownInLoop, h]
  exact if_neg Bool.false_ne_true

/-- `shutdown` half-closes at once unless output is still being written. -/
theorem shutdown_of_connected (h : c.state = .kConnected) :
    c.shutdown = if c.channel.isWriting then c.setState .kDisconnecting
      else (c.setState .kDisconnecting).shutdownWrite := by
  rw [shutdown, if_pos h]
  rfl

/-- Draining turns write interest off; in `kDisconnecting` it is followed by the half-close that
`shutdown` left to it. -/
theorem outputDrained_eq (c : TcpConnection) :
    ∃ log, c.outputDrained = { c with
      channel := c.channel.disableWriting, log
      socket.writeClosed := c.socket.writeClosed || c.state == .kDisconnecting } := by
  obtain ⟨log, hlog⟩ := queueWriteComplete_eq { c with channel := c.channel.disableWriting }
  refine ⟨log, ?_⟩
  unfold outputDrained
  simp only
  rw [hlog]
  by_cases hs : c.state = .kDisconnecting
  · rw [if_pos hs, shutdownInLoop_of_not_writing (Channel.isWriting_disableWriting _)]
    simp [shutdownWrite, hs]
  · have hb : (c.state == .kDisconnecting) = false := beq_eq_false_iff_ne.mpr hs
    rw [if_neg hs, hb, Bool.or_false]

/-- Without write interest, or without progress, nothing happens. -/
theorem handleWrite_of_idle {w : WriteResult}
    (h : ¬ (c.channel.isWriting = true ∧ ∃ n, w = .accepted n ∧ 0 < n)) :
    c.handleWrite w = c := by
  unfold handleWrite
  split
  · rename_i hw
    split
    · rename_i n
      exact if_neg fun hn => h ⟨hw, n, rfl, hn⟩
    · rfl
  · rfl

@[simp] theorem readable_takeOutput (c : TcpConnection) (n : Nat) :
    (c.takeOutput n).outputBuffer.readable = c.outputBuffer.readable.drop n :=
  ByteQueue.readable_retrieve _ n

@[simp] theorem stream_takeOutput (c : TcpConnection) (n : Nat) :
    (c.takeOutput n).stream = c.stream := by
  simp [stream, takeOutput, written]

theorem handleWrite_of_progress {n : Nat} (hw : c.channel.isWriting = true) (hn : 0 < n) :
    c.handleWrite (.accepted n) =
      if c.outputBuffer.readableBytes ≤ n then (c.takeOutput n).outputDrained
      else c.takeOutput n := by
  have hempty : (c.takeOutput n).outputBuffer.readableBytes = 0 ↔
      c.outputBuffer.readableBytes ≤ n := by
    rw [readableBytes_eq_zero, readable_takeOutput, List.drop_eq_nil_iff,
      ByteQueue.length_readable]
  unfold handleWrite
  rw [if_pos hw]
  simp only
  rw [if_pos hn]
  simp only [hempty]

/-- **`handleWrite` moves bytes along the output stream**, and closes the write side exactly when
it has drained the buffer of a connection in `kDisconnecting`. -/
theorem handleWrite_written (hi : c.InterestIffBuffered) (w : WriteResult) :
    Written c (c.handleWrite w) w := by
  by_cases hp : c.channel.isWriting = true ∧ ∃ n, w = .accepted n ∧ 0 < n
  · obtain ⟨hw, n, rfl, hn⟩ := hp
    have hne := hi.mp hw
    rw [handleWrite_of_progress hw hn]
    split
    · rename_i hle
      have hd : c.Drains (.accepted n) := ⟨hw, hn, hle⟩
      have hnil : (c.takeOutput n).outputBuffer.readable = [] := by
        rw [readable_takeOutput, List.drop_eq_nil_iff, ByteQueue.length_readable]
        exact hle
      obtain ⟨log, hlog⟩ := outputDrained_eq (c.takeOutput n)
      rw [hlog]
      refine ⟨stream_takeOutput c n, ?_, rfl, ?_, ?_⟩
      · simp [InterestIffBuffered, hnil]
      · simp [hnil, hd]
      · simp [takeOutput, written, hd]
    · rename_i hle
      have hd : ¬ c.Drains (.accepted n) := fun h => hle h.2.2
      have hdrop : c.outputBuffer.readable.drop n ≠ [] := by
        rw [Ne, List.drop_eq_nil_iff, ByteQueue.length_readable]
        exact hle
      refine ⟨stream_takeOutput c n, ?_, rfl, ?_, ?_⟩
      · simpa [InterestIffBuffered, takeOutput, written, hw] using hdrop
      · simp [takeOutput, hd, hne, hdrop]
      · simp [takeOutput, written, hd]
  · have hd : ¬ c.Drains w := fun h => by
      cases w with
      | accepted n => exact hp ⟨h.1, n, rfl, h.2.1⟩
      | failed e => exact h
    rw [handleWrite_of_idle hp]
    exact ⟨rfl, hi, rfl, by simp [hd], by simp [hd]⟩

/-! ## State, registration and reports -/

/-- The calls by which a connection is reported up, down or closed. -/
def reports (c : TcpConnection) : List ConnectionCall := c.log.filter ConnectionCall.isReport

theorem reports_call (c : TcpConnection) (x : ConnectionCall) :
    (c.call x).reports = c.reports ++ if x.isReport then [x] else [] := by
  unfold reports call
  rw [List.filter_append]
  cases h : x.isReport <;> simp [h]

/-- The state and the reports are left as they are, and a registered channel stays registered. -/
structure Kept (c c' : TcpConnection) : Prop where
  state : c'.state = c.state
  registered : c.channel.Registered → c'.channel.Registered
  reports : c'.reports = c.reports

theorem Kept.refl (c : TcpConnection) : Kept c c := ⟨rfl, id, rfl⟩

theorem Kept.trans {c c' c'' : TcpConnection} (h : Kept c c') (h' : Kept c' c'') : Kept c c'' :=
  ⟨h'.state.trans h.state, fun hr => h'.registered (h.registered hr), h'.reports.trans h.reports⟩

theorem kept_call (c : TcpConnection) {x : ConnectionCall} (hx : x.isReport = false) :
    Kept c (c.call x) := by
  refine ⟨rfl, id, ?_⟩
  rw [reports_call, hx]
  exact List.append_nil _

theorem kept_queueWriteComplete (c : TcpConnection) : Kept c c.queueWriteComplete := by
  unfold queueWriteComplete
  split
  · exact kept_call c rfl
  · exact .refl c

theorem kept_bufferRest (c : TcpConnection) (rest : Bytes) : Kept c (c.bufferRest rest) := by
  have hmark : Kept c (c.queueHighWaterMark c.outputBuffer.readableBytes rest.length) := by
    unfold queueHighWaterMark
    split
    · exact kept_call c rfl
    · exact .refl c
  refine hmark.trans ?_
  unfold bufferRest
  simp only
  split
  · exact ⟨rfl, id, rfl⟩
  · exact ⟨rfl, fun h => h.enableWriting, rfl⟩

theorem kept_writeDirect (c : TcpConnection) (data : Bytes) (w : WriteResult) :
    Kept c (c.writeDirect data w).1 := by
  cases w with
  | accepted n =>
    have hwritten : Kept c (c.written (data.take n)) := ⟨rfl, id, rfl⟩
    unfold writeDirect
    simp only
    split
    · exact hwritten.trans (kept_queueWriteComplete _)
    · exact hwritten
  | failed e => exact .refl c

theorem kept_sendInLoop (c : TcpConnection) (data : Bytes) (w : WriteResult) :
    Kept c (c.sendInLoop data w) := by
  unfold sendInLoop
  split
  rename_i c' nwrote faultError hdirect
  have hkept : Kept c c' := by
    split at hdirect
    · have hwrite := kept_writeDirect c data w
      rw [hdirect] at hwrite
      exact hwrite
    · obtain ⟨rfl, -, -⟩ := hdirect
      exact .refl c
  split
  · exact hkept.trans (kept_bufferRest c' _)
  · exact hkept

theorem kept_shutdownInLoop (c : TcpConnection) : Kept c c.shutdownInLoop := by
  unfold shutdownInLoop
  split
  · exact .refl c
  · exact ⟨rfl, id, rfl⟩

theorem kept_outputDrained (c : TcpConnection) : Kept c c.outputDrained := by
  have hdisable : Kept c { c with channel := c.channel.disableWriting } :=
    ⟨rfl, fun h => h.disableWriting, rfl⟩
  have hqueue := hdisable.trans (kept_queueWriteComplete _)
  unfold outputDrained
  simp only
  split
  · exact hqueue.trans (kept_shutdownInLoop _)
  · exact hqueue

theorem kept_handleWrite (c : TcpConnection) (w : WriteResult) : Kept c (c.handleWrite w) := by
  by_cases hp : c.channel.isWriting = true ∧ ∃ n, w = .accepted n ∧ 0 < n
  · obtain ⟨hw, n, rfl, hn⟩ := hp
    have htake : Kept c (c.takeOutput n) := ⟨rfl, id, rfl⟩
    rw [handleWrite_of_progress hw hn]
    split
    · exact htake.trans (kept_outputDrained _)
    · exact htake
  · rw [handleWrite_of_idle hp]
    exact .refl c

/-- A read that does not close the connection. -/
theorem kept_handleRead (c : TcpConnection) (receiveTime : Timestamp) {r : ReadResult}
    (hr : r ≠ .bytes []) : Kept c (c.handleRead receiveTime r) := by
  match r with
  | .bytes [] => exact absurd rfl hr
  | .bytes (b :: data) =>
    have hread : Kept c { c with inputBuffer := c.inputBuffer.readFd (b :: data) } := ⟨rfl, id, rfl⟩
    have hcall := kept_call { c with inputBuffer := c.inputBuffer.readFd (b :: data) }
      (x := .messageCallback receiveTime) rfl
    exact hread.trans hcall
  | .failed e => exact .refl c

/-- In `kConnected` the write side is left as it is. -/
theorem Written.writeClosed_of_connected {c' : TcpConnection} {w : WriteResult}
    (h : Written c c' w) (hs : c.state = .kConnected) :
    c'.socket.writeClosed = c.socket.writeClosed := by
  rw [Bool.eq_iff_iff, h.writeClosed_iff]
  simp [hs]

end TcpConnection

end SimpleHttpServer
