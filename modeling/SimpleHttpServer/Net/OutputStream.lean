import SimpleHttpServer.Lib.Machine
import SimpleHttpServer.Net.TcpConnection

/-!
# The output stream of a connection on its loop thread

Runs of `send`, `shutdown` and `handleWrite` in any order, each `::write` taking any prefix or
failing with an error that does not mean the peer is gone.

* `Intact` is the invariant: the stream is what was sent, write interest is on exactly while
  output is buffered, and a half-close that had to wait is still due;
* **`output_stream_intact`**: it holds in every reachable state.
-/

namespace SimpleHttpServer

open Lib TcpConnection

/-- A step of the loop thread, with the result of the `::write` it may make. -/
inductive OutputAction where
  | send (buf : Bytes) (w : WriteResult)
  | shutdown
  | handleWrite (w : WriteResult)

/-- A connection, and the payloads of the `send` calls made in `kConnected`, in call order. -/
structure OutputRun where
  conn : TcpConnection
  sent : List Bytes

namespace OutputRun

/-- Runs start where `connectEstablished` leaves a connection that has not been used. -/
def machine : Machine OutputRun OutputAction where
  init s := ∃ c : TcpConnection, c.Unused ∧ s = ⟨c.connectEstablished, []⟩
  guard s
    | .send buf w => w.Fits buf.length ∧ w.peerGone = false
    | .shutdown => True
    | .handleWrite w => w.Fits s.conn.outputBuffer.readableBytes ∧ w.peerGone = false
  next s
    | .send buf w =>
      ⟨s.conn.send buf w, if s.conn.state = .kConnected then s.sent ++ [buf] else s.sent⟩
    | .shutdown => { s with conn := s.conn.shutdown }
    | .handleWrite w => { s with conn := s.conn.handleWrite w }

/-- The invariant. -/
structure Intact (s : OutputRun) : Prop where
  stream : s.conn.stream = s.sent.flatten
  interest : s.conn.InterestIffBuffered
  /-- The write side is not closed before `shutdown`. -/
  openWhileConnected : s.conn.state = .kConnected → s.conn.socket.writeClosed = false
  closedWhenEmpty : s.conn.socket.writeClosed = true → s.conn.outputBuffer.readable = []
  /-- A half-close that `shutdown` could not make is left to `handleWrite`. -/
  deferred : s.conn.state = .kDisconnecting →
    s.conn.socket.writeClosed = true ∨ s.conn.outputBuffer.readable ≠ []

variable {s : OutputRun}

theorem intact_init (h : machine.init s) : Intact s := by
  obtain ⟨c, hc, rfl⟩ := h
  have hstream : c.connectEstablished.stream = [] := by
    show c.socket.written ++ c.outputBuffer.readable = []
    rw [hc.socket, hc.outputBuffer]
    rfl
  have hclosed : c.connectEstablished.socket.writeClosed = false := by
    show c.socket.writeClosed = false
    rw [hc.socket]
  refine ⟨hstream, ?_, fun _ => hclosed, fun _ => hc.outputBuffer, nofun⟩
  show c.channel.enableReading.isWriting = true ↔ c.outputBuffer.readable ≠ []
  rw [Channel.isWriting_enableReading, hc.channel, hc.outputBuffer]
  decide

/-- `send` adds its payload at the end of the stream. -/
theorem intact_send (h : Intact s) (buf : Bytes) {w : WriteResult} (hw : w.peerGone = false) :
    Intact (machine.next s (.send buf w)) := by
  by_cases hs : s.conn.state = .kConnected
  · have hsent := sendInLoop_sent h.interest buf hw
    have hopen : (s.conn.sendInLoop buf w).socket.writeClosed = false :=
      hsent.writeClosed.trans (h.openWhileConnected hs)
    have hnext : machine.next s (.send buf w) = ⟨s.conn.sendInLoop buf w, s.sent ++ [buf]⟩ := by
      simp [machine, send, hs]
    rw [hnext]
    refine ⟨?_, hsent.interest, fun _ => hopen, fun hc => ?_, fun hd => ?_⟩
    · rw [hsent.stream, h.stream, List.flatten_append, List.flatten_singleton]
    · exact absurd (hopen.symm.trans hc) Bool.false_ne_true
    · exact absurd (hs.symm.trans (hsent.state.symm.trans hd)) nofun
  · have hnext : machine.next s (.send buf w) = s := by
      simp [machine, send, hs]
    rw [hnext]
    exact h

/-- `shutdown` closes the write side at once or leaves that to `handleWrite`. -/
theorem intact_shutdown (h : Intact s) : Intact (machine.next s .shutdown) := by
  show Intact { s with conn := s.conn.shutdown }
  by_cases hs : s.conn.state = .kConnected
  · rw [shutdown_of_connected hs]
    split
    · rename_i hw
      exact ⟨h.stream, h.interest, nofun, h.closedWhenEmpty, fun _ => .inr (h.interest.mp hw)⟩
    · rename_i hw
      have hnil : s.conn.outputBuffer.readable = [] := h.interest.readable_eq_nil hw
      exact ⟨h.stream, h.interest, nofun, fun _ => hnil, fun _ => .inl rfl⟩
  · rw [shutdown, if_neg hs]
    exact h

/-- `handleWrite` closes the write side only behind the last byte. -/
theorem intact_handleWrite (h : Intact s) (w : WriteResult) :
    Intact (machine.next s (.handleWrite w)) := by
  show Intact { s with conn := s.conn.handleWrite w }
  have hw := handleWrite_written h.interest w
  refine ⟨hw.stream.trans h.stream, hw.interest, fun hs => ?_, fun hc => ?_, fun hd => ?_⟩
  · rw [hw.state] at hs
    exact (hw.writeClosed_of_connected hs).trans (h.openWhileConnected hs)
  · rw [hw.empty_iff]
    rcases hw.writeClosed_iff.mp hc with hc | ⟨hd, -⟩
    · exact .inl (h.closedWhenEmpty hc)
    · exact .inr hd
  · rw [hw.state] at hd
    rw [hw.writeClosed_iff, Ne, hw.empty_iff]
    rcases h.deferred hd with hc | hne
    · exact .inl (.inl hc)
    · by_cases hdr : s.conn.Drains w
      · exact .inl (.inr ⟨hdr, hd⟩)
      · exact .inr (by simp [hne, hdr])

theorem intact_of_reachable (h : machine.Reachable s) : Intact s := by
  refine Machine.Reachable.invariant h (fun _ => intact_init) fun s a hi hg => ?_
  cases a with
  | send buf w => exact intact_send hi buf hg.2
  | shutdown => exact intact_shutdown hi
  | handleWrite w => exact intact_handleWrite hi w

/-- **The output stream is intact in every reachable state**: what was written and what is still
buffered is what was sent, in order; write interest is on exactly while output is buffered; the
write side is closed only behind the last byte; and in `kDisconnecting` it is closed, or output
is buffered and `handleWrite` will be called. -/
theorem output_stream_intact (h : machine.Reachable s) :
    s.conn.socket.written ++ s.conn.outputBuffer.readable = s.sent.flatten ∧
    (s.conn.channel.isWriting = true ↔ s.conn.outputBuffer.readable ≠ []) ∧
    (s.conn.socket.writeClosed = true → s.conn.socket.written = s.sent.flatten) ∧
    (s.conn.state = .kDisconnecting → s.conn.socket.writeClosed = true ∨
      s.conn.outputBuffer.readable ≠ [] ∧ s.conn.channel.isWriting = true) := by
  have hi := intact_of_reachable h
  refine ⟨hi.stream, hi.interest, fun hc => ?_, fun hd => ?_⟩
  · rw [← hi.stream, stream, hi.closedWhenEmpty hc, List.append_nil]
  · exact (hi.deferred hd).imp_right fun hne => ⟨hne, hi.interest.mpr hne⟩

/-- A partial direct write, a send behind it that reaches the high-water mark, then a half-close
that waits for `handleWrite`. -/
theorem output_stream_intact_example :
    ∃ s, machine.Reachable s ∧ s.conn.socket.writeClosed = true ∧
      s.conn.socket.written = [1, 2, 3] := by
  have hinit : machine.init
      ⟨((new.setWriteCompleteCallback).setHighWaterMarkCallback 2).connectEstablished, []⟩ :=
    ⟨_, (unused_new.setWriteCompleteCallback).setHighWaterMarkCallback 2, rfl⟩
  have hlegal : machine.Legal
      ⟨((new.setWriteCompleteCallback).setHighWaterMarkCallback 2).connectEstablished, []⟩
      [.send [1, 2] (.accepted 1), .send [3] (.failed .EWOULDBLOCK), .shutdown,
        .handleWrite (.accepted 2)] :=
    ⟨⟨by decide, rfl⟩, ⟨trivial, rfl⟩, trivial, ⟨by decide +kernel, rfl⟩, trivial⟩
  have hrun := Machine.Reachable.run (.init hinit) hlegal
  refine ⟨_, hrun, by decide +kernel, ?_⟩
  exact ((output_stream_intact hrun).2.2.1 (by decide +kernel)).trans (by decide +kernel)

end OutputRun

end SimpleHttpServer
