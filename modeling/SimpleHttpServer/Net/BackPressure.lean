import SimpleHttpServer.Net.OutputStream

/-!
# Back-pressure

With both of its callbacks set, a connection tells its user when the output piles up and when it is
gone: `highWaterMarkCallback_` is queued when the buffered bytes reach the mark, and
`writeCompleteCallback_` when nothing is left. A user stops at the one and goes on at the other.

* `lastNotice` is what the user was told last;
* `Paced` is the invariant: from the mark on the last notice is a high-water one, and behind a
  high-water notice output is buffered;
* `drained`: writes that take all of the buffered bytes, however many at a time;
* **`back_pressure`**: so a user who waits is told to go on, and one who was told to is below the
  mark.
-/

namespace SimpleHttpServer

open Lib TcpConnection

/-- One of the two notices. -/
def ConnectionCall.isNotice : ConnectionCall → Bool
  | .queueWriteComplete | .queueHighWaterMark _ => true
  | _ => false

namespace TcpConnection

/-- What the user was told last. -/
def lastNotice (c : TcpConnection) : Option ConnectionCall :=
  (c.log.filter ConnectionCall.isNotice).getLast?

variable {c : TcpConnection}

theorem lastNotice_notice {x : ConnectionCall} (hx : x.isNotice = true) :
    (c.call x).lastNotice = some x := by
  unfold lastNotice call
  rw [List.filter_append, List.filter_singleton, hx]
  exact List.getLast?_concat

/-- Both callbacks are set, and the mark is not `0`. -/
structure Watched (c : TcpConnection) : Prop where
  writeComplete : c.writeCompleteCallback = true
  highWaterMark : c.highWaterMarkCallback = true
  mark : 0 < c.highWaterMark

/-- What the user was told last, and what is buffered. -/
structure Paced (c : TcpConnection) : Prop extends c.Watched where
  high : c.highWaterMark ≤ c.outputBuffer.readableBytes →
    ∃ len, c.lastNotice = some (.queueHighWaterMark len)
  buffered : ∀ len, c.lastNotice = some (.queueHighWaterMark len) → c.outputBuffer.readable ≠ []

/-- Nothing is buffered, and the user is told so. -/
theorem Watched.paced_writeComplete (h : c.Watched) (hnil : c.outputBuffer.readable = []) :
    c.queueWriteComplete.Paced := by
  have hqueue : c.queueWriteComplete = c.call .queueWriteComplete := if_pos h.writeComplete
  have hlast : (c.call .queueWriteComplete).lastNotice = some .queueWriteComplete :=
    lastNotice_notice rfl
  rw [hqueue]
  refine ⟨⟨h.1, h.2, h.3⟩, fun hhigh => ?_, fun len hlen => ?_⟩
  · have hzero : c.outputBuffer.readableBytes = 0 := (readableBytes_eq_zero _).mpr hnil
    have hpos := h.mark
    change c.highWaterMark ≤ c.outputBuffer.readableBytes at hhigh
    omega
  · rw [hlast] at hlen
    cases hlen

theorem readableBytes_append (q : ByteQueue) (data : Bytes) :
    (q.append data).readableBytes = q.readableBytes + data.length := by
  rw [← ByteQueue.length_readable, ByteQueue.readable_append, List.length_append,
    ByteQueue.length_readable]

/-- Where the buffered bytes reach the mark, the user is told. -/
theorem paced_bufferRest (h : c.Paced) {rest : Bytes} (hrest : rest ≠ []) :
    (c.bufferRest rest).Paced := by
  have hbuffered : c.outputBuffer.readable ++ rest ≠ [] :=
    List.append_ne_nil_of_right_ne_nil _ hrest
  have hmark : ∀ channel,
      Paced { c.queueHighWaterMark c.outputBuffer.readableBytes rest.length with
        outputBuffer := (c.queueHighWaterMark c.outputBuffer.readableBytes
          rest.length).outputBuffer.append rest
        channel } := by
    intro channel
    unfold queueHighWaterMark
    split
    · have hlast := lastNotice_notice (c := c)
        (x := .queueHighWaterMark (c.outputBuffer.readableBytes + rest.length)) rfl
      refine ⟨⟨h.writeComplete, h.highWaterMark, h.mark⟩, fun _ => ⟨_, hlast⟩, fun _ _ => ?_⟩
      rw [ByteQueue.readable_append]
      exact hbuffered
    · rename_i hnot
      refine ⟨⟨h.writeComplete, h.highWaterMark, h.mark⟩, fun hhigh => h.high ?_, fun _ _ => ?_⟩
      · have hsum := readableBytes_append c.outputBuffer rest
        change c.highWaterMark ≤ (c.outputBuffer.append rest).readableBytes at hhigh
        rw [hsum] at hhigh
        exact Nat.le_of_not_lt fun hlt => hnot ⟨hhigh, hlt, h.highWaterMark⟩
      · rw [ByteQueue.readable_append]
        exact hbuffered
  unfold bufferRest
  simp only
  split
  · exact hmark _
  · exact hmark _

/-- What the direct write left over is buffered. -/
theorem paced_bufferUnsent (h : c.Paced) (data : Bytes) (n : Nat) :
    (if !false && 0 < data.length - n then c.bufferRest (data.drop n) else c).Paced := by
  by_cases hleft : 0 < data.length - n
  · rw [if_pos (by simpa using hleft)]
    refine paced_bufferRest h fun hnil => ?_
    have hlen := List.drop_eq_nil_iff.mp hnil
    omega
  · rw [if_neg (by simpa using hleft)]
    exact h

theorem Paced.written (h : c.Paced) (data : Bytes) : (c.written data).Paced :=
  ⟨⟨h.writeComplete, h.highWaterMark, h.mark⟩, h.high, h.buffered⟩

theorem paced_sendInLoop (h : c.Paced) (data : Bytes) {w : WriteResult}
    (hpeer : w.peerGone = false) : (c.sendInLoop data w).Paced := by
  unfold sendInLoop
  by_cases hd : (!c.channel.isWriting && c.outputBuffer.readableBytes == 0) = true
  · rw [if_pos hd]
    have hnil : c.outputBuffer.readable = [] := by
      rw [Bool.and_eq_true, beq_iff_eq, readableBytes_eq_zero] at hd
      exact hd.2
    cases w with
    | accepted n =>
      have hwritten := h.written (data.take n)
      have hdirect : Paced (if data.length - n = 0 then (c.written (data.take n)).queueWriteComplete
          else c.written (data.take n)) := by
        split
        · exact hwritten.toWatched.paced_writeComplete hnil
        · exact hwritten
      exact paced_bufferUnsent hdirect data n
    | failed e =>
      rw [writeDirect_failed c data hpeer]
      exact paced_bufferUnsent h data 0
  · rw [if_neg hd]
    exact paced_bufferUnsent h data 0

theorem Paced.shutdownInLoop (h : c.Paced) : c.shutdownInLoop.Paced := by
  unfold TcpConnection.shutdownInLoop
  split
  · exact h
  · exact ⟨⟨h.writeComplete, h.highWaterMark, h.mark⟩, h.high, h.buffered⟩

theorem Paced.setState (h : c.Paced) (state : StateE) : (c.setState state).Paced :=
  ⟨⟨h.writeComplete, h.highWaterMark, h.mark⟩, h.high, h.buffered⟩

theorem paced_shutdown (h : c.Paced) : c.shutdown.Paced := by
  unfold shutdown
  split
  · exact (h.setState _).shutdownInLoop
  · exact h

/-- Once nothing is buffered, the user is told so. -/
theorem Watched.paced_outputDrained (h : c.Watched) (hnil : c.outputBuffer.readable = []) :
    c.outputDrained.Paced := by
  have hdisabled : Watched { c with channel := c.channel.disableWriting } := ⟨h.1, h.2, h.3⟩
  have hpaced := hdisabled.paced_writeComplete hnil
  unfold outputDrained
  simp only
  split
  · exact hpaced.shutdownInLoop
  · exact hpaced

theorem readableBytes_takeOutput (c : TcpConnection) (n : Nat) :
    (c.takeOutput n).outputBuffer.readableBytes = c.outputBuffer.readableBytes - n := by
  rw [← ByteQueue.length_readable, readable_takeOutput, List.length_drop,
    ByteQueue.length_readable]

theorem paced_handleWrite (h : c.Paced) (w : WriteResult) : (c.handleWrite w).Paced := by
  by_cases hp : c.channel.isWriting = true ∧ ∃ n, w = .accepted n ∧ 0 < n
  · obtain ⟨hw, n, rfl, hn⟩ := hp
    have hwatched : (c.takeOutput n).Watched := ⟨h.writeComplete, h.highWaterMark, h.mark⟩
    have hleft := readableBytes_takeOutput c n
    rw [handleWrite_of_progress hw hn]
    split
    · rename_i hle
      refine hwatched.paced_outputDrained ?_
      rw [← readableBytes_eq_zero]
      omega
    · rename_i hle
      refine ⟨hwatched, fun hhigh => h.high ?_, fun len _ hnil => ?_⟩
      · rw [hleft] at hhigh
        exact hhigh.trans (Nat.sub_le _ _)
      · rw [← readableBytes_eq_zero] at hnil
        omega
  · rw [handleWrite_of_idle hp]
    exact h

/-- The socket took nothing. -/
theorem handleWrite_accepted_zero (c : TcpConnection) : c.handleWrite (.accepted 0) = c := by
  refine handleWrite_of_idle ?_
  rintro ⟨-, n, hn, hpos⟩
  cases hn
  exact Nat.lt_irrefl 0 hpos

theorem state_handleWrite (c : TcpConnection) (w : WriteResult) :
    (c.handleWrite w).state = c.state := by
  by_cases hp : c.channel.isWriting = true ∧ ∃ n, w = .accepted n ∧ 0 < n
  · obtain ⟨hw, n, rfl, hn⟩ := hp
    rw [handleWrite_of_progress hw hn]
    split
    · obtain ⟨log, hlog⟩ := outputDrained_eq (c.takeOutput n)
      rw [hlog]
      rfl
    · rfl
  · rw [handleWrite_of_idle hp]

/-- The notice of a drained buffer. -/
theorem lastNotice_outputDrained (h : c.Watched) :
    c.outputDrained.lastNotice = some .queueWriteComplete := by
  have hqueue : queueWriteComplete { c with channel := c.channel.disableWriting } =
      call { c with channel := c.channel.disableWriting } .queueWriteComplete :=
    if_pos h.writeComplete
  have hlast : lastNotice (call { c with channel := c.channel.disableWriting }
      .queueWriteComplete) = some .queueWriteComplete := lastNotice_notice rfl
  unfold outputDrained shutdownInLoop
  simp only
  rw [hqueue]
  split
  · split
    · exact hlast
    · exact hlast
  · exact hlast

end TcpConnection

namespace OutputRun

variable {s : OutputRun}

theorem paced_next (h : s.conn.Paced) {a : OutputAction} (hg : machine.guard s a) :
    (machine.next s a).conn.Paced := by
  cases a with
  | send buf w =>
    show (s.conn.send buf w).Paced
    unfold send
    split
    · exact paced_sendInLoop h buf hg.2
    · exact h
  | shutdown => exact paced_shutdown h
  | handleWrite w => exact paced_handleWrite h w

theorem paced_after : ∀ (as : List OutputAction) {s : OutputRun}, s.conn.Paced →
    machine.Legal s as → (machine.after s as).conn.Paced
  | [], _, h, _ => h
  | _ :: as, _, h, hl => paced_after as (paced_next h hl.1) hl.2

/-- Writes that each take some of the buffered bytes. -/
def writes (ns : List Nat) : List OutputAction := ns.map fun n => .handleWrite (.accepted n)

/-- Writes that take nothing change nothing. -/
theorem after_writes_zero : ∀ {ns : List Nat} (s : OutputRun), ns.sum = 0 →
    machine.after s (writes ns) = s
  | [], _, _ => rfl
  | n :: ns, s, hsum => by
    rw [List.sum_cons] at hsum
    obtain rfl : n = 0 := by omega
    show machine.after { s with conn := s.conn.handleWrite (.accepted 0) } (writes ns) = s
    rw [handleWrite_accepted_zero]
    exact after_writes_zero s (by omega)

/-- **Writes that take all of the buffered bytes**, however many at a time, end with a notice. -/
theorem drained : ∀ {ns : List Nat} {s : OutputRun}, s.conn.Watched →
    s.conn.channel.isWriting = true → 0 < s.conn.outputBuffer.readableBytes →
    machine.Legal s (writes ns) → ns.sum = s.conn.outputBuffer.readableBytes →
    (machine.after s (writes ns)).conn.lastNotice = some .queueWriteComplete ∧
      (machine.after s (writes ns)).conn.outputBuffer.readable = []
  | [], s, _, _, hpos, _, hsum => absurd hpos (by rw [← hsum]; exact Nat.lt_irrefl 0)
  | n :: ns, s, hwatched, hwriting, hpos, hl, hsum => by
    rw [List.sum_cons] at hsum
    show (machine.after { s with conn := s.conn.handleWrite (.accepted n) }
        (writes ns)).conn.lastNotice = _ ∧
      (machine.after { s with conn := s.conn.handleWrite (.accepted n) }
        (writes ns)).conn.outputBuffer.readable = []
    have hrest := hl.2
    change machine.Legal { s with conn := s.conn.handleWrite (.accepted n) } (writes ns) at hrest
    have hfits : n ≤ s.conn.outputBuffer.readableBytes := hl.1.1
    rcases Nat.eq_zero_or_pos n with rfl | hn
    · -- the socket took nothing
      have hidle := handleWrite_accepted_zero s.conn
      rw [hidle] at hrest ⊢
      exact drained hwatched hwriting hpos hrest ((Nat.zero_add _).symm.trans hsum)
    · have hprogress := handleWrite_of_progress hwriting hn
      by_cases hle : s.conn.outputBuffer.readableBytes ≤ n
      · -- the last byte goes out, so the writes behind this one take nothing
        rw [if_pos hle] at hprogress
        have hwatched' : (s.conn.takeOutput n).Watched :=
          ⟨hwatched.writeComplete, hwatched.highWaterMark, hwatched.mark⟩
        rw [hprogress, after_writes_zero _ (by omega)]
        refine ⟨lastNotice_outputDrained hwatched', ?_⟩
        obtain ⟨log, hlog⟩ := outputDrained_eq (s.conn.takeOutput n)
        rw [hlog]
        show (s.conn.takeOutput n).outputBuffer.readable = []
        rw [← readableBytes_eq_zero, readableBytes_takeOutput]
        omega
      · rw [if_neg hle] at hprogress
        rw [hprogress] at hrest ⊢
        have hleft := readableBytes_takeOutput s.conn n
        refine drained ⟨hwatched.writeComplete, hwatched.highWaterMark, hwatched.mark⟩ hwriting
          ?_ hrest ?_
        · show 0 < (s.conn.takeOutput n).outputBuffer.readableBytes
          omega
        · show ns.sum = (s.conn.takeOutput n).outputBuffer.readableBytes
          omega

theorem state_after_writes : ∀ (ns : List Nat) (s : OutputRun),
    (machine.after s (writes ns)).conn.state = s.conn.state ∧
      (machine.after s (writes ns)).sent = s.sent
  | [], _ => ⟨rfl, rfl⟩
  | n :: ns, s => by
    obtain ⟨hstate, hsent⟩ :=
      state_after_writes ns { s with conn := s.conn.handleWrite (.accepted n) }
    exact ⟨hstate.trans (state_handleWrite s.conn _), hsent⟩

/-- **A user who heeds the two notices bounds what is buffered and is never left waiting.** For a
connection with both callbacks set, after any legal run of `send`, `shutdown` and `handleWrite`:
with the mark or more buffered, the last notice is a high-water one; behind a high-water notice
output is buffered and write interest is on, so that `handleWrite` will be called; and whatever
writes take the buffered bytes, however many at a time, the last notice is then that all is
written, everything sent is, write interest is off, and a half-close that had to wait is made. -/
theorem back_pressure {c : TcpConnection} (hc : c.Unused) (hlog : c.log = []) (hw : c.Watched)
    {as : List OutputAction} (hl : machine.Legal ⟨c.connectEstablished, []⟩ as) {t : OutputRun}
    (ht : t = machine.after ⟨c.connectEstablished, []⟩ as) :
    (t.conn.highWaterMark ≤ t.conn.outputBuffer.readableBytes →
      ∃ len, t.conn.lastNotice = some (.queueHighWaterMark len)) ∧
    (∀ len, t.conn.lastNotice = some (.queueHighWaterMark len) →
      t.conn.outputBuffer.readable ≠ [] ∧ t.conn.channel.isWriting = true) ∧
    ∀ ns, machine.Legal t (writes ns) → ns.sum = t.conn.outputBuffer.readableBytes →
      t.conn.outputBuffer.readable ≠ [] →
      (machine.after t (writes ns)).conn.lastNotice = some .queueWriteComplete ∧
      (machine.after t (writes ns)).conn.socket.written = t.sent.flatten ∧
      (machine.after t (writes ns)).conn.channel.isWriting = false ∧
      (t.conn.state = .kDisconnecting →
        (machine.after t (writes ns)).conn.socket.writeClosed = true) := by
  subst ht
  have hnone : c.connectEstablished.lastNotice = none := by
    have hcalls : c.connectEstablished.log = [.connectionCallback true] := by
      show c.log ++ [.connectionCallback true] = _
      rw [hlog]
      rfl
    unfold lastNotice
    rw [hcalls]
    rfl
  have hstart : c.connectEstablished.Paced := by
    refine ⟨⟨hw.writeComplete, hw.highWaterMark, hw.mark⟩, fun hhigh => ?_, fun len hlen => ?_⟩
    · have hzero := (readableBytes_eq_zero _).mpr hc.outputBuffer
      have hpos := hw.mark
      change c.highWaterMark ≤ c.outputBuffer.readableBytes at hhigh
      omega
    · rw [hnone] at hlen
      cases hlen
  have hinit : machine.init ⟨c.connectEstablished, []⟩ := ⟨c, hc, rfl⟩
  have hreach := Machine.Reachable.run (.init hinit) hl
  have hpaced := paced_after as hstart hl
  have hintact := intact_of_reachable hreach
  refine ⟨hpaced.high, fun len hlen => ?_, fun ns hns hsum hne => ?_⟩
  · have hne := hpaced.buffered len hlen
    exact ⟨hne, hintact.interest.mpr hne⟩
  · have hpos := Nat.pos_of_ne_zero fun hzero => hne ((readableBytes_eq_zero _).mp hzero)
    have hintact' := intact_of_reachable (Machine.Reachable.run hreach hns)
    obtain ⟨hnotice, hnil⟩ := drained hpaced.toWatched (hintact.interest.mpr hne) hpos hns hsum
    obtain ⟨hstate, hsent⟩ := state_after_writes ns (machine.after ⟨c.connectEstablished, []⟩ as)
    refine ⟨hnotice, ?_, ?_, fun hd => ?_⟩
    · have hstream := hintact'.stream
      rw [stream, hnil, List.append_nil, hsent] at hstream
      exact hstream
    · exact Bool.eq_false_iff.mpr fun hwriting => hintact'.interest.mp hwriting hnil
    · rcases hintact'.deferred (hstate.trans hd) with hclosed | hstill
      · exact hclosed
      · exact absurd hnil hstill

/-- A send that reaches the mark of two bytes, a half-close behind it, and two writes. -/
theorem back_pressure_example :
    let start : OutputRun :=
      ⟨((new.setWriteCompleteCallback).setHighWaterMarkCallback 2).connectEstablished, []⟩
    let t := machine.after start [.send [1, 2, 3] (.failed .EWOULDBLOCK), .shutdown]
    let s := machine.after t (writes [1, 0, 2])
    machine.Legal start [.send [1, 2, 3] (.failed .EWOULDBLOCK), .shutdown] ∧
      machine.Legal t (writes [1, 0, 2]) ∧ s.conn.lastNotice = some .queueWriteComplete ∧
      s.conn.socket.written = [1, 2, 3] ∧ s.conn.socket.writeClosed = true := by
  intro start t s
  have hc := (unused_new.setWriteCompleteCallback).setHighWaterMarkCallback 2
  have hlegal : machine.Legal start [.send [1, 2, 3] (.failed .EWOULDBLOCK), .shutdown] :=
    ⟨⟨trivial, rfl⟩, trivial, trivial⟩
  have hwrites : machine.Legal t (writes [1, 0, 2]) :=
    ⟨⟨by decide +kernel, rfl⟩, ⟨by decide +kernel, rfl⟩, ⟨by decide +kernel, rfl⟩, trivial⟩
  obtain ⟨-, -, hdrain⟩ := back_pressure (t := t) hc rfl ⟨rfl, rfl, by decide⟩ hlegal rfl
  have h := hdrain [1, 0, 2] hwrites (by decide +kernel) (by decide +kernel)
  exact ⟨hlegal, hwrites, h.1, h.2.1.trans (by decide +kernel), h.2.2.2 (by decide +kernel)⟩

end OutputRun

end SimpleHttpServer
