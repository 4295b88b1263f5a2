import SimpleHttpServer.Lib.Memory
import SimpleHttpServer.Net.EventLoop
import SimpleHttpServer.Net.TcpConnection

/-!
# The storage of what another thread sends

`send(buf)` on the loop thread hands the bytes of `buf` on before it returns. On any other thread it
binds `buf.c_str()` and `buf.size()` to `sendInLoop` and returns, and the functor reads the bytes
when the loop thread runs it. By then the caller may have changed, reused or freed them.

Any number `T` of other threads call `send` for strings in one `memory`, while the loop thread
handles events, runs functors and calls `send` itself, and anyone stores to the memory at any time.
`copied` is what the connection would be if every `send` had copied its string.

* **`sameEffect_iff`**: every `sendInLoop` of a run is handed what the string held at the call, and
  the connection is the one that copies, if and only if the storage of each queued string holds
  those bytes when its functor is started;
* `sameEffect_of_untouched`: so it is if nobody touches the storage of a string before that;
* `storage_reused_example`: a caller that reuses its string after `send` has returned.
-/

namespace SimpleHttpServer

open Lib

/-- What `send` binds: `buf.c_str()` and `buf.size()`. What `buf` held at the call is noted with it,
but the code does not keep it. -/
structure SentString where
  data : Nat
  len : Nat
  held : Bytes
  length_held : held.length = len

/-- The string is in the memory. -/
def SentString.In (p : SentString) (memory : Memory UInt8) : Prop :=
  memory.read p.data p.len = some p.held

theorem SentString.in_iff {p : SentString} {memory : Memory UInt8} :
    p.In memory ↔ memory.Holds p.data p.held :=
  Memory.read_eq_some_iff.trans (and_iff_right p.length_held)

/-- A functor of the loop. -/
inductive BoundFunctor where
  | sendInLoop (p : SentString)
  | other

/-- A call of `sendInLoop`: what the string held when `send` was called, and what was read. -/
structure Handed where
  held : Bytes
  given : Option Bytes

/-- What else the loop thread does with the connection. -/
inductive ConnEvent where
  | connectEstablished
  | handleRead (receiveTime : Timestamp) (r : ReadResult)
  | handleWrite (w : WriteResult)
  | shutdown
  | shutdownInLoop
  | connectDestroyed

/-- The event, handled on the loop thread. -/
def ConnEvent.run (c : TcpConnection) : ConnEvent → TcpConnection
  | .connectEstablished => c.connectEstablished
  | .handleRead receiveTime r => c.handleRead receiveTime r
  | .handleWrite w => c.handleWrite w
  | .shutdown => c.shutdown
  | .shutdownInLoop => c.shutdownInLoop
  | .connectDestroyed => c.connectDestroyed

/-- A connection on its loop, and the memory that its functors read. -/
structure SendStorage (T : Type) where
  loop : EventLoop T BoundFunctor
  conn : TcpConnection
  memory : Memory UInt8
  /-- The string of each thread that is in `send` and has read `kConnected`. -/
  sending : T → Option SentString
  handed : List Handed
  /-- The connection, if every `send` had copied its string. -/
  copied : TcpConnection

/-- The steps of the loop and of the threads that send. -/
inductive StorageAction (T : Type) where
  /-- A step of the loop, or of another thread in `queueInLoop` or `quit`; `w` is for the `::write`
  of the functor it may start. -/
  | inLoop (a : LoopAction T BoundFunctor) (w : WriteResult)
  | event (e : ConnEvent)
  /-- `send(buf)` on the loop thread. -/
  | selfSend (p : SentString) (w : WriteResult)
  /-- Thread `t` calls `send(buf)` and reads `state_`. -/
  | send (t : T) (p : SentString)
  /-- Thread `t` pushes the functor of its `send`. -/
  | queue (t : T)
  /-- Thread `t` stores `kDisconnecting` in `shutdown()`. -/
  | disconnect (t : T)
  /-- Someone writes a byte, or frees it. -/
  | store (q : Nat) (byte : Option UInt8)

/-- The other thread that takes a step of the loop's machine. -/
def LoopAction.caller {T F : Type*} : LoopAction T F → Option T
  | .push t _ | .storeQuit t | .wakeup t => some t
  | _ => none

namespace SendStorage

variable {T : Type}

/-- `sendInLoop(data, len)`. Nothing is known of what a freed cell is read as: the connection stays
as it is, and the call is on record. -/
def sendInLoop (s : SendStorage T) (p : SentString) (w : WriteResult) : SendStorage T :=
  { s with
    conn :=
      match s.memory.read p.data p.len with
      | some buf => s.conn.sendInLoop buf w
      | none => s.conn
    handed := s.handed ++ [⟨p.held, s.memory.read p.data p.len⟩]
    copied := s.copied.sendInLoop p.held w }

/-- Running a functor. -/
def run (w : WriteResult) (s : SendStorage T) : BoundFunctor → SendStorage T
  | .sendInLoop p => s.sendInLoop p w
  | .other => s

variable [DecidableEq T]

/-- Runs start before the first `send`. -/
def machine : Machine (SendStorage T) (StorageAction T) where
  init s := (∀ f ∈ s.loop.queue, f = .other) ∧ (∀ t, s.sending t = none) ∧ s.handed = [] ∧
    s.copied = s.conn
  guard s
    | .inLoop a _ => s.loop.guard a ∧ (∀ f ∈ a.pushed, f = .other) ∧
        ∀ t, a.caller = some t → s.sending t = none
    | .event _ => s.loop.self = .idle ∧ s.loop.pc.inUserCode = true
    | .selfSend p _ => s.loop.self = .idle ∧ s.loop.pc.inUserCode = true ∧ p.In s.memory
    | .send t p => s.loop.callers t = .idle ∧ s.sending t = none ∧ p.In s.memory
    | .queue t => s.sending t ≠ none
    | .disconnect t => s.loop.callers t = .idle ∧ s.sending t = none
    | .store _ _ => True
  next s
    | .inLoop a w => (s.loop.started a).foldl (run w) { s with loop := s.loop.next a }
    | .event e => { s with conn := e.run s.conn, copied := e.run s.copied }
    | .selfSend p w => if s.conn.state = .kConnected then s.sendInLoop p w else s
    | .send t p =>
      if s.conn.state = .kConnected then { s with sending := Function.update s.sending t (some p) }
      else s
    | .queue t =>
      match s.sending t with
      | some p =>
        { s with loop := s.loop.next (.push t (.sendInLoop p))
                 sending := Function.update s.sending t none }
      | none => s
    | .disconnect _ =>
      if s.conn.state = .kConnected then
        { s with conn := s.conn.setState .kDisconnecting
                 copied := s.copied.setState .kDisconnecting }
      else s
    | .store q byte => { s with memory := s.memory.store q byte }

/-- **`send` had the effect it has on the loop thread**, from every thread: what each `sendInLoop`
was handed is what the string held at the call. -/
structure SameEffect (s : SendStorage T) : Prop where
  given : ∀ h ∈ s.handed, h.given = some h.held
  conn : s.conn = s.copied

/-- The string of a functor that is started holds what it held when `send` was called. -/
def StorageKept (s : SendStorage T) : StorageAction T → Prop
  | .inLoop a _ => ∀ p, .sendInLoop p ∈ s.loop.started a → s.memory.Holds p.data p.held
  | _ => True

variable {s : SendStorage T}

/-! ## One step -/

omit [DecidableEq T] in
theorem sendInLoop_of_in {p : SentString} (h : p.In s.memory) (w : WriteResult) :
    s.sendInLoop p w =
      { s with conn := s.conn.sendInLoop p.held w
               handed := s.handed ++ [⟨p.held, some p.held⟩]
               copied := s.copied.sendInLoop p.held w } := by
  have hread : s.memory.read p.data p.len = some p.held := h
  simp only [sendInLoop, hread]

omit [DecidableEq T] in
/-- **A `sendInLoop` keeps the effect exactly if the string is still there.** -/
theorem sameEffect_sendInLoop (h : s.SameEffect) (p : SentString) (w : WriteResult) :
    (s.sendInLoop p w).SameEffect ↔ p.In s.memory := by
  constructor
  · intro hnext
    exact hnext.given ⟨p.held, s.memory.read p.data p.len⟩
      (List.mem_append_right _ (List.mem_singleton_self _))
  · intro hin
    rw [sendInLoop_of_in hin]
    refine ⟨?_, ?_⟩
    · exact List.forall_mem_append.mpr ⟨h.given, List.forall_mem_singleton.mpr rfl⟩
    · show s.conn.sendInLoop p.held w = s.copied.sendInLoop p.held w
      rw [h.conn]

theorem sameEffect_inLoop (h : s.SameEffect) (a : LoopAction T BoundFunctor) (w : WriteResult) :
    (machine.next s (.inLoop a w)).SameEffect ↔ s.StorageKept (.inLoop a w) := by
  show SameEffect ((s.loop.started a).foldl (run w) { s with loop := s.loop.next a }) ↔
    ∀ p, .sendInLoop p ∈ s.loop.started a → s.memory.Holds p.data p.held
  have hloop : SameEffect { s with loop := s.loop.next a } := ⟨h.given, h.conn⟩
  rcases s.loop.started_cases a with hst | ⟨f, hst⟩
  · rw [hst]
    exact iff_of_true hloop nofun
  · rw [hst]
    cases f with
    | sendInLoop p =>
      refine (sameEffect_sendInLoop hloop p w).trans (SentString.in_iff.trans ?_)
      constructor
      · intro hholds q hq
        obtain rfl := BoundFunctor.sendInLoop.inj (List.mem_singleton.mp hq)
        exact hholds
      · exact fun hall => hall p (List.mem_singleton_self _)
    | other => exact iff_of_true hloop fun p hp => nomatch List.mem_singleton.mp hp

theorem sameEffect_next (h : s.SameEffect) {a : StorageAction T} (hg : machine.guard s a) :
    (machine.next s a).SameEffect ↔ s.StorageKept a := by
  cases a with
  | inLoop a w => exact sameEffect_inLoop h a w
  | event e => exact iff_of_true ⟨h.given, congrArg e.run h.conn⟩ trivial
  | selfSend p w =>
    refine iff_of_true ?_ trivial
    show SameEffect (if s.conn.state = .kConnected then s.sendInLoop p w else s)
    split
    · exact (sameEffect_sendInLoop h p w).mpr hg.2.2
    · exact h
  | send t p =>
    refine iff_of_true ?_ trivial
    show SameEffect (if s.conn.state = .kConnected then _ else s)
    split
    · exact ⟨h.given, h.conn⟩
    · exact h
  | queue t =>
    refine iff_of_true ?_ trivial
    show SameEffect (match s.sending t with | some p => _ | none => s)
    split
    · exact ⟨h.given, h.conn⟩
    · exact h
  | disconnect t =>
    refine iff_of_true ?_ trivial
    show SameEffect (if s.conn.state = .kConnected then _ else s)
    split
    · exact ⟨h.given, congrArg (·.setState .kDisconnecting) h.conn⟩
    · exact h
  | store q byte => exact iff_of_true ⟨h.given, h.conn⟩ trivial

/-- **`send` has the same effect from every thread, throughout a run, if and only if** the storage
of every queued string holds the bytes it held at the call when the functor is started. -/
theorem sameEffect_iff (h : machine.init s) {as : List (StorageAction T)}
    (hl : machine.Legal s as) :
    machine.Always SameEffect s as ↔ machine.Along StorageKept s as := by
  obtain ⟨-, -, hnone, hcopied⟩ := h
  have hinit : s.SameEffect := ⟨by rw [hnone]; exact nofun, hcopied.symm⟩
  exact Machine.always_iff_along (I := fun _ => True) (fun _ _ _ _ _ _ => trivial)
    (fun s a _ hP hg => sameEffect_next hP hg) trivial hinit hl

/-! ## Who keeps the storage -/

/-- The string has been passed to `send`, and its functor is not started yet. -/
def Pending (s : SendStorage T) (p : SentString) : Prop :=
  .sendInLoop p ∈ s.loop.queue ∨ ∃ t, s.sending t = some p

/-- Every pending string holds what it held at the call. -/
def Kept (s : SendStorage T) : Prop := ∀ p, s.Pending p → s.memory.Holds p.data p.held

/-- A step does not touch the storage of a pending string. -/
def Untouched (s : SendStorage T) : StorageAction T → Prop
  | .store q _ => ∀ p, s.Pending p → ¬(p.data ≤ q ∧ q < p.data + p.len)
  | _ => True

omit [DecidableEq T] in
/-- Running a functor does not change the memory or the queue. -/
theorem foldl_run_frame (w : WriteResult) : ∀ (fs : List BoundFunctor) (s : SendStorage T),
    (fs.foldl (run w) s).memory = s.memory ∧ (fs.foldl (run w) s).loop = s.loop ∧
      (fs.foldl (run w) s).sending = s.sending
  | [], _ => ⟨rfl, rfl, rfl⟩
  | f :: fs, s => by
    obtain ⟨hmemory, hloop, hsending⟩ := foldl_run_frame w fs (s.run w f)
    rw [List.foldl_cons, hmemory, hloop, hsending]
    cases f with
    | sendInLoop p => exact ⟨rfl, rfl, rfl⟩
    | other => exact ⟨rfl, rfl, rfl⟩

/-- A functor that is started or left on the queue by a step of the loop was pending. -/
theorem pending_of_inLoop {a : LoopAction T BoundFunctor} {w : WriteResult}
    (hg : machine.guard s (.inLoop a w)) {p : SentString}
    (hp : .sendInLoop p ∈ s.loop.started a ++ (s.loop.next a).queue) : s.Pending p := by
  rcases EventLoop.mem_started hp with hqueue | hpushed
  · exact .inl hqueue
  · exact nomatch hg.2.1 _ hpushed

theorem inLoop_frame (s : SendStorage T) (a : LoopAction T BoundFunctor) (w : WriteResult) :
    (machine.next s (.inLoop a w)).memory = s.memory ∧
      (machine.next s (.inLoop a w)).loop = s.loop.next a ∧
      (machine.next s (.inLoop a w)).sending = s.sending :=
  foldl_run_frame w (s.loop.started a) { s with loop := s.loop.next a }

theorem kept_inLoop (h : s.Kept) {a : LoopAction T BoundFunctor} {w : WriteResult}
    (hg : machine.guard s (.inLoop a w)) : (machine.next s (.inLoop a w)).Kept := by
  obtain ⟨hmemory, hloop, hsending⟩ := inLoop_frame s a w
  rintro p (hqueue | ⟨t, ht⟩)
  · rw [hloop] at hqueue
    rw [hmemory]
    exact h p (pending_of_inLoop hg (List.mem_append_right _ hqueue))
  · rw [hsending] at ht
    rw [hmemory]
    exact h p (.inr ⟨t, ht⟩)

theorem kept_send (h : s.Kept) {t : T} {p : SentString} (hg : machine.guard s (.send t p)) :
    (machine.next s (.send t p)).Kept := by
  show Kept (if s.conn.state = .kConnected then _ else s)
  split
  · rintro q (hqueue | ⟨t', ht'⟩)
    · exact h q (.inl hqueue)
    · by_cases hsame : t' = t
      · subst hsame
        obtain rfl := Option.some.inj ((Function.update_self t' _ s.sending).symm.trans ht')
        exact SentString.in_iff.mp hg.2.2
      · exact h q (.inr ⟨t', (Function.update_of_ne hsame _ _).symm.trans ht'⟩)
  · exact h

theorem kept_queue (h : s.Kept) (t : T) : (machine.next s (.queue t)).Kept := by
  show Kept (match s.sending t with | some p => _ | none => s)
  split
  · rename_i p hsending
    rintro q (hqueue | ⟨t', ht'⟩)
    · rcases EventLoop.mem_started (List.mem_append_right _ hqueue) with hqueue | hpushed
      · exact h q (.inl hqueue)
      · obtain rfl := BoundFunctor.sendInLoop.inj (List.mem_singleton.mp hpushed)
        exact h q (.inr ⟨t, hsending⟩)
    · by_cases hsame : t' = t
      · subst hsame
        exact nomatch (Function.update_self t' _ s.sending).symm.trans ht'
      · exact h q (.inr ⟨t', (Function.update_of_ne hsame _ _).symm.trans ht'⟩)
  · exact h

theorem kept_next (h : s.Kept) {a : StorageAction T} (hg : machine.guard s a)
    (hu : s.Untouched a) : (machine.next s a).Kept := by
  cases a with
  | inLoop a w => exact kept_inLoop h hg
  | event e => exact h
  | selfSend p w =>
    show Kept (if s.conn.state = .kConnected then s.sendInLoop p w else s)
    split
    · exact h
    · exact h
  | send t p => exact kept_send h hg
  | queue t => exact kept_queue h t
  | disconnect t =>
    show Kept (if s.conn.state = .kConnected then _ else s)
    split
    · exact h
    · exact h
  | store q byte =>
    intro p hp
    refine (Memory.holds_store ?_).mpr (h p hp)
    rw [p.length_held]
    exact hu p hp

theorem storageKept_of_kept (h : s.Kept) {a : StorageAction T} (hg : machine.guard s a) :
    s.StorageKept a := by
  cases a with
  | inLoop a w => exact fun p hp => h p (pending_of_inLoop hg (List.mem_append_left _ hp))
  | _ => trivial

/-- **It has, if nobody touches the storage of a string between the call and the functor.** -/
theorem sameEffect_of_untouched (h : machine.init s) {as : List (StorageAction T)}
    (hl : machine.Legal s as) (hu : machine.Along Untouched s as) :
    machine.Always SameEffect s as := by
  have hkept : s.Kept := by
    rintro p (hqueue | ⟨t, ht⟩)
    · exact nomatch h.1 _ hqueue
    · exact nomatch (h.2.1 t).symm.trans ht
  refine (sameEffect_iff h hl).mpr (hu.imp (fun _ _ hk hg hu => kept_next hk hg hu) ?_ hkept hl)
  exact fun _ _ hk hg _ => storageKept_of_kept hk hg

/-- Another thread has one string, `"a"`. -/
def oneString : SendStorage Unit where
  loop := .new
  conn := TcpConnection.new.connectEstablished
  memory p := if p = 0 then some 97 else none
  sending _ := none
  handed := []
  copied := TcpConnection.new.connectEstablished

/-- One byte in a string of its own. -/
def theString : SentString := ⟨0, 1, [97], rfl⟩

theorem oneString_init : machine.init oneString := ⟨nofun, fun _ => rfl, rfl, rfl⟩

/-- The loop thread goes to sleep, and the other thread's `send` wakes it. -/
def sendOne : List (StorageAction Unit) :=
  [.inLoop (.advance false) (.accepted 1), .inLoop (.advance false) (.accepted 1),
    .inLoop (.advance false) (.accepted 1), .send () theString, .queue (),
    .inLoop (.wakeup ()) (.accepted 1)]

/-- The loop thread wakes up and starts the functor. -/
def runOne : List (StorageAction Unit) :=
  [.inLoop (.advance true) (.accepted 1), .inLoop (.advance false) (.accepted 1),
    .inLoop (.advance false) (.accepted 1), .inLoop (.advance false) (.accepted 1),
    .inLoop (.advance false) (.accepted 1)]

theorem legal_sendOne : machine.Legal oneString sendOne :=
  ⟨⟨⟨rfl, nofun⟩, nofun, nofun⟩, ⟨⟨rfl, nofun⟩, nofun, nofun⟩, ⟨⟨rfl, nofun⟩, nofun, nofun⟩,
    ⟨rfl, rfl, rfl⟩, nofun, ⟨nofun, nofun, fun _ _ => rfl⟩, trivial⟩

/-- Whatever the memory holds by then. -/
theorem legal_runOne (memory : Memory UInt8) :
    machine.Legal { machine.after oneString sendOne with memory } runOne := by
  have hwoken : 0 < (machine.after oneString sendOne).loop.wakeupFd := by decide
  exact ⟨⟨⟨rfl, fun _ _ => hwoken⟩, nofun, nofun⟩, ⟨⟨rfl, nofun⟩, nofun, nofun⟩,
    ⟨⟨rfl, nofun⟩, nofun, nofun⟩, ⟨⟨rfl, nofun⟩, nofun, nofun⟩, ⟨⟨rfl, nofun⟩, nofun, nofun⟩,
    trivial⟩

/-- The string is freed when the functor has been run. -/
theorem sameEffect_iff_example :
    machine.Always SameEffect oneString (sendOne ++ runOne ++ [.store 0 none]) := by
  refine (sameEffect_iff oneString_init ?_).mpr ?_
  · refine Machine.legal_append.mpr ⟨?_, trivial, trivial⟩
    exact Machine.legal_append.mpr ⟨legal_sendOne, legal_runOne oneString.memory⟩
  · refine ⟨nofun, nofun, nofun, trivial, trivial, nofun, nofun, nofun, nofun, nofun, ?_, trivial,
      trivial⟩
    intro p hp
    obtain rfl : p = theString := BoundFunctor.sendInLoop.inj (List.mem_singleton.mp hp)
    exact ⟨rfl, trivial⟩

/-- **A caller that reuses its string changes what is sent**: `"b"` instead of `"a"`. -/
theorem storage_reused_example :
    ¬ ∀ s : SendStorage Unit, machine.init s → ∀ as, machine.Legal s as →
      machine.Always SameEffect s as := by
  intro h
  have hlegal : machine.Legal oneString (sendOne ++ .store 0 (some 98) :: runOne) :=
    Machine.legal_append.mpr ⟨legal_sendOne, trivial, legal_runOne _⟩
  have hlast := (h oneString oneString_init _ hlegal).last
  have hgiven := hlast.given ⟨[97], some [98]⟩ (List.mem_singleton_self _)
  exact absurd hgiven (by decide)

end SendStorage

end SimpleHttpServer
