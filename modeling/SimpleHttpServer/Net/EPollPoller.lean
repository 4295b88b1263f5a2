import SimpleHttpServer.Lib.Machine
import SimpleHttpServer.Net.Channel

/-!
# `EPollPoller`: any number of channels

Model of `updateChannel`, `removeChannel`, `update` (`net/EPollPoller.cpp`) and `hasChannel`
(`net/Poller.cpp`), and of the calls of `net/Channel.h` that end in them. One poller, the channels
of its loop at their addresses `P`, and the kernel's epoll set: a map from a descriptor to the mask
and the data pointer it was registered with. `epoll_ctl` fails where `EPOLL_CTL_ADD` finds the
descriptor or `EPOLL_CTL_MOD` and `EPOLL_CTL_DEL` do not; `failed` lists the calls that did. A
channel is created for a descriptor that no other channel has, and goes when the poller does not
know it.

* `update_eq` and `remove_eq` say what a call does when the bookkeeping is right;
* **`poller_agrees`**: in every reachable state no `epoll_ctl` has failed, the epoll set holds the
  channels in `kAdded` with their events, and `channels_` those in `kAdded` or `kDeleted`;
* **`view_apply`**: on one channel the poller does what the operations of `Channel` say.

Left out: `poll` and `fillActiveChannels`, the events that the kernel reports, any other failure of
`epoll_ctl`, and the log.
-/

namespace SimpleHttpServer

open Lib

/-- The operations of `epoll_ctl`. -/
inductive EpollOp where
  | EPOLL_CTL_ADD
  | EPOLL_CTL_MOD
  | EPOLL_CTL_DEL
  deriving DecidableEq, Repr

/-- An object of class `Channel`. -/
structure PollChannel where
  fd : Int
  events : BitVec 32 := 0
  index : ChannelIndex := .kNew
  deriving DecidableEq

/-- The calls of a channel's owner. -/
inductive ChannelOp where
  | enableReading
  | disableReading
  | enableWriting
  | disableWriting
  | disableAll
  | remove
  deriving DecidableEq, Repr

/-- The change of `events_`. -/
def ChannelOp.onEvents : ChannelOp → BitVec 32 → BitVec 32
  | .enableReading, events => events ||| Channel.kReadEvent
  | .disableReading, events => events &&& ~~~Channel.kReadEvent
  | .enableWriting, events => events ||| Channel.kWriteEvent
  | .disableWriting, events => events &&& ~~~Channel.kWriteEvent
  | .disableAll, _ => Channel.kNoneEvent
  | .remove, events => events

/-- A poller, the epoll set and the channels of the program. -/
structure EPollPoller (P : Type*) where
  /-- `channels_`. -/
  channels : Int → Option P
  /-- The epoll set: mask and data pointer of each descriptor. -/
  kernel : Int → Option (BitVec 32 × P)
  /-- The channels that exist. -/
  objects : P → Option PollChannel
  /-- The `epoll_ctl` calls that failed. -/
  failed : List EpollOp

/-- What the owners of channels do. -/
inductive PollerAction (P : Type*) where
  | create (p : P) (fd : Int)
  | destroy (p : P)
  | apply (p : P) (op : ChannelOp)

namespace EPollPoller

variable {P : Type*} [DecidableEq P]

/-- `epoll_ctl(epollfd_, operation, fd, event)`. -/
def epollCtl (kernel : Int → Option (BitVec 32 × P)) (operation : EpollOp) (fd : Int)
    (event : BitVec 32 × P) : Option (Int → Option (BitVec 32 × P)) :=
  match operation, kernel fd with
  | .EPOLL_CTL_ADD, none => some (Function.update kernel fd (some event))
  | .EPOLL_CTL_MOD, some _ => some (Function.update kernel fd (some event))
  | .EPOLL_CTL_DEL, some _ => some (Function.update kernel fd none)
  | _, _ => none

/-- `update(operation, channel)`: a failure is logged, with `LOG_FATAL` but for `EPOLL_CTL_DEL`. -/
def update (s : EPollPoller P) (operation : EpollOp) (p : P) (ch : PollChannel) : EPollPoller P :=
  match epollCtl s.kernel operation ch.fd (ch.events, p) with
  | some kernel => { s with kernel }
  | none => { s with failed := s.failed ++ [operation] }

/-- `channel->set_index(index)`. -/
def setIndex (s : EPollPoller P) (p : P) (ch : PollChannel) (index : ChannelIndex) :
    EPollPoller P :=
  { s with objects := Function.update s.objects p (some { ch with index }) }

/-- The store to `events_`. -/
def setEvents (s : EPollPoller P) (p : P) (ch : PollChannel) (events : BitVec 32) :
    EPollPoller P :=
  { s with objects := Function.update s.objects p (some { ch with events }) }

/-- `channels_[fd] = channel`, or `channels_.erase(fd)`. -/
def setChannels (s : EPollPoller P) (fd : Int) (value : Option P) : EPollPoller P :=
  { s with channels := Function.update s.channels fd value }

/-- `EPollPoller::updateChannel(channel)`. -/
def updateChannel (s : EPollPoller P) (p : P) (ch : PollChannel) : EPollPoller P :=
  match ch.index with
  | .kNew => ((s.setChannels ch.fd (some p)).setIndex p ch .kAdded).update .EPOLL_CTL_ADD p ch
  | .kDeleted => (s.setIndex p ch .kAdded).update .EPOLL_CTL_ADD p ch
  | .kAdded =>
    if ch.events = Channel.kNoneEvent then
      (s.update .EPOLL_CTL_DEL p ch).setIndex p ch .kDeleted
    else s.update .EPOLL_CTL_MOD p ch

/-- `EPollPoller::removeChannel(channel)`. -/
def removeChannel (s : EPollPoller P) (p : P) (ch : PollChannel) : EPollPoller P :=
  let s := s.setChannels ch.fd none
  let s := if ch.index = .kAdded then s.update .EPOLL_CTL_DEL p ch else s
  s.setIndex p ch .kNew

/-- The owner of the channel at `p` calls it. -/
def apply (s : EPollPoller P) (p : P) (op : ChannelOp) : EPollPoller P :=
  match s.objects p with
  | none => s
  | some ch =>
    if op = .remove then s.removeChannel p ch
    else
      (s.setEvents p ch (op.onEvents ch.events)).updateChannel p
        { ch with events := op.onEvents ch.events }

/-- `Poller::hasChannel`. -/
def hasChannel (s : EPollPoller P) (p : P) (ch : PollChannel) : Bool := s.channels ch.fd == some p

/-- The operations, in any order: a descriptor belongs to one channel, and a channel is removed
before it is destroyed. -/
def machine (P : Type*) [DecidableEq P] : Machine (EPollPoller P) (PollerAction P) where
  init s := s = ⟨fun _ => none, fun _ => none, fun _ => none, []⟩
  guard s
    | .create p fd => s.objects p = none ∧ ∀ q ch, s.objects q = some ch → ch.fd ≠ fd
    | .destroy p => ∃ ch, s.objects p = some ch ∧ ch.index = .kNew
    | .apply p _ => s.objects p ≠ none
  next s
    | .create p fd => { s with objects := Function.update s.objects p (some { fd }) }
    | .destroy p => { s with objects := Function.update s.objects p none }
    | .apply p op => s.apply p op

/-! ## What the poller should know -/

/-- The channel's entry in the epoll set. -/
def entry (p : P) (ch : PollChannel) : Option (BitVec 32 × P) :=
  if ch.index = .kAdded then some (ch.events, p) else none

/-- Its entry in `channels_`. -/
def owner (p : P) (ch : PollChannel) : Option P := if ch.index = .kNew then none else some p

/-- The invariant. -/
structure Inv (s : EPollPoller P) : Prop where
  legal : s.failed = []
  kernel : ∀ p ch, s.objects p = some ch → s.kernel ch.fd = entry p ch
  channels : ∀ p ch, s.objects p = some ch → s.channels ch.fd = owner p ch
  /-- Nothing is left of a descriptor without a channel. -/
  clean : ∀ fd, (∀ p ch, s.objects p = some ch → ch.fd ≠ fd) →
    s.kernel fd = none ∧ s.channels fd = none
  oneEach : ∀ p q ch ch', s.objects p = some ch → s.objects q = some ch' → ch.fd = ch'.fd → p = q

/-- The poller after a call on the channel at `p`, which is now `ch`. -/
def settle (s : EPollPoller P) (p : P) (ch : PollChannel) : EPollPoller P :=
  { s with
    channels := Function.update s.channels ch.fd (owner p ch)
    kernel := Function.update s.kernel ch.fd (entry p ch)
    objects := Function.update s.objects p (some ch) }

/-! ## What a call does -/

variable {s : EPollPoller P} {p : P} {ch : PollChannel}

/-- An update with the value that is there. -/
theorem update_same {α β : Type*} [DecidableEq α] {f : α → β} {a : α} {b : β} (h : f a = b) :
    Function.update f a b = f := by
  rw [← h]
  exact Function.update_eq_self a f

/-- The index `updateChannel` leaves. -/
def nextIndex (ch : PollChannel) : ChannelIndex :=
  if ch.index = .kAdded ∧ ch.events = Channel.kNoneEvent then .kDeleted else .kAdded

/-- **`updateChannel` makes one legal `epoll_ctl` call and settles the books**, whatever mask the
descriptor is registered with. -/
theorem updateChannel_eq (hobject : s.objects p = some ch)
    (hkernel : ∃ events, s.kernel ch.fd = entry p { ch with events })
    (hchannels : s.channels ch.fd = owner p ch) :
    s.updateChannel p ch = s.settle p { ch with index := nextIndex ch } := by
  obtain ⟨events, hkernel⟩ := hkernel
  obtain ⟨fd, mask, index⟩ := ch
  cases index with
  | kNew =>
    have hnone : s.kernel fd = none := hkernel
    simp [updateChannel, setChannels, setIndex, update, epollCtl, settle, nextIndex, entry, owner,
      hnone]
  | kDeleted =>
    have hnone : s.kernel fd = none := hkernel
    have hsome : s.channels fd = some p := hchannels
    simp [updateChannel, setIndex, update, epollCtl, settle, nextIndex, entry, owner, hnone,
      update_same hsome]
  | kAdded =>
    have hold : s.kernel fd = some (events, p) := hkernel
    have hsome : s.channels fd = some p := hchannels
    by_cases hnone : mask = Channel.kNoneEvent
    · simp [updateChannel, setIndex, update, epollCtl, settle, nextIndex, entry, owner, hold,
        hnone, update_same hsome]
    · simp [updateChannel, update, epollCtl, settle, nextIndex, entry, owner, hold, hnone,
        update_same hsome, update_same hobject]

/-- `removeChannel` too. -/
theorem removeChannel_eq (hkernel : s.kernel ch.fd = entry p ch) :
    s.removeChannel p ch = s.settle p { ch with index := .kNew } := by
  obtain ⟨fd, mask, index⟩ := ch
  cases index with
  | kAdded =>
    have hold : s.kernel fd = some (mask, p) := hkernel
    simp [removeChannel, setChannels, setIndex, update, epollCtl, settle, entry, owner, hold]
  | _ =>
    have hnone : s.kernel fd = none := hkernel
    simp [removeChannel, setChannels, setIndex, settle, entry, owner, update_same hnone]

/-- The channel an operation leaves. -/
def after (ch : PollChannel) (op : ChannelOp) : PollChannel :=
  if op = .remove then { ch with index := .kNew }
  else
    let ch := { ch with events := op.onEvents ch.events }
    { ch with index := nextIndex ch }

theorem apply_eq (h : s.Inv) (hobject : s.objects p = some ch) (op : ChannelOp) :
    s.apply p op = s.settle p (after ch op) := by
  have hkernel := h.kernel p ch hobject
  have hchannels := h.channels p ch hobject
  unfold apply after
  rw [hobject]
  simp only
  by_cases hop : op = .remove
  · rw [if_pos hop, if_pos hop]
    exact removeChannel_eq hkernel
  · rw [if_neg hop, if_neg hop]
    have hset : (s.setEvents p ch (op.onEvents ch.events)).objects p =
        some { ch with events := op.onEvents ch.events } := Function.update_self _ _ _
    refine (updateChannel_eq hset ⟨ch.events, hkernel⟩ hchannels).trans ?_
    simp [settle, setEvents]

/-! ## The invariant -/

/-- **Settling the books of one channel keeps the invariant.** -/
theorem inv_settle (h : s.Inv) (hobject : s.objects p = some ch) {ch' : PollChannel}
    (hfd : ch'.fd = ch.fd) : (s.settle p ch').Inv := by
  have hobjects : ∀ q c, (s.settle p ch').objects q = some c →
      q = p ∧ c = ch' ∨ q ≠ p ∧ s.objects q = some c := by
    intro q c hq
    by_cases hqp : q = p
    · subst hqp
      rw [show (s.settle q ch').objects q = some ch' from Function.update_self _ _ _] at hq
      exact .inl ⟨rfl, (Option.some.inj hq).symm⟩
    · rw [show (s.settle p ch').objects q = s.objects q from Function.update_of_ne hqp _ _] at hq
      exact .inr ⟨hqp, hq⟩
  have hother : ∀ q c, q ≠ p → s.objects q = some c → c.fd ≠ ch'.fd := fun q c hqp hq heq =>
    hqp (h.oneEach q p c ch hq hobject (heq.trans hfd))
  refine ⟨h.legal, fun q c hq => ?_, fun q c hq => ?_, fun fd hfree => ?_, ?_⟩
  · rcases hobjects q c hq with ⟨rfl, rfl⟩ | ⟨hqp, hq⟩
    · exact Function.update_self _ _ _
    · exact (Function.update_of_ne (hother q c hqp hq) _ _).trans (h.kernel q c hq)
  · rcases hobjects q c hq with ⟨rfl, rfl⟩ | ⟨hqp, hq⟩
    · exact Function.update_self _ _ _
    · exact (Function.update_of_ne (hother q c hqp hq) _ _).trans (h.channels q c hq)
  · have hne : fd ≠ ch'.fd := fun heq => hfree p ch' (Function.update_self _ _ _) heq.symm
    show Function.update s.kernel ch'.fd _ fd = none ∧ Function.update s.channels ch'.fd _ fd = none
    rw [Function.update_of_ne hne, Function.update_of_ne hne]
    refine h.clean fd fun q c hq => ?_
    by_cases hqp : q = p
    · subst hqp
      obtain rfl := Option.some.inj (hobject.symm.trans hq)
      rw [← hfd]
      exact hne.symm
    · exact hfree q c ((Function.update_of_ne hqp _ _).trans hq)
  · intro q q' c c' hq hq' heq
    rcases hobjects q c hq with ⟨hqp, hc⟩ | ⟨hqp, hold⟩
    · rcases hobjects q' c' hq' with ⟨hqp', -⟩ | ⟨hqp', hold'⟩
      · rw [hqp, hqp']
      · exact absurd (heq.symm.trans (congrArg _ hc)) (hother q' c' hqp' hold')
    · rcases hobjects q' c' hq' with ⟨-, hc'⟩ | ⟨hqp', hold'⟩
      · exact absurd (heq.trans (congrArg _ hc')) (hother q c hqp hold)
      · exact h.oneEach q q' c c' hold hold' heq

theorem inv_apply (h : s.Inv) (p : P) (op : ChannelOp) : (s.apply p op).Inv := by
  cases hobject : s.objects p with
  | none =>
    unfold apply
    rw [hobject]
    exact h
  | some ch =>
    rw [apply_eq h hobject]
    refine inv_settle h hobject ?_
    unfold after
    split <;> rfl

theorem inv_create (h : s.Inv) {fd : Int} (hnew : s.objects p = none)
    (hfree : ∀ q ch, s.objects q = some ch → ch.fd ≠ fd) :
    Inv { s with objects := Function.update s.objects p (some { fd }) } := by
  have hobjects : ∀ q c, Function.update s.objects p (some { fd }) q = some c →
      q = p ∧ c = { fd } ∨ s.objects q = some c := by
    intro q c hq
    by_cases hqp : q = p
    · rw [hqp, Function.update_self] at hq
      exact .inl ⟨hqp, (Option.some.inj hq).symm⟩
    · rw [Function.update_of_ne hqp] at hq
      exact .inr hq
  obtain ⟨hkernel, hchannels⟩ := h.clean fd hfree
  refine ⟨h.legal, fun q c hq => ?_, fun q c hq => ?_, fun fd' hfree' => ?_, ?_⟩
  · rcases hobjects q c hq with ⟨-, rfl⟩ | hq
    · exact hkernel
    · exact h.kernel q c hq
  · rcases hobjects q c hq with ⟨-, rfl⟩ | hq
    · exact hchannels
    · exact h.channels q c hq
  · refine h.clean fd' fun q c hq => hfree' q c ?_
    have hqp : q ≠ p := by
      rintro rfl
      exact absurd (hnew.symm.trans hq) nofun
    exact (Function.update_of_ne hqp _ _).trans hq
  · intro q q' c c' hq hq' heq
    rcases hobjects q c hq with ⟨hqp, rfl⟩ | hq
    · rcases hobjects q' c' hq' with ⟨hqp', -⟩ | hq'
      · rw [hqp, hqp']
      · exact absurd heq.symm (hfree q' c' hq')
    · rcases hobjects q' c' hq' with ⟨-, rfl⟩ | hq'
      · exact absurd heq (hfree q c hq)
      · exact h.oneEach q q' c c' hq hq' heq

theorem inv_destroy (h : s.Inv) (hobject : s.objects p = some ch) (hnew : ch.index = .kNew) :
    Inv { s with objects := Function.update s.objects p none } := by
  have hobjects : ∀ q c, Function.update s.objects p none q = some c → s.objects q = some c := by
    intro q c hq
    by_cases hqp : q = p
    · rw [hqp, Function.update_self] at hq
      exact absurd hq nofun
    · exact (Function.update_of_ne hqp _ _).symm.trans hq
  refine ⟨h.legal, fun q c hq => h.kernel q c (hobjects q c hq), fun q c hq =>
    h.channels q c (hobjects q c hq), fun fd hfree => ?_, fun q q' c c' hq hq' =>
    h.oneEach q q' c c' (hobjects q c hq) (hobjects q' c' hq')⟩
  by_cases hfd : ch.fd = fd
  · -- it was not known to the poller
    have hkernel := h.kernel p ch hobject
    have hchannels := h.channels p ch hobject
    rw [entry, hnew, if_neg nofun, hfd] at hkernel
    rw [owner, hnew, if_pos rfl, hfd] at hchannels
    exact ⟨hkernel, hchannels⟩
  · refine h.clean fd fun q c hq => ?_
    by_cases hqp : q = p
    · rw [hqp] at hq
      rw [← Option.some.inj (hobject.symm.trans hq)]
      exact hfd
    · exact hfree q c ((Function.update_of_ne hqp _ _).trans hq)

theorem inv_next (h : s.Inv) {a : PollerAction P} (hg : (machine P).guard s a) :
    ((machine P).next s a).Inv := by
  cases a with
  | create p fd => exact inv_create h hg.1 hg.2
  | destroy p =>
    obtain ⟨ch, hobject, hnew⟩ := hg
    exact inv_destroy h hobject hnew
  | apply p op => exact inv_apply h p op

theorem inv_of_reachable (h : (machine P).Reachable s) : s.Inv := by
  refine Machine.Reachable.invariant h ?_ fun _ _ hi hg => inv_next hi hg
  rintro s rfl
  exact ⟨rfl, nofun, nofun, fun _ _ => ⟨rfl, rfl⟩, nofun⟩

omit [DecidableEq P] in
/-- A descriptor with an entry has a channel. -/
theorem Inv.exists_channel (h : s.Inv) {fd : Int}
    (hentry : s.kernel fd ≠ none ∨ s.channels fd ≠ none) :
    ∃ p ch, s.objects p = some ch ∧ ch.fd = fd := by
  by_contra hno
  obtain ⟨hkernel, hchannels⟩ := h.clean fd fun p ch hobject hfd => hno ⟨p, ch, hobject, hfd⟩
  exact hentry.elim (fun hne => hne hkernel) fun hne => hne hchannels

/-- **The poller's bookkeeping agrees with the kernel's**: no `epoll_ctl` call has failed; the
epoll set holds exactly the channels in `kAdded`, with their events and addresses; `channels_`
holds exactly those in `kAdded` or `kDeleted`, and `hasChannel` finds these. -/
theorem poller_agrees (h : (machine P).Reachable s) :
    s.failed = [] ∧
      (∀ fd events p, s.kernel fd = some (events, p) ↔ ∃ ch, s.objects p = some ch ∧ ch.fd = fd ∧
        ch.index = .kAdded ∧ ch.events = events) ∧
      (∀ fd p, s.channels fd = some p ↔ ∃ ch, s.objects p = some ch ∧ ch.fd = fd ∧
        (ch.index = .kAdded ∨ ch.index = .kDeleted)) ∧
      ∀ p ch, s.objects p = some ch →
        (s.hasChannel p ch = true ↔ ch.index = .kAdded ∨ ch.index = .kDeleted) := by
  have hi := inv_of_reachable h
  have howner : ∀ (q p : P) (ch : PollChannel), owner q ch = some p ↔
      q = p ∧ (ch.index = .kAdded ∨ ch.index = .kDeleted) := by
    intro q p ch
    unfold owner
    cases ch.index <;> simp
  refine ⟨hi.legal, fun fd events p => ⟨fun hkernel => ?_, ?_⟩,
    fun fd p => ⟨fun hchannels => ?_, ?_⟩, fun p ch hobject => ?_⟩
  · obtain ⟨q, ch, hobject, rfl⟩ := hi.exists_channel (.inl (by rw [hkernel]; nofun))
    rw [hi.kernel q ch hobject, entry, Option.ite_none_right_eq_some] at hkernel
    obtain ⟨hindex, heq⟩ := hkernel
    obtain ⟨rfl, rfl⟩ := Prod.mk.inj (Option.some.inj heq)
    exact ⟨ch, hobject, rfl, hindex, rfl⟩
  · rintro ⟨ch, hobject, rfl, hindex, rfl⟩
    rw [hi.kernel p ch hobject, entry, if_pos hindex]
  · obtain ⟨q, ch, hobject, rfl⟩ := hi.exists_channel (.inr (by rw [hchannels]; nofun))
    rw [hi.channels q ch hobject, howner] at hchannels
    obtain ⟨rfl, hindex⟩ := hchannels
    exact ⟨ch, hobject, rfl, hindex⟩
  · rintro ⟨ch, hobject, rfl, hindex⟩
    rw [hi.channels p ch hobject, howner]
    exact ⟨rfl, hindex⟩
  · unfold hasChannel
    rw [hi.channels p ch hobject, beq_iff_eq, howner]
    exact and_iff_right rfl

/-- A descriptor is used again after its first channel has gone. -/
theorem poller_agrees_example :
    let new : EPollPoller Nat := ⟨fun _ => none, fun _ => none, fun _ => none, []⟩
    let as := [.create 0 5, .apply 0 .enableReading, .apply 0 .disableAll, .apply 0 .remove,
      .destroy 0, .create 1 5, .apply 1 .enableWriting]
    let s := (machine Nat).after new as
    (machine Nat).Legal new as ∧ s.failed = [] ∧ s.kernel 5 = some (Channel.kWriteEvent, 1) := by
  have hlegal : (machine Nat).Legal ⟨fun _ => none, fun _ => none, fun _ => none, []⟩
      [.create 0 5, .apply 0 .enableReading, .apply 0 .disableAll, .apply 0 .remove, .destroy 0,
        .create 1 5, .apply 1 .enableWriting] := by
    refine ⟨⟨rfl, nofun⟩, nofun, nofun, nofun, ⟨_, rfl, rfl⟩, ⟨rfl, fun q ch hq => ?_⟩, nofun,
      trivial⟩
    match q with
    | 0 => exact absurd hq nofun
    | q + 1 => exact absurd hq nofun
  have h := poller_agrees (Machine.Reachable.run (.init rfl) hlegal)
  exact ⟨hlegal, h.1, (h.2.1 5 _ 1).mpr ⟨_, rfl, rfl, rfl, by decide⟩⟩

/-! ## One channel -/

/-- What the owner of the channel at `p` has: its `Channel`. -/
def view (s : EPollPoller P) (p : P) : Option Channel :=
  (s.objects p).map fun ch => ⟨ch.events, ch.index, (s.kernel ch.fd).map Prod.fst⟩

/-- The operation of `Channel` an owner calls. -/
def onChannel : ChannelOp → Channel → Channel
  | .enableReading => Channel.enableReading
  | .disableReading => Channel.disableReading
  | .enableWriting => Channel.enableWriting
  | .disableWriting => Channel.disableWriting
  | .disableAll => Channel.disableAll
  | .remove => Channel.remove

theorem onChannel_eq {op : ChannelOp} (hop : op ≠ .remove) (c : Channel) :
    onChannel op c = Channel.update { c with events := op.onEvents c.events } := by
  cases op with
  | remove => exact absurd rfl hop
  | _ => rfl

/-- The channel an operation leaves, as its owner sees it. -/
theorem onChannel_after (ch : PollChannel) (op : ChannelOp) :
    onChannel op ⟨ch.events, ch.index, if ch.index = .kAdded then some ch.events else none⟩ =
      ⟨(after ch op).events, (after ch op).index,
        if (after ch op).index = .kAdded then some (after ch op).events else none⟩ := by
  obtain ⟨fd, events, index⟩ := ch
  by_cases hop : op = .remove
  · subst hop
    cases index <;> rfl
  · rw [onChannel_eq hop]
    simp only [after, if_neg hop, nextIndex]
    generalize op.onEvents events = mask
    cases index with
    | kAdded =>
      by_cases hnone : mask = Channel.kNoneEvent
      · simp [Channel.update, Channel.isNoneEvent, hnone]
      · simp [Channel.update, Channel.isNoneEvent, hnone]
    | _ => simp [Channel.update]

omit [DecidableEq P] in
theorem view_of_inv {s : EPollPoller P} (h : s.Inv) (hobject : s.objects p = some ch) :
    s.view p = some ⟨ch.events, ch.index, if ch.index = .kAdded then some ch.events else none⟩ := by
  unfold view
  rw [hobject, Option.map_some, h.kernel p ch hobject, entry]
  split <;> rfl

/-- **On one channel the poller does what `Channel` says**, and nothing to the others. -/
theorem view_apply (h : s.Inv) (p : P) (op : ChannelOp) :
    (s.apply p op).view p = (s.view p).map (onChannel op) ∧
      ∀ q, q ≠ p → (s.apply p op).view q = s.view q := by
  cases hobject : s.objects p with
  | none =>
    unfold apply view
    simp [hobject]
  | some ch =>
    have hsettled := inv_apply h p op
    rw [apply_eq h hobject] at hsettled ⊢
    have hfd : (after ch op).fd = ch.fd := by
      unfold after
      split <;> rfl
    constructor
    · rw [view_of_inv h hobject, view_of_inv hsettled (Function.update_self _ _ _), Option.map_some,
        onChannel_after]
    · intro q hq
      have hkernel : ∀ c, s.objects q = some c →
          (s.settle p (after ch op)).kernel c.fd = s.kernel c.fd := fun c hc =>
        Function.update_of_ne (fun heq => hq (h.oneEach q p c ch hc hobject (heq.trans hfd))) _ _
      have hobj : (s.settle p (after ch op)).objects q = s.objects q := Function.update_of_ne hq _ _
      unfold view
      rw [hobj]
      cases hc : s.objects q with
      | none => rfl
      | some c => rw [Option.map_some, Option.map_some, hkernel c hc]

end EPollPoller

end SimpleHttpServer
