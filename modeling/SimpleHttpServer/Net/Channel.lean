import SimpleHttpServer.Basic

/-!
# Channels

Model of `class Channel` (`net/Channel.h`, `net/Channel.cpp`) on the poller of
`net/EPollPoller.cpp`, for one descriptor. A `Channel` holds the events that its owner wants. Every
change goes through `EPollPoller::updateChannel`, which adds, modifies or deletes the descriptor's
entry in the epoll set; `interest` is that entry.

* `isWriting_enableWriting` and its like say what each change does to the write interest;
* a channel stays `Registered` while its read interest is kept;
* **`interest_disableAll`**: `disableAll` empties the entry only of a channel in `kAdded`.

Left out: the descriptor and `channels_` (`EPollPoller`); `revents_`, the callbacks and
`handleEvent` (`ConnectionReports`); `tie_` and the life of the object behind it; a failing
`epoll_ctl`.
-/

namespace SimpleHttpServer

/-- `channel->index()`: what the poller knows of the channel. -/
inductive ChannelIndex where
  | kNew
  | kAdded
  | kDeleted
  deriving DecidableEq, Repr

/-- There is data to read. -/
def EPOLLIN : BitVec 32 := 0x001

/-- There is urgent data to read. -/
def EPOLLPRI : BitVec 32 := 0x002

/-- A write would not block. -/
def EPOLLOUT : BitVec 32 := 0x004

/-- `class Channel`, with its entry in the kernel. -/
structure Channel where
  events : BitVec 32 := 0
  index : ChannelIndex := .kNew
  /-- The descriptor's entry in the epoll set. -/
  interest : Option (BitVec 32) := none
  deriving DecidableEq

namespace Channel

/-- `Channel::kNoneEvent`. -/
def kNoneEvent : BitVec 32 := 0

/-- `Channel::kReadEvent`. -/
def kReadEvent : BitVec 32 := EPOLLIN ||| EPOLLPRI

/-- `Channel::kWriteEvent`. -/
def kWriteEvent : BitVec 32 := EPOLLOUT

/-- `isNoneEvent()`. -/
def isNoneEvent (ch : Channel) : Bool := ch.events == kNoneEvent

/-- `isWriting()`. -/
def isWriting (ch : Channel) : Bool := ch.events &&& kWriteEvent != 0

/-- `isReading()`. -/
def isReading (ch : Channel) : Bool := ch.events &&& kReadEvent != 0

/-- `update()`, which is `EPollPoller::updateChannel`. A channel that was deleted is added again
whatever its events are. -/
def update (ch : Channel) : Channel :=
  match ch.index with
  | .kNew | .kDeleted => { ch with index := .kAdded, interest := some ch.events }
  | .kAdded =>
    if ch.isNoneEvent then
      { ch with index := .kDeleted, interest := none }
    else
      { ch with interest := some ch.events }

/-- `remove()`, which is `EPollPoller::removeChannel`. -/
def remove (ch : Channel) : Channel :=
  { ch with index := .kNew, interest := if ch.index = .kAdded then none else ch.interest }

/-- `enableReading()`. -/
def enableReading (ch : Channel) : Channel :=
  update { ch with events := ch.events ||| kReadEvent }

/-- `disableReading()`. -/
def disableReading (ch : Channel) : Channel :=
  update { ch with events := ch.events &&& ~~~kReadEvent }

/-- `enableWriting()`. -/
def enableWriting (ch : Channel) : Channel :=
  update { ch with events := ch.events ||| kWriteEvent }

/-- `disableWriting()`. -/
def disableWriting (ch : Channel) : Channel :=
  update { ch with events := ch.events &&& ~~~kWriteEvent }

/-- `disableAll()`. -/
def disableAll (ch : Channel) : Channel := update { ch with events := kNoneEvent }

/-! ## Write interest -/

@[simp] theorem events_update (ch : Channel) : ch.update.events = ch.events := by
  unfold update
  split
  · rfl
  · rfl
  · split <;> rfl

/-- Setting bits and testing some of them. -/
theorem or_and_ne_zero (e : BitVec 32) {k : BitVec 32} (hk : k ≠ 0) : (e ||| k) &&& k ≠ 0 := by
  have h : (e ||| k) &&& k = k := by
    ext i
    simp only [BitVec.getElem_and, BitVec.getElem_or]
    cases e[i] <;> simp
  rwa [h]

/-- Clearing bits and testing them. -/
theorem and_not_and (e k : BitVec 32) : e &&& ~~~k &&& k = 0 := by
  rw [BitVec.and_assoc, BitVec.not_and_self]
  exact BitVec.and_zero

@[simp] theorem isWriting_enableWriting (ch : Channel) : ch.enableWriting.isWriting = true := by
  unfold isWriting enableWriting
  rw [events_update, bne_iff_ne]
  exact or_and_ne_zero _ (by decide)

@[simp] theorem isWriting_disableWriting (ch : Channel) : ch.disableWriting.isWriting = false := by
  unfold isWriting disableWriting
  rw [events_update, bne_eq_false_iff_eq]
  exact and_not_and _ _

@[simp] theorem isWriting_enableReading (ch : Channel) :
    ch.enableReading.isWriting = ch.isWriting := by
  unfold isWriting enableReading
  rw [events_update]
  have h : kReadEvent &&& kWriteEvent = 0 := by decide
  simp only
  rw [BitVec.and_or_distrib_right, h]
  simp

@[simp] theorem isWriting_disableAll (ch : Channel) : ch.disableAll.isWriting = false := by
  unfold isWriting disableAll
  rw [events_update]
  show (kNoneEvent &&& kWriteEvent != 0) = false
  decide

/-! ## Registration -/

/-- In the epoll set, with read interest. -/
structure Registered (ch : Channel) : Prop where
  index : ch.index = .kAdded
  reading : ch.isReading = true

variable {ch : Channel}

theorem isNoneEvent_of_isReading (h : ch.isReading = true) : ch.isNoneEvent = false := by
  unfold isReading at h
  unfold isNoneEvent
  rw [beq_eq_false_iff_ne]
  intro hnone
  simp [hnone, kNoneEvent] at h

/-- With read interest kept, `updateChannel` modifies the entry or adds it. -/
theorem registered_update (h : ch.isReading = true) : ch.update.Registered := by
  have hreading : ch.update.isReading = true := by
    rw [isReading, events_update]
    exact h
  refine ⟨?_, hreading⟩
  unfold update
  split
  · rfl
  · rfl
  · rename_i hindex
    rw [isNoneEvent_of_isReading h]
    exact hindex

theorem registered_enableReading (ch : Channel) : ch.enableReading.Registered :=
  registered_update (bne_iff_ne.mpr (or_and_ne_zero _ (by decide)))

theorem Registered.enableWriting (h : ch.Registered) : ch.enableWriting.Registered := by
  refine registered_update ?_
  show (ch.events ||| kWriteEvent) &&& kReadEvent != 0
  have hkeep : (ch.events ||| kWriteEvent) &&& kReadEvent = ch.events &&& kReadEvent := by
    rw [BitVec.and_or_distrib_right, show kWriteEvent &&& kReadEvent = 0 from by decide]
    exact BitVec.or_zero
  rw [hkeep]
  exact h.reading

theorem Registered.disableWriting (h : ch.Registered) : ch.disableWriting.Registered := by
  refine registered_update ?_
  show ch.events &&& ~~~kWriteEvent &&& kReadEvent != 0
  rw [BitVec.and_assoc, show ~~~kWriteEvent &&& kReadEvent = kReadEvent from by decide]
  exact h.reading

/-- **`disableAll` takes a channel out of the epoll set only if it is in it**: one that was deleted
or removed is added again, with no events. -/
theorem interest_disableAll (ch : Channel) :
    ch.disableAll.interest = none ↔ ch.index = .kAdded := by
  unfold disableAll update isNoneEvent
  cases ch.index <;> simp

theorem interest_remove (ch : Channel) (h : ch.interest = none) : ch.remove.interest = none := by
  simp [remove, h]

end Channel

end SimpleHttpServer
