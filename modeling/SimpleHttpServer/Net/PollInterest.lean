import SimpleHttpServer.Net.EPollPoller

/-!
# Channels without events

`updateChannel` asks for the index before it asks for the mask. A channel that is new or deleted is
added to the epoll set whatever its events are, so disabling one that has nothing left to disable
puts it back, with an empty mask: epoll then still reports `EPOLLHUP` and `EPOLLERR` for it.

* `Quiet` is what disabling should do, in a run that knows the last call on each channel;
* `index_disableAll`: `disableAll` never leaves the index as it was;
* **`quiet_iff`**: the steps of a run are quiet exactly when every call that leaves a channel
  without events finds it in `kAdded`;
* `closed_twice_example`: a connection closed twice.
-/

namespace SimpleHttpServer

open Lib

/-- The calls that take events away. -/
def ChannelOp.isDisable : ChannelOp → Bool
  | .disableReading | .disableWriting | .disableAll => true
  | _ => false

/-- The call takes events away, and leaves none. -/
def ChannelOp.Empties (op : ChannelOp) (ch : PollChannel) : Prop :=
  op.isDisable = true ∧ op.onEvents ch.events = Channel.kNoneEvent

namespace EPollPoller

variable {P : Type*} [DecidableEq P]

/-- What an action does to the last call on each channel. -/
def record (last : P → Option ChannelOp) : PollerAction P → P → Option ChannelOp
  | .create p _ | .destroy p => Function.update last p none
  | .apply p op => Function.update last p (some op)

/-- The poller, with the last call on each channel. -/
abbrev recorded (P : Type*) [DecidableEq P] :
    Machine (EPollPoller P × (P → Option ChannelOp)) (PollerAction P) :=
  (machine P).remember (fun _ => none) record

/-- Disabling keeps a descriptor without events out of the epoll set, and is idempotent. -/
structure Quiet (s : EPollPoller P × (P → Option ChannelOp)) (a : PollerAction P) : Prop where
  unpolled : ∀ p op ch, a = .apply p op → s.1.objects p = some ch → op.Empties ch →
    (s.1.apply p op).kernel ch.fd = none
  /-- Of the objects, `disableAll` could only change the index: the events are none already. -/
  repeated : ∀ p ch, a = .apply p .disableAll → s.1.objects p = some ch →
    s.2 p = some .disableAll →
      (s.1.apply p .disableAll).kernel = s.1.kernel ∧
      (s.1.apply p .disableAll).channels = s.1.channels ∧
      (s.1.apply p .disableAll).objects = s.1.objects

/-- A call that leaves a channel without events finds it in `kAdded`. -/
def DisablesAdded (s : EPollPoller P) : PollerAction P → Prop
  | .apply p op => ∀ ch, s.objects p = some ch → op.Empties ch → ch.index = .kAdded
  | _ => True

variable {s : EPollPoller P} {p : P} {ch : PollChannel} {op : ChannelOp}

/-! ## One call -/

theorem ChannelOp.Empties.ne_remove (h : op.Empties ch) : op ≠ .remove := by
  rintro rfl
  exact Bool.false_ne_true h.1

/-- A channel without events goes from `kAdded` to `kDeleted`, and from there back. -/
theorem after_empties (h : op.Empties ch) :
    after ch op =
      { ch with events := Channel.kNoneEvent
                index := if ch.index = .kAdded then .kDeleted else .kAdded } := by
  unfold after
  rw [if_neg (ChannelOp.Empties.ne_remove h), h.2]
  unfold nextIndex
  by_cases hindex : ch.index = .kAdded
  · simp [hindex]
  · simp [hindex]

theorem empties_disableAll (ch : PollChannel) : ChannelOp.disableAll.Empties ch := ⟨rfl, rfl⟩

theorem objects_apply (h : s.Inv) (hobject : s.objects p = some ch) (op : ChannelOp) :
    (s.apply p op).objects p = some (after ch op) := by
  rw [apply_eq h hobject]
  exact Function.update_self _ _ _

/-- **`disableAll` never leaves the index as it was.** -/
theorem index_disableAll (h : s.Inv) (hobject : s.objects p = some ch) :
    (s.apply p .disableAll).objects p ≠ s.objects p := by
  rw [objects_apply h hobject, hobject, after_empties (empties_disableAll ch)]
  intro heq
  have hindex := congrArg PollChannel.index (Option.some.inj heq)
  simp only at hindex
  by_cases hadded : ch.index = .kAdded
  · rw [if_pos hadded, hadded] at hindex
    cases hindex
  · rw [if_neg hadded] at hindex
    exact hadded hindex.symm

/-- **A channel left without events is out of the epoll set exactly if it was in `kAdded`.** -/
theorem unpolled_iff (h : s.Inv) (hobject : s.objects p = some ch) (hop : op.Empties ch) :
    (s.apply p op).kernel ch.fd = none ↔ ch.index = .kAdded := by
  have hfd : (after ch op).fd = ch.fd := by rw [after_empties hop]
  have hkernel : (s.apply p op).kernel ch.fd = entry p (after ch op) := by
    rw [apply_eq h hobject, ← hfd]
    exact Function.update_self _ _ _
  rw [hkernel, after_empties hop, entry]
  by_cases hadded : ch.index = .kAdded
  · simp [hadded]
  · simp [hadded]

/-! ## Runs -/

/-- While the condition is met, a channel that was disabled last is in `kDeleted`. -/
structure DisabledDeleted (s : EPollPoller P × (P → Option ChannelOp)) : Prop where
  inv : s.1.Inv
  deleted : ∀ p ch, s.1.objects p = some ch → s.2 p = some .disableAll → ch.index = .kDeleted

/-- A last call that is known is not the one that was forgotten. -/
theorem ne_of_forgotten {last : P → Option ChannelOp} {p q : P}
    (h : Function.update last p none q = some op) : q ≠ p ∧ last q = some op := by
  have hqp : q ≠ p := by
    rintro rfl
    exact Option.some_ne_none op (h.symm.trans (Function.update_self _ _ _))
  exact ⟨hqp, (Function.update_of_ne hqp _ _).symm.trans h⟩

theorem disabledDeleted_next {s : EPollPoller P × (P → Option ChannelOp)} {a : PollerAction P}
    (h : DisabledDeleted s) (hg : (recorded P).guard s a) (hc : DisablesAdded s.1 a) :
    DisabledDeleted ((recorded P).next s a) := by
  refine ⟨inv_next h.inv hg, fun q c hq hlast => ?_⟩
  cases a with
  | create p fd =>
    obtain ⟨hqp, hkept⟩ := ne_of_forgotten hlast
    exact h.deleted q c ((Function.update_of_ne hqp _ _).symm.trans hq) hkept
  | destroy p =>
    obtain ⟨hqp, hkept⟩ := ne_of_forgotten hlast
    exact h.deleted q c ((Function.update_of_ne hqp _ _).symm.trans hq) hkept
  | apply p op =>
    obtain ⟨ch, hobject⟩ := Option.ne_none_iff_exists'.mp hg
    by_cases hqp : q = p
    · subst hqp
      have hop : Function.update s.2 q (some op) q = some .disableAll := hlast
      rw [Function.update_self] at hop
      obtain rfl := Option.some.inj hop
      obtain rfl := Option.some.inj ((objects_apply h.inv hobject _).symm.trans hq)
      rw [after_empties (empties_disableAll ch)]
      exact if_pos (hc ch hobject (empties_disableAll ch))
    · have hsame : (s.1.apply p op).objects q = s.1.objects q := by
        rw [apply_eq h.inv hobject]
        exact Function.update_of_ne hqp _ _
      exact h.deleted q c (hsame.symm.trans hq) ((Function.update_of_ne hqp _ _).symm.trans hlast)

/-- A step is quiet exactly when it meets the condition. -/
theorem quiet_step_iff {s : EPollPoller P × (P → Option ChannelOp)} {a : PollerAction P}
    (h : DisabledDeleted s) : Quiet s a ↔ DisablesAdded s.1 a := by
  constructor
  · intro hquiet
    cases a with
    | apply p op =>
      intro ch hobject hop
      exact (unpolled_iff h.inv hobject hop).mp (hquiet.unpolled p op ch rfl hobject hop)
    | _ => trivial
  · intro hc
    refine ⟨?_, ?_⟩
    · rintro p op ch rfl hobject hop
      exact (unpolled_iff h.inv hobject hop).mpr (hc ch hobject hop)
    · rintro p ch rfl hobject hlast
      -- a repeated `disableAll` would find the channel in `kDeleted`
      have hadded := hc ch hobject (empties_disableAll ch)
      rw [h.deleted p ch hobject hlast] at hadded
      cases hadded

/-- **Disabling is quiet throughout a run if and only if** every call that leaves a channel without
events finds it in `kAdded`; so never, where a channel is disabled twice in a row. -/
theorem quiet_iff {s : EPollPoller P} (h : (machine P).init s) {as : List (PollerAction P)}
    (hl : (machine P).Legal s as) :
    (recorded P).Along Quiet (s, fun _ => none) as ↔ (machine P).Along DisablesAdded s as := by
  have hinit : DisabledDeleted (s, fun _ => none) :=
    ⟨inv_of_reachable (.init h), fun _ _ _ => nofun⟩
  exact (Machine.along_iff_along (fun _ _ hi hg hc => disabledDeleted_next hi hg hc)
    (fun _ _ hi _ => quiet_step_iff hi) hinit (Machine.legal_remember.mpr hl)).trans
    Machine.along_remember

/-- A connection that is closed once, and removed. -/
theorem quiet_iff_example :
    (recorded Nat).Along Quiet (⟨fun _ => none, fun _ => none, fun _ => none, []⟩, fun _ => none)
      [.create 0 5, .apply 0 .enableReading, .apply 0 .disableAll, .apply 0 .remove] := by
  have hlegal : (machine Nat).Legal ⟨fun _ => none, fun _ => none, fun _ => none, []⟩
      [.create 0 5, .apply 0 .enableReading, .apply 0 .disableAll, .apply 0 .remove] :=
    ⟨⟨rfl, fun _ _ => nofun⟩, Option.some_ne_none _, Option.some_ne_none _, Option.some_ne_none _,
      trivial⟩
  refine (quiet_iff rfl hlegal).mpr ⟨trivial, ?_, ?_, ?_, trivial⟩
  · rintro ch - ⟨hdisable, -⟩
    cases hdisable
  · intro ch hobject _
    rw [← Option.some.inj hobject]
  · rintro ch - ⟨hdisable, -⟩
    cases hdisable

/-- **A connection that is closed twice is polled again**: the second `disableAll` puts its
descriptor back into the epoll set. -/
theorem closed_twice_example :
    ¬ ∀ s, (machine Nat).init s → ∀ as, (machine Nat).Legal s as →
      (recorded Nat).Along Quiet (s, fun _ => none) as := by
  intro h
  obtain ⟨-, -, -, hquiet, -⟩ := h ⟨fun _ => none, fun _ => none, fun _ => none, []⟩ rfl
    [.create 0 5, .apply 0 .enableReading, .apply 0 .disableAll, .apply 0 .disableAll]
    ⟨⟨rfl, fun _ _ => nofun⟩, Option.some_ne_none _, Option.some_ne_none _, Option.some_ne_none _,
      trivial⟩
  exact absurd (hquiet.unpolled 0 .disableAll _ rfl rfl (empties_disableAll _)) (by decide)

end EPollPoller

end SimpleHttpServer
