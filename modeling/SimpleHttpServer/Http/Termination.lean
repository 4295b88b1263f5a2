import SimpleHttpServer.Http.HttpServer

/-!
# The loop of `parseRequest` ends

In state `kGotAll` the loop would spin. It is never entered in that state: between two calls of
`onMessage` the parser is reading lines, since `kGotAll` is reset before `onMessage` returns and
the `400` branch leaves `kExpectRequestLine`. And an iteration after which the loop goes on has
consumed a line.

* `Continues` is one such iteration, `LoopEnds` the loop without a step budget;
* `run_inLines`: over any deliveries the parser stays in the line states;
* **`parseRequest_terminates`**: in every state reached, over every buffer, the loop ends.
-/

namespace SimpleHttpServer

open Lib Lib.Search

namespace HttpContext

variable {t : Timestamp}

/-- The loop, without a budget: how it ends from `v`. -/
inductive LoopEnds (t : Timestamp) : ParseVars → Outcome ParseVars → Prop where
  | stop {v : ParseVars} : v.hasMore = false → LoopEnds t v (.returns v)
  | throw {v : ParseVars} {f : Fault} : v.hasMore = true → parseIter t v = .error f →
      LoopEnds t v (.faults f)
  | iterate {v v' : ParseVars} {o : Outcome ParseVars} : v.hasMore = true →
      parseIter t v = .ok v' → LoopEnds t v' o → LoopEnds t v o

/-- An iteration after which the loop goes on. -/
structure Continues (t : Timestamp) (v v' : ParseVars) : Prop where
  enters : v.hasMore = true
  iterates : parseIter t v = .ok v'
  goesOn : v'.hasMore = true

/-- Retrieving up to behind a CRLF found consumes bytes. -/
theorem readableBytes_retrieveUntil_lt {q : ByteQueue} {crlf : Nat}
    (h : q.findCRLF = some crlf) :
    (q.retrieveUntil (crlf + 2)).readableBytes < q.readableBytes := by
  obtain ⟨n, hn, rfl⟩ := Option.map_eq_some_iff.mp h
  have hle := search_kCRLF_le hn
  have hret : q.retrieveUntil (q.peek + n + 2) = q.retrieve (n + 2) := by
    rw [Nat.add_assoc, q.retrieveUntil_peek_add]
  have hlen : (q.readable.drop (n + 2)).length = (q.retrieve (n + 2)).readableBytes := by
    rw [← ByteQueue.readable_retrieve, ByteQueue.length_readable]
  rw [List.length_drop] at hlen
  rw [q.length_readable] at hle hlen
  rw [hret]
  omega

/-- **An iteration that continues consumes bytes**, and does not end in `kGotAll`. -/
theorem Continues.consumes {v v' : ParseVars} (h : Continues t v v')
    (hs : v.context.state ≠ .kGotAll) :
    v'.context.state ≠ .kGotAll ∧ v'.buf.readableBytes < v.buf.readableBytes := by
  obtain ⟨-, hi, hm⟩ := h
  unfold parseIter at hi
  split at hi
  · split at hi
    · cases hi
      cases hm
    · rename_i crlf hcrlf
      split at hi
      · cases hi
      · cases hi
        exact ⟨nofun, readableBytes_retrieveUntil_lt hcrlf⟩
      · cases hi
        cases hm
  · rename_i hheaders
    split at hi
    · cases hi
      cases hm
    · rename_i crlf hcrlf
      simp only at hi
      split at hi
      · cases hi
        exact ⟨hs, readableBytes_retrieveUntil_lt hcrlf⟩
      · split at hi
        · cases hi
          exact ⟨nofun, readableBytes_retrieveUntil_lt hcrlf⟩
        · cases hi
          cases hm
  · -- the body state clears `hasMore`
    split at hi
    · cases hi
    · split at hi
      · cases hi
      · cases hi
        cases hm
  · rename_i hgot
    exact absurd hgot hs

/-- The loop ends from every state but `kGotAll`, within the budget: by induction on the bytes
unread. -/
theorem loopEnds_of_ne_gotAll : ∀ (n : Nat) {v : ParseVars}, v.buf.readableBytes ≤ n →
    v.context.state ≠ .kGotAll → ∀ fuel, n + 2 ≤ fuel →
      ∃ o, LoopEnds t v o ∧ parseLoop t fuel v = o := by
  intro n
  induction n using Nat.strong_induction_on with
  | _ n ih =>
    intro v hn hs fuel hf
    obtain ⟨fuel, rfl⟩ : ∃ k, fuel = k + 2 := ⟨fuel - 2, by omega⟩
    by_cases hm : v.hasMore = true
    · rw [parseLoop, if_pos hm]
      cases hi : parseIter t v with
      | error f => exact ⟨_, .throw hm hi, rfl⟩
      | ok v' =>
        by_cases hm' : v'.hasMore = true
        · obtain ⟨hs', hlt⟩ := Continues.consumes ⟨hm, hi, hm'⟩ hs
          obtain ⟨o, ho, hrun⟩ := ih (n - 1) (by omega) (v := v') (by omega) hs' (fuel + 1)
            (by omega)
          exact ⟨o, .iterate hm hi ho, hrun⟩
        · have hstop : v'.hasMore = false := by simpa using hm'
          refine ⟨.returns v', .iterate hm hi (.stop hstop), ?_⟩
          simp only [parseLoop, hstop, Bool.false_eq_true, if_false]
    · have hstop : v.hasMore = false := by simpa using hm
      refine ⟨.returns v, .stop hstop, ?_⟩
      simp only [parseLoop, hstop, Bool.false_eq_true, if_false]

end HttpContext

namespace HttpServer

open HttpContext

/-! ## The states between deliveries -/

/-- A delivery to a parser that reads lines ends, and leaves it reading lines. -/
theorem deliver_inLines (httpCallback : HttpCallback) {s : Session}
    (h : s.context.inLines = true) (chunk : Bytes) (t : Timestamp) :
    deliver httpCallback s chunk t ≠ .diverges ∧
      ∀ s', deliver httpCallback s chunk t = .returns s' → s'.context.inLines = true := by
  rcases deliver_cases httpCallback s h chunk t rfl with
    ⟨hv, buf, -, hd⟩ | ⟨f, -, hd⟩ | ⟨hv, buf, -, hd⟩ | ⟨-, ⟨f, -, hd⟩ | ⟨s', hd, hs'⟩⟩
  · rw [hd]
    refine ⟨by simp, fun s' e => ?_⟩
    cases e
    exact scan_waits_inLines t _ _ hv
  · rw [hd]
    exact ⟨by simp, by simp⟩
  · rw [hd]
    refine ⟨by simp, fun s' e => ?_⟩
    cases e
    obtain ⟨hs, -, n, -, hline⟩ := scan_rejects t _ _ hv
    rw [inLines, processRequestLine_state hline, hs]
    rfl
  · rw [hd]
    exact ⟨by simp, by simp⟩
  · rw [hd]
    refine ⟨by simp, fun s'' e => ?_⟩
    cases e
    rw [hs']
    rfl

/-- Over any deliveries the parser stays in the line states. -/
theorem run_inLines (httpCallback : HttpCallback) :
    ∀ (chunks : List (Bytes × Timestamp)) {s : Session}, s.context.inLines = true →
      run httpCallback s chunks ≠ .diverges ∧
        ∀ s', run httpCallback s chunks = .returns s' → s'.context.inLines = true
  | [], s, h => by
    refine ⟨by simp [run], fun s' e => ?_⟩
    cases e
    exact h
  | (chunk, t) :: chunks, s, h => by
    obtain ⟨hne, hnext⟩ := deliver_inLines httpCallback h chunk t
    rw [run]
    cases hd : deliver httpCallback s chunk t with
    | returns s' => exact run_inLines httpCallback chunks (hnext s' hd)
    | faults f => exact ⟨by simp, by simp⟩
    | diverges => exact absurd hd hne

/-- **`parseRequest` terminates on every input it can be given.** No sequence of deliveries runs
forever. In every state one leaves, the loop is not entered in `kGotAll`; over every buffer it ends
without a budget, as `parseRequest` does; no iteration of it is made in `kGotAll`, and each one
after which it goes on consumes bytes. -/
theorem parseRequest_terminates (httpCallback : HttpCallback)
    (chunks : List (Bytes × Timestamp)) :
    run httpCallback {} chunks ≠ .diverges ∧
      ∀ s, run httpCallback {} chunks = .returns s → s.context.state ≠ .kGotAll ∧
        ∀ (q : ByteQueue) (t : Timestamp),
          LoopEnds t { context := s.context, buf := q } (s.context.parseRequest q t) ∧
          ∀ v, Relation.ReflTransGen (Continues t) { context := s.context, buf := q } v →
            v.context.state ≠ .kGotAll ∧
              ∀ v', Continues t v v' → v'.buf.readableBytes < v.buf.readableBytes := by
  obtain ⟨hne, hnext⟩ := run_inLines httpCallback chunks (s := {}) rfl
  refine ⟨hne, fun s hs => ?_⟩
  have hgot : s.context.state ≠ .kGotAll := (inLines_ne (hnext s hs)).2
  refine ⟨hgot, fun q t => ⟨?_, fun v hv => ?_⟩⟩
  · obtain ⟨o, ho, hrun⟩ := loopEnds_of_ne_gotAll (t := t) q.readableBytes
      (v := { context := s.context, buf := q }) (Nat.le_refl _) hgot _ (Nat.le_refl _)
    rw [parseRequest, hrun]
    exact ho
  · have hstate : v.context.state ≠ .kGotAll := by
      induction hv with
      | refl => exact hgot
      | tail _ hstep ih => exact (hstep.consumes ih).1
    exact ⟨hstate, fun v' hstep => (hstep.consumes hstate).2⟩

end HttpServer

end SimpleHttpServer
