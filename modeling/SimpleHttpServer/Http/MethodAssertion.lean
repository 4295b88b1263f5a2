import SimpleHttpServer.Http.HttpServer

/-!
# The assertion of `setMethod`

`processRequestLine` sets the method before it has checked the rest of the line. When the rest is
rejected, `onMessage` replies `400` and returns; neither the line nor the method is cleared. The
read side stays open, and the next delivery parses the same line again into the same request:
`assert(method_ == kInvalid)` fails.

* `Poisoned` is the state a rejected line with a known method leaves;
* `deliver_of_poisoned`, `deliver_of_not_poisoned`: the assertion fails at a delivery exactly in it;
* **`methodAssertion_iff`**: over all runs, the assertion holds if and only if no chunk is delivered
  to a poisoned session.
-/

namespace SimpleHttpServer

open Lib Lib.Search HttpContext

namespace HttpServer

variable {httpCallback : HttpCallback}

/-- The parser expects a request line and still has the method of a rejected one. -/
def Poisoned (s : Session) : Prop :=
  s.context.state = .kExpectRequestLine ∧ s.context.request.method ≠ .kInvalid

/-- What holds between deliveries: the parser is reading lines, and a rejected line that left its
method behind is still in the buffer, with its space and its CRLF. -/
structure Settled (s : Session) : Prop where
  inLines : s.context.inLines = true
  stuck : Poisoned s → ∃ n, search Buffer.kCRLF s.inputBuffer.readable = some n ∧
    32 ∈ s.inputBuffer.readable.take n

theorem settled_init : Settled {} := ⟨rfl, fun h => absurd rfl h.2⟩

theorem methodClear_of_not_poisoned {s : Session} (h : ¬ Poisoned s) : s.context.MethodClear :=
  fun hs => by_contra fun hm => h ⟨hs, hm⟩

/-- A request line is rejected without touching the method if it has no space. -/
theorem mem_space_of_rejected {c c' : HttpContext} {line : Bytes}
    (hm : c.request.method = .kInvalid) (h : c.processRequestLine line = .ok (false, c'))
    (hm' : c'.request.method ≠ .kInvalid) : 32 ∈ line := by
  by_contra hsp
  rw [processRequestLine, breakAt_of_not_mem hsp] at h
  cases h
  exact hm' hm

/-- With the method left over, a line with a space fails the assertion. -/
theorem processRequestLine_assertion {c : HttpContext} (hm : c.request.method ≠ .kInvalid)
    {line : Bytes} (hsp : 32 ∈ line) : c.processRequestLine line = .error .assertion := by
  unfold processRequestLine
  split
  · rename_i hb
    exact absurd hsp (breakAt_snd_eq_nil.mp (congrArg Prod.snd hb))
  · rw [HttpRequest.setMethod, if_neg hm]

theorem deliver_of_poisoned {s : Session} (h : Settled s) (hp : Poisoned s) (chunk : Bytes)
    (t : Timestamp) : deliver httpCallback s chunk t = .faults .assertion := by
  obtain ⟨n, hn, hsp⟩ := h.stuck hp
  have hle := search_kCRLF_le hn
  have hmove : lineMove t s.context (s.inputBuffer.readable ++ chunk) =
      .halt (.error .assertion) s.context 0 := by
    simp only [lineMove, h.inLines, if_true, search_append hn chunk, onLine, hp.1]
    rw [List.take_append_of_le_length (by omega), processRequestLine_assertion hp.2 hsp]
  have hscan := Scanner.scan_halt (P := lineScanner t) hmove
  rcases deliver_cases httpCallback s h.inLines chunk t hscan with
    ⟨hv, -⟩ | ⟨f, hv, hd⟩ | ⟨hv, -⟩ | ⟨hv, -⟩
  · cases hv
  · cases hv
    exact hd
  · cases hv
  · cases hv

theorem deliver_of_not_poisoned (httpCallback : HttpCallback) {s : Session} (h : Settled s)
    (hp : ¬ Poisoned s) (chunk : Bytes) (t : Timestamp) :
    deliver httpCallback s chunk t ≠ .faults .assertion ∧
      ∀ s', deliver httpCallback s chunk t = .returns s' → Settled s' := by
  have hclear := methodClear_of_not_poisoned hp
  rcases deliver_cases httpCallback s h.inLines chunk t rfl with
    ⟨hv, buf, -, hd⟩ | ⟨f, hv, -⟩ | ⟨hv, buf, hbuf, hd⟩ | ⟨-, ⟨f, hf, hd⟩ | ⟨s', hd, hs'⟩⟩
  · rw [hd]
    refine ⟨by simp, fun s' e => ?_⟩
    cases e
    exact ⟨scan_waits_inLines t _ _ hv, fun hp' =>
      absurd (scan_waits_clear t _ _ hclear hv hp'.1) hp'.2⟩
  · exact absurd hv (scan_ne_error t _ _ hclear f)
  · rw [hd]
    refine ⟨by simp, fun s' e => ?_⟩
    cases e
    obtain ⟨hs, hrest, n, hn, hline⟩ := scan_rejects t _ _ hv
    rw [hrest] at hbuf
    refine ⟨?_, fun hp' => ⟨n, by rw [hbuf, hn], ?_⟩⟩
    · rw [inLines, processRequestLine_state hline, hs]
      rfl
    · rw [hbuf]
      exact mem_space_of_rejected (hclear hs) hline hp'.2
  · rw [hd]
    exact ⟨fun e => hf (Outcome.faults.inj e), fun s' e => by cases e⟩
  · rw [hd]
    refine ⟨by simp, fun s'' e => ?_⟩
    cases e
    exact ⟨by rw [hs']; rfl, fun hp' => absurd (by rw [hs']) hp'.2⟩

/-- The assertion over a run from a settled session. -/
theorem run_assertion : ∀ (chunks : List (Bytes × Timestamp)) {s : Session}, Settled s →
    (run httpCallback s chunks ≠ .faults .assertion ↔
      ∀ k < chunks.length, ∀ s', run httpCallback s (chunks.take k) = .returns s' → ¬ Poisoned s')
  | [], s, _ => by simp [run]
  | (chunk, t) :: chunks, s, h => by
    rw [List.length_cons, Nat.forall_lt_succ_left]
    by_cases hp : Poisoned s
    · rw [run, deliver_of_poisoned h hp]
      simp [run, hp]
    · obtain ⟨hne, hsettled⟩ := deliver_of_not_poisoned httpCallback h hp chunk t
      simp only [List.take_succ_cons, run]
      cases hd : deliver httpCallback s chunk t with
      | returns s' =>
        have ih := run_assertion chunks (hsettled s' hd)
        simpa [run, hp] using ih
      | faults f =>
        have hf : f ≠ .assertion := fun e => hne (by rw [hd, e])
        simp [run, hp, hf]
      | diverges => simp [run, hp]

/-- **The assertion of `setMethod` never fails in a run if and only if no chunk of it is delivered
to a poisoned session.** -/
theorem methodAssertion_iff (httpCallback : HttpCallback) (chunks : List (Bytes × Timestamp)) :
    run httpCallback {} chunks ≠ .faults .assertion ↔
      ∀ k < chunks.length, ∀ s, run httpCallback {} (chunks.take k) = .returns s → ¬ Poisoned s :=
  run_assertion chunks settled_init

/-- A version that is not served, and one more byte. -/
theorem methodAssertion_fails_example :
    ∃ chunks, run defaultHttpCallback {} chunks = .faults .assertion := by
  refine ⟨[(ascii "GET /x HTTP/1.2\r\n", ⟨1⟩), (ascii "a", ⟨2⟩)], ?_⟩
  have hfault : (run defaultHttpCallback {}
      [(ascii "GET /x HTTP/1.2\r\n", ⟨1⟩), (ascii "a", ⟨2⟩)]).fault? = some .assertion := by
    decide +kernel
  unfold Outcome.fault? at hfault
  split at hfault
  · rename_i f hrun
    rw [hrun, Option.some.inj hfault]
  · cases hfault

end HttpServer

end SimpleHttpServer
