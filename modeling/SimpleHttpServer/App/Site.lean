import SimpleHttpServer.App.Accounts
import SimpleHttpServer.Http.ServedResponses
import SimpleHttpServer.Http.WellFormed

/-!
# The example server, from the bytes of a client to the accounts

`example/test.cpp` gives `onRequest` to an `HttpServer`. One of its connections, with the parser,
the callbacks and the socket of `ServedRun`, and beside it the requests of all other connections: on
one loop thread `onRequest` runs without interruption, so the table goes through them one by one.

* `Backend.printable_of_guard`: with files below 2 GiB every response of `onRequest` can be printed;
* `Site.refines`: a step of the site is a run of the account store;
* `ClientReads` is what the client of the connection reads when its output has drained;
* **`serves`**: whatever bytes arrive and in whatever order, the requests handled are steps of one
  run of the account store, which leaves the accounts of the table; and the client reads the
  responses to its own ones, in order: the pages that tell the replies of that run.

No write of the connection finds that the peer is gone (`EventWrites.PeerThere`), and a run ends in
front of the first event or request that does not return.
-/

namespace SimpleHttpServer

open Lib Lib.Program Lib.Frames HttpServer HttpResponse ServerCall

/-! ## The log of a connection -/

namespace HttpServer

variable {httpCallback : HttpCallback}

/-- A run ends where its second part does. -/
theorem run_of_append : ∀ {xs ys : List (Bytes × Timestamp)} {s s₂ : Session},
    run httpCallback s (xs ++ ys) = .returns s₂ →
      ∃ s₁, run httpCallback s xs = .returns s₁ ∧ run httpCallback s₁ ys = .returns s₂
  | [], _, s, _, h => ⟨s, rfl, h⟩
  | (chunk, t) :: xs, ys, s, s₂, h => by
    rw [List.cons_append, run] at h
    rw [run]
    cases hd : deliver httpCallback s chunk t with
    | returns s' =>
      rw [hd] at h
      exact run_of_append h
    | faults f =>
      rw [hd] at h
      cases h
    | diverges =>
      rw [hd] at h
      cases h

end HttpServer

namespace ServedRun

variable {httpCallback : HttpCallback} {s : ServedRun}

/-- The calls that a step adds to the log. -/
def calls (httpCallback : HttpCallback) (s : ServedRun) (step : ServedStep) : List ServerCall :=
  ((machine httpCallback).next s step).http.log.drop s.http.log.length

/-- The log of a connection only grows. -/
theorem log_next (h : (machine httpCallback).Reachable s) {step : ServedStep}
    (hg : (machine httpCallback).guard s step) :
    ((machine httpCallback).next s step).http.log =
      s.http.log ++ calls httpCallback s step := by
  have hreads : ∃ more, ((machine httpCallback).next s step).reads = s.reads ++ more := by
    cases step with
    | event revents t r ws =>
      obtain ⟨-, -, h', hrun⟩ := hg
      refine ⟨readOf revents t r, ?_⟩
      simp only [machine, hrun]
    | connectDestroyed => exact ⟨[], (List.append_nil _).symm⟩
  obtain ⟨more, hmore⟩ := hreads
  obtain ⟨⟨s₁, hrun₁, -, -, hlog₁⟩, -⟩ := inv_of_reachable h
  obtain ⟨⟨s₂, hrun₂, -, -, hlog₂⟩, -⟩ := inv_of_reachable (h.step hg trivial)
  rw [hmore] at hrun₂
  obtain ⟨s', hrun', hrest⟩ := run_of_append hrun₂
  obtain rfl : s₁ = s' := Outcome.returns.inj (hrun₁.symm.trans hrun')
  obtain ⟨added, hadded⟩ := run_extends hrest
  have hnext : ((machine httpCallback).next s step).http.log = s.http.log ++ added := by
    rw [hlog₂, hlog₁, hadded]
  rw [calls, hnext, List.drop_left]

end ServedRun

/-! ## The responses of the handlers -/

namespace Backend

variable {Conn : Type} {b : Backend} {table : List UserRow}

/-- No file has 2 GiB. -/
def Small (b : Backend) : Prop :=
  ∀ filename contents, b.files filename = .regular contents → contents.length < 2 ^ 31

/-- What `onRequest` may leave of `resp`. -/
inductive Leaves (b : Backend) (resp : HttpResponse) : Option HttpResponse → Prop
  | contents {filename contents : Bytes} (h : b.files filename = .regular contents) :
      Leaves b resp (some ((found resp).setBody contents))
  | empty : Leaves b resp (some ((found resp).setBody []))
  | notFound : Leaves b resp (some (notFound resp))
  | untouched : Leaves b resp (some resp)
  | aborted : Leaves b resp none

theorem leaves_of_file {filename : Bytes} {resp : HttpResponse} {events : List (HandlerEvent Conn)}
    {result : Option HttpResponse} {t t' : List UserRow}
    (hends : (fileToString filename resp : Handler Conn HttpResponse).Ends (fun _ _ => True)
      events result) (hev : Evolves b.Step t events t') : b.Leaves resp result := by
  cases (fileRun_serves (fileRun_of_ends hends) hev).2 with
  | absent h => exact .notFound
  | regular h hmapped => exact .contents h
  | unmappedEmpty h hun => exact .empty
  | unmapped h hsize hun => exact .aborted

/-- A page behind something else. -/
theorem leaves_of_bind {α : Type} {p : Handler Conn α} {f : α → Handler Conn HttpResponse}
    {resp : HttpResponse} {events : List (HandlerEvent Conn)} {result : Option HttpResponse}
    {t t' : List UserRow} (hends : (p >>= f).Ends (fun _ _ => True) events result)
    (hev : Evolves b.Step t events t')
    (hf : ∀ a events t, (f a).Ends (fun _ _ => True) events result →
      Evolves b.Step t events t' → b.Leaves resp result) : b.Leaves resp result := by
  rcases ends_bind_iff.mp hends with ⟨before, rest, a, rfl, -, hrest⟩ | ⟨rfl, -⟩
  · obtain ⟨t₁, -, hev₁⟩ := evolves_append.mp hev
    exact hf a rest t₁ hrest hev₁
  · exact .aborted

/-- **What `onRequest` leaves.** -/
theorem leaves_of_guard {a : Handled Conn} (hg : (requests b).guard table a) :
    b.Leaves a.resp a.result := by
  obtain ⟨hends, hev⟩ := hg
  by_cases hget : a.req.method = .kGet
  · unfold onRequest at hends
    rw [if_pos hget] at hends
    simp only at hends
    split at hends
    · exact leaves_of_file hends hev
    · split at hends <;> exact leaves_of_file hends hev
  by_cases hpost : a.req.method = .kPost
  · by_cases hlogin : a.req.path = ascii "/login"
    · rw [onRequest_login hpost hlogin] at hends
      refine leaves_of_bind hends hev fun form events t hends hev => ?_
      cases form with
      | none => exact leaves_of_file hends hev
      | some form =>
        refine leaves_of_bind hends hev fun values events t hends hev => ?_
        refine leaves_of_bind hends hev fun ok events t hends hev => ?_
        split at hends <;> exact leaves_of_file hends hev
    by_cases hregister : a.req.path = ascii "/register"
    · rw [onRequest_register hpost hregister] at hends
      refine leaves_of_bind hends hev fun form events t hends hev => ?_
      cases form with
      | none => exact leaves_of_file hends hev
      | some form =>
        unfold registerReply at hends
        simp only at hends
        split at hends
        · refine leaves_of_bind hends hev fun ok events t hends hev => ?_
          split at hends <;> exact leaves_of_file hends hev
        · exact leaves_of_file hends hev
    rw [onRequest_otherPost hpost hlogin hregister] at hends
    rw [(ends_pure.mp hends).2]
    exact .untouched
  · rw [onRequest_notFound hget hpost] at hends
    rw [(ends_pure.mp hends).2]
    exact .notFound

theorem printable_of_fresh {r : HttpResponse} (hheaders : r.headers = ∅)
    (hmessage : LineText r.statusMessage) (hbody : r.body.length < 2 ^ 31) : r.Printable := by
  have hempty : (∅ : HeaderMap).toList = [] := by decide +kernel
  refine ⟨hmessage, fun h hh => ?_, hbody⟩
  rw [hheaders, hempty] at hh
  exact absurd hh List.not_mem_nil

/-- **Every response of `onRequest` can be printed.** -/
theorem printable_of_guard (hsmall : b.Small) {a : Handled Conn} (hg : (requests b).guard table a)
    {closeConnection : Bool} (hresp : a.resp = { closeConnection }) {r : HttpResponse}
    (hr : a.result = some r) : r.Printable := by
  have hnone : ([] : Bytes).length < 2 ^ 31 := by decide
  have hok : LineText (ascii "OK") := by decide
  have hempty : LineText [] := by decide
  have hmissing : LineText (ascii "Not Found") := by decide
  have hnotFound : (notFound { closeConnection }).Printable :=
    printable_of_fresh rfl hmissing hnone
  have hleaves := leaves_of_guard hg
  rw [hresp] at hleaves
  generalize a.result = result at hr hleaves
  cases hleaves with
  | contents hfile =>
    obtain rfl := Option.some.inj hr
    exact printable_of_fresh rfl hok (hsmall _ _ hfile)
  | empty =>
    obtain rfl := Option.some.inj hr
    exact printable_of_fresh rfl hok hnone
  | notFound =>
    obtain rfl := Option.some.inj hr
    exact hnotFound
  | untouched =>
    obtain rfl := Option.some.inj hr
    exact printable_of_fresh rfl hempty hnone
  | aborted => cases hr

end Backend

/-! ## The site -/

/-- A connection of the example server, and the table of its accounts. -/
structure Site where
  served : ServedRun
  table : List UserRow

/-- The steps of a site. -/
inductive SiteAction (Conn : Type) where
  /-- A step of the connection, and the requests that are handled in it. -/
  | connection (step : ServedStep) (handled : List (Handled Conn))
  /-- A request of another connection. -/
  | other (a : Handled Conn)

namespace SiteAction

variable {Conn : Type}

/-- All requests that are handled in the step. -/
def handled : SiteAction Conn → List (Handled Conn)
  | .connection _ as => as
  | .other a => [a]

/-- The requests of the connection itself. -/
def own : SiteAction Conn → List (Handled Conn)
  | .connection _ as => as
  | .other _ => []

end SiteAction

namespace Site

open Machine Received

variable {Conn : Type}

/-- In the step `httpCallback_` is called for these requests, and it is `onRequest`. -/
structure Handles (httpCallback : HttpCallback) (s : ServedRun) (step : ServedStep)
    (as : List (Handled Conn)) : Prop where
  requests : as.map Handled.req = executed (ServedRun.calls httpCallback s step)
  fresh : ∀ a ∈ as, a.resp = { closeConnection := wantsClose a.req }
  responses : as.map Handled.result =
    (responsesFrom httpCallback s.http.log (ServedRun.calls httpCallback s step)).map some

/-- The connection, and the requests of the others between its steps. `httpCallback` says which
responses `onRequest` leaves; a run ends in front of the first request that aborts. -/
def machine (b : Backend) (httpCallback : HttpCallback) : Machine Site (SiteAction Conn) where
  init s := (ServedRun.machine httpCallback).init s.served ∧ ValidTable s.table
  guard s
    | .connection step as => (ServedRun.machine httpCallback).guard s.served step ∧
      Handles httpCallback s.served step as ∧ b.requests.Legal s.table as
    | .other a => b.requests.guard s.table a ∧ a.result ≠ none
  next s
    | .connection step as =>
      ⟨(ServedRun.machine httpCallback).next s.served step, b.requests.after s.table as⟩
    | .other a => { s with table := a.table }

variable {b : Backend} {httpCallback : HttpCallback} {s : Site}

/-- The connection runs as it would alone. -/
def connectionRuns (b : Backend) (httpCallback : HttpCallback) :
    Simulation (machine b httpCallback : Machine Site (SiteAction Conn))
      (ServedRun.machine httpCallback) where
  rel s served := s.served = served
  shows _ _ := True
  init s := fun h => ⟨s.served, h.1, rfl⟩
  step s served a := by
    rintro rfl hg
    cases a with
    | connection step as => exact ⟨[step], trivial, ⟨hg.1, trivial⟩, rfl⟩
    | other a => exact ⟨[], trivial, trivial, rfl⟩

/-- **The site refines the account store**: what is handled in a step are steps of the store. -/
def refines (b : Backend) (httpCallback : HttpCallback) :
    Simulation (machine b httpCallback : Machine Site (SiteAction Conn)) (accountStore b) where
  rel s accounts := ValidTable s.table ∧ accounts = b.accounts s.table
  shows a steps := List.Forall₂ b.Answers a.handled steps
  init s := fun h => ⟨b.accounts s.table, trivial, h.2, rfl⟩
  step s accounts a := by
    intro hrel hg
    have hlegal : b.requests.Legal s.table a.handled := by
      cases a with
      | connection step as => exact hg.2.2
      | other a => exact ⟨hg.1, trivial⟩
    have htable : ((machine b httpCallback).next s a).table =
        b.requests.after s.table a.handled := by
      cases a <;> rfl
    obtain ⟨bss, hshows, hsteps, hrel'⟩ := (Backend.refines b).run hrel hlegal
    exact ⟨bss.flatten, Backend.answers_of_shows hshows, hsteps, htable ▸ hrel'⟩

theorem reachable_served
    (h : (machine b httpCallback : Machine Site (SiteAction Conn)).Reachable s) :
    (ServedRun.machine httpCallback).Reachable s.served := by
  obtain ⟨served, hreach, rfl⟩ := (connectionRuns b httpCallback).reachable h
  exact hreach

/-- What the log has of the requests handled. -/
structure Logs (httpCallback : HttpCallback) (log : List ServerCall) (as : List (Handled Conn)) :
    Prop where
  requests : as.map Handled.req = executed log
  responses : as.map Handled.result = (responsesOf httpCallback log).map some
  printed : Printed httpCallback log

theorem Logs.step (hsmall : b.Small) {log : List ServerCall} {as : List (Handled Conn)}
    (h : Logs httpCallback log as) {s : ServedRun} (hs : s.http.log = log)
    (hr : (ServedRun.machine httpCallback).Reachable s) {step : ServedStep}
    {more : List (Handled Conn)} (hg : (ServedRun.machine httpCallback).guard s step)
    (hh : Handles httpCallback s step more) {table : List UserRow}
    (hl : b.requests.Legal table more) :
    Logs httpCallback ((ServedRun.machine httpCallback).next s step).http.log (as ++ more) := by
  subst hs
  rw [ServedRun.log_next hr hg]
  refine ⟨?_, ?_, fun r hmem => ?_⟩
  · rw [List.map_append, h.requests, hh.requests, executed_append]
  · rw [List.map_append, h.responses, hh.responses, responsesOf_append, List.map_append]
  · rw [responsesOf_append] at hmem
    rcases List.mem_append.mp hmem with hmem | hmem
    · exact h.printed r hmem
    · have hresult : some r ∈ more.map Handled.result := by
        rw [hh.responses]
        exact List.mem_map_of_mem hmem
      obtain ⟨a, ha, hr⟩ := List.mem_map.mp hresult
      obtain ⟨table, hguard⟩ := hl.exists_guard a ha
      exact Backend.printable_of_guard hsmall hguard (hh.fresh a ha) hr

/-- **The log has the requests of the connection**, and no others. -/
theorem logs_run (hsmall : b.Small) : ∀ {as : List (SiteAction Conn)} {s : Site}
    {before : List (Handled Conn)},
      (machine b httpCallback : Machine Site (SiteAction Conn)).Reachable s →
      Logs httpCallback s.served.http.log before → (machine b httpCallback).Legal s as →
      Logs httpCallback ((machine b httpCallback).after s as).served.http.log
        (before ++ as.flatMap SiteAction.own)
  | [], s, before, _, h, _ => by
    rw [List.flatMap_nil, List.append_nil]
    exact h
  | a :: as, s, before, hr, h, hl => by
    have hnext : Logs httpCallback ((machine b httpCallback).next s a).served.http.log
        (before ++ a.own) := by
      cases a with
      | connection step more =>
        obtain ⟨hg, hh, hlegal⟩ := hl.1
        exact h.step hsmall rfl (reachable_served hr) hg hh hlegal
      | other a =>
        rw [SiteAction.own, List.append_nil]
        exact h
    have hrest := logs_run hsmall (hr.step hl.1 trivial) hnext hl.2
    rw [List.append_assoc] at hrest
    exact hrest

theorem logs_init (hinit : (ServedRun.machine httpCallback).init s.served) :
    Logs httpCallback s.served.http.log ([] : List (Handled Conn)) := by
  obtain ⟨c, -, -, hserved⟩ := hinit
  have hlog : s.served.http.log = [] := by
    rw [hserved]
    rfl
  rw [hlog]
  exact ⟨rfl, rfl, fun r hr => absurd hr List.not_mem_nil⟩

/-! ## The client -/

/-- The client reads these responses, in order: all of them on a connection kept alive, and on one
that was shut down those of the requests in front of the `shutdown`. -/
structure ClientReads (h : HttpConnection) (rs : List HttpResponse) : Prop where
  going : .shutdown ∉ h.log → framing.readAll h.conn.socket.written = (rs.map received, [])
  ended : .shutdown ∈ h.log → h.conn.socket.writeClosed = true ∧ ∃ tail : List Received,
    (tail = [] ∨ tail = [badRequestReceived]) ∧ readConnection h.conn.socket.written =
      (rs.take (requestsOf (inFront h.log)).length).map received ++ tail

theorem clientReads_of_reachable {s : ServedRun} (h : (ServedRun.machine httpCallback).Reachable s)
    (hprint : Printed httpCallback s.http.log) (hdrained : s.http.conn.outputBuffer.readable = [])
    (hopen : s.http.conn.state ≠ .kDisconnected) :
    ClientReads s.http (responsesOf httpCallback s.http.log) := by
  obtain ⟨hgoing, hended⟩ := ServedRun.reads_of_printed h hprint hdrained hopen
  refine ⟨hgoing, fun hmem => ?_⟩
  have hfront := List.prefix_iff_eq_take.mp
    (@responsesOf_mono httpCallback _ _ (inFront_initial s.http.log))
  have hlength : (responsesOf httpCallback (inFront s.http.log)).length =
      (requestsOf (inFront s.http.log)).length := length_responsesFrom _ _
  rw [← hlength, ← hfront]
  exact hended hmem

/-- **From the bytes of a client to the accounts.** Any bytes arrive on a connection, in any pieces,
and any requests on the others, on a valid table and with files below 2 GiB. The requests that
`onRequest` handles are answered with the pages of the replies of one run of the account store, and
the table ends with the accounts of that run. The requests of the connection are those that its
parser has completed; and when its output has drained, its client reads the responses to them. -/
theorem serves (hsmall : b.Small) {as : List (SiteAction Conn)}
    (hinit : (machine b httpCallback : Machine Site (SiteAction Conn)).init s)
    (hl : (machine b httpCallback).Legal s as) :
    ∃ (steps : List (Ask × Reply)) (rs : List HttpResponse),
      List.Forall₂ b.Answers (as.flatMap SiteAction.handled) steps ∧
      (accountStore b).Legal (b.accounts s.table) steps ∧
      b.accounts ((machine b httpCallback).after s as).table =
        (accountStore b).after (b.accounts s.table) steps ∧
      (∃ session,
        HttpServer.run httpCallback {} ((machine b httpCallback).after s as).served.reads =
          .returns session ∧
        executed session.log = (as.flatMap SiteAction.own).map Handled.req) ∧
      (as.flatMap SiteAction.own).map Handled.result = rs.map some ∧
      (((machine b httpCallback).after s as).served.http.conn.outputBuffer.readable = [] →
        ((machine b httpCallback).after s as).served.http.conn.state ≠ .kDisconnected →
        ClientReads ((machine b httpCallback).after s as).served.http rs) := by
  have hlogs := logs_run hsmall (.init hinit) (logs_init hinit.1) hl
  obtain ⟨bss, hshows, hsteps, -, haccounts⟩ := (refines b httpCallback).run ⟨hinit.2, rfl⟩ hl
  have hanswers : List.Forall₂ b.Answers (as.flatMap SiteAction.handled) bss.flatten := by
    rw [List.flatMap_def]
    refine List.rel_flatten ?_
    rw [List.forall₂_map_left_iff]
    exact hshows
  have hreach := reachable_served (Reachable.run (.init hinit) hl)
  obtain ⟨⟨session, hrun, -, -, hlog⟩, -⟩ := ServedRun.inv_of_reachable hreach
  exact ⟨bss.flatten, responsesOf httpCallback _, hanswers, hsteps, haccounts.symm,
    ⟨session, hrun, hlog ▸ hlogs.requests.symm⟩, hlogs.responses,
    clientReads_of_reachable hreach hlogs.printed⟩

/-! ## A registration on one connection, and a login on another -/

/-- The index, as a response. -/
def indexPage (closeConnection : Bool) : HttpResponse :=
  (found { closeConnection }).setBody (ascii "../root/index.html")

/-- Everybody is sent the index. -/
def indexCallback : HttpCallback := fun _ _ resp =>
  (found resp).setBody (ascii "../root/index.html")

/-- A connection that has just been established, and no accounts. -/
def newSite : Site := ⟨ServedRun.fresh, []⟩

/-- The text of a login of `alice`. -/
def loginText : Bytes :=
  ascii "POST /login HTTP/1.1\r\nContent-Length: 32\r\n\r\nusername=alice&userpasswd=secret"

/-- The login is read, and a part of the response is written. -/
def loginRead : ServedStep :=
  .event EPOLLIN ⟨1⟩ (.bytes loginText) ⟨.accepted 0, .accepted 5, .accepted 0⟩

/-- The rest of the response is written. -/
def restWritten : ServedStep :=
  .event EPOLLOUT ⟨2⟩ (.failed .EWOULDBLOCK) ⟨.accepted 0, .accepted 0, .accepted 1000⟩

/-- Her login, handled for a request that the parser has completed. -/
def aliceAsks (req : HttpRequest) : Handled Nat :=
  Backend.aliceLogin req { closeConnection := wantsClose req }

/-- `alice` is registered on another connection, and logs in on this one. -/
def aliceSite (as : List (Handled Nat)) : List (SiteAction Nat) :=
  [.other Backend.aliceRegisters, .connection loginRead as, .connection restWritten []]

theorem responsesFrom_index : ∀ (log before : List ServerCall),
    responsesFrom indexCallback before log =
      (executed log).map fun req => indexPage (wantsClose req)
  | [], _ => rfl
  | .send _ :: log, _ => responsesFrom_index log _
  | .shutdown :: log, _ => responsesFrom_index log _
  | .httpCallback _ :: log, _ => congrArg _ (responsesFrom_index log _)

theorem handles_aliceAsks (s : ServedRun) (step : ServedStep) :
    Handles indexCallback s step
      ((executed (ServedRun.calls indexCallback s step)).map aliceAsks) := by
  refine ⟨?_, fun a ha => ?_, ?_⟩
  · rw [List.map_map]
    exact List.map_id _
  · obtain ⟨req, -, rfl⟩ := List.mem_map.mp ha
    rfl
  · rw [responsesFrom_index, List.map_map, List.map_map]
    rfl

theorem handles_nothing {s : ServedRun} {step : ServedStep}
    (h : executed (ServedRun.calls indexCallback s step) = []) :
    Handles indexCallback s step ([] : List (Handled Conn)) := by
  refine ⟨h.symm, fun a ha => absurd ha List.not_mem_nil, ?_⟩
  rw [responsesFrom_index, h]
  rfl

theorem legal_aliceAsks : ∀ {reqs : List HttpRequest},
    (∀ req ∈ reqs, req.method = .kPost ∧ req.path = ascii "/login" ∧
      req.body = loginBody (ascii "alice") (ascii "secret")) →
    (Backend.pagesRoot.requests).Legal [Backend.aliceRow] (reqs.map aliceAsks)
  | [], _ => trivial
  | req :: reqs, h => by
    obtain ⟨hpost, hlogin, hbody⟩ := h req List.mem_cons_self
    exact ⟨Backend.aliceLogin_guard hpost hlogin hbody,
      legal_aliceAsks fun r hr => h r (List.mem_cons_of_mem req hr)⟩

/-- A request of another connection, and two steps of this one. -/
theorem legal_between {served : ServedRun} {table : List UserRow} {first : Handled Conn}
    {step step' : ServedStep} {as : List (Handled Conn)} (hfirst : b.requests.guard table first)
    (hanswered : first.result ≠ none)
    (hg : (ServedRun.machine httpCallback).guard served step)
    (hh : Handles httpCallback served step as) (hl : b.requests.Legal first.table as)
    (hg' : (ServedRun.machine httpCallback).guard
      ((ServedRun.machine httpCallback).next served step) step')
    (hh' : Handles httpCallback ((ServedRun.machine httpCallback).next served step) step'
      ([] : List (Handled Conn))) :
    (machine b httpCallback).Legal ⟨served, table⟩
      [.other first, .connection step as, .connection step' []] :=
  ⟨⟨hfirst, hanswered⟩, ⟨hg, hh, hl⟩, ⟨hg', hh', trivial⟩, trivial⟩

theorem legal_aliceSite {as : List (Handled Nat)}
    (hh : Handles indexCallback ServedRun.fresh loginRead as)
    (hl : (Backend.pagesRoot.requests).Legal [Backend.aliceRow] as) :
    (machine Backend.pagesRoot indexCallback).Legal newSite (aliceSite as) := by
  have hread : (ServedRun.machine indexCallback).guard ServedRun.fresh loginRead := by
    refine ⟨?_, ⟨rfl, rfl, rfl⟩, ServedRun.exists_returns (by decide +kernel)⟩
    show _ ≠ (none : Option (BitVec 32))
    decide +kernel
  have hwritten : (ServedRun.machine indexCallback).guard
      ((ServedRun.machine indexCallback).next ServedRun.fresh loginRead) restWritten := by
    refine ⟨?_, ⟨rfl, rfl, rfl⟩, ServedRun.exists_returns (by decide +kernel)⟩
    show _ ≠ (none : Option (BitVec 32))
    decide +kernel
  have hquiet : (executed (ServedRun.calls indexCallback ((ServedRun.machine
      indexCallback).next ServedRun.fresh loginRead) restWritten)).isEmpty = true := by
    decide +kernel
  exact legal_between Backend.aliceRegisters_guard (Option.some_ne_none _) hread hh hl hwritten
    (handles_nothing (List.isEmpty_iff.mp hquiet))

/-- Where the connection ends. -/
def aliceServed : ServedRun :=
  (ServedRun.machine indexCallback).after ServedRun.fresh [loginRead, restWritten]

/-- The connection does not see the other requests. -/
theorem served_after {served : ServedRun} {table : List UserRow} {first : Handled Conn}
    {step step' : ServedStep} {as : List (Handled Conn)} :
    ((machine b httpCallback).after ⟨served, table⟩
      [.other first, .connection step as, .connection step' []]).served =
      (ServedRun.machine httpCallback).after served [step, step'] := rfl

/-- `alice` logs in over the connection, and her client reads the index. -/
theorem serves_example :
    (∃ as : List (Handled Nat),
      (machine Backend.pagesRoot indexCallback).Legal newSite (aliceSite as) ∧
      ((machine Backend.pagesRoot indexCallback).after newSite (aliceSite as)).served =
        aliceServed) ∧
    ClientReads aliceServed.http [indexPage false] := by
  have hsmall : Backend.pagesRoot.Small := fun filename contents hfile => by
    have hpage : ∀ page ∈ Backend.pages, page.length < 2 ^ 31 := by decide
    unfold Backend.pagesRoot at hfile
    simp only at hfile
    split at hfile
    · rename_i hany
      obtain ⟨page, hmem, hname⟩ := List.any_eq_true.mp hany
      rw [← File.regular.inj hfile, ← of_decide_eq_true hname]
      exact hpage page hmem
    · cases hfile
  have hdrained : aliceServed.http.conn.outputBuffer.readable = [] := by decide +kernel
  have hstate : aliceServed.http.conn.state ≠ .kDisconnected := by decide +kernel
  obtain ⟨reqs, hreqs⟩ : ∃ reqs, reqs =
      executed (ServedRun.calls indexCallback ServedRun.fresh loginRead) := ⟨_, rfl⟩
  have hasked : ∀ req ∈ reqs, req.method = .kPost ∧ req.path = ascii "/login" ∧
      req.body = loginBody (ascii "alice") (ascii "secret") := by
    rw [hreqs]
    decide +kernel
  have hone : reqs.map wantsClose = [false] := by
    rw [hreqs]
    decide +kernel
  have hh : Handles indexCallback ServedRun.fresh loginRead (reqs.map aliceAsks) := by
    rw [hreqs]
    exact handles_aliceAsks ServedRun.fresh loginRead
  have hlegal := legal_aliceSite hh (legal_aliceAsks hasked)
  obtain ⟨-, rs, -, -, -, -, hresults, hreads⟩ := serves hsmall
    ⟨ServedRun.fresh_init indexCallback, Backend.validTable_nil⟩ hlegal
  have hend : ((machine Backend.pagesRoot indexCallback).after newSite
      (aliceSite (reqs.map aliceAsks))).served = aliceServed := served_after
  rw [hend] at hreads
  have hown : (aliceSite (reqs.map aliceAsks)).flatMap SiteAction.own = reqs.map aliceAsks := by
    simp only [aliceSite, List.flatMap_cons, List.flatMap_nil, SiteAction.own, List.nil_append,
      List.append_nil]
  have hrs : rs = [indexPage false] := by
    have hpages : rs.map some = ((reqs.map wantsClose).map indexPage).map some := by
      rw [← hresults, hown, List.map_map, List.map_map, List.map_map]
      rfl
    rw [hone] at hpages
    exact List.map_injective_iff.mpr (Option.some_injective _) hpages
  rw [hrs] at hreads
  exact ⟨⟨_, hlegal, hend⟩, hreads hdrained hstate⟩

end Site

end SimpleHttpServer
