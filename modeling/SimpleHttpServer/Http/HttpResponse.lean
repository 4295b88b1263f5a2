import SimpleHttpServer.Http.HttpRequest
import SimpleHttpServer.Net.ByteQueue

/-!
# `HttpResponse`

`http/HttpResponse.h` and `http/HttpResponse.cpp`. Every `output->append(..)` of `appendToBuffer`
takes a `std::string`, so each piece of the response goes through the `int` length of that
overload; `appendToBuffer_of_encodable` is what a response of short pieces becomes.
-/

namespace SimpleHttpServer

/-- `HttpResponse::HttpStatusCode`. -/
inductive HttpStatusCode where
  | kUnknown | k200Ok | k301MovedPermanently | k400BadRequest | k404NotFound
  deriving DecidableEq, Repr

/-- The value of a status code. -/
def HttpStatusCode.value : HttpStatusCode → Nat
  | .kUnknown => 0
  | .k200Ok => 200
  | .k301MovedPermanently => 301
  | .k400BadRequest => 400
  | .k404NotFound => 404

/-- `class HttpResponse`. -/
structure HttpResponse where
  headers : HeaderMap := ∅
  statusCode : HttpStatusCode := .kUnknown
  statusMessage : Bytes := []
  closeConnection : Bool
  body : Bytes := []

namespace HttpResponse

/-- `setStatusCode(code)`. -/
def setStatusCode (r : HttpResponse) (code : HttpStatusCode) : HttpResponse :=
  { r with statusCode := code }

/-- `setStatusMessage(message)`. -/
def setStatusMessage (r : HttpResponse) (message : Bytes) : HttpResponse :=
  { r with statusMessage := message }

/-- `setCloseConnection(on)`. -/
def setCloseConnection (r : HttpResponse) (on : Bool) : HttpResponse :=
  { r with closeConnection := on }

/-- `setBody(body)`. -/
def setBody (r : HttpResponse) (body : Bytes) : HttpResponse := { r with body }

/-- `snprintf(buf, sizeof buf, ..)` for `char buf[32]`, read back as a C string. -/
def snprintf32 (text : Bytes) : Bytes := text.take 31

/-- The strings `appendToBuffer` appends, in order. -/
def pieces (r : HttpResponse) : List Bytes :=
  [snprintf32 (ascii "HTTP/1.1 " ++ decimal r.statusCode.value ++ ascii " "), r.statusMessage,
    ascii "\r\n"] ++
  (if r.closeConnection then [ascii "Connection: close\r\n"]
    else [snprintf32 (ascii "Content-Length: " ++ decimal r.body.length ++ ascii "\r\n"),
      ascii "Connection: Keep-Alive\r\n"]) ++
  r.headers.toList.flatMap (fun h => [h.1, ascii ": ", h.2, ascii "\r\n"]) ++
  [ascii "\r\n", r.body]

/-- `appendToBuffer(output)`. -/
def appendToBuffer (r : HttpResponse) (output : ByteQueue) : Except Fault ByteQueue :=
  r.pieces.foldlM ByteQueue.appendString output

/-- Every piece has a length that is an `int`. -/
def Encodable (r : HttpResponse) : Prop := ∀ p ∈ r.pieces, p.length < 2 ^ 31

theorem foldlM_appendString : ∀ (ps : List Bytes) (q : ByteQueue), (∀ p ∈ ps, p.length < 2 ^ 31) →
    ∃ q', ps.foldlM ByteQueue.appendString q = .ok q' ∧ q'.readable = q.readable ++ ps.flatten
  | [], q, _ => ⟨q, rfl, by simp⟩
  | p :: ps, q, h => by
    obtain ⟨q', hq', hr⟩ := foldlM_appendString ps (q.append p)
      fun x hx => h x (List.mem_cons_of_mem p hx)
    refine ⟨q', ?_, ?_⟩
    · rw [List.foldlM_cons, q.appendString_of_lt (h p List.mem_cons_self)]
      exact hq'
    · rw [hr, ByteQueue.readable_append, List.flatten_cons, List.append_assoc]

/-- **A response of short pieces is appended whole.** -/
theorem appendToBuffer_of_encodable {r : HttpResponse} (h : r.Encodable) (output : ByteQueue) :
    ∃ q, r.appendToBuffer output = .ok q ∧ q.readable = output.readable ++ r.pieces.flatten :=
  foldlM_appendString r.pieces output h

end HttpResponse

end SimpleHttpServer
