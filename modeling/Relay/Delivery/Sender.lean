import Relay.Delivery.Worker
import Relay.Text
import Mathlib.Data.List.Infix

/-!
# The sender

A transport exception and a response both become an `AttemptResult`, but for a
response whose `text` raises: it is evaluated outside the `try`.
-/

namespace Relay.Sender

open Worker

def responseSnippetLimit : Nat := 1024

/-- The classes of httpx that `classify_exception` tells apart; of a connect
error also whether its cause is an `ssl.SSLError`. -/
inductive ExceptionClass where
  | timeoutException
  | connectError (sslCause : Bool)
  | other
  deriving DecidableEq

structure TransportException where
  kind : ExceptionClass
  text : PyStr

/-- `text` is `none` where decoding the body raises, as with the codec `hex`. -/
structure Response where
  statusCode : Nat
  text : Option PyStr
  retryAfter : Option String := none

/-- What `client.post` ends with. -/
inductive Reply where
  | raised (exc : TransportException)
  | answered (response : Response)

/-- `str.lower` on one character, as far as ASCII letters result. -/
def lowerChar (c : Char) : List Char :=
  if c = Char.ofNat 0x212A then ['k']
  else if c = Char.ofNat 0x130 then ['i', Char.ofNat 0x307]
  else [c.toLower]

def lower : PyChar → PyStr
  | .scalar c => (lowerChar c).map PyChar.scalar
  | .surrogate offset => [.surrogate offset]

/-- `word in text.lower()` for a word of ASCII letters and spaces. -/
def mentions (text : PyStr) (word : String) : Bool :=
  decide (PyStr.ofText word <:+: text.flatMap lower)

def classifyException (exc : TransportException) : String :=
  match exc.kind with
  | .timeoutException => "timeout"
  | .connectError sslCause =>
    if sslCause || mentions exc.text "certificate" then "tls"
    else if mentions exc.text "name or service not known" || mentions exc.text "getaddrinfo" then
      "dns"
    else "conn_refused"
  | .other => "conn_refused"

/-- `none` means the attempt succeeded. -/
def classifyStatus (statusCode : Nat) : Option String :=
  if 200 ≤ statusCode ∧ statusCode < 300 then none
  else if 500 ≤ statusCode then some "http_5xx"
  else some "http_4xx"

/-- `text[:RESPONSE_SNIPPET_LIMIT]`. -/
def snippet (text : PyStr) : PyStr := text.take responseSnippetLimit

/-- The text that the snippet is cut from. -/
def Reply.text : Reply → Option PyStr
  | .raised exc => some exc.text
  | .answered response => response.text

/-- The status, the class of the error and the header. -/
def Reply.status : Reply → Option Nat
  | .raised _ => none
  | .answered response => some response.statusCode

def Reply.errorClass : Reply → Option String
  | .raised exc => some (classifyException exc)
  | .answered response => classifyStatus response.statusCode

def Reply.retryAfter : Reply → Option String
  | .raised _ => none
  | .answered response => response.retryAfter

/-- `none` where it raises. -/
def sendDelivery (latencyMs : Nat) : Reply → Option (AttemptResult PyStr)
  | .raised exc => some {
      latencyMs := latencyMs
      httpStatus := none
      errorClass := some (classifyException exc)
      responseSnippet := some (snippet exc.text) }
  | .answered response => response.text.map (fun text => {
      latencyMs := latencyMs
      httpStatus := some response.statusCode
      errorClass := classifyStatus response.statusCode
      responseSnippet := some (snippet text)
      retryAfter := response.retryAfter })

theorem sendDelivery_eq (latencyMs : Nat) (reply : Reply) :
    sendDelivery latencyMs reply = reply.text.map (fun text =>
      ⟨latencyMs, reply.status, reply.errorClass, some (snippet text), reply.retryAfter⟩) := by
  cases reply <;> rfl

/-- An attempt succeeds with the statuses from 200 to 299 and no others. -/
theorem errorClass_eq_none (reply : Reply) : reply.errorClass = none ↔
    ∃ response, reply = .answered response ∧
      200 ≤ response.statusCode ∧ response.statusCode < 300 := by
  cases reply with
  | raised exc => simp [Reply.errorClass]
  | answered response =>
    by_cases good : 200 ≤ response.statusCode ∧ response.statusCode < 300
    · simp [Reply.errorClass, classifyStatus, good]
    · have failed : classifyStatus response.statusCode ≠ none := by
        rw [classifyStatus, if_neg good]
        split <;> exact Option.some_ne_none _
      simpa [Reply.errorClass, failed] using good

example : classifyException
    ⟨.connectError false, .ofText "[Errno -2] Name or service not known"⟩ = "dns" := by
  decide +kernel

end Relay.Sender
