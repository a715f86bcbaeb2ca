import Relay.Agent.Session
import Relay.Text
import Mathlib.Data.List.Sort
import Mathlib.Data.Rat.Floor

/-!
# The tools of the agent

Four tools read; the two mutating ones only add a pending row. `dispatch` turns
what they raise into results.
-/

namespace Relay.Agent

open CircuitBreaker Worker

def snippetSamples : Nat := 3

def verificationTools : List String := ["probe_endpoint", "check_dns_tls"]

/-- `MUTATING_TOOLS`, with the action that each requests. -/
def actionOf : String → Option ActionKind
  | "pause_endpoint" => some .pauseEndpoint
  | "replay_dlq" => some .replayDlq
  | _ => none

/-! Numbers -/

/-- The characters that `str.strip` removes. -/
def isSpace (c : Char) : Bool :=
  let n := c.toNat
  (9 ≤ n ∧ n ≤ 13) ∨ (28 ≤ n ∧ n ≤ 32) ∨ n = 0x85 ∨ n = 0xa0 ∨ n = 0x1680 ∨
    (0x2000 ≤ n ∧ n ≤ 0x200a) ∨ n = 0x2028 ∨ n = 0x2029 ∨ n = 0x202f ∨
      n = 0x205f ∨ n = 0x3000

def strip (s : String) : String :=
  String.ofList ((s.toList.dropWhile isSpace).reverse.dropWhile isSpace).reverse

def stripPyStr (s : PyStr) : PyStr :=
  let space (c : PyChar) : Bool := c.char.any isSpace
  ((s.dropWhile space).reverse.dropWhile space).reverse

/-- Decimal digits, with single underscores between them. -/
def digits (value : Nat) (afterDigit : Bool) : List Char → Option Nat
  | [] => if afterDigit then some value else none
  | c :: rest =>
    if c.isDigit then digits (value * 10 + (c.toNat - '0'.toNat)) true rest
    else if c = '_' ∧ afterDigit then digits value false rest
    else none

def intOfText (s : String) : Option Int :=
  match (strip s).toList with
  | '-' :: rest => (digits 0 false rest).map (fun n => -(n : Int))
  | '+' :: rest => (digits 0 false rest).map Int.ofNat
  | rest => (digits 0 false rest).map Int.ofNat

/-- `int(value)`; a float is cut off towards zero. -/
def toInt : Json → Except Exn Int
  | .num q => .ok (if 0 ≤ q then ⌊q⌋ else ⌈q⌉)
  | .bool b => .ok (if b then 1 else 0)
  | .str text =>
    match intOfText text with
    | some n => .ok n
    | none => .error ⟨"ValueError", "invalid literal for int() with base 10", false⟩
  | .illFormed _ => .error ⟨"ValueError", "invalid literal for int() with base 10", false⟩
  | _ => .error ⟨"TypeError", "int() argument must be a string or a real number", false⟩

/-- Half to even, at so many decimal places. -/
def round (places : Nat) (q : ℚ) : ℚ :=
  let scaled := q * 10 ^ places
  let below := ⌊scaled⌋
  let rest := scaled - below
  let nearest := if rest < 1 / 2 then below else if 1 / 2 < rest then below + 1
    else if below % 2 = 0 then below else below + 1
  nearest / 10 ^ places

/-- What `timedelta(minutes=...)` takes, and the first and the last `datetime` in seconds. -/
def maxMinutes : Int := 999999999 * 1440
def minTime : ℚ := -62135596800
def maxTime : ℚ := 253402300800

def minutesBefore (now : ℚ) (minutes : Int) : Except Exn ℚ :=
  let since := now - minutes * 60
  if minutes ≤ maxMinutes ∧ -maxMinutes ≤ minutes ∧ minTime ≤ since ∧
    since < maxTime then
    .ok since
  else .error ⟨"OverflowError", "date value out of range", false⟩

/-! query_attempts -/

def increment (counts : List (String × Nat)) (key : String) : List (String × Nat) :=
  if counts.any (fun c => c.1 = key) then
    counts.map (fun c => if c.1 = key then (key, c.2 + 1) else c)
  else counts ++ [(key, 1)]

def countBy (keys : List String) : Json :=
  .obj ((keys.foldl increment []).map (fun c => (c.1, Json.ofNat c.2)))

/-- `text or default`. -/
def orText (text : Option String) (default : String) : String :=
  match text with
  | none => default
  | some "" => default
  | some t => t

/-- `error_class` is neither NULL nor empty. -/
def isFailure (a : DeliveryAttempt) : Bool := a.errorClass.any (fun e => e ≠ "")

/-- The attempts of an endpoint from a time on, with their times, earliest first. -/
def attemptsSince (env : Surroundings) (endpointId : Uuid) (since : ℚ) (db : Db) :
    List (ℚ × DeliveryAttempt) :=
  ((db.attempts.zipIdx.map (fun (a, n) => (env.startedAt n, a))).filter
    (fun (time, a) => since ≤ time ∧
      (db.delivery a.deliveryId).any (fun d => d.endpointId = endpointId))).insertionSort
    (fun a b => a.1 ≤ b.1)

def summary (env : Surroundings) (rows : List (ℚ × DeliveryAttempt)) : List (String × Json) :=
  let failures := rows.filter (fun (_, a) => isFailure a)
  let latencies := rows.map (fun (_, a) => a.latencyMs)
  let ordered := latencies.insertionSort (· ≤ ·)
  let at_ (i : Nat) : Json := Json.ofNat (ordered.getD i 0)
  let snippets := rows.filterMap (fun (_, a) =>
    if isFailure a then a.responseSnippet.filter (fun s => s ≠ "") else none)
  if rows = [] then
    [("total_attempts", Json.ofNat 0), ("note", .str "no attempts recorded in this window")]
  else
    [("total_attempts", Json.ofNat rows.length),
      ("failed_attempts", Json.ofNat failures.length),
      ("failure_rate", .num (round 3 (failures.length / rows.length))),
      ("counts_by_error_class", countBy (rows.map (fun (_, a) => orText a.errorClass "success"))),
      ("counts_by_http_status", countBy (rows.map (fun (_, a) =>
        match a.httpStatus with
        | none => "none"
        | some 0 => "none"
        | some n => toString n))),
      ("latency_ms", .obj [
        ("p50", at_ (ordered.length / 2)),
        ("p95", at_ (min (ordered.length - 1) (ordered.length * 95 / 100))),
        ("max", at_ (ordered.length - 1)),
        ("mean", .num (round 1 (latencies.sum / latencies.length)))]),
      ("first_failed_at", Json.optional (fun f => .str (env.isoformat f.1)) failures.head?),
      ("last_failed_at", Json.optional (fun f => .str (env.isoformat f.1)) failures.getLast?),
      ("sample_response_snippets", .arr ((snippets.take snippetSamples).map (fun s =>
        .str (String.ofList (s.toList.take 200)))))]

def queryAttempts (env : Surroundings) (endpointId : Uuid) (windowMinutes : Int) :
    AgentM (List (String × Json)) := do
  let p ← get
  match minutesBefore (env.clock p.awaits) windowMinutes with
  | .error e => throw e
  | .ok since => do
    let rows ← execute env (attemptsSince env endpointId since)
    pure (summary env rows)

/-! The other read-only tools -/

def loadEndpoint (env : Surroundings) (endpointId : Uuid) : AgentM Endpoint := do
  match (← execute env (fun db => db.endpoint endpointId)) with
  | none => throw noResultFound
  | some endpoint => pure endpoint

def orderingText : Ordering → String
  | .ordered => "ordered"
  | .unordered => "unordered"

def endpointStatusText : EndpointStatus → String
  | .active => "active"
  | .paused => "paused"
  | .disabled => "disabled"

/-- `get_state` of the breaker. -/
def getState (b : Breaker) : List (String × Json) :=
  [("state", .str (stateText b.current)),
    ("consecutive", Json.ofNat (b.consecutive.getD 0)),
    ("opened_at", Json.optional .num b.openedAt),
    ("last_probe_at", Json.optional .num b.lastProbeAt)]

def getEndpointConfig (env : Surroundings) (endpointId : Uuid) :
    AgentM (List (String × Json)) := do
  let endpoint ← loadEndpoint env endpointId
  let dead ← execute env (fun db => db.dead endpointId)
  let breaker ← readRedis env (fun s => getState (s.breakers endpointId))
  pure [("url", .str endpoint.url),
    ("ordering", .str (orderingText endpoint.ordering)),
    ("status", .str (endpointStatusText endpoint.status)),
    ("event_types", .arr (endpoint.eventTypes.map Json.str)),
    ("created_at", .str (env.isoformat (env.createdAt endpointId))),
    ("breaker", .obj breaker),
    ("dead_letter_count", Json.ofNat dead.length)]

/-- The only tool that sends anything; nothing of it is stored. -/
def probeEndpoint (env : Surroundings) (endpointId : Uuid) : AgentM (List (String × Json)) := do
  let endpoint ← loadEndpoint env endpointId
  let n ← await
  match env.sendDelivery n with
  | .error e => throw e
  | .ok result =>
    pure [("probed_url", .str endpoint.url),
      ("http_status", Json.optional Json.ofNat result.httpStatus),
      ("latency_ms", Json.ofNat result.latencyMs),
      ("error_class", Json.optional .str result.errorClass),
      ("succeeded", .bool result.succeeded),
      ("response_snippet", Json.ofPyStr ((result.responseSnippet.getD []).take 300))]

/-- `parsed.port or (443 if parsed.scheme == "https" else 80)`. -/
def portOf (parsed : ParsedUrl) : Nat :=
  match parsed.port with
  | none => if parsed.scheme = "https" then 443 else 80
  | some 0 => if parsed.scheme = "https" then 443 else 80
  | some port => port

def handshakeReport (env : Surroundings) (now : ℚ) : Handshake → List (String × Json)
  | .valid notAfter issuer =>
    [("valid", .bool true), ("hostname_matches", .bool true),
      ("expires_at", .str (env.isoformat notAfter)),
      ("days_until_expiry", .num (⌊(notAfter - now) / 86400⌋ : ℤ)),
      ("issuer", Json.optional .str issuer)]
  | .unverified text => [("valid", .bool false), ("verification_error", .str text)]
  | .failed text => [("valid", .bool false), ("error", .str text)]

def checkDnsTls (env : Surroundings) (endpointId : Uuid) : AgentM (List (String × Json)) := do
  let endpoint ← loadEndpoint env endpointId
  let n ← await
  match env.urlparse endpoint.url, env.getaddrinfo n with
  | .error e, _ => throw e
  | _, .error e => throw e
  | .ok parsed, .ok resolved =>
    let out := [("host", .str (parsed.hostname.getD "")), ("port", Json.ofNat (portOf parsed)),
      ("scheme", .str parsed.scheme)]
    match resolved with
    | .error text => pure (out ++ [("dns_resolved", .bool false), ("dns_error", .str text)])
    | .ok addresses =>
      let out := out ++ [("dns_resolved", .bool true),
        ("addresses", .arr ((addresses.dedup.insertionSort (· ≤ ·)).map Json.str))]
      if parsed.scheme = "https" then
        match env.handshake n with
        | .error e => throw e
        | .ok handshake =>
          pure (out ++ [("tls", .obj (handshakeReport env (env.clock n) handshake))])
      else pure (out ++ [("tls", .str "not applicable (plain http)")])

/-! The mutating tools -/

/-- The row that `request_mutation` adds; status and `decided_at` are the column defaults. -/
def proposal (subject : Subject) (id : Uuid) (kind : ActionKind) (reason : String) : AgentAction :=
  { id := id, diagnosisId := subject.diagnosisId, endpointId := subject.endpointId,
    action := kind, reason := reason }

def integrityError (name : String) : Exn := ⟨"IntegrityError", name, false⟩

/-- INSERT of a pending action; the keys of the row are checked. -/
def addAction (row : AgentAction) (db : Db) : Except Exn Db :=
  if (db.diagnosis row.diagnosisId).isSome ∧ (db.endpoint row.endpointId).isSome ∧
      (db.action row.id).isNone then
    .ok { db with actions := db.actions ++ [row] }
  else .error (integrityError "agent_actions")

/-- The reason must be a text that the column takes. -/
def writeAction (subject : Subject) (id : Uuid) (kind : ActionKind) (reason : Json) (db : Db) :
    Except Exn Db := do
  let text ← asText reason
  addAction (proposal subject id kind text) db

/-- Record a mutating action as pending. Nothing is executed here. -/
def requestMutation (env : Surroundings) (subject : Subject) (name : String) (kind : ActionKind)
    (reason : Json) : AgentM (List (String × Json)) := do
  let p ← get
  let id := env.uuid4 p.awaits
  commit env (writeAction subject id kind reason)
  pure [("status", .str "pending_human_approval"),
    ("action_id", .str (uuidText id)),
    ("action", .str name),
    ("note", .str ("Recorded for operator review. Nothing has been changed. Do not assume " ++
      "this action has taken effect."))]

/-- Route a tool call to its implementation. -/
def route (env : Surroundings) (subject : Subject) (name : String) (input : List (String × Json)) :
    AgentM (List (String × Json)) :=
  if name = "query_attempts" then
    match toInt ((lookup input "window_minutes").getD (.num 60)) with
    | .error e => throw e
    | .ok minutes => queryAttempts env subject.endpointId minutes
  else if name = "get_endpoint_config" then getEndpointConfig env subject.endpointId
  else if name = "probe_endpoint" then probeEndpoint env subject.endpointId
  else if name = "check_dns_tls" then checkDnsTls env subject.endpointId
  else
    match actionOf name with
    | some kind =>
      requestMutation env subject name kind ((lookup input "reason").getD (.str ""))
    | none => pure [("error", .str ("unknown tool: " ++ name))]

/-- A failing tool does not end the run: its exception becomes its result. -/
def dispatch (env : Surroundings) (subject : Subject) (name : String)
    (input : List (String × Json)) : AgentM Json := do
  let result ← tryCatch (route env subject name input) (fun e =>
    if e.fatal then throw e
    else pure [("error", .str (e.kind ++ ": " ++ e.message))])
  pure (.obj result)

end Relay.Agent
