import Relay.Delivery.Worker
import Relay.Lib.Effects

/-!
# What an agent run works with

The model's replies, the failures of its calls and all else that the surroundings
decide are functions of the number of awaits so far, so that any sequence of them
is covered. A refused select and a failed commit leave the session unusable, as no
tool rolls it back.
-/

namespace Relay.Agent

open Worker

/-- An exception; a fatal one is no `Exception`, and no handler of the agent catches it. -/
structure Exn where
  kind : String
  message : String
  fatal : Bool := false

/-- A call to the database or to Redis fails, before or after it has taken effect, or
its statement is refused by the database or lost with the connection. -/
inductive Fault where
  | none
  | before (e : Exn)
  | after (e : Exn)
  | refused (e : Exn)

/-- The transaction of a session. A refused statement aborts it in the database, a failed
flush deactivates it in the session; `session.rollback()` would begin another one. -/
inductive Transaction where
  | usable
  | aborted
  | deactivated
  deriving DecidableEq

/-- A content block of a response: text or the use of a tool. -/
structure Block where
  type : String
  text : String := ""
  id : String := ""
  name : String := ""
  input : Option (List (String × Json)) := none

structure Response where
  content : List Block
  inputTokens : Int := 0
  outputTokens : Int := 0

structure ParsedUrl where
  scheme : String
  hostname : Option String
  port : Option Nat

/-- How the TLS handshake of `check_dns_tls` ends. -/
inductive Handshake where
  | valid (notAfter : ℚ) (issuer : Option String)
  | unverified (text : String)
  | failed (text : String)

structure Surroundings where
  reply : Nat → Except Exn Response
  fault : Nat → Fault
  clock : Nat → ℚ
  uuid4 : Nat → Uuid
  /-- `started_at` of the attempts by their number, `created_at` of the endpoints. -/
  startedAt : Nat → ℚ
  createdAt : Uuid → ℚ
  isoformat : ℚ → String
  sendDelivery : Nat → Except Exn (AttemptResult PyStr)
  urlparse : String → Except Exn ParsedUrl
  getaddrinfo : Nat → Except Exn (Except String (List String))
  handshake : Nat → Except Exn Handshake
  getLlm : Except Exn Unit
  /-- Dollars for an input and for an output token. -/
  price : ℚ × ℚ

/-- The fields of `AgentState` that no node assigns. -/
structure Subject where
  endpointId : Uuid
  diagnosisId : Uuid
  triggeredBy : String

/-- Those that the nodes fill in. -/
structure AgentState where
  triageNotes : String := ""
  hypothesis : String := ""
  verificationNotes : String := ""
  evidence : List (String × Json) := []
  toolCallsMade : List String := []
  verified : Bool := false
  result : Option (List (String × Json)) := none
  inputTokens : Int := 0
  outputTokens : Int := 0

structure Progress where
  store : Store
  awaits : Nat := 0
  transaction : Transaction := .usable
  state : AgentState := {}

abbrev AgentM := Effects.Program Exn Progress

/-! Dictionaries -/

def lookup (fields : List (String × Json)) (key : String) : Option Json :=
  (fields.find? (fun f => f.1 = key)).map Prod.snd

/-- `d[key] = value`. -/
def assign (fields : List (String × Json)) (key : String) (value : Json) : List (String × Json) :=
  if fields.any (fun f => f.1 = key) then
    fields.map (fun f => if f.1 = key then (key, value) else f)
  else fields ++ [(key, value)]

theorem lookup_assign_self (fields : List (String × Json)) (key : String) (value : Json) :
    lookup (assign fields key value) key = some value := by
  unfold assign
  split
  · rename_i present
    obtain ⟨f, listed, named⟩ := List.any_eq_true.mp present
    have same : ((fun f : String × Json => decide (f.1 = key)) ∘
        fun f => if f.1 = key then (key, value) else f) = fun f => decide (f.1 = key) := by
      funext f
      by_cases h : f.1 = key <;> simp [h]
    unfold lookup
    rw [List.find?_map, same]
    cases found : fields.find? (fun f => decide (f.1 = key)) with
    | none => exact absurd named (List.find?_eq_none.mp found f listed)
    | some g =>
      have own : g.1 = key := of_decide_eq_true (List.find?_some found :)
      simp only [Option.map_some, if_pos own]
  · rename_i absent
    have missing : fields.find? (fun f => decide (f.1 = key)) = none := by
      rw [List.find?_eq_none]
      intro f listed named
      exact absent (List.any_eq_true.mpr ⟨f, listed, named⟩)
    unfold lookup
    rw [List.find?_append, missing, List.find?_singleton]
    simp

theorem mem_assign {fields : List (String × Json)} {key : String} {value : Json}
    {f : String × Json} (listed : f ∈ assign fields key value) :
    f = (key, value) ∨ f ∈ fields := by
  unfold assign at listed
  split at listed
  · obtain ⟨g, member, now⟩ := List.mem_map.mp listed
    split at now
    · exact Or.inl now.symm
    · exact Or.inr (now ▸ member)
  · rcases List.mem_append.mp listed with member | new
    · exact Or.inr member
    · exact Or.inl (List.mem_singleton.mp new)

theorem lookup_assign_ne (fields : List (String × Json)) {key other : String} (ne : other ≠ key)
    (value : Json) : lookup (assign fields key value) other = lookup fields other := by
  unfold assign lookup
  split
  · have same : ((fun f : String × Json => decide (f.1 = other)) ∘
        fun f => if f.1 = key then (key, value) else f) = fun f => decide (f.1 = other) := by
      funext f
      by_cases h : f.1 = key <;> simp [h]
    rw [List.find?_map, same]
    cases found : fields.find? (fun f => decide (f.1 = other)) with
    | none => rfl
    | some g =>
      have own : g.1 = other := of_decide_eq_true (List.find?_some found :)
      have apart : g.1 ≠ key := fun h => ne (own.symm.trans h)
      simp only [Option.map_some, if_neg apart]
  · rw [List.find?_append, List.find?_singleton]
    simp [ne.symm]

def Json.ofNat (n : Nat) : Json := .num n

def Json.ofPyStr (text : PyStr) : Json :=
  if text.Encodable then .str text.scalars else .illFormed text

def Json.optional {α : Type} (f : α → Json) : Option α → Json
  | none => .null
  | some a => f a

/-- A TEXT column takes no other value than a string without U+0000. -/
def asText : Json → Except Exn String
  | .str text =>
    if nul ∈ text.toList then
      .error ⟨"DBAPIError", "invalid byte sequence for encoding", false⟩
    else .ok text
  | .illFormed _ => .error ⟨"DataError", "surrogates not allowed", false⟩
  | _ => .error ⟨"DataError", "invalid input for query argument: expected str", false⟩

def asJsonb (fields : List (String × Json)) : Except Exn (List (String × Json)) :=
  if (Json.obj fields).Storable then .ok fields
  else .error ⟨"DBAPIError", "unsupported Unicode escape sequence", false⟩

/-! Awaits -/

/-- The number of this await. -/
def await : AgentM Nat := do
  let p ← get
  modify (fun p => { p with awaits := p.awaits + 1 })
  pure p.awaits

def update (f : AgentState → AgentState) : AgentM PUnit :=
  modify (fun p => { p with state := f p.state })

def setTransaction (transaction : Transaction) : AgentM PUnit :=
  modify (fun p => { p with transaction := transaction })

def abort : AgentM PUnit := setTransaction .aborted

def deactivate : AgentM PUnit := setTransaction .deactivated

def setDb (db : Db) : AgentM PUnit :=
  modify (fun p => { p with store := { p.store with db := db } })

def pendingRollback : Exn :=
  ⟨"PendingRollbackError", "This Session's transaction has been rolled back", false⟩

def inFailedTransaction : Exn :=
  ⟨"DBAPIError", "current transaction is aborted, commands ignored until end of block", false⟩

def noResultFound : Exn :=
  ⟨"NoResultFound", "No row was found when one was required", false⟩

/-- How a commit ends; one that fails leaves the session without a transaction. -/
def settle : Fault → Except Exn Db → AgentM PUnit
  | .none, .ok db => setDb db
  | .none, .error e => do
    deactivate
    throw e
  | .before e, _ | .refused e, _ => do
    deactivate
    throw e
  | .after e, .ok db => do
    setDb db
    deactivate
    throw e
  | .after _, .error e => do
    deactivate
    throw e

section Calls

variable (env : Surroundings) {α : Type}

/-- How a select ends; one that is refused aborts the transaction. -/
def answer (found : α) : Fault → AgentM α
  | .none => pure found
  | .before e | .after e => throw e
  | .refused e => do
    abort
    throw e

/-- `session.execute` of a select. -/
def execute (query : Db → α) : AgentM α := do
  let n ← await
  let p ← get
  match p.transaction with
  | .deactivated => throw pendingRollback
  | .aborted => throw inFailedTransaction
  | .usable => answer (query p.store.db) (env.fault n)

/-- A read from Redis. -/
def readRedis (read : Store → α) : AgentM α := do
  let n ← await
  let p ← get
  match env.fault n with
  | .none => pure (read p.store)
  | .before e | .after e | .refused e => throw e

/-- `session.commit` of the rows that were added or changed. -/
def commit (write : Db → Except Exn Db) : AgentM PUnit := do
  let n ← await
  let p ← get
  match p.transaction with
  | .deactivated => throw pendingRollback
  | .aborted => do
    -- the statement of the flush is ignored, and so the flush fails
    deactivate
    throw inFailedTransaction
  | .usable => settle (env.fault n) (write p.store.db)

end Calls

end Relay.Agent
