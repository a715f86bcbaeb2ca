import Relay.Agent.Tools

/-!
# The run of the agent

triage, investigate, hypothesize, verify, report. The prompts are left out: what
the model is sent does not restrict what it may reply.
-/

namespace Relay.Agent

def maxInvestigateToolCalls : Nat := 6
def maxVerifyToolCalls : Nat := 2
def maxCostUsdPerRun : ℚ := 1 / 2

/-- `estimate_cost` of the tokens so far. -/
def costUsd (env : Surroundings) (state : AgentState) : ℚ :=
  state.inputTokens * env.price.1 + state.outputTokens * env.price.2

def overBudget (env : Surroundings) (state : AgentState) : Bool :=
  maxCostUsdPerRun ≤ costUsd env state

def textOf (r : Response) : String :=
  strip (String.intercalate "\n" ((r.content.filter (fun b => b.type = "text")).map Block.text))

def toolUses (r : Response) : List Block := r.content.filter (fun b => b.type = "tool_use")

section Nodes

variable (env : Surroundings) (subject : Subject)

def callModel : AgentM Response := do
  let n ← await
  match env.reply n with
  | .error e => throw e
  | .ok response =>
    update (fun state => { state with
      inputTokens := state.inputTokens + response.inputTokens
      outputTokens := state.outputTokens + response.outputTokens })
    pure response

def triageNode : AgentM PUnit := do
  let response ← callModel env
  update (fun state => { state with triageNotes := textOf response })

/-- The uses of tools in one response, in order. -/
def useTools : List Block → AgentM PUnit
  | [] => pure ()
  | block :: rest => do
    let result ← dispatch env subject block.name (block.input.getD [])
    update (fun state => { state with
      toolCallsMade := state.toolCallsMade ++ [block.name]
      evidence := assign state.evidence block.name result
      verified := state.verified || verificationTools.contains block.name })
    useTools rest

/-- Each round uses a tool or is the last, so `maxCalls` rounds are enough. -/
def toolRounds (maxCalls : Nat) : Nat → Nat → AgentM String
  | 0, _ => wrapUp
  | rounds + 1, calls => do
    let p ← get
    if calls < maxCalls ∧ overBudget env p.state = false then
      let response ← callModel env
      match toolUses response with
      | [] => pure (textOf response)
      | uses => do
        useTools env subject uses
        toolRounds maxCalls rounds (calls + uses.length)
    else wrapUp
where
  wrapUp : AgentM String := do
    let response ← callModel env
    pure (textOf response)

def runToolLoop (maxCalls : Nat) : AgentM String := toolRounds env subject maxCalls maxCalls 0

def investigateNode : AgentM PUnit := do
  let _ ← runToolLoop env subject maxInvestigateToolCalls
  pure ()

def hypothesizeNode : AgentM PUnit := do
  let response ← callModel env
  update (fun state => { state with hypothesis := textOf response })

def verifyNode : AgentM PUnit := do
  let notes ← runToolLoop env subject maxVerifyToolCalls
  update (fun state => { state with verificationNotes := notes })

def noDiagnosis : List (String × Json) :=
  [("root_cause", .str "agent_error"), ("confidence", .str "low"),
    ("summary", .str "The agent did not produce a structured diagnosis."),
    ("recommendation", .str "Re-run the diagnosis; no conclusion was reached."),
    ("draft_email", .str "")]

/-- An unverified diagnosis has low confidence, whatever the model claims. -/
def downgrade (result : List (String × Json)) : Except Exn (List (String × Json)) :=
  match (lookup result "summary").getD (.str "") with
  | .str summary =>
    .ok (assign (assign result "confidence" (.str "low")) "summary"
      (.str (strip (summary ++ " [Not verified against a live probe.]"))))
  | .illFormed summary =>
    .ok (assign (assign result "confidence" (.str "low")) "summary"
      (.illFormed (stripPyStr (summary ++ PyStr.ofText " [Not verified against a live probe.]"))))
  | _ => .error ⟨"TypeError", "unsupported operand type(s) for +", false⟩

def reportNode : AgentM PUnit := do
  let response ← callModel env
  let p ← get
  match response.content.find? (fun b => b.type = "tool_use" ∧ b.name = "submit_diagnosis") with
  | none => update (fun state => { state with result := some noDiagnosis })
  | some submission =>
    match submission.input with
    | none => throw ⟨"TypeError", "'NoneType' object is not iterable", false⟩
    | some result =>
      if p.state.verified then update (fun state => { state with result := some result })
      else
        match downgrade result with
        | .error e => throw e
        | .ok result => update (fun state => { state with result := some result })

end Nodes

/-- The loop ends by its own condition: more rounds than calls change nothing. -/
theorem toolRounds_enough (env : Surroundings) (subject : Subject) {maxCalls rounds calls : Nat}
    (enough : maxCalls ≤ calls + rounds) :
    toolRounds env subject maxCalls (rounds + 1) calls =
      toolRounds env subject maxCalls rounds calls := by
  induction rounds generalizing calls with
  | zero =>
    have spent : ¬ calls < maxCalls := by omega
    simp only [toolRounds, spent, false_and, if_false]
    rfl
  | succ rounds ih =>
    rw [toolRounds, toolRounds]
    congr 1
    funext p
    split
    · congr 1
      funext response
      cases uses : toolUses response with
      | nil => rfl
      | cons block rest =>
        have later : maxCalls ≤ calls + (block :: rest).length + rounds := by
          rw [List.length_cons]
          omega
        simp only [ih later]
    · rfl

/-! Persisting -/

def stub (subject : Subject) : Diagnosis :=
  { id := subject.diagnosisId, endpointId := subject.endpointId,
    triggeredBy := subject.triggeredBy, rootCause := "agent_error", confidence := .low,
    evidence := [], recommendation := "", draftEmail := "" }

/-- INSERT of the stub; the keys of the row are checked. -/
def addDiagnosis (row : Diagnosis) (db : Db) : Except Exn Db :=
  if (db.endpoint row.endpointId).isSome ∧ (db.diagnosis row.id).isNone then
    .ok { db with diagnoses := db.diagnoses ++ [row] }
  else .error (integrityError "diagnoses")

/-- The CHECK constraint on `confidence`. -/
def asConfidence : String → Except Exn Confidence
  | "low" => .ok .low
  | "medium" => .ok .medium
  | "high" => .ok .high
  | _ => .error (integrityError "ck_diagnoses_confidence")

/-- The evidence that `_persist_result` assigns. -/
def evidenceOf (state : AgentState) (result : List (String × Json)) : List (String × Json) :=
  [("tool_calls", .arr (state.toolCallsMade.map Json.str)),
    ("verified", .bool state.verified),
    ("findings", .obj state.evidence),
    ("triage", .str state.triageNotes),
    ("hypothesis", .str state.hypothesis),
    ("verification", .str state.verificationNotes),
    ("summary", (lookup result "summary").getD (.str ""))]

/-- The columns that it assigns; the status stays. -/
def conclude (env : Surroundings) (state : AgentState) (row : Diagnosis) :
    Except Exn Diagnosis := do
  let result := state.result.getD []
  let rootCause ← asText ((lookup result "root_cause").getD (.str "agent_error"))
  let confidence ← asText ((lookup result "confidence").getD (.str "low"))
  let recommendation ← asText ((lookup result "recommendation").getD (.str ""))
  let draftEmail ← asText ((lookup result "draft_email").getD (.str ""))
  let level ← asConfidence confidence
  let evidence ← asJsonb (evidenceOf state result)
  pure { row with
    rootCause := rootCause
    confidence := level
    recommendation := recommendation
    draftEmail := draftEmail
    costUsd := round 6 (costUsd env state)
    evidence := evidence }

/-- The assigned columns of `row` in the stored row. -/
def overwrite (row old : Diagnosis) : Diagnosis :=
  { old with
    rootCause := row.rootCause
    confidence := row.confidence
    recommendation := row.recommendation
    draftEmail := row.draftEmail
    costUsd := row.costUsd
    evidence := row.evidence }

/-- UPDATE of the diagnosis of this run by its primary key. -/
def writeDiagnosis (env : Surroundings) (subject : Subject) (state : AgentState) (db : Db) :
    Except Exn Db := do
  let row ← conclude env state (stub subject)
  pure { db with
    diagnoses := Table.update Diagnosis.id db.diagnoses subject.diagnosisId (overwrite row) }

def persistResult (env : Surroundings) (subject : Subject) : AgentM PUnit := do
  let p ← get
  commit env (writeDiagnosis env subject p.state)

/-- The compiled graph, a line of five nodes. -/
def graph (env : Surroundings) (subject : Subject) : AgentM PUnit := do
  triageNode env
  investigateNode env subject
  hypothesizeNode env
  verifyNode env subject
  reportNode env

/-- After the stub is there: the client, the graph, the result. -/
def diagnose (env : Surroundings) (subject : Subject) : AgentM PUnit :=
  match env.getLlm with
  | .error e => throw e
  | .ok () => do
    graph env subject
    persistResult env subject

def runDiagnosis (env : Surroundings) (subject : Subject) : AgentM PUnit := do
  commit env (addDiagnosis (stub subject))
  diagnose env subject

end Relay.Agent
