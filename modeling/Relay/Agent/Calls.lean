import Relay.Agent.Frame

/-!
# The calls of a run

What a tool loop calls, in order, with the results. A call that ends the run has
none and is left out. The state of the agent is a summary of these lists: which
names there were, the last result of each, and whether a verification tool was one.
-/

namespace Relay.Agent

open Effects

/-- What the loop notes of a tool that has answered. -/
def noted (name : String) (result : Json) (state : AgentState) : AgentState :=
  { state with
    toolCallsMade := state.toolCallsMade ++ [name]
    evidence := assign state.evidence name result
    verified := state.verified || verificationTools.contains name }

/-- `began` is the number of awaits before the call. -/
structure Call where
  name : String
  input : List (String × Json)
  began : Nat
  result : Json

namespace Call

/-- The call of a block that is dispatched now. -/
def of (block : Block) (p : Progress) (result : Json) : Call :=
  ⟨block.name, block.input.getD [], p.awaits, result⟩

/-- The tool is one of those that try the endpoint. -/
def tests (c : Call) : Bool := verificationTools.contains c.name

/-- It came back as `{'error': ...}`. -/
def failed (c : Call) : Bool :=
  match c.result with
  | .obj fields => (lookup fields "error").isSome
  | _ => false

def note (c : Call) : AgentState → AgentState := noted c.name c.result

end Call

section Loops

variable (env : Surroundings) (subject : Subject)

def serve (block : Block) : AgentM Json := dispatch env subject block.name (block.input.getD [])

/-- Those of one response. -/
def callsOf : List Block → Progress → List Call
  | [], _ => []
  | block :: rest, p =>
    match outcome (serve env subject block) p with
    | .error _ => []
    | .ok result =>
      let call := Call.of block p result
      let q := final (serve env subject block) p
      call :: callsOf rest { q with state := call.note q.state }

/-- Those of the rounds of a loop. -/
def loopCalls (maxCalls : Nat) : Nat → Nat → Progress → List Call
  | 0, _, _ => []
  | rounds + 1, calls, p =>
    if calls < maxCalls ∧ overBudget env p.state = false then
      match outcome (callModel env) p with
      | .error _ => []
      | .ok response =>
        let q := final (callModel env) p
        match toolUses response with
        | [] => []
        | uses => callsOf env subject uses q ++
          match outcome (useTools env subject uses) q with
          | .error _ => []
          | .ok _ =>
            loopCalls maxCalls rounds (calls + uses.length) (final (useTools env subject uses) q)
    else []

end Loops

/-! The state as their summary -/

/-- What a state has gained by these calls; the texts and the tokens are left open. -/
structure Logged (calls : List Call) (before after : AgentState) : Prop where
  names : after.toolCallsMade = before.toolCallsMade ++ calls.map Call.name
  evidence : after.evidence =
    calls.foldl (fun evidence c => assign evidence c.name c.result) before.evidence
  verified : after.verified = (before.verified || calls.any Call.tests)

namespace Logged

variable {first second : List Call} {before now after : AgentState}

theorem none (names : after.toolCallsMade = before.toolCallsMade)
    (evidence : after.evidence = before.evidence) (verified : after.verified = before.verified) :
    Logged [] before after where
  names := by rw [names, List.map_nil, List.append_nil]
  evidence := by rw [evidence, List.foldl_nil]
  verified := by rw [verified, List.any_nil, Bool.or_false]

theorem of_same (same : after = before) : Logged [] before after := by
  rw [same]
  exact none rfl rfl rfl

theorem call (c : Call) (state : AgentState) : Logged [c] state (c.note state) where
  names := rfl
  evidence := rfl
  verified := by
    rw [List.any_cons, List.any_nil, Bool.or_false]
    rfl

theorem append (earlier : Logged first before now) (later : Logged second now after) :
    Logged (first ++ second) before after where
  names := by rw [later.names, earlier.names, List.map_append, List.append_assoc]
  evidence := by rw [later.evidence, earlier.evidence, List.foldl_append]
  verified := by rw [later.verified, earlier.verified, List.any_append, Bool.or_assoc]

end Logged

/-! What holds of the parts of a run together with their calls -/

/-- A relation that the awaits, the notes and the dispatched tools meet, each with its calls. -/
structure Summarises (env : Surroundings) (subject : Subject)
    (S : List Call → Progress → Progress → Prop) : Prop where
  append : ∀ {first second p q r}, S first p q → S second q r → S (first ++ second) p r
  awaited : ∀ p, S [] p (final await p)
  noted : ∀ {g : AgentState → AgentState} (p : Progress),
    (∀ state, Logged [] state (g state)) → S [] p { p with state := g p.state }
  served : ∀ {block p result}, outcome (serve env subject block) p = .ok result →
    S [Call.of block p result] p { final (serve env subject block) p with
      state := (Call.of block p result).note (final (serve env subject block) p).state }
  raised : ∀ {block p e}, outcome (serve env subject block) p = .error e →
    S [] p (final (serve env subject block) p)

theorem useTools_cons (env : Surroundings) (subject : Subject) (block : Block)
    (rest : List Block) : useTools env subject (block :: rest) = (do
      let result ← serve env subject block
      update (noted block.name result)
      useTools env subject rest) := rfl

namespace Summarises

variable {env : Surroundings} {subject : Subject} {S : List Call → Progress → Progress → Prop}
  (summarises : Summarises env subject S)

include summarises

theorem same (p : Progress) : S [] p p := summarises.noted (g := id) p fun _ => .of_same rfl

theorem andThen {p q r : Progress} {calls : List Call} (first : S [] p q) (second : S calls q r) :
    S calls p r := summarises.append first second

theorem asks (p : Progress) : S [] p (final (callModel env) p) := by
  have awaited := summarises.awaited p
  unfold callModel
  rw [final_bind]
  change S [] p (final _ (final await p))
  cases env.reply p.awaits with
  | error e => exact awaited
  | ok response =>
    have counted : ∀ state : AgentState, Logged [] state { state with
        inputTokens := state.inputTokens + response.inputTokens
        outputTokens := state.outputTokens + response.outputTokens } :=
      fun _ => .none rfl rfl rfl
    exact summarises.andThen awaited (summarises.noted (final await p) counted)

/-- A reply of the model that is noted. -/
theorem asksAndNotes {f : Response → AgentState → AgentState}
    (quiet : ∀ response state, Logged [] state (f response state)) (p : Progress) :
    S [] p (final (callModel env >>= fun response => update (f response)) p) := by
  have asked := summarises.asks p
  rw [final_bind]
  cases outcome (callModel env) p with
  | error e => exact asked
  | ok response => exact summarises.andThen asked (summarises.noted _ (quiet response))

/-- Also of a response that is cut short by a call that raises. -/
theorem uses (blocks : List Block) (p : Progress) :
    S (callsOf env subject blocks p) p (final (useTools env subject blocks) p) := by
  induction blocks generalizing p with
  | nil => exact summarises.same p
  | cons block rest ih =>
    rw [useTools_cons, final_bind, callsOf]
    cases ended : outcome (serve env subject block) p with
    | error e => exact summarises.raised ended
    | ok result => exact summarises.append (summarises.served ended) (ih _)

theorem rounds (maxCalls rounds calls : Nat) (p : Progress) :
    S (loopCalls env subject maxCalls rounds calls p) p
      (final (toolRounds env subject maxCalls rounds calls) p) := by
  have wrapUp (p : Progress) : S [] p (final (toolRounds.wrapUp env) p) := by
    have asked := summarises.asks p
    unfold toolRounds.wrapUp
    rw [final_bind]
    cases outcome (callModel env) p <;> exact asked
  induction rounds generalizing calls p with
  | zero => exact wrapUp p
  | succ rounds ih =>
    have asked := summarises.asks p
    rw [loopCalls]
    change S _ _ (final (ite _ _ _) p)
    split
    · rw [final_bind]
      cases outcome (callModel env) p with
      | error e => exact asked
      | ok response =>
        simp only
        cases toolUses response with
        | nil => exact asked
        | cons block rest =>
          have used := summarises.uses (block :: rest) (final (callModel env) p)
          simp only [final_bind]
          cases outcome (useTools env subject (block :: rest)) (final (callModel env) p) with
          | error e =>
            rw [List.append_nil]
            exact summarises.andThen asked used
          | ok _ => exact summarises.andThen asked (summarises.append used (ih _ _))
    · exact wrapUp p

/-- A tool loop, and what a node makes of its closing text. -/
theorem loop (maxCalls : Nat) {f : String → AgentM PUnit}
    (quiet : ∀ notes p, S [] p (final (f notes) p)) (p : Progress) :
    S (loopCalls env subject maxCalls maxCalls 0 p) p
      (final (runToolLoop env subject maxCalls >>= f) p) := by
  have looped : S (loopCalls env subject maxCalls maxCalls 0 p) p
      (final (runToolLoop env subject maxCalls) p) := summarises.rounds maxCalls maxCalls 0 p
  rw [final_bind]
  cases outcome (runToolLoop env subject maxCalls) p with
  | error e => exact looped
  | ok notes =>
    have closed :=
      summarises.append looped (quiet notes (final (runToolLoop env subject maxCalls) p))
    rw [List.append_nil] at closed
    exact closed

theorem hypothesizes (p : Progress) : S [] p (final (hypothesizeNode env) p) := by
  have noting (response : Response) (state : AgentState) :
      Logged [] state { state with hypothesis := textOf response } := .none rfl rfl rfl
  exact summarises.asksAndNotes noting p

theorem investigates (p : Progress) :
    S (loopCalls env subject maxInvestigateToolCalls maxInvestigateToolCalls 0 p) p
      (final (investigateNode env subject) p) := by
  exact summarises.loop _ (f := fun _ => pure ()) (fun _ p => summarises.same p) p

theorem verifies (p : Progress) :
    S (loopCalls env subject maxVerifyToolCalls maxVerifyToolCalls 0 p) p
      (final (verifyNode env subject) p) := by
  have noting (notes : String) (state : AgentState) :
      Logged [] state { state with verificationNotes := notes } := .none rfl rfl rfl
  exact summarises.loop _
    (f := fun notes => update (fun state => { state with verificationNotes := notes }))
    (fun notes p => summarises.noted p (noting notes)) p

end Summarises

theorem serve_state (env : Surroundings) (subject : Subject) (block : Block) (p : Progress) :
    (final (serve env subject block) p).state = p.state := by
  have served : Within (Serves subject) (serve env subject block) := within_dispatch _ _
  exact (served p).2

/-- The state of the agent is such a summary. -/
theorem logged_summarises (env : Surroundings) (subject : Subject) :
    Summarises env subject (fun calls p q => Logged calls p.state q.state) where
  append := Logged.append
  awaited _ := .of_same rfl
  noted _ quiet := quiet _
  served {block p result} _ :=
    (Logged.of_same (serve_state env subject block p)).append (.call (Call.of block p result) _)
  raised {block p _} _ := .of_same (serve_state env subject block p)

/-! The run in steps -/

section Steps

variable (env : Surroundings) (subject : Subject)

/-- Up to the loop that investigates. -/
def toInvestigate : AgentM PUnit := do
  commit env (addDiagnosis (stub subject))
  match env.getLlm with
  | .error e => throw e
  | .ok () => triageNode env

/-- Up to the loop that tests the hypothesis. -/
def toVerify : AgentM PUnit := do
  toInvestigate env subject
  investigateNode env subject
  hypothesizeNode env

def toReport : AgentM PUnit := do
  toVerify env subject
  verifyNode env subject

/-- The calls of the loop that follows when `before` returns. -/
def callsAfter (before : AgentM PUnit) (maxCalls : Nat) (s : Store) : List Call :=
  match outcome before { store := s } with
  | .error _ => []
  | .ok _ => loopCalls env subject maxCalls maxCalls 0 (final before { store := s })

def investigateCalls : Store → List Call :=
  callsAfter env subject (toInvestigate env subject) maxInvestigateToolCalls

/-- Those made after the hypothesis has been formed. -/
def verifyCalls : Store → List Call :=
  callsAfter env subject (toVerify env subject) maxVerifyToolCalls

end Steps

section Run

variable (env : Surroundings) (subject : Subject)

theorem runDiagnosis_eq : runDiagnosis env subject = (do
    toReport env subject
    reportNode env
    persistResult env subject) := by
  unfold runDiagnosis diagnose toReport toVerify toInvestigate graph
  cases env.getLlm with
  | error e =>
    have stops {α β : Type} (f : α → AgentM β) : (throw e : AgentM α) >>= f = throw e := rfl
    simp only [bind_assoc, stops]
  | ok _ => simp only [bind_assoc]

/-- A run that gets to its report, from the start of the first loop. -/
theorem Summarises.run {S : List Call → Progress → Progress → Prop}
    (summarises : Summarises env subject S) {s : Store} {done : PUnit}
    (reached : outcome (toReport env subject) { store := s } = .ok done) :
    S (investigateCalls env subject s ++ verifyCalls env subject s)
      (final (toInvestigate env subject) { store := s })
      (final (toReport env subject) { store := s }) := by
  obtain ⟨_, hypothesised, verified, ends⟩ := bind_ok reached
  obtain ⟨_, begun, later, ends'⟩ := bind_ok hypothesised
  obtain ⟨_, investigated, stated, ends''⟩ := bind_ok later
  have first := summarises.investigates (final (toInvestigate env subject) { store := s })
  have between := summarises.hypothesizes
    (final (investigateNode env subject) (final (toInvestigate env subject) { store := s }))
  rw [← ends'', ← ends'] at between
  have second := summarises.verifies (final (toVerify env subject) { store := s })
  rw [← ends] at second
  have all := summarises.append (summarises.append first between) second
  rw [List.append_nil] at all
  unfold investigateCalls verifyCalls callsAfter
  rw [begun, hypothesised]
  exact all

theorem toInvestigate_logged (p : Progress) :
    Logged [] p.state (final (toInvestigate env subject) p).state := by
  have stubbed : Logged [] p.state (final (commit env (addDiagnosis (stub subject))) p).state :=
    .of_same (commit_state _ _ _)
  unfold toInvestigate
  rw [final_bind]
  cases outcome (commit env (addDiagnosis (stub subject))) p with
  | error e => exact stubbed
  | ok _ =>
    cases env.getLlm with
    | error e => exact stubbed
    | ok _ =>
      have noting (response : Response) (state : AgentState) :
          Logged [] state { state with triageNotes := textOf response } := .none rfl rfl rfl
      exact stubbed.append ((logged_summarises env subject).asksAndNotes noting _)

/-- A run that gets to its report has recorded the calls of both loops. -/
theorem toReport_logged {s : Store} {done : PUnit}
    (reached : outcome (toReport env subject) { store := s } = .ok done) :
    Logged (investigateCalls env subject s ++ verifyCalls env subject s) {}
      (final (toReport env subject) { store := s }).state :=
  (toInvestigate_logged env subject { store := s }).append
    ((logged_summarises env subject).run env subject reached)

end Run

end Relay.Agent
