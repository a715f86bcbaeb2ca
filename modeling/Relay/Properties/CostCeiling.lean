import Mathlib.Tactic.Ring
import Relay.Agent.Calls
import Relay.Properties.AgentFrame

/-!
# Is the cost ceiling hard?

The tool loops test the budget before every round. The wrap-up of a loop, the
hypothesis and the report are asked for whatever the run has cost by then.
-/

namespace Relay.Agent

open Effects

/-- Where a run calls the model. -/
inductive Site where
  | triage
  | round
  | wrapUp
  | hypothesize
  | report
  deriving DecidableEq

/-- A call of the model, by the number of its await. -/
structure ModelCall where
  site : Site
  number : Nat

/-- The calls that are made without a look at the budget. -/
def Site.Unguarded (site : Site) : Prop := site = .wrapUp ∨ site = .hypothesize ∨ site = .report

/-- The rounds look at it, and the triage comes first. -/
def Site.Guarded (site : Site) : Prop := site = .triage ∨ site = .round

section Trace

variable (env : Surroundings) (subject : Subject) {α β : Type}

/-- What the reply to a call costs. -/
def charge (c : ModelCall) : ℚ :=
  match env.reply c.number with
  | .error _ => 0
  | .ok response =>
    response.inputTokens * env.price.1 + response.outputTokens * env.price.2

def paid (calls : List ModelCall) : ℚ := (calls.map (charge env)).sum

/-- Every call at such a site starts when the replies so far cost less than the ceiling. -/
def Below (who : Site → Prop) : ℚ → List ModelCall → Prop
  | _, [] => True
  | spent, c :: rest =>
    (who c.site → spent < maxCostUsdPerRun) ∧ Below who (spent + charge env c) rest

/-- The calls of what follows `m`, if it returns. -/
def after (m : AgentM α) (f : α → Progress → List ModelCall) (p : Progress) :
    List ModelCall :=
  match outcome m p with
  | .error _ => []
  | .ok a => f a (final m p)

/-- The calls of the rounds of a loop. -/
def roundsCalls (maxCalls : Nat) : Nat → Nat → Progress → List ModelCall
  | 0, _, p => [⟨.wrapUp, p.awaits⟩]
  | rounds + 1, calls, p =>
    if calls < maxCalls ∧ overBudget env p.state = false then
      ⟨.round, p.awaits⟩ :: after (callModel env) (fun response =>
        match toolUses response with
        | [] => fun _ => []
        | uses => after (useTools env subject uses)
          (fun _ => roundsCalls maxCalls rounds (calls + uses.length))) p
    else [⟨.wrapUp, p.awaits⟩]

/-- Those of the five nodes. -/
def graphCalls (p : Progress) : List ModelCall :=
  ⟨.triage, p.awaits⟩ :: after (triageNode env) (fun _ p =>
    roundsCalls env subject maxInvestigateToolCalls maxInvestigateToolCalls 0 p ++
      after (investigateNode env subject) (fun _ p =>
        ⟨.hypothesize, p.awaits⟩ :: after (hypothesizeNode env) (fun _ p =>
          roundsCalls env subject maxVerifyToolCalls maxVerifyToolCalls 0 p ++
            after (verifyNode env subject) (fun _ p => [⟨.report, p.awaits⟩]) p) p) p) p

def runCalls (s : Store) : List ModelCall :=
  after (commit env (addDiagnosis (stub subject))) (fun _ =>
    match env.getLlm with
    | .error _ => fun _ => []
    | .ok _ => graphCalls env subject) { store := s }

def Below.decide (who : Site → Prop) [DecidablePred who] :
    (spent : ℚ) → (calls : List ModelCall) → Decidable (Below env who spent calls)
  | _, [] => isTrue trivial
  | spent, c :: rest =>
    @instDecidableAnd _ _ _ (Below.decide who (spent + charge env c) rest)

instance (who : Site → Prop) [DecidablePred who] (spent : ℚ) (calls : List ModelCall) :
    Decidable (Below env who spent calls) := Below.decide env who spent calls

end Trace

/-! The trace accounts for the whole cost -/

/-- These calls are all that `m` pays for. -/
def Billed {α : Type} (env : Surroundings) (m : AgentM α) (calls : Progress → List ModelCall) :
    Prop :=
  ∀ p, costUsd env (final m p).state = costUsd env p.state + paid env (calls p)

/-- What keeps the count of the tokens. -/
def Unbilled (p q : Progress) : Prop :=
  q.state.inputTokens = p.state.inputTokens ∧ q.state.outputTokens = p.state.outputTokens

instance : Std.Refl Unbilled := ⟨fun _ => ⟨rfl, rfl⟩⟩

instance : IsTrans Progress Unbilled where
  trans :=
    fun _ _ _ ⟨input, output⟩ ⟨input', output'⟩ =>
      ⟨input'.trans input, output'.trans output⟩

section Bills

variable {env : Surroundings} {subject : Subject} {α β : Type} {m : AgentM α}
  {f : α → AgentM β}

theorem paid_append (first second : List ModelCall) :
    paid env (first ++ second) = paid env first + paid env second := by
  unfold paid
  rw [List.map_append, List.sum_append]

theorem after_ok {g : α → Progress → List ModelCall} {p : Progress} {a : α}
    (returned : outcome m p = .ok a) : after m g p = g a (final m p) := by
  unfold after
  rw [returned]

theorem after_error {g : α → Progress → List ModelCall} {p : Progress} {e : Exn}
    (raised : outcome m p = .error e) : after m g p = [] := by
  unfold after
  rw [raised]

theorem Billed.bind {first : Progress → List ModelCall}
    {rest : α → Progress → List ModelCall} (billed : Billed env m first)
    (later : ∀ a, Billed env (f a) (rest a)) :
    Billed env (m >>= f) (fun p => first p ++ after m rest p) := by
  intro p
  rw [final_bind, paid_append]
  cases ended : outcome m p with
  | error e =>
    rw [after_error ended]
    exact (billed p).trans (congrArg _ (add_zero _).symm)
  | ok a =>
    rw [after_ok ended, ← add_assoc, ← billed p]
    exact later a (final m p)

theorem Billed.nothing (silent : Within Unbilled m) : Billed env m (fun _ => []) := by
  intro p
  obtain ⟨input, output⟩ := silent p
  unfold costUsd
  rw [input, output]
  exact (add_zero _).symm

/-- After what costs nothing, and before it. -/
theorem Billed.silent {rest : α → Progress → List ModelCall} (silent : Within Unbilled m)
    (later : ∀ a, Billed env (f a) (rest a)) : Billed env (m >>= f) (after m rest) :=
  (Billed.nothing silent).bind later

theorem Billed.quiet {calls : Progress → List ModelCall} (billed : Billed env m calls)
    (quiet : ∀ a, Within Unbilled (f a)) : Billed env (m >>= f) calls := by
  intro p
  rw [final_bind, ← billed p]
  cases outcome m p with
  | error e => rfl
  | ok a =>
    obtain ⟨input, output⟩ := quiet a (final m p)
    unfold costUsd
    rw [input, output]

theorem unbilled_update {g : AgentState → AgentState}
    (same : ∀ s, (g s).inputTokens = s.inputTokens ∧ (g s).outputTokens = s.outputTokens) :
    Within Unbilled (update g) := fun p => same p.state

theorem unbilled_commit (write : Db → Except Exn Db) : Within Unbilled (commit env write) := by
  intro p
  unfold Unbilled
  rw [commit_state]
  exact ⟨rfl, rfl⟩

theorem unbilled_useTools (uses : List Block) : Within Unbilled (useTools env subject uses) := by
  induction uses with
  | nil => exact within_pure _
  | cons block rest ih =>
    rw [useTools_cons]
    refine within_bind (fun p => ?_) fun _ => within_bind (unbilled_update fun _ => ⟨rfl, rfl⟩)
      fun _ => ih
    unfold Unbilled
    rw [serve_state]
    exact ⟨rfl, rfl⟩

theorem billed_callModel (site : Site) :
    Billed env (callModel env) (fun p => [⟨site, p.awaits⟩]) := by
  intro p
  unfold callModel
  rw [final_bind]
  change costUsd env (final _ (final await p)).state = costUsd env p.state + (_ + 0)
  unfold charge
  cases replied : env.reply p.awaits with
  | error e =>
    simp only [add_zero]
    rfl
  | ok response =>
    change costUsd env { p.state with
      inputTokens := p.state.inputTokens + response.inputTokens
      outputTokens := p.state.outputTokens + response.outputTokens } = _
    unfold costUsd
    push_cast
    ring

theorem billed_wrapUp : Billed env (toolRounds.wrapUp env) (fun p => [⟨.wrapUp, p.awaits⟩]) :=
  (billed_callModel .wrapUp).quiet fun _ => within_pure _

theorem billed_toolRounds (maxCalls rounds calls : Nat) :
    Billed env (toolRounds env subject maxCalls rounds calls)
      (roundsCalls env subject maxCalls rounds calls) := by
  induction rounds generalizing calls with
  | zero => exact billed_wrapUp
  | succ rounds ih =>
    intro p
    rw [roundsCalls]
    change costUsd env (final (ite _ _ _) p).state = _
    split
    · refine (billed_callModel .round).bind (fun response => ?_) p
      cases toolUses response with
      | nil => exact fun _ => (add_zero _).symm
      | cons block rest => exact .silent (unbilled_useTools _) fun _ => ih _
    · exact billed_wrapUp p

theorem billed_triageNode : Billed env (triageNode env) (fun p => [⟨.triage, p.awaits⟩]) :=
  (billed_callModel .triage).quiet fun _ => unbilled_update fun _ => ⟨rfl, rfl⟩

theorem billed_investigateNode : Billed env (investigateNode env subject)
    (roundsCalls env subject maxInvestigateToolCalls maxInvestigateToolCalls 0) :=
  (billed_toolRounds _ _ _).quiet fun _ => within_pure _

theorem billed_hypothesizeNode :
    Billed env (hypothesizeNode env) (fun p => [⟨.hypothesize, p.awaits⟩]) :=
  (billed_callModel .hypothesize).quiet fun _ => unbilled_update fun _ => ⟨rfl, rfl⟩

theorem billed_verifyNode : Billed env (verifyNode env subject)
    (roundsCalls env subject maxVerifyToolCalls maxVerifyToolCalls 0) :=
  (billed_toolRounds _ _ _).quiet fun _ => unbilled_update fun _ => ⟨rfl, rfl⟩

theorem billed_reportNode : Billed env (reportNode env) (fun p => [⟨.report, p.awaits⟩]) := by
  refine (billed_callModel .report).quiet fun response => within_bind within_get fun p => ?_
  split
  · exact unbilled_update fun _ => ⟨rfl, rfl⟩
  · split
    · exact within_throw _
    · split
      · exact unbilled_update fun _ => ⟨rfl, rfl⟩
      · split
        · exact within_throw _
        · exact unbilled_update fun _ => ⟨rfl, rfl⟩

theorem billed_graph : Billed env (graph env subject) (graphCalls env subject) :=
  billed_triageNode.bind fun _ => billed_investigateNode.bind fun _ =>
    billed_hypothesizeNode.bind fun _ => billed_verifyNode.bind fun _ => billed_reportNode

/-- The calls of a run are all that it pays for. -/
theorem run_billed (env : Surroundings) (subject : Subject) (s : Store) :
    costUsd env (final (runDiagnosis env subject) { store := s }).state =
      paid env (runCalls env subject s) := by
  have billed : Billed env (runDiagnosis env subject) (after
      (commit env (addDiagnosis (stub subject))) (fun _ =>
        match env.getLlm with
        | .error _ => fun _ => []
        | .ok _ => graphCalls env subject)) := by
    refine .silent (unbilled_commit _) fun _ => ?_
    unfold diagnose
    cases env.getLlm with
    | error e => exact fun _ => (add_zero _).symm
    | ok _ => exact billed_graph.quiet fun _ => within_bind within_get fun p => unbilled_commit _
  refine (billed { store := s }).trans ?_
  have nothing : costUsd env ({ store := s } : Progress).state = 0 := by simp [costUsd]
  rw [nothing, zero_add]
  rfl

end Bills

/-! The calls that look at the budget -/

section Guards

variable {env : Surroundings} {subject : Subject} {who : Site → Prop}

theorem below_append {spent : ℚ} {first second : List ModelCall} :
    Below env who spent (first ++ second) ↔
      Below env who spent first ∧ Below env who (spent + paid env first) second := by
  induction first generalizing spent with
  | nil => simp [Below, paid]
  | cons c rest ih =>
    have total : spent + paid env (c :: rest) = spent + charge env c + paid env rest :=
      (add_assoc _ _ _).symm
    rw [List.cons_append, Below, Below, ih, total, and_assoc]

theorem below_all {spent : ℚ} {calls : List ModelCall}
    (guarded : Below env Site.Guarded spent calls) :
    Below env (fun _ => True) spent calls ↔ Below env Site.Unguarded spent calls := by
  induction calls generalizing spent with
  | nil => exact Iff.rfl
  | cons c rest ih =>
    obtain ⟨own, later⟩ := guarded
    refine and_congr ⟨fun all _ => all trivial, fun unguarded _ => ?_⟩ (ih later)
    cases site : c.site with
    | triage => exact own (Or.inl site)
    | round => exact own (Or.inr site)
    | wrapUp => exact unguarded (Or.inl site)
    | hypothesize => exact unguarded (Or.inr (Or.inl site))
    | report => exact unguarded (Or.inr (Or.inr site))

/-- What follows `m` starts from the cost that `m` leaves. -/
theorem below_after {α : Type} {m : AgentM α} {calls : Progress → List ModelCall}
    {g : α → Progress → List ModelCall} {p : Progress} (billed : Billed env m calls)
    (later : ∀ a, Below env who (costUsd env (final m p).state) (g a (final m p))) :
    Below env who (costUsd env p.state + paid env (calls p)) (after m g p) := by
  rw [← billed p]
  unfold after
  split
  · exact trivial
  · exact later _

theorem below_cons {α : Type} {m : AgentM α} {g : α → Progress → List ModelCall}
    {p : Progress} {site : Site} (billed : Billed env m (fun p => [⟨site, p.awaits⟩]))
    (first : who site → costUsd env p.state < maxCostUsdPerRun)
    (later : ∀ a, Below env who (costUsd env (final m p).state) (g a (final m p))) :
    Below env who (costUsd env p.state) (⟨site, p.awaits⟩ :: after m g p) := by
  have rest := below_after billed later
  have own : paid env [⟨site, p.awaits⟩] = charge env ⟨site, p.awaits⟩ := add_zero _
  rw [own] at rest
  exact ⟨first, rest⟩

theorem below_silent {α : Type} {m : AgentM α} {g : α → Progress → List ModelCall}
    {p : Progress} (silent : Within Unbilled m)
    (later : ∀ a, Below env who (costUsd env (final m p).state) (g a (final m p))) :
    Below env who (costUsd env p.state) (after m g p) := by
  have rest := below_after (Billed.nothing silent) later
  have nothing : costUsd env p.state + paid env [] = costUsd env p.state := add_zero _
  rw [nothing] at rest
  exact rest

theorem not_guarded_wrapUp : ¬ Site.wrapUp.Guarded := by simp [Site.Guarded]

theorem not_guarded_hypothesize : ¬ Site.hypothesize.Guarded := by simp [Site.Guarded]

theorem not_guarded_report : ¬ Site.report.Guarded := by simp [Site.Guarded]

/-- A round starts below the ceiling. -/
theorem roundsCalls_guarded (maxCalls rounds calls : Nat) (p : Progress) :
    Below env Site.Guarded (costUsd env p.state)
      (roundsCalls env subject maxCalls rounds calls p) := by
  have wrapUp (p : Progress) :
      Below env Site.Guarded (costUsd env p.state) [⟨.wrapUp, p.awaits⟩] :=
    ⟨fun guarded => absurd guarded not_guarded_wrapUp, trivial⟩
  induction rounds generalizing calls p with
  | zero => exact wrapUp p
  | succ rounds ih =>
    rw [roundsCalls]
    split
    · rename_i enters
      have below : costUsd env p.state < maxCostUsdPerRun := by
        simpa [overBudget] using enters.2
      refine below_cons (billed_callModel .round) (fun _ => below) fun response => ?_
      cases toolUses response with
      | nil => exact trivial
      | cons block rest => exact below_silent (unbilled_useTools _) fun _ => ih _ _
    · exact wrapUp p

theorem graphCalls_guarded (p : Progress) (unspent : costUsd env p.state = 0) :
    Below env Site.Guarded (costUsd env p.state) (graphCalls env subject p) := by
  have below : costUsd env p.state < maxCostUsdPerRun := by
    rw [unspent]
    norm_num [maxCostUsdPerRun]
  refine below_cons billed_triageNode (fun _ => below) fun _ => ?_
  refine below_append.mpr ⟨roundsCalls_guarded _ _ _ _, ?_⟩
  refine below_after billed_investigateNode fun _ => ?_
  refine below_cons billed_hypothesizeNode
    (fun guarded => absurd guarded not_guarded_hypothesize) fun _ => ?_
  refine below_append.mpr ⟨roundsCalls_guarded _ _ _ _, ?_⟩
  refine below_after billed_verifyNode fun _ => ?_
  exact ⟨fun guarded => absurd guarded not_guarded_report, trivial⟩

theorem runCalls_guarded (env : Surroundings) (subject : Subject) (s : Store) :
    Below env Site.Guarded 0 (runCalls env subject s) := by
  have nothing : costUsd env ({ store := s } : Progress).state = 0 := by simp [costUsd]
  rw [← nothing]
  refine below_silent (unbilled_commit _) fun _ => ?_
  cases env.getLlm with
  | error e => exact trivial
  | ok _ =>
    refine graphCalls_guarded _ ?_
    rw [commit_state]
    exact nothing

end Guards

/-- No call starts at or above the ceiling exactly when no wrap-up, no hypothesis and no report
is asked for there. -/
theorem cost_ceiling (env : Surroundings) (subject : Subject) (s : Store) :
    Below env (fun _ => True) 0 (runCalls env subject s) ↔
      Below env Site.Unguarded 0 (runCalls env subject s) :=
  below_all (runCalls_guarded env subject s)

/-- A model whose replies cost sixty cents each. -/
def lavish : Surroundings :=
  { pausing with
    reply := fun _ => .ok ⟨[⟨"text", "It is down.", "", "", none⟩], 2000000, 0⟩ }

/-- The triage reaches the ceiling, and four more calls follow. -/
theorem cost_ceiling_exceeded :
    ((runCalls lavish manual brokenEndpoint).map ModelCall.site =
      [.triage, .wrapUp, .hypothesize, .wrapUp, .report]) ∧
      ¬ Below lavish (fun _ => True) 0 (runCalls lavish manual brokenEndpoint) := by
  decide +kernel

end Relay.Agent
