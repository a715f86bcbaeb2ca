import Relay.Agent.Graph

/-!
# What the parts of a run may touch

A tool adds pending actions at most and keeps what the nodes have filled in; a
node fills that in and writes no more than its tools do.
-/

namespace Relay.Agent

open Effects

/-- A row that waits for an operator's decision. -/
structure Proposed (subject : Subject) (a : AgentAction) : Prop where
  pending : a.status = .pending
  undecided : a.decidedAt = none
  endpoint : a.endpointId = subject.endpointId
  diagnosis : a.diagnosisId = subject.diagnosisId
  kind : a.action = .pauseEndpoint ∨ a.action = .replayDlq

def withActions (s : Store) (proposed : List AgentAction) : Store :=
  { s with db := { s.db with actions := s.db.actions ++ proposed } }

/-- Only such rows are added. -/
def Proposes (subject : Subject) (p q : Progress) : Prop :=
  ∃ proposed, (∀ a ∈ proposed, Proposed subject a) ∧ q.store = withActions p.store proposed

/-- A tool besides keeps what the nodes have filled in. -/
def Serves (subject : Subject) (p q : Progress) : Prop :=
  Proposes subject p q ∧ q.state = p.state

section Frame

variable {env : Surroundings} {subject : Subject} {α : Type}

theorem withActions_nil (s : Store) : withActions s [] = s := by
  unfold withActions
  rw [List.append_nil]

theorem proposes_of_same {p q : Progress} (same : q.store = p.store) : Proposes subject p q :=
  ⟨[], fun _ h => absurd h List.not_mem_nil, same.trans (withActions_nil p.store).symm⟩

instance : Std.Refl (Proposes subject) := ⟨fun _ => proposes_of_same rfl⟩

instance : IsTrans Progress (Proposes subject) where
  trans := by
    rintro p q r ⟨first, each, now⟩ ⟨second, each', later⟩
    refine ⟨first ++ second, fun a h => ?_, ?_⟩
    · exact (List.mem_append.mp h).elim (each a) (each' a)
    · rw [later, now]
      unfold withActions
      simp only [List.append_assoc]

/-! Calls -/

instance : Std.Refl (Serves subject) := ⟨fun _ => ⟨proposes_of_same rfl, rfl⟩⟩

instance : IsTrans Progress (Serves subject) where
  trans := fun _ _ _ ⟨first, same⟩ ⟨second, same'⟩ =>
    ⟨IsTrans.trans _ _ _ first second, same'.trans same⟩

theorem within_await : Within (Serves subject) await := fun _ => ⟨proposes_of_same rfl, rfl⟩

theorem within_abort : Within (Serves subject) abort := fun _ => ⟨proposes_of_same rfl, rfl⟩

theorem commit_run (env : Surroundings) (write : Db → Except Exn Db) (s : Store) (awaits : Nat)
    (state : AgentState) : (commit env write).run.run ⟨s, awaits, .usable, state⟩ =
      (settle (env.fault awaits) (write s.db)).run.run ⟨s, awaits + 1, .usable, state⟩ := rfl

/-- A commit writes what it is given or nothing, and writes it when it returns. -/
theorem commit_store (env : Surroundings) (write : Db → Except Exn Db) (p : Progress) :
    ((final (commit env write) p).store = p.store ∧
      ∃ e, outcome (commit env write) p = .error e) ∨
      ∃ db, write p.store.db = .ok db ∧
        (final (commit env write) p).store = { p.store with db := db } := by
  obtain ⟨s, awaits, transaction, state⟩ := p
  cases transaction with
  | deactivated | aborted => exact Or.inl ⟨rfl, _, rfl⟩
  | usable =>
    unfold final outcome
    rw [commit_run]
    change (_ ∧ _) ∨ ∃ db, write s.db = .ok db ∧ _
    cases env.fault awaits <;> cases write s.db
    case none.ok db => exact Or.inr ⟨db, rfl, rfl⟩
    case after.ok e db => exact Or.inr ⟨db, rfl, rfl⟩
    all_goals exact Or.inl ⟨rfl, _, rfl⟩

theorem commit_state (env : Surroundings) (write : Db → Except Exn Db) (p : Progress) :
    (final (commit env write) p).state = p.state := by
  obtain ⟨s, awaits, transaction, state⟩ := p
  cases transaction with
  | deactivated | aborted => rfl
  | usable =>
    unfold final
    rw [commit_run]
    cases env.fault awaits <;> cases write s.db <;> rfl

/-- A commit at this await takes effect, unless there is nothing that it may write. -/
def Lands (env : Surroundings) (transaction : Transaction) (n : Nat) : Prop :=
  transaction = .usable ∧ (∀ e, env.fault n ≠ .before e) ∧ ∀ e, env.fault n ≠ .refused e

theorem commit_lands {write : Db → Except Exn Db} {p : Progress} {db : Db}
    (lands : Lands env p.transaction p.awaits) (written : write p.store.db = .ok db) :
    (final (commit env write) p).store = { p.store with db := db } := by
  obtain ⟨s, awaits, transaction, state⟩ := p
  obtain ⟨usable, reaches, taken⟩ := lands
  cases usable
  unfold final
  rw [commit_run, written]
  cases fault : env.fault awaits with
  | none => rfl
  | before e => exact absurd fault (reaches e)
  | after e => rfl
  | refused e => exact absurd fault (taken e)

theorem commit_lost {write : Db → Except Exn Db} {p : Progress}
    (lost : ¬ Lands env p.transaction p.awaits) :
    (final (commit env write) p).store = p.store := by
  obtain ⟨s, awaits, transaction, state⟩ := p
  cases transaction with
  | deactivated | aborted => rfl
  | usable =>
    unfold final
    rw [commit_run]
    cases fault : env.fault awaits with
    | none | after _ =>
      exfalso
      refine lost ⟨rfl, fun e same => ?_, fun e same => ?_⟩
      all_goals cases fault.symm.trans same
    | before e | refused e => cases write s.db <;> rfl

/-! Tools -/

theorem proposal_proposed (subject : Subject) (id : Uuid) (kind : ActionKind) (reason : String) :
    Proposed subject (proposal subject id kind reason) where
  pending := rfl
  undecided := rfl
  endpoint := rfl
  diagnosis := rfl
  kind := by cases kind <;> simp [proposal]

theorem writeAction_ok {id : Uuid} {kind : ActionKind} {reason : Json} {db db' : Db}
    (written : writeAction subject id kind reason db = .ok db') :
    ∃ row, Proposed subject row ∧ db' = { db with actions := db.actions ++ [row] } := by
  unfold writeAction at written
  cases text : asText reason with
  | error e =>
    rw [text] at written
    cases written
  | ok text' =>
    rw [text] at written
    change addAction _ db = .ok db' at written
    unfold addAction at written
    split at written
    · exact ⟨_, proposal_proposed subject id kind text', (Except.ok.inj written).symm⟩
    · cases written

theorem within_requestMutation (name : String) (kind : ActionKind) (reason : Json) :
    Within (Serves subject) (requestMutation env subject name kind reason) := by
  refine within_bind within_get (fun p =>
    within_bind (fun q => ⟨?_, commit_state _ _ _⟩) (fun _ => within_pure _))
  rcases commit_store env (writeAction subject (env.uuid4 p.awaits) kind reason) q with
    ⟨same, _⟩ | ⟨db, written, now⟩
  · exact proposes_of_same same
  · obtain ⟨row, proposed, rfl⟩ := writeAction_ok written
    refine ⟨[row], fun a h => ?_, now⟩
    rw [List.mem_singleton.mp h]
    exact proposed

/-! Reads keep what an await keeps -/

section Reads

variable {R : Progress → Progress → Prop} [Std.Refl R] [IsTrans Progress R]
  (awaits : Within R await)

include awaits

theorem within_readRedis (read : Store → α) : Within R (readRedis env read) := by
  refine within_bind awaits (fun n => within_bind within_get (fun p => ?_))
  split
  · exact within_pure _
  · exact within_throw _
  · exact within_throw _
  · exact within_throw _

variable (aborts : Within R abort)

include aborts

theorem within_execute (query : Db → α) : Within R (execute env query) := by
  refine within_bind awaits (fun n => within_bind within_get (fun p => ?_))
  split
  · exact within_throw _
  · exact within_throw _
  · cases env.fault n with
    | none => exact within_pure _
    | before e | after e => exact within_throw _
    | refused e => exact within_bind aborts fun _ => within_throw _

theorem within_loadEndpoint (endpointId : Uuid) : Within R (loadEndpoint env endpointId) := by
  refine within_bind (within_execute awaits aborts _) (fun found => ?_)
  cases found with
  | none => exact within_throw _
  | some e => exact within_pure _

theorem within_queryAttempts (endpointId : Uuid) (minutes : Int) :
    Within R (queryAttempts env endpointId minutes) := by
  refine within_bind within_get (fun p => ?_)
  split
  · exact within_throw _
  · exact within_bind (within_execute awaits aborts _) (fun _ => within_pure _)

theorem within_getEndpointConfig (endpointId : Uuid) :
    Within R (getEndpointConfig env endpointId) :=
  within_bind (within_loadEndpoint awaits aborts _) fun _ =>
    within_bind (within_execute awaits aborts _) fun _ =>
      within_bind (within_readRedis awaits _) fun _ => within_pure _

theorem within_probeEndpoint (endpointId : Uuid) : Within R (probeEndpoint env endpointId) := by
  refine within_bind (within_loadEndpoint awaits aborts _) fun _ => within_bind awaits fun n => ?_
  split
  · exact within_throw _
  · exact within_pure _

theorem within_checkDnsTls (endpointId : Uuid) : Within R (checkDnsTls env endpointId) := by
  refine within_bind (within_loadEndpoint awaits aborts _) fun e => within_bind awaits fun n => ?_
  split
  · exact within_throw _
  · exact within_throw _
  · split
    · exact within_pure _
    · split
      · split
        · exact within_throw _
        · exact within_pure _
      · exact within_pure _

/-- Every branch of the routing, an unknown tool included, is a read or requests a mutation. -/
theorem within_route_of {name : String} {input : List (String × Json)}
    (mutates : ∀ kind, actionOf name = some kind →
      Within R (requestMutation env subject name kind
      ((lookup input "reason").getD (.str "")))) :
    Within R (route env subject name input) := by
  unfold route
  split
  · split
    · exact within_throw _
    · exact within_queryAttempts awaits aborts _ _
  · split
    · exact within_getEndpointConfig awaits aborts _
    · split
      · exact within_probeEndpoint awaits aborts _
      · split
        · exact within_checkDnsTls awaits aborts _
        · split
          · exact mutates _ ‹_›
          · exact within_pure _

end Reads

theorem within_route (name : String) (input : List (String × Json)) :
    Within (Serves subject) (route env subject name input) :=
  within_route_of within_await within_abort fun _ _ => within_requestMutation _ _ _

theorem within_dispatch (name : String) (input : List (String × Json)) :
    Within (Serves subject) (dispatch env subject name input) := by
  refine within_bind (within_tryCatch (within_route name input) (fun e => ?_))
    (fun _ => within_pure _)
  split
  · exact within_throw _
  · exact within_pure _

/-! Nodes -/

theorem proposes_of_serves {m : AgentM α} (serves : Within (Serves subject) m) :
    Within (Proposes subject) m := serves.mono fun _ _ => And.left

theorem within_update (f : AgentState → AgentState) : Within (Proposes subject) (update f) :=
  fun _ => proposes_of_same rfl

theorem within_callModel : Within (Proposes subject) (callModel env) := by
  refine within_bind (proposes_of_serves within_await) (fun n => ?_)
  split
  · exact within_throw _
  · exact within_bind (within_update _) (fun _ => within_pure _)

theorem within_useTools (uses : List Block) :
    Within (Proposes subject) (useTools env subject uses) := by
  induction uses with
  | nil => exact within_pure _
  | cons block rest ih =>
    exact within_bind (proposes_of_serves (within_dispatch _ _)) fun _ =>
      within_bind (within_update _) fun _ => ih

theorem within_wrapUp : Within (Proposes subject) (toolRounds.wrapUp env) :=
  within_bind within_callModel fun _ => within_pure _

theorem within_toolRounds (maxCalls rounds calls : Nat) :
    Within (Proposes subject) (toolRounds env subject maxCalls rounds calls) := by
  induction rounds generalizing calls with
  | zero => exact within_wrapUp
  | succ rounds ih =>
    refine within_bind within_get (fun p => ?_)
    split
    · refine within_bind within_callModel (fun response => ?_)
      split
      · exact within_pure _
      · exact within_bind (within_useTools _) (fun _ => ih _)
    · exact within_wrapUp

theorem within_reportNode : Within (Proposes subject) (reportNode env) := by
  refine within_bind within_callModel fun response => within_bind within_get fun p => ?_
  split
  · exact within_update _
  · split
    · exact within_throw _
    · split
      · exact within_update _
      · split
        · exact within_throw _
        · exact within_update _

theorem within_triageNode : Within (Proposes subject) (triageNode env) :=
  within_bind within_callModel fun _ => within_update _

theorem within_investigateNode : Within (Proposes subject) (investigateNode env subject) :=
  within_bind (within_toolRounds _ _ _) fun _ => within_pure _

theorem within_hypothesizeNode : Within (Proposes subject) (hypothesizeNode env) :=
  within_bind within_callModel fun _ => within_update _

theorem within_verifyNode : Within (Proposes subject) (verifyNode env subject) :=
  within_bind (within_toolRounds _ _ _) fun _ => within_update _

/-- All five nodes. -/
theorem within_graph : Within (Proposes subject) (graph env subject) :=
  within_bind within_triageNode fun _ => within_bind within_investigateNode fun _ =>
    within_bind within_hypothesizeNode fun _ => within_bind within_verifyNode fun _ =>
      within_reportNode

end Frame

end Relay.Agent
