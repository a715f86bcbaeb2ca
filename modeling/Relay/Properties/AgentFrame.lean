import Relay.Agent.Frame
import Relay.Pipeline

/-!
# The agent cannot act on its own

Whatever the model replies and whatever call fails, a run adds one diagnosis and
pending actions of its endpoint, and changes nothing else. A run that is cut short
is one whose next call raises.
-/

namespace Relay.Agent

open Effects

/-! The run -/

/-- The row of the run, and the proposals that it made. -/
structure Recorded (subject : Subject) (s s' : Store) (rows : List Diagnosis)
    (proposed : List AgentAction) : Prop where
  store : s' = { s with db := { s.db with
    diagnoses := s.db.diagnoses ++ rows, actions := s.db.actions ++ proposed } }
  row : ∀ d ∈ rows, d.id = subject.diagnosisId ∧ d.endpointId = subject.endpointId ∧
    d.triggeredBy = subject.triggeredBy ∧ d.status = .opened
  actions : ∀ a ∈ proposed, Proposed subject a

section Run

variable {env : Surroundings} {subject : Subject} {s s' : Store} {rows : List Diagnosis}
  {proposed : List AgentAction}

theorem Recorded.nothing (subject : Subject) (s : Store) : Recorded subject s s [] [] where
  store := by rw [List.append_nil, List.append_nil]
  row := fun _ h => absurd h List.not_mem_nil
  actions := fun _ h => absurd h List.not_mem_nil

/-- What the graph proposes is recorded beside the row. -/
theorem Recorded.proposes (recorded : Recorded subject s s' rows proposed) {p q : Progress}
    (store : p.store = s') (more : Proposes subject p q) :
    ∃ proposed, Recorded subject s q.store rows proposed := by
  obtain ⟨added, each, now⟩ := more
  refine ⟨proposed ++ added, ?_, recorded.row, fun a h => ?_⟩
  · rw [now, store, recorded.store]
    unfold withActions
    simp only [List.append_assoc]
  · exact (List.mem_append.mp h).elim (recorded.actions a) (each a)

theorem writeDiagnosis_ok {state : AgentState} {db db' : Db}
    (written : writeDiagnosis env subject state db = .ok db') : ∃ row, db' = { db with
      diagnoses :=
        Table.update Diagnosis.id db.diagnoses subject.diagnosisId (overwrite row) } := by
  unfold writeDiagnosis at written
  cases concluded : conclude env state (stub subject) with
  | error e =>
    rw [concluded] at written
    cases written
  | ok row =>
    rw [concluded] at written
    exact ⟨row, (Except.ok.inj written).symm⟩

/-- The result goes into the row of this run and into no other. -/
theorem Recorded.concluded (recorded : Recorded subject s s' rows proposed)
    (fresh : subject.diagnosisId ∉ s.db.diagnoses.map Diagnosis.id) (row : Diagnosis) :
    Recorded subject s { s' with db := { s'.db with
      diagnoses := Table.update Diagnosis.id s'.db.diagnoses subject.diagnosisId (overwrite row) } }
      (rows.map (overwrite row)) proposed where
  store := by
    have apart : Table.update Diagnosis.id (s.db.diagnoses ++ rows) subject.diagnosisId
        (overwrite row) = s.db.diagnoses ++ rows.map (overwrite row) := by
      have old := Table.update_of_absent (f := overwrite row) fresh
      have own : Table.update Diagnosis.id rows subject.diagnosisId (overwrite row) =
          rows.map (overwrite row) :=
        List.map_congr_left (fun d listed => if_pos (recorded.row d listed).1)
      unfold Table.update at old own ⊢
      rw [List.map_append, old, own]
    rw [recorded.store]
    simp only [apart]
  row := by
    intro d listed
    obtain ⟨old, member, rfl⟩ := List.mem_map.mp listed
    exact recorded.row old member
  actions := recorded.actions

theorem addDiagnosis_ok {row : Diagnosis} {db db' : Db} (written : addDiagnosis row db = .ok db') :
    db' = { db with diagnoses := db.diagnoses ++ [row] } := by
  unfold addDiagnosis at written
  split at written
  · exact (Except.ok.inj written).symm
  · cases written

theorem Recorded.stub (subject : Subject) (s : Store) : Recorded subject s
    { s with db := { s.db with diagnoses := s.db.diagnoses ++ [stub subject] } } [stub subject] []
    where
  store := by rw [List.append_nil]
  row := by
    intro d listed
    rw [List.mem_singleton.mp listed]
    exact ⟨rfl, rfl, rfl, rfl⟩
  actions := fun _ h => absurd h List.not_mem_nil

theorem Recorded.persisted (recorded : Recorded subject s s' rows proposed)
    (fresh : subject.diagnosisId ∉ s.db.diagnoses.map Diagnosis.id) {p : Progress}
    (store : p.store = s') : ∃ rows', rows'.length = rows.length ∧
      Recorded subject s (final (persistResult env subject) p).store rows' proposed := by
  have reads : final (persistResult env subject) p =
      final (commit env (writeDiagnosis env subject p.state)) p := by
    unfold persistResult
    exact final_get_bind _ p
  rw [reads]
  rcases commit_store env (writeDiagnosis env subject p.state) p with
    ⟨same, _⟩ | ⟨db, written, now⟩
  · rw [same, store]
    exact ⟨rows, rfl, recorded⟩
  · obtain ⟨row, rfl⟩ := writeDiagnosis_ok written
    rw [now, store]
    exact ⟨rows.map (overwrite row), List.length_map _, recorded.concluded fresh row⟩

/-- After the stub: the client, the graph and the result. -/
theorem Recorded.rest (recorded : Recorded subject s s' rows proposed)
    (fresh : subject.diagnosisId ∉ s.db.diagnoses.map Diagnosis.id) {p : Progress}
    (store : p.store = s') : ∃ rows' proposed', rows'.length = rows.length ∧
      Recorded subject s (final (diagnose env subject) p).store rows' proposed' := by
  unfold diagnose
  cases env.getLlm with
  | error e => exact ⟨rows, proposed, rfl, store ▸ recorded⟩
  | ok _ =>
    obtain ⟨proposed', after⟩ := recorded.proposes store (within_graph p)
    rw [final_bind]
    cases outcome (graph env subject) p with
    | error e => exact ⟨rows, proposed', rfl, after⟩
    | ok _ =>
      obtain ⟨rows', length, persisted⟩ := after.persisted fresh rfl
      exact ⟨rows', proposed', length, persisted⟩

end Run

/-- A run adds at most its own diagnosis, exactly one if it returns, and actions that
wait for approval; every other row and all of Redis is as before. -/
theorem agent_only_proposes (env : Surroundings) (subject : Subject) (s : Store)
    (fresh : subject.diagnosisId ∉ s.db.diagnoses.map Diagnosis.id) :
    ∃ rows proposed,
      Recorded subject s (final (runDiagnosis env subject) { store := s }).store rows proposed ∧
      rows.length ≤ 1 ∧
      ((∃ done, outcome (runDiagnosis env subject) { store := s } = .ok done) →
        rows.length = 1) := by
  unfold runDiagnosis
  rw [final_bind, outcome_bind]
  rcases commit_store env (addDiagnosis (stub subject)) { store := s } with
    ⟨same, e, raised⟩ | ⟨db, written, now⟩
  · rw [raised]
    refine ⟨[], [], ?_, Nat.zero_le 1, fun ⟨_, h⟩ => (by cases h)⟩
    simp only [same]
    exact .nothing subject s
  · rw [addDiagnosis_ok written] at now
    cases outcome (commit env (addDiagnosis (stub subject))) { store := s } with
    | error e =>
      refine ⟨[stub subject], [], ?_, le_refl 1, fun _ => rfl⟩
      simp only [now]
      exact .stub subject s
    | ok _ =>
      obtain ⟨rows, proposed, length, recorded⟩ :=
        (Recorded.stub subject s).rest fresh now
      exact ⟨rows, proposed, recorded, length.le, fun _ => length⟩

/-! A model that asks for a pause and for a tool that there is not -/

def brokenEndpoint : Store :=
  { (World.initial (fun _ => 0)).store with
    db := { tenants := [{ id := 2 }], endpoints := [{ id := 1, tenantId := 2 }] } }

def uses (name : String) (input : List (String × Json)) : Block :=
  ⟨"tool_use", "", "", name, some input⟩

def replies : Nat → List Block
  | 2 => [uses "pause_endpoint" [("reason", .str "down")], uses "drop_tables" []]
  | 7 => [uses "submit_diagnosis" [("root_cause", .str "endpoint_down"),
      ("confidence", .str "high")]]
  | _ => [⟨"text", "The endpoint is down.", "", "", none⟩]

def pausing : Surroundings where
  reply n := .ok ⟨replies n, 10, 10⟩
  fault _ := .none
  clock _ := 0
  uuid4 n := BitVec.ofNat 128 n
  startedAt _ := 0
  createdAt _ := 0
  isoformat _ := ""
  sendDelivery _ := .ok ⟨0, some 200, none, none, none⟩
  urlparse _ := .ok ⟨"https", none, none⟩
  getaddrinfo _ := .ok (.ok [])
  handshake _ := .ok (.failed "")
  getLlm := .ok ()
  price := (3 / 10000000, 25 / 10000000)

def manual : Subject := ⟨1, 20, "manual"⟩

theorem agent_only_proposes_pause : ∃ rows,
    Recorded manual brokenEndpoint
      (final (runDiagnosis pausing manual) { store := brokenEndpoint }).store rows
      [{ id := 3, diagnosisId := 20, endpointId := 1, action := .pauseEndpoint,
         reason := "down" }] ∧
      rows.map Diagnosis.confidence = [.low] := by
  obtain ⟨rows, proposed, recorded, _, _⟩ :=
    agent_only_proposes pausing manual brokenEndpoint List.not_mem_nil
  have actions :
      (final (runDiagnosis pausing manual) { store := brokenEndpoint }).store.db.actions =
        [{ id := 3, diagnosisId := 20, endpointId := 1, action := .pauseEndpoint,
           reason := "down" }] := by
    decide +kernel
  have levels : (final (runDiagnosis pausing manual)
      { store := brokenEndpoint }).store.db.diagnoses.map Diagnosis.confidence = [.low] := by
    decide +kernel
  rw [recorded.store] at actions levels
  have same : proposed = _ := actions
  exact ⟨rows, same ▸ recorded, levels⟩

end Relay.Agent
