import Relay.Agent.SharedSession
import Relay.Properties.Verification

/-!
# Does a failing tool end the run?

`dispatch` makes a result of whatever a tool raises. Some failures are not over with
that: where the commit of a requested mutation fails or the database refuses a select,
the session that the tools share with the run refuses the final write, and where the
name of a tool or the result kept for it contains U+0000 or a lone surrogate, the
database does.
-/

namespace Relay.Agent

open Effects

/-- The model answers every call, and the database takes the stub of the diagnosis. -/
structure Undisturbed (env : Surroundings) (subject : Subject) (s : Store) : Prop where
  tame : Tame env
  replies : ∀ n, ∃ response, env.reply n = .ok response
  client : env.getLlm = .ok ()
  endpoint : (s.db.endpoint subject.endpointId).isSome = true
  fresh : s.db.diagnosis subject.diagnosisId = none
  stubbed : env.fault 0 = .none

/-- Arguments that follow the schema of `submit_diagnosis`. -/
structure Conforms (fields : List (String × Json)) (rootCause : String) (level : Confidence) :
    Prop where
  rootCause : lookup fields "root_cause" = some (.str rootCause)
  confidence : ∃ text, lookup fields "confidence" = some (.str text) ∧
    asConfidence text = .ok level
  summary : ∃ text, lookup fields "summary" = some (.str text)
  recommendation : ∃ text, lookup fields "recommendation" = some (.str text)
  draftEmail : ∃ text, lookup fields "draft_email" = some (.str text)

/-- The results that the evidence keeps: the last one under each name. -/
def kept (calls : List Call) : List (String × Json) :=
  calls.foldl (fun evidence c => assign evidence c.name c.result) []

/-- The columns take all that the last write is to store: no U+0000, no lone surrogate. -/
structure Stored (calls : List Call) (state : AgentState) (fields : List (String × Json)) :
    Prop where
  names : ∀ c ∈ calls, nul ∉ c.name.toList
  results : ∀ f ∈ kept calls, f.2.Storable
  notes : ∀ text ∈ [state.triageNotes, state.hypothesis, state.verificationNotes],
    nul ∉ text.toList
  submission : ∀ key ∈ ["root_cause", "summary", "recommendation", "draft_email"],
    TextAt fields key

section Run

variable (env : Surroundings) (subject : Subject) (s : Store)

/-- The calls of both loops. -/
def allCalls : List Call := investigateCalls env subject s ++ verifyCalls env subject s

/-- The run returns, and its row holds what was submitted, at a low confidence when no
verification tool was called. -/
structure Concludes (rootCause : String) (level : Confidence) : Prop where
  returns : outcome (runDiagnosis env subject) { store := s } = .ok ⟨⟩
  row : ∃ d, (final (runDiagnosis env subject) { store := s }).store.db.diagnosis
      subject.diagnosisId = some d ∧ d.rootCause = rootCause ∧
    d.confidence = if (allCalls env subject s).any Call.tests then level else .low

end Run

/-! A run that is undisturbed gets to its report -/

section Reports

variable {env : Surroundings} {subject : Subject} {s : Store}
  (undisturbed : Undisturbed env subject s)

include undisturbed

theorem callModel_returns : Raises (fun _ => False) (callModel env) := by
  refine raises_bind raises_await fun n => ?_
  obtain ⟨response, replied⟩ := undisturbed.replies n
  rw [replied]
  exact raises_bind (raises_update _) fun _ => raises_pure _

theorem useTools_returns (blocks : List Block) :
    Raises (fun _ => False) (useTools env subject blocks) := by
  induction blocks with
  | nil => exact raises_pure _
  | cons block rest ih =>
    exact raises_bind (serve_returns undisturbed.tame block) fun _ =>
      raises_bind (raises_update _) fun _ => ih

theorem toolRounds_returns (maxCalls rounds calls : Nat) :
    Raises (fun _ => False) (toolRounds env subject maxCalls rounds calls) := by
  have wrapUp : Raises (fun _ => False) (toolRounds.wrapUp env) :=
    raises_bind (callModel_returns undisturbed) fun _ => raises_pure _
  induction rounds generalizing calls with
  | zero => exact wrapUp
  | succ rounds ih =>
    refine raises_bind raises_get fun p => ?_
    split
    · refine raises_bind (callModel_returns undisturbed) fun response => ?_
      split
      · exact raises_pure _
      · exact raises_bind (useTools_returns undisturbed _) fun _ => ih _
    · exact wrapUp

theorem stub_committed :
    outcome (commit env (addDiagnosis (stub subject))) { store := s } = .ok ⟨⟩ := by
  have taken : addDiagnosis (stub subject) s.db =
      .ok { s.db with diagnoses := s.db.diagnoses ++ [stub subject] } :=
    if_pos ⟨undisturbed.endpoint, Option.isNone_iff_eq_none.mpr undisturbed.fresh⟩
  exact (commit_accepted rfl undisturbed.stubbed taken).1

theorem toInvestigate_returns :
    ∃ done, outcome (toInvestigate env subject) { store := s } = .ok done := by
  refine returns_bind ⟨_, stub_committed undisturbed⟩ fun _ => ?_
  rw [undisturbed.client]
  exact raises_bind (callModel_returns undisturbed) fun _ => raises_update _

theorem toReport_returns : outcome (toReport env subject) { store := s } = .ok ⟨⟩ := by
  have hypothesised : ∃ done, outcome (toVerify env subject) { store := s } = .ok done := by
    refine returns_bind (toInvestigate_returns undisturbed) fun _ => ?_
    refine raises_bind (raises_bind (toolRounds_returns undisturbed _ _ _) fun _ =>
      raises_pure _) fun _ => ?_
    exact raises_bind (callModel_returns undisturbed) fun _ => raises_update _
  obtain ⟨_, reached⟩ := returns_bind hypothesised fun _ =>
    raises_bind (toolRounds_returns undisturbed maxVerifyToolCalls maxVerifyToolCalls 0) fun _ =>
      raises_update _
  exact reached

/-- After the stub the session is usable, and the endpoint is there. -/
theorem toInvestigate_session :
    Present subject (final (toInvestigate env subject) { store := s }) ∧
    (final (toInvestigate env subject) { store := s }).broken = false := by
  have sessions : Summarises env subject _ := session_summarises undisturbed.tame
  have present : Present subject
      (final (commit env (addDiagnosis (stub subject))) { store := s }) := by
    unfold Present
    rcases commit_store env (addDiagnosis (stub subject)) { store := s } with
      ⟨same, _⟩ | ⟨db, written, now⟩
    · rw [same]
      exact undisturbed.endpoint
    · rw [now]
      unfold addDiagnosis at written
      split at written <;> cases written
      exact undisturbed.endpoint
  have usable : (final (commit env (addDiagnosis (stub subject))) { store := s }).broken =
      false := by
    rcases commit_session env (addDiagnosis (stub subject)) { store := s } with
      ⟨_, usable, _⟩ | ⟨⟨e, raised⟩, _⟩
    · exact usable
    · rw [stub_committed undisturbed] at raised
      cases raised
  unfold toInvestigate
  rw [final_bind, stub_committed undisturbed, undisturbed.client]
  have noting (response : Response) (state : AgentState) :
      Logged [] state { state with triageNotes := textOf response } := .none rfl rfl rfl
  obtain ⟨still, triaged⟩ := sessions.asksAndNotes noting
    (final (commit env (addDiagnosis (stub subject))) { store := s }) present
  rw [List.any_nil, Bool.or_false, usable] at triaged
  exact ⟨still, triaged⟩

/-- The session is usable unless a call has spoilt it. -/
theorem toReport_session : (final (toReport env subject) { store := s }).broken =
    (allCalls env subject s).any (Call.spoils env) := by
  have sessions : Summarises env subject _ := session_summarises undisturbed.tame
  obtain ⟨present, usable⟩ := toInvestigate_session undisturbed
  obtain ⟨_, summary⟩ := sessions.run env subject (toReport_returns undisturbed) present
  rw [usable, Bool.false_or] at summary
  exact summary

end Reports

/-! The report and the final write -/

section Columns

variable {state : AgentState} {fields : List (String × Json)}

theorem mem_dropWhile {α : Type} {p : α → Bool} {a : α} (stays : p a = false) {l : List α} :
    a ∈ l.dropWhile p ↔ a ∈ l := by
  induction l with
  | nil => exact Iff.rfl
  | cons b rest ih =>
    cases held : p b with
    | true =>
      have other : a ≠ b := by
        rintro rfl
        rw [stays] at held
        cases held
      rw [List.dropWhile_cons_of_pos held, ih, List.mem_cons, or_iff_right other]
    | false =>
      rw [List.dropWhile_cons_of_neg (Bool.eq_false_iff.mp held)]

/-- Only white space is stripped. -/
theorem nul_mem_strip (s : String) : nul ∈ (strip s).toList ↔ nul ∈ s.toList := by
  have visible : isSpace nul = false := by decide
  unfold strip
  rw [String.toList_ofList, List.mem_reverse, mem_dropWhile visible, List.mem_reverse,
    mem_dropWhile visible]

theorem plain_confidence {text : String} {level : Confidence}
    (known : asConfidence text = .ok level) : nul ∉ text.toList := by
  unfold asConfidence at known
  split at known
  · decide
  · decide
  · decide
  · cases known

/-- The columns take what the last write is to store. -/
structure Columns (state : AgentState) (fields : List (String × Json)) : Prop where
  rootCause : TextAt fields "root_cause"
  recommendation : TextAt fields "recommendation"
  draftEmail : TextAt fields "draft_email"
  evidence : (Json.obj (evidenceOf state fields)).Storable

theorem storable_evidenceOf : (Json.obj (evidenceOf state fields)).Storable ↔
    (∀ name ∈ state.toolCallsMade, nul ∉ name.toList) ∧
    (Json.obj state.evidence).Storable ∧
      (∀ text ∈ [state.triageNotes, state.hypothesis, state.verificationNotes],
        nul ∉ text.toList) ∧ ((lookup fields "summary").getD (.str "")).Storable := by
  have keys : ∀ key ∈ ["tool_calls", "verified", "findings", "triage", "hypothesis",
      "verification", "summary"], nul ∉ key.toList := by decide
  simp only [List.forall_mem_cons] at keys
  obtain ⟨calls, verified, findings, triage, hypothesis, verification, summary, _⟩ := keys
  unfold evidenceOf
  simp only [@Json.storable_obj (_ :: _), Json.storable_arr, List.forall_mem_cons,
    List.forall_mem_map, Json.storable_str, Json.storable_bool, List.not_mem_nil,
    false_imp_iff, implies_true, and_true, true_and, not_false_eq_true, calls, verified,
    findings, triage, hypothesis, verification, summary, and_assoc]

/-- The arguments without their confidence. -/
def lowered (fields : List (String × Json)) (summary : String) : List (String × Json) :=
  assign (assign fields "confidence" (.str "low")) "summary"
    (.str (strip (summary ++ " [Not verified against a live probe.]")))

theorem lookup_lowered {key : String} (first : key ≠ "summary") (second : key ≠ "confidence")
    (fields : List (String × Json)) (summary : String) :
    lookup (lowered fields summary) key = lookup fields key := by
  unfold lowered
  rw [lookup_assign_ne _ first, lookup_assign_ne _ second]

/-- The sentence that is added contains nothing that a column does not take. -/
theorem columns_lowered {summary : String} (given : lookup fields "summary" = some (.str summary)) :
    Columns state (lowered fields summary) ↔ Columns state fields := by
  have same {key : String} (first : key ≠ "summary") (second : key ≠ "confidence") :
      TextAt (lowered fields summary) key ↔ TextAt fields key := by
    unfold TextAt
    rw [lookup_lowered first second]
  have suffix : nul ∉ " [Not verified against a live probe.]".toList := by decide
  have evidence : (Json.obj (evidenceOf state (lowered fields summary))).Storable ↔
      (Json.obj (evidenceOf state fields)).Storable := by
    have now : lookup (lowered fields summary) "summary" =
        some (.str (strip (summary ++ " [Not verified against a live probe.]"))) :=
      lookup_assign_self _ _ _
    rw [storable_evidenceOf, storable_evidenceOf, now, given, Option.getD_some, Option.getD_some,
      Json.storable_str, Json.storable_str, nul_mem_strip, String.toList_append, List.mem_append,
      or_iff_left suffix]
  have root : TextAt (lowered fields summary) "root_cause" ↔ _ := same (by decide) (by decide)
  have recommendation : TextAt (lowered fields summary) "recommendation" ↔ _ :=
    same (by decide) (by decide)
  have draft : TextAt (lowered fields summary) "draft_email" ↔ _ := same (by decide) (by decide)
  constructor
  · rintro ⟨rootCause, recommended, drafted, stored⟩
    exact ⟨root.mp rootCause, recommendation.mp recommended, draft.mp drafted,
      evidence.mp stored⟩
  · rintro ⟨rootCause, recommended, drafted, stored⟩
    exact ⟨root.mpr rootCause, recommendation.mpr recommended, draft.mpr drafted,
      evidence.mpr stored⟩

/-- The evidence has a result for the names of calls only. -/
theorem mem_noted {calls : List Call} {before : List (String × Json)} {f : String × Json}
    (listed : f ∈ calls.foldl (fun evidence c => assign evidence c.name c.result) before) :
    (∃ c ∈ calls, c.name = f.1) ∨ f ∈ before := by
  induction calls generalizing before with
  | nil => exact Or.inr listed
  | cons c rest ih =>
    rcases ih listed with ⟨c', member, named⟩ | old
    · exact Or.inl ⟨c', List.mem_cons_of_mem _ member, named⟩
    · rcases mem_assign old with rfl | older
      · exact Or.inl ⟨c, List.mem_cons_self, rfl⟩
      · exact Or.inr older

/-- What the last write stores is what the calls have left, the notes and the submission. -/
theorem columns_iff_stored {calls : List Call} (logged : Logged calls {} state) {summary : String}
    (given : lookup fields "summary" = some (.str summary)) :
    Columns state fields ↔ Stored calls state fields := by
  have names : (∀ name ∈ state.toolCallsMade, nul ∉ name.toList) ↔
      ∀ c ∈ calls, nul ∉ c.name.toList := by
    rw [logged.names]
    exact List.forall_mem_map
  have results : state.evidence = kept calls := logged.evidence
  have summarised : ((lookup fields "summary").getD (.str "")).Storable ↔
      TextAt fields "summary" := by
    unfold TextAt
    rw [given]
    simp
  constructor
  · rintro ⟨rootCause, recommendation, draftEmail, evidence⟩
    obtain ⟨plain, findings, notes, summary⟩ := storable_evidenceOf.mp evidence
    rw [results, Json.storable_obj] at findings
    exact {
      names := names.mp plain
      results := fun f listed => (findings f listed).2
      notes := notes
      submission := by
        simp only [List.forall_mem_cons]
        exact ⟨rootCause, summarised.mp summary, recommendation, draftEmail,
          List.forall_mem_nil _⟩ }
  · intro stored
    have submission := stored.submission
    simp only [List.forall_mem_cons] at submission
    obtain ⟨rootCause, summary, recommendation, draftEmail, _⟩ := submission
    refine ⟨rootCause, recommendation, draftEmail, storable_evidenceOf.mpr
      ⟨names.mpr stored.names, ?_, stored.notes, summarised.mpr summary⟩⟩
    rw [results, Json.storable_obj]
    intro f listed
    obtain ⟨c, member, named⟩ := (mem_noted listed).resolve_right List.not_mem_nil
    exact ⟨named ▸ stored.names c member, stored.results f listed⟩

end Columns

section Ends

variable {env : Surroundings} {subject : Subject} {fields : List (String × Json)}
  {rootCause : String} {level : Confidence} (conforms : Conforms fields rootCause level)

include conforms

theorem downgrade_conforms : ∃ summary, lookup fields "summary" = some (.str summary) ∧
    downgrade fields = .ok (lowered fields summary) ∧
      Conforms (lowered fields summary) rootCause .low := by
  obtain ⟨summary, given⟩ := conforms.summary
  refine ⟨summary, given, ?_, ?_⟩
  · unfold downgrade
    rw [given]
    rfl
  · constructor
    case rootCause =>
      exact (lookup_lowered (by decide) (by decide) _ _).trans conforms.rootCause
    case confidence =>
      refine ⟨"low", ?_, rfl⟩
      unfold lowered
      rw [lookup_assign_ne _ (by decide), lookup_assign_self]
    case summary => exact ⟨_, lookup_assign_self _ _ _⟩
    case recommendation =>
      obtain ⟨text, recommended⟩ := conforms.recommendation
      exact ⟨text, (lookup_lowered (by decide) (by decide) _ _).trans recommended⟩
    case draftEmail =>
      obtain ⟨text, drafted⟩ := conforms.draftEmail
      exact ⟨text, (lookup_lowered (by decide) (by decide) _ _).trans drafted⟩

theorem filing_conforms {p : Progress} {response : Response}
    (replied : env.reply p.awaits = .ok response) (submits : submitted env p = some fields) :
    ∃ filed, filing p.state.verified response = .ok filed ∧
      Conforms filed rootCause (if p.state.verified then level else .low) ∧
      (Columns p.state filed ↔ Columns p.state fields) := by
  rw [submitted_of_reply replied] at submits
  obtain ⟨submission, found, input⟩ := Option.bind_eq_some_iff.mp submits
  unfold filing
  rw [found]
  simp only [input]
  by_cases flag : p.state.verified = true
  · rw [if_pos flag, if_pos flag]
    exact ⟨fields, rfl, conforms, Iff.rfl⟩
  · rw [if_neg flag, if_neg flag]
    obtain ⟨summary, given, lowers, follows⟩ := downgrade_conforms conforms
    exact ⟨lowered fields summary, lowers, follows, columns_lowered given⟩

/-- The row that is written has the submitted values. -/
theorem conclude_conforms {state : AgentState} (filed : state.result = some fields)
    {row row' : Diagnosis} (concluded : conclude env state row = .ok row') :
    row'.rootCause = rootCause ∧ row'.confidence = level := by
  obtain ⟨text, given, known⟩ := conforms.confidence
  unfold conclude at concluded
  rw [filed, Option.getD_some] at concluded
  dsimp only at concluded
  obtain ⟨root, isRoot, concluded⟩ := bind_eq_ok.mp concluded
  obtain ⟨confidence, isConfidence, concluded⟩ := bind_eq_ok.mp concluded
  obtain ⟨_, _, concluded⟩ := bind_eq_ok.mp concluded
  obtain ⟨_, _, concluded⟩ := bind_eq_ok.mp concluded
  obtain ⟨level', isLevel, concluded⟩ := bind_eq_ok.mp concluded
  obtain ⟨_, _, concluded⟩ := bind_eq_ok.mp concluded
  cases concluded
  rw [conforms.rootCause] at isRoot
  rw [given] at isConfidence
  cases (asText_ok.mp isRoot).1
  cases (asText_ok.mp isConfidence).1
  cases known.symm.trans isLevel
  exact ⟨rfl, rfl⟩

/-- There is such a row when the columns take the values. -/
theorem conclude_columns {state : AgentState} (filed : state.result = some fields)
    (row : Diagnosis) : (∃ row', conclude env state row = .ok row') ↔ Columns state fields := by
  have rootCause : TextAt fields "root_cause" ↔ _ := textAt_iff "agent_error" (by decide)
  have recommendation : TextAt fields "recommendation" ↔ _ := textAt_iff "" (by decide)
  have draftEmail : TextAt fields "draft_email" ↔ _ := textAt_iff "" (by decide)
  unfold conclude
  rw [filed, Option.getD_some]
  dsimp only
  constructor
  · rintro ⟨row', concluded⟩
    obtain ⟨_, isRoot, concluded⟩ := bind_eq_ok.mp concluded
    obtain ⟨_, _, concluded⟩ := bind_eq_ok.mp concluded
    obtain ⟨_, isRecommendation, concluded⟩ := bind_eq_ok.mp concluded
    obtain ⟨_, isDraft, concluded⟩ := bind_eq_ok.mp concluded
    obtain ⟨_, _, concluded⟩ := bind_eq_ok.mp concluded
    obtain ⟨_, isEvidence, _⟩ := bind_eq_ok.mp concluded
    exact ⟨rootCause.mpr ⟨_, isRoot⟩, recommendation.mpr ⟨_, isRecommendation⟩,
      draftEmail.mpr ⟨_, isDraft⟩, (asJsonb_ok.mp isEvidence).1⟩
  · intro columns
    obtain ⟨_, isRoot⟩ := rootCause.mp columns.rootCause
    obtain ⟨_, isRecommendation⟩ := recommendation.mp columns.recommendation
    obtain ⟨_, isDraft⟩ := draftEmail.mp columns.draftEmail
    obtain ⟨text, given, known⟩ := conforms.confidence
    have isText : asText (.str text) = .ok text := asText_ok.mpr ⟨rfl, plain_confidence known⟩
    rw [isRoot, isRecommendation, isDraft, given, Option.getD_some, isText,
      asJsonb_ok.mpr ⟨columns.evidence, rfl⟩]
    change ∃ row', (asConfidence text >>= _) = .ok row'
    rw [known]
    exact ⟨_, rfl⟩

variable (env) in
/-- The final write is made exactly by a session that is usable, of values that the columns
take. -/
theorem persistResult_ends (p : Progress) (filed : p.state.result = some fields)
    (accepts : env.fault p.awaits = .none)
    (stored : p.store.db.diagnosis subject.diagnosisId = some (stub subject)) :
    (outcome (persistResult env subject) p = .ok ⟨⟩ ∧ ∃ d,
        (final (persistResult env subject) p).store.db.diagnosis subject.diagnosisId = some d ∧
          d.rootCause = rootCause ∧ d.confidence = level) ↔
      p.broken = false ∧ Columns p.state fields := by
  have writes : (∃ row, conclude env p.state (stub subject) = .ok row) ↔
      Columns p.state fields :=
    conclude_columns conforms filed _
  unfold persistResult
  rw [outcome_get_bind, final_get_bind, ← writes]
  constructor
  · rintro ⟨returned, _⟩
    by_contra prevented
    have refused : p.broken = true ∨
        ∃ e, writeDiagnosis env subject p.state p.store.db = .error e := by
      cases session : p.broken with
      | true => exact Or.inl rfl
      | false =>
        cases concluded : conclude env p.state (stub subject) with
        | ok row => exact absurd ⟨session, row, concluded⟩ prevented
        | error e =>
          refine Or.inr ⟨e, ?_⟩
          unfold writeDiagnosis
          rw [concluded]
          rfl
    obtain ⟨e, raised⟩ := commit_refused env refused
    rw [raised] at returned
    cases returned
  · rintro ⟨usable, row, concluded⟩
    obtain ⟨root, confidence⟩ := conclude_conforms conforms filed concluded
    obtain ⟨returned, now⟩ := commit_accepted usable accepts (writeDiagnosis_eq concluded)
    rw [now]
    refine ⟨returned, overwrite row (stub subject), ?_, root, confidence⟩
    have updated : Table.get Diagnosis.id (Table.update Diagnosis.id p.store.db.diagnoses
        subject.diagnosisId (overwrite row)) subject.diagnosisId =
        (p.store.db.diagnosis subject.diagnosisId).map (overwrite row) :=
      Table.get_update_self fun _ => rfl
    rw [stored] at updated
    exact updated

end Ends

section Conclusion

variable {env : Surroundings} {subject : Subject} {s : Store}

/-- The stub is still there when the report begins. -/
theorem toReport_stored (undisturbed : Undisturbed env subject s) :
    (final (toReport env subject) { store := s }).store.db.diagnosis subject.diagnosisId =
      some (stub subject) := by
  have begun : Begun subject s (toReport env subject) := begun_toReport
  rcases begun with ⟨_, e, raised⟩ | ⟨rows, fresh⟩
  · rw [toReport_returns undisturbed] at raised
    cases raised
  · unfold Db.diagnosis
    rw [rows, Table.get_append, Table.get_eq_none.mpr fresh]
    simp [Table.get, stub]

/-- With the report of a reply on file. -/
def reported (fields : List (String × Json)) (response : Response) (p : Progress) : Progress :=
  { asked response p with state := { (asked response p).state with result := some fields } }

/-- A run whose report is reached ends with the final write. -/
theorem runDiagnosis_reported {p : Progress} {fields : List (String × Json)}
    {response : Response} (reached : outcome (toReport env subject) { store := s } = .ok ⟨⟩)
    (here : final (toReport env subject) { store := s } = p)
    (replied : env.reply p.awaits = .ok response)
    (filed : filing p.state.verified response = .ok fields) :
    outcome (runDiagnosis env subject) { store := s } =
        outcome (persistResult env subject) (reported fields response p) ∧
      final (runDiagnosis env subject) { store := s } =
        final (persistResult env subject) (reported fields response p) := by
  have run : (reportNode env).run.run p = (.ok ⟨⟩, reported fields response p) := by
    rw [reportNode_run replied, filed]
    rfl
  have returns : outcome (reportNode env) p = .ok ⟨⟩ := congrArg Prod.fst run
  have ends : final (reportNode env) p = reported fields response p := congrArg Prod.snd run
  rw [runDiagnosis_eq, outcome_bind, final_bind, reached, here]
  constructor
  · simp only [outcome_bind, returns, ends]
  · simp only [final_bind, returns, ends]

end Conclusion

/-- Where the model submits a diagnosis, a run concludes with it exactly when no call has
spoilt the session and the columns take what the calls, the notes and the submission leave. -/
theorem failing_tools {env : Surroundings} {subject : Subject} {s : Store}
    {fields : List (String × Json)} {rootCause : String} {level : Confidence}
    (undisturbed : Undisturbed env subject s)
    (submits : submitted env (final (toReport env subject) { store := s }) = some fields)
    (conforms : Conforms fields rootCause level)
    (accepts : env.fault ((final (toReport env subject) { store := s }).awaits + 1) = .none) :
    Concludes env subject s rootCause level ↔
      (∀ c ∈ allCalls env subject s, c.spoils env = false) ∧
        Stored (allCalls env subject s) (final (toReport env subject) { store := s }).state
          fields := by
  have reached := toReport_returns undisturbed
  have stub := toReport_stored undisturbed
  have session := toReport_session undisturbed
  have logged : Logged (allCalls env subject s) {} _ := toReport_logged env subject reached
  have unspoilt : (∀ c ∈ allCalls env subject s, c.spoils env = false) ↔
      (final (toReport env subject) { store := s }).broken = false := by
    rw [session, List.any_eq_false]
    simp only [Bool.not_eq_true]
  obtain ⟨summary, given⟩ := conforms.summary
  rw [unspoilt, ← columns_iff_stored logged given]
  have flag : (final (toReport env subject) { store := s }).state.verified =
      (allCalls env subject s).any Call.tests := logged.verified
  generalize here : final (toReport env subject) { store := s } = p at *
  obtain ⟨response, replied⟩ := undisturbed.replies p.awaits
  obtain ⟨filed, files, concluding, columns⟩ := filing_conforms conforms replied submits
  rw [flag] at concluding
  obtain ⟨returns, ends⟩ := runDiagnosis_reported reached here replied files
  have written := persistResult_ends env concluding (reported filed response p) rfl accepts stub
  have reportedColumns : Columns (reported filed response p).state filed ↔
      Columns p.state filed :=
    ⟨fun c => ⟨c.rootCause, c.recommendation, c.draftEmail, c.evidence⟩,
      fun c => ⟨c.rootCause, c.recommendation, c.draftEmail, c.evidence⟩⟩
  rw [reportedColumns, columns] at written
  constructor
  · rintro ⟨completes, d, row, root, confidence⟩
    exact written.mp ⟨returns.symm.trans completes, d, ends ▸ row, root, confidence⟩
  · intro unprevented
    obtain ⟨returned, d, row, root, confidence⟩ := written.mpr unprevented
    exact ⟨returns.trans returned, d, ends ▸ row, root, confidence⟩

/-! A probe that raises, and three failures that end the run -/

/-- The model uses the tool in reply 2 and submits its diagnosis in reply `n`. -/
def failing (use : Block) (n : Nat) (faults : Nat → Fault) : Surroundings :=
  { pausing with
    reply := fun m =>
      if m = 2 then .ok ⟨[use], 10, 10⟩
      else if m = n then .ok ⟨[submission], 10, 10⟩
      else .ok ⟨[⟨"text", "It is down.", "", "", none⟩], 10, 10⟩
    fault := faults
    sendDelivery := fun _ => .error ⟨"OSError", "", false⟩ }

/-- The database refuses the statement of await `n`, and no other. -/
def rejects (n m : Nat) : Fault :=
  if m = n then .refused ⟨"DBAPIError", "canceling statement due to statement timeout", false⟩
  else .none

theorem failing_undisturbed {use : Block} {n : Nat} {faults : Nat → Fault}
    (mild : ∀ m, faults m = .none ∨ ∃ e, faults m = .refused e ∧ Mild e)
    (stubbed : faults 0 = .none) : Undisturbed (failing use n faults) manual brokenEndpoint where
  tame := {
    before := fun m e same => by
      rcases mild m with none | ⟨e', fault, _⟩
      · cases none.symm.trans same
      · cases fault.symm.trans same
    after := fun m e same => by
      rcases mild m with none | ⟨e', fault, _⟩
      · cases none.symm.trans same
      · cases fault.symm.trans same
    refused := fun m e same => by
      rcases mild m with none | ⟨e', fault, holds⟩
      · cases none.symm.trans same
      · cases fault.symm.trans same
        exact holds
    sendDelivery := fun _ _ same => by
      cases same
      rfl
    urlparse := fun _ _ same => by cases same
    getaddrinfo := fun _ _ same => by cases same
    handshake := fun _ _ same => by cases same }
  replies m := by
    unfold failing
    dsimp only
    split
    · exact ⟨_, rfl⟩
    · split
      · exact ⟨_, rfl⟩
      · exact ⟨_, rfl⟩
  client := rfl
  endpoint := by decide +kernel
  fresh := rfl
  stubbed := stubbed

def submittedFields : List (String × Json) :=
  [("root_cause", .str "endpoint_down"), ("confidence", .str "high"),
    ("summary", .str "It is down."), ("recommendation", .str "Restart it."),
    ("draft_email", .str "")]

theorem submission_conforms : Conforms submittedFields "endpoint_down" .high :=
  ⟨rfl, ⟨"high", rfl, rfl⟩, ⟨_, rfl⟩, ⟨_, rfl⟩, ⟨_, rfl⟩⟩

theorem failing_submits {use : Block} {n : Nat} {faults : Nat → Fault} {p : Progress}
    (later : n ≠ 2) (here : p.awaits = n) :
    submitted (failing use n faults) p = some submittedFields := by
  have replied : (failing use n faults).reply p.awaits = .ok ⟨[submission], 10, 10⟩ := by
    unfold failing
    dsimp only
    rw [here, if_neg later, if_pos rfl]
  unfold submitted
  rw [replied]
  rfl

def probing : Surroundings := failing (uses "probe_endpoint" []) 8 fun _ => .none

theorem columns_submitted (state : AgentState) :
    Columns state submittedFields ↔ (Json.obj (evidenceOf state submittedFields)).Storable := by
  refine ⟨Columns.evidence, fun evidence => ⟨?_, ?_, ?_, evidence⟩⟩
  all_goals
    intro value given
    cases given
    exact ⟨_, rfl, by decide⟩

/-- The probe raises, and the diagnosis is recorded. -/
theorem failing_tools_probe : Concludes probing manual brokenEndpoint "endpoint_down" .high := by
  have undisturbed : Undisturbed probing manual brokenEndpoint :=
    failing_undisturbed (fun _ => Or.inl rfl) rfl
  refine (failing_tools undisturbed (failing_submits (by decide) (by decide +kernel))
    submission_conforms rfl).mpr ⟨?_, ?_⟩
  · have unspoilt : (allCalls probing manual brokenEndpoint).any
        (Call.spoils probing) = false := by
      decide +kernel
    simpa using unspoilt
  · have logged : Logged (allCalls probing manual brokenEndpoint) {} _ :=
      toReport_logged probing manual (toReport_returns undisturbed)
    rw [← columns_iff_stored logged rfl, columns_submitted]
    decide +kernel

/-- All that the theorem asks for, and yet the run does not conclude. -/
def Killed (env : Surroundings) : Prop :=
  Undisturbed env manual brokenEndpoint ∧
    submitted env (final (toReport env manual) { store := brokenEndpoint }) =
      some submittedFields ∧
    Conforms submittedFields "endpoint_down" .high ∧
    env.fault ((final (toReport env manual) { store := brokenEndpoint }).awaits + 1) = .none ∧
    ¬ Concludes env manual brokenEndpoint "endpoint_down" .high

theorem killed {use : Block} {n : Nat} {faults : Nat → Fault}
    (mild : ∀ m, faults m = .none ∨ ∃ e, faults m = .refused e ∧ Mild e)
    (quiet : faults 0 = .none ∧ faults (n + 1) = .none) (later : n ≠ 2)
    (here : (final (toReport (failing use n faults) manual) { store := brokenEndpoint }).awaits = n)
    (raises : (outcome (runDiagnosis (failing use n faults) manual)
      { store := brokenEndpoint }).toBool = false) : Killed (failing use n faults) := by
  refine ⟨failing_undisturbed mild quiet.1, failing_submits later here, submission_conforms, ?_,
    fun concludes => ?_⟩
  · rw [here]
    exact quiet.2
  · rw [concludes.returns] at raises
    cases raises

/-- A text that no column takes. -/
def unstorable : String := String.singleton nul

/-- A run ends by an exception after the commit of a pause whose reason contains U+0000, after
a select that the database refuses, and after a tool that is unknown by a name with U+0000. -/
theorem failing_tools_killed :
    Killed (failing (uses "pause_endpoint" [("reason", .str unstorable)]) 7 fun _ => .none) ∧
      Killed (failing (uses "get_endpoint_config" []) 7 (rejects 3)) ∧
      Killed (failing (uses unstorable []) 6 fun _ => .none) := by
  have mild (m : Nat) : rejects 3 m = .none ∨ ∃ e, rejects 3 m = .refused e ∧ Mild e := by
    unfold rejects
    split
    · exact Or.inr ⟨_, rfl, rfl⟩
    · exact Or.inl rfl
  exact ⟨killed (fun _ => Or.inl rfl) ⟨rfl, rfl⟩ (by decide) (by decide +kernel)
      (by decide +kernel),
    killed mild ⟨rfl, rfl⟩ (by decide) (by decide +kernel) (by decide +kernel),
    killed (fun _ => Or.inl rfl) ⟨rfl, rfl⟩ (by decide) (by decide +kernel)
      (by decide +kernel)⟩

end Relay.Agent
