import Relay.Agent.Calls
import Relay.Properties.AgentFrame

/-!
# Confidence and verification

A diagnosis is downgraded unless a verification tool was called. The flag that says
so is set by either loop and whatever the tool returned: a probe made before there
was a hypothesis, or one that failed, spares the diagnosis as well.
-/

namespace Relay.Agent

open Effects

/-! What the report submits -/

/-- The arguments of the `submit_diagnosis` in the next reply. -/
def submitted (env : Surroundings) (p : Progress) : Option (List (String × Json)) :=
  match env.reply p.awaits with
  | .error _ => none
  | .ok response =>
    (response.content.find? (fun b => b.type = "tool_use" ∧ b.name = "submit_diagnosis")).bind
      Block.input

/-- A text that the column takes, or nothing: it then gets its default. -/
def TextAt (fields : List (String × Json)) (key : String) : Prop :=
  ∀ value, lookup fields key = some value → ∃ text, value = .str text ∧ nul ∉ text.toList

/-- Arguments that the columns take, with a confidence other than low. -/
structure Confident (state : AgentState) (fields : List (String × Json)) : Prop where
  level : lookup fields "confidence" = some (.str "medium") ∨
    lookup fields "confidence" = some (.str "high")
  rootCause : TextAt fields "root_cause"
  recommendation : TextAt fields "recommendation"
  draftEmail : TextAt fields "draft_email"
  evidence : (Json.obj (evidenceOf state fields)).Storable

def Asserts (env : Surroundings) (p : Progress) : Prop :=
  ∃ fields, submitted env p = some fields ∧ Confident p.state fields

section Report

variable {env : Surroundings} {subject : Subject} {state : AgentState} {row row' : Diagnosis}
  {fields : List (String × Json)}

theorem asText_ok {value : Json} {text : String} :
    asText value = .ok text ↔ value = .str text ∧ nul ∉ text.toList := by
  cases value with
  | str given =>
    rw [asText, Json.str.injEq]
    split
    · rename_i held
      refine ⟨fun refused => (by cases refused), ?_⟩
      rintro ⟨rfl, plain⟩
      exact absurd held plain
    · rename_i plain
      rw [Except.ok.injEq]
      refine ⟨?_, And.left⟩
      rintro rfl
      exact ⟨rfl, plain⟩
  | _ => simp [asText]

theorem asJsonb_ok {stored : List (String × Json)} :
    asJsonb fields = .ok stored ↔ (Json.obj fields).Storable ∧ fields = stored := by
  unfold asJsonb
  split
  · rename_i taken
    simp [taken]
  · rename_i refused
    simp [refused]

theorem textAt_iff {key : String} (default : String) (plain : nul ∉ default.toList) :
    TextAt fields key ↔
      ∃ text, asText ((lookup fields key).getD (.str default)) = .ok text := by
  simp only [asText_ok]
  unfold TextAt
  cases lookup fields key with
  | none => simpa using plain
  | some value => simp

theorem asConfidence_raised {text : String} {level : Confidence}
    (known : asConfidence text = .ok level) :
    level ≠ .low ↔ text = "medium" ∨ text = "high" := by
  unfold asConfidence at known
  split at known
  · cases known
    decide
  · cases known
    decide
  · cases known
    decide
  · cases known

/-- The row that is written has the submitted level. -/
theorem conclude_confident (filed : state.result = some fields) :
    (∃ row', conclude env state row = .ok row' ∧ row'.confidence ≠ .low) ↔
      Confident state fields := by
  unfold conclude
  rw [filed, Option.getD_some]
  dsimp only
  constructor
  · rintro ⟨row', concluded, raised⟩
    obtain ⟨rootCause, isRoot, concluded⟩ := bind_eq_ok.mp concluded
    obtain ⟨confidence, isLevel, concluded⟩ := bind_eq_ok.mp concluded
    obtain ⟨recommendation, isRecommendation, concluded⟩ := bind_eq_ok.mp concluded
    obtain ⟨draftEmail, isDraft, concluded⟩ := bind_eq_ok.mp concluded
    obtain ⟨level, known, concluded⟩ := bind_eq_ok.mp concluded
    obtain ⟨evidence, isEvidence, concluded⟩ := bind_eq_ok.mp concluded
    cases concluded
    have named := (asConfidence_raised known).mp raised
    refine ⟨?_, (textAt_iff _ (by decide)).mpr ⟨_, isRoot⟩,
      (textAt_iff _ (by decide)).mpr ⟨_, isRecommendation⟩,
      (textAt_iff _ (by decide)).mpr ⟨_, isDraft⟩, (asJsonb_ok.mp isEvidence).1⟩
    have isLevel := (asText_ok.mp isLevel).1
    cases given : lookup fields "confidence" with
    | none =>
      rw [given] at isLevel
      cases isLevel
      exact absurd named (by decide)
    | some value =>
      rw [given, Option.getD_some] at isLevel
      rw [isLevel]
      exact named.imp (fun same => by rw [same]) (fun same => by rw [same])
  · rintro ⟨level, rootCause, recommendation, draftEmail, evidence⟩
    obtain ⟨_, isRoot⟩ := (textAt_iff "agent_error" (by decide)).mp rootCause
    obtain ⟨_, isRecommendation⟩ := (textAt_iff "" (by decide)).mp recommendation
    obtain ⟨_, isDraft⟩ := (textAt_iff "" (by decide)).mp draftEmail
    rw [isRoot, isRecommendation, isDraft, asJsonb_ok.mpr ⟨evidence, rfl⟩]
    rcases level with given | given
    all_goals
      rw [given]
      exact ⟨_, rfl, by rintro ⟨⟩⟩

theorem not_confident_of_low (low : lookup fields "confidence" = some (.str "low")) :
    ¬ Confident state fields := by
  intro confident
  have level := confident.level
  rw [low] at level
  simp at level

theorem downgrade_low {result : List (String × Json)} (lowered : downgrade result = .ok fields) :
    ¬ Confident state fields := by
  unfold downgrade at lowered
  split at lowered
  · cases lowered
    apply not_confident_of_low
    rw [lookup_assign_ne _ (by decide), lookup_assign_self]
  · cases lowered
    apply not_confident_of_low
    rw [lookup_assign_ne _ (by decide), lookup_assign_self]
  · cases lowered

/-- What the report files of a response. -/
def filing (verified : Bool) (response : Response) : Except Exn (List (String × Json)) :=
  match response.content.find? (fun b => b.type = "tool_use" ∧ b.name = "submit_diagnosis") with
  | none => .ok noDiagnosis
  | some submission =>
    match submission.input with
    | none => .error ⟨"TypeError", "'NoneType' object is not iterable", false⟩
    | some result => if verified then .ok result else downgrade result

/-- The state after a reply. -/
def asked (response : Response) (p : Progress) : Progress :=
  { p with
    awaits := p.awaits + 1
    state := { p.state with
      inputTokens := p.state.inputTokens + response.inputTokens
      outputTokens := p.state.outputTokens + response.outputTokens } }

theorem callModel_run {p : Progress} {response : Response}
    (replied : env.reply p.awaits = .ok response) :
    outcome (callModel env) p = .ok response ∧ final (callModel env) p = asked response p := by
  unfold callModel
  rw [outcome_bind, final_bind]
  change outcome (match env.reply p.awaits with | .error e => _ | .ok response => _) _ = _ ∧
    final (match env.reply p.awaits with | .error e => _ | .ok response => _) _ = _
  rw [replied]
  exact ⟨rfl, rfl⟩

theorem reportNode_raises {p : Progress} {e : Exn} (failed : env.reply p.awaits = .error e) :
    (reportNode env).run.run p = (.error e, { p with awaits := p.awaits + 1 }) := by
  have raises : (callModel env).run.run p = (.error e, { p with awaits := p.awaits + 1 }) := by
    change (match env.reply p.awaits with | .error e => throw e | .ok response => _ :
      AgentM Response).run.run _ = _
    rw [failed]
    rfl
  have returns : outcome (callModel env) p = .error e := congrArg Prod.fst raises
  have ends : final (callModel env) p = { p with awaits := p.awaits + 1 } :=
    congrArg Prod.snd raises
  unfold reportNode
  rw [run_eq, outcome_bind, final_bind, returns, ends]

/-- The report in one reply: what it files, or the exception that it ends with. -/
theorem reportNode_run {p : Progress} {response : Response}
    (replied : env.reply p.awaits = .ok response) :
    (reportNode env).run.run p = match filing p.state.verified response with
      | .error e => (.error e, asked response p)
      | .ok fields => (.ok ⟨⟩, { asked response p with
          state := { (asked response p).state with result := some fields } }) := by
  obtain ⟨returns, ends⟩ := callModel_run replied
  unfold reportNode filing
  rw [run_eq, outcome_bind, final_bind, returns, ends]
  dsimp only
  cases response.content.find? (fun b => b.type = "tool_use" ∧ b.name = "submit_diagnosis") with
  | none => rfl
  | some submission =>
    cases given : submission.input with
    | none =>
      simp only [given]
      rfl
    | some result =>
      simp only [given, outcome_get_bind, final_get_bind]
      by_cases flag : p.state.verified = true
      · have kept : (asked response p).state.verified = true := flag
        rw [if_pos flag, if_pos kept]
        rfl
      · have kept : ¬ (asked response p).state.verified = true := flag
        rw [if_neg flag, if_neg kept]
        cases downgrade result <;> rfl

theorem submitted_of_reply {p : Progress} {response : Response}
    (replied : env.reply p.awaits = .ok response) :
    submitted env p = (response.content.find?
      (fun b => b.type = "tool_use" ∧ b.name = "submit_diagnosis")).bind Block.input := by
  unfold submitted
  rw [replied]

/-- It files a raised confidence when one was submitted and the flag is set. -/
theorem filing_confident {p : Progress} {response : Response}
    (replied : env.reply p.awaits = .ok response) :
    (∃ fields, filing p.state.verified response = .ok fields ∧ Confident p.state fields) ↔
      Asserts env p ∧ p.state.verified = true := by
  unfold Asserts
  rw [submitted_of_reply replied]
  unfold filing
  constructor
  · rintro ⟨fields, filed, confident⟩
    split at filed
    · cases filed
      exact absurd confident (not_confident_of_low rfl)
    · rename_i found
      rw [found, Option.bind_some]
      split at filed
      · cases filed
      · rename_i given
        split at filed
        · rename_i flag
          cases filed
          exact ⟨⟨_, given, confident⟩, flag⟩
        · exact absurd confident (downgrade_low filed)
  · rintro ⟨⟨fields, given, confident⟩, flag⟩
    obtain ⟨submission, found, input⟩ := Option.bind_eq_some_iff.mp given
    simp only [found, input, flag, if_true]
    exact ⟨fields, rfl, confident⟩

theorem writeDiagnosis_eq {db : Db} (concluded : conclude env state (stub subject) = .ok row) :
    writeDiagnosis env subject state db = .ok { db with
      diagnoses :=
        Table.update Diagnosis.id db.diagnoses subject.diagnosisId (overwrite row) } := by
  unfold writeDiagnosis
  rw [concluded]
  rfl

/-- The last step leaves the stub or overwrites it. -/
theorem persistResult_row {p : Progress} {old : List Diagnosis}
    (rows : p.store.db.diagnoses = old ++ [stub subject])
    (fresh : subject.diagnosisId ∉ old.map Diagnosis.id) (filed : p.state.result = some fields) :
    ∃ d, (final (persistResult env subject) p).store.db.diagnoses = old ++ [d] ∧
      d.id = subject.diagnosisId ∧
      (d.confidence ≠ .low ↔ Confident p.state fields ∧
        Lands env p.transaction p.awaits) := by
  have reads : final (persistResult env subject) p =
      final (commit env (writeDiagnosis env subject p.state)) p := by
    unfold persistResult
    exact final_get_bind _ p
  rw [reads]
  by_cases lands : Lands env p.transaction p.awaits
  · have raised : (∃ row', conclude env p.state (stub subject) = .ok row' ∧
        row'.confidence ≠ .low) ↔ Confident p.state fields := conclude_confident filed
    cases concluded : conclude env p.state (stub subject) with
    | error e =>
      have refused : writeDiagnosis env subject p.state p.store.db = .error e := by
        unfold writeDiagnosis
        rw [concluded]
        rfl
      rcases commit_store env (writeDiagnosis env subject p.state) p with
        ⟨same, _⟩ | ⟨db, written, _⟩
      · refine ⟨stub subject, by rw [same, rows], rfl, fun h => absurd rfl h, ?_⟩
        rintro ⟨confident, _⟩
        obtain ⟨row', done, _⟩ := raised.mpr confident
        rw [concluded] at done
        cases done
      · rw [refused] at written
        cases written
    | ok row =>
      rw [commit_lands lands (writeDiagnosis_eq concluded)]
      refine ⟨overwrite row (stub subject), ?_, rfl, ?_⟩
      · have kept := Table.update_of_absent (f := overwrite row) fresh
        unfold Table.update at kept ⊢
        dsimp only
        rw [rows, List.map_append, kept]
        simp [stub]
      · constructor
        · intro level
          exact ⟨raised.mp ⟨row, concluded, level⟩, lands⟩
        · rintro ⟨confident, _⟩
          obtain ⟨row', done, level⟩ := raised.mpr confident
          rw [concluded] at done
          cases done
          exact level
  · rw [commit_lost lands]
    exact ⟨stub subject, rows, rfl, fun h => absurd rfl h, fun h => absurd h.2 lands⟩

/-- The last two steps of a run whose stub is there. -/
theorem ended_row (env : Surroundings) {p : Progress} {old : List Diagnosis}
    (rows : p.store.db.diagnoses = old ++ [stub subject])
    (fresh : subject.diagnosisId ∉ old.map Diagnosis.id) :
    ∃ d, (final (do reportNode env; persistResult env subject) p).store.db.diagnoses =
        old ++ [d] ∧ d.id = subject.diagnosisId ∧
      (d.confidence ≠ .low ↔ (Asserts env p ∧ p.state.verified = true) ∧
        Lands env p.transaction (p.awaits + 1)) := by
  rw [final_bind]
  cases replied : env.reply p.awaits with
  | error e =>
    have run := reportNode_raises replied
    unfold outcome final
    rw [run]
    refine ⟨stub subject, rows, rfl, fun h => absurd rfl h, ?_⟩
    rintro ⟨⟨⟨_, given, _⟩, _⟩, _⟩
    unfold submitted at given
    rw [replied] at given
    cases given
  | ok response =>
    have honest := filing_confident replied
    have run := reportNode_run replied
    unfold outcome final
    rw [run]
    cases filed : filing p.state.verified response with
    | error e =>
      refine ⟨stub subject, rows, rfl, fun h => absurd rfl h, fun ⟨asserts, _⟩ => ?_⟩
      obtain ⟨_, filed', _⟩ := honest.mpr asserts
      rw [filed] at filed'
      cases filed'
    | ok fields =>
      let q : Progress := { asked response p with
        state := { (asked response p).state with result := some fields } }
      have same : q.store.db.diagnoses = old ++ [stub subject] := rows
      have unique : (∃ given, filing p.state.verified response = .ok given ∧
          Confident p.state given) ↔ Confident p.state fields := by
        rw [filed]
        constructor
        · rintro ⟨_, same, confident⟩
          cases same
          exact confident
        · exact fun confident => ⟨fields, rfl, confident⟩
      have alike : Confident q.state fields ↔ Confident p.state fields :=
        ⟨fun c => ⟨c.level, c.rootCause, c.recommendation, c.draftEmail, c.evidence⟩,
          fun c => ⟨c.level, c.rootCause, c.recommendation, c.draftEmail, c.evidence⟩⟩
      rw [← honest, unique, ← alike]
      exact persistResult_row same fresh rfl

end Report


/-! The run -/

section Run

variable (env : Surroundings) (subject : Subject) (s : Store)

/-- A row that the run has added. -/
def Persisted (d : Diagnosis) : Prop :=
  d ∈ (final (runDiagnosis env subject) { store := s }).store.db.diagnoses ∧
    d ∉ s.db.diagnoses

/-- A verification tool was called and answered. -/
def Tested (calls : List Call) : Prop := ∃ c ∈ calls, c.tests = true ∧ c.failed = false

/-- A confidence other than low rests on a test of the hypothesis. -/
def Warranted : Prop :=
  ∀ d, Persisted env subject s d → d.confidence ≠ .low → Tested (verifyCalls env subject s)

/-- The model submits a confidence other than low, in a report that is reached and persisted:
its texts, and those of the evidence, are without U+0000. -/
structure Submits : Prop where
  reached : outcome (toReport env subject) { store := s } = .ok ⟨⟩
  asserts : Asserts env (final (toReport env subject) { store := s })
  lands : Lands env (final (toReport env subject) { store := s }).transaction
    ((final (toReport env subject) { store := s }).awaits + 1)

/-- It does so after verification tools were called in vain or before there was a hypothesis. -/
structure Unearned : Prop where
  submits : Submits env subject s
  used : ∃ c ∈ investigateCalls env subject s ++ verifyCalls env subject s, c.tests = true
  inVain : ∀ c ∈ verifyCalls env subject s, c.tests = true → c.failed = true

/-- The stub of the run is there, beside the rows that were; if not, the run has ended. -/
def Begun (m : AgentM PUnit) : Prop :=
  ((final m { store := s }).store.db.diagnoses = s.db.diagnoses ∧
    ∃ e, outcome m { store := s } = .error e) ∨
  ((final m { store := s }).store.db.diagnoses = s.db.diagnoses ++ [stub subject] ∧
    subject.diagnosisId ∉ s.db.diagnoses.map Diagnosis.id)

variable {env subject s}

theorem Proposes.diagnoses {p q : Progress} (proposes : Proposes subject p q) :
    q.store.db.diagnoses = p.store.db.diagnoses := by
  obtain ⟨proposed, _, now⟩ := proposes
  rw [now]
  rfl

theorem begun_commit : Begun subject s (commit env (addDiagnosis (stub subject))) := by
  rcases commit_store env (addDiagnosis (stub subject)) { store := s } with
    ⟨same, raised⟩ | ⟨db, written, now⟩
  · exact Or.inl ⟨by rw [same], raised⟩
  · apply Or.inr
    rw [now]
    unfold addDiagnosis at written
    split at written
    · rename_i keys
      cases written
      exact ⟨rfl, Table.get_eq_none.mp (Option.isNone_iff_eq_none.mp keys.2)⟩
    · cases written

theorem Begun.bind {m : AgentM PUnit} {f : PUnit → AgentM PUnit} (begun : Begun subject s m)
    (rest : ∀ a, Within (Proposes subject) (f a)) : Begun subject s (m >>= f) := by
  unfold Begun
  rw [final_bind, outcome_bind]
  rcases begun with ⟨same, e, raised⟩ | ⟨rows, fresh⟩
  · rw [raised]
    exact Or.inl ⟨same, e, rfl⟩
  · cases outcome m { store := s } with
    | error e => exact Or.inr ⟨rows, fresh⟩
    | ok a => exact Or.inr ⟨(rest a _).diagnoses.trans rows, fresh⟩

theorem begun_toReport : Begun subject s (toReport env subject) := by
  have started : Begun subject s (toInvestigate env subject) := by
    refine begun_commit.bind fun _ => ?_
    cases env.getLlm with
    | error e => exact within_throw e
    | ok _ => exact within_triageNode
  have hypothesised : Begun subject s (toVerify env subject) :=
    started.bind fun _ => within_bind within_investigateNode fun _ => within_hypothesizeNode
  exact hypothesised.bind fun _ => within_verifyNode

theorem reached_flag (reached : outcome (toReport env subject) { store := s } = .ok ⟨⟩) :
    (final (toReport env subject) { store := s }).state.verified = true ↔
      ∃ c ∈ investigateCalls env subject s ++ verifyCalls env subject s, c.tests = true := by
  rw [(toReport_logged env subject reached).verified, Bool.false_or, List.any_eq_true]

/-- What decides about the level: the flag, and so any call of a verification tool. -/
theorem persisted_raised_iff : (∃ d, Persisted env subject s d ∧ d.confidence ≠ .low) ↔
    Submits env subject s ∧
      ∃ c ∈ investigateCalls env subject s ++ verifyCalls env subject s, c.tests = true := by
  unfold Persisted
  rw [runDiagnosis_eq, final_bind]
  constructor
  · rintro ⟨d, ⟨listed, new⟩, raised⟩
    rcases begun_toReport with ⟨same, e, ended⟩ | ⟨rows, fresh⟩
    · rw [ended, same] at listed
      exact absurd listed new
    · cases reached : outcome (toReport env subject) { store := s } with
      | error e =>
        rw [reached, rows] at listed
        rcases List.mem_append.mp listed with old | own
        · exact absurd old new
        · cases List.mem_singleton.mp own
          exact absurd rfl raised
      | ok _ =>
        obtain ⟨row, now, _, level⟩ := ended_row env rows fresh
        rw [reached, now] at listed
        rcases List.mem_append.mp listed with old | own
        · exact absurd old new
        · cases List.mem_singleton.mp own
          obtain ⟨⟨asserts, flag⟩, lands⟩ := level.mp raised
          exact ⟨⟨reached, asserts, lands⟩, (reached_flag reached).mp flag⟩
  · rintro ⟨⟨reached, asserts, lands⟩, used⟩
    rcases begun_toReport with ⟨_, e, ended⟩ | ⟨rows, fresh⟩
    · rw [reached] at ended
      cases ended
    · obtain ⟨row, now, own, level⟩ := ended_row env rows fresh
      rw [reached, now]
      refine ⟨row, ⟨List.mem_append_right _ (List.mem_singleton.mpr rfl), fun old => ?_⟩,
        level.mpr ⟨⟨asserts, (reached_flag reached).mpr used⟩, lands⟩⟩
      exact fresh (own ▸ List.mem_map_of_mem old)

/-- A confidence other than low is warranted unless the model submits it after calls of
verification tools none of which tested the hypothesis. -/
theorem confidence_warranted (env : Surroundings) (subject : Subject) (s : Store) :
    Warranted env subject s ↔ ¬ Unearned env subject s := by
  constructor
  · rintro warranted ⟨submits, used, inVain⟩
    obtain ⟨d, persisted, raised⟩ := persisted_raised_iff.mpr ⟨submits, used⟩
    obtain ⟨c, listed, tests, answered⟩ := warranted d persisted raised
    have failed := inVain c listed tests
    rw [answered] at failed
    cases failed
  · intro earned d persisted raised
    obtain ⟨submits, used⟩ := persisted_raised_iff.mp ⟨d, persisted, raised⟩
    by_contra untested
    refine earned ⟨submits, used, fun c listed tests => ?_⟩
    by_contra answered
    exact untested ⟨c, listed, tests, Bool.eq_false_iff.mpr answered⟩

end Run

/-! A model that submits a high confidence after one call -/

def submission : Block :=
  uses "submit_diagnosis" [("root_cause", .str "endpoint_down"), ("confidence", .str "high"),
    ("summary", .str "It is down."), ("recommendation", .str "Restart it."),
    ("draft_email", .str "")]

/-- The tool is asked for in reply `n`: 2 is the first of the investigation, 4 the first of
the verification when the investigation calls nothing. The host has no valid name. -/
def asking (n : Nat) (tool : String) : Surroundings :=
  { pausing with
    reply := fun m =>
      if m = n then .ok ⟨[uses tool []], 10, 10⟩
      else if m = 8 then .ok ⟨[submission], 10, 10⟩
      else .ok ⟨[⟨"text", "The endpoint is down.", "", "", none⟩], 10, 10⟩
    getaddrinfo := fun _ => .error ⟨"UnicodeError", "label too long", false⟩ }

def persistedLevels (env : Surroundings) : List Confidence :=
  (final (runDiagnosis env manual) { store := brokenEndpoint }).store.db.diagnoses.map
    Diagnosis.confidence

/-- A probe that tests the hypothesis. -/
example : persistedLevels (asking 4 "probe_endpoint") = [.high] ∧
    (verifyCalls (asking 4 "probe_endpoint") manual brokenEndpoint).map
      (fun c => (c.name, c.tests, c.failed)) = [("probe_endpoint", true, false)] := by
  decide +kernel

theorem not_warranted {env : Surroundings} (raised : persistedLevels env = [.high])
    (untested : (verifyCalls env manual brokenEndpoint).all
      (fun c => !c.tests || c.failed) = true) :
    ¬ Warranted env manual brokenEndpoint := by
  intro warranted
  obtain ⟨d, rows, high⟩ := List.map_eq_singleton_iff.mp raised
  have persisted : Persisted env manual brokenEndpoint d :=
    ⟨by rw [rows]; exact List.mem_singleton.mpr rfl, List.not_mem_nil⟩
  obtain ⟨c, listed, tests, answered⟩ := warranted d persisted (by rw [high]; decide)
  have vain := List.all_eq_true.mp untested c listed
  rw [tests, answered] at vain
  cases vain

/-- The only probe comes before the hypothesis, or the check of the hypothesis fails. -/
theorem confidence_unwarranted :
    ¬ Warranted (asking 2 "probe_endpoint") manual brokenEndpoint ∧
      ¬ Warranted (asking 4 "check_dns_tls") manual brokenEndpoint :=
  ⟨not_warranted (by decide +kernel) (by decide +kernel),
    not_warranted (by decide +kernel) (by decide +kernel)⟩

end Relay.Agent
