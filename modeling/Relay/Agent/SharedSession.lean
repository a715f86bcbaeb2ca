import Relay.Agent.Calls

/-!
# The session that the tools share

All tools of a run work on one session, and so does its last write. What a tool
raises is caught, but a commit that fails and a select that the database refuses leave
the session unusable for all that follows.
-/

namespace Relay.Agent

open Effects

/-- An `Exception`, which `dispatch` catches. -/
def Mild (e : Exn) : Prop := e.fatal = false

/-- What the calls of the tools raise is caught. -/
structure Tame (env : Surroundings) : Prop where
  before : ∀ n e, env.fault n = .before e → Mild e
  after : ∀ n e, env.fault n = .after e → Mild e
  refused : ∀ n e, env.fault n = .refused e → Mild e
  sendDelivery : ∀ n e, env.sendDelivery n = .error e → Mild e
  urlparse : ∀ url e, env.urlparse url = .error e → Mild e
  getaddrinfo : ∀ n e, env.getaddrinfo n = .error e → Mild e
  handshake : ∀ n e, env.handshake n = .error e → Mild e

/-- The database refuses what it is sent at this await. -/
def refuses (env : Surroundings) (n : Nat) : Bool :=
  match env.fault n with
  | .refused _ => true
  | _ => false

/-- The awaits of the selects that the tool sends. -/
def Call.selects (env : Surroundings) (c : Call) : List Nat :=
  if c.name = "query_attempts" then
    match toInt ((lookup c.input "window_minutes").getD (.num 60)) with
    | .error _ => []
    | .ok minutes =>
      match minutesBefore (env.clock c.began) minutes with
      | .error _ => []
      | .ok _ => [c.began]
  else if c.name = "get_endpoint_config" then
    match env.fault c.began with
    | .none => [c.began, c.began + 1]
    | _ => [c.began]
  else if c.name = "probe_endpoint" ∨ c.name = "check_dns_tls" then [c.began]
  else []

/-- A requested mutation that came back as an error, or a tool whose select is refused. -/
def Call.spoils (env : Surroundings) (c : Call) : Bool :=
  ((actionOf c.name).isSome && c.failed) || (c.selects env).any (refuses env)

/-! A tool always comes back -/

section Tools

variable {env : Surroundings} {subject : Subject} {α : Type} {P : Exn → Prop}

theorem raises_await : Raises P await :=
  raises_bind raises_get fun _ => raises_bind (raises_modify _) fun _ => raises_pure _

theorem raises_update (g : AgentState → AgentState) : Raises P (update g) := raises_modify _

theorem raises_execute (tame : Tame env) (query : Db → α) : Raises Mild (execute env query) := by
  refine raises_bind raises_await fun n => raises_bind raises_get fun p => ?_
  split
  · exact raises_throw rfl
  · exact raises_throw rfl
  · cases fault : env.fault n with
    | none => exact raises_pure _
    | before e => exact raises_throw (tame.before n e fault)
    | after e => exact raises_throw (tame.after n e fault)
    | refused e =>
      exact raises_bind (raises_modify _) fun _ => raises_throw (tame.refused n e fault)

theorem raises_readRedis (tame : Tame env) (read : Store → α) :
    Raises Mild (readRedis env read) := by
  refine raises_bind raises_await fun n => raises_bind raises_get fun p => ?_
  split
  · exact raises_pure _
  · exact raises_throw (tame.before n _ ‹_›)
  · exact raises_throw (tame.after n _ ‹_›)
  · exact raises_throw (tame.refused n _ ‹_›)

theorem raises_settle (tame : Tame env) (n : Nat) {written : Except Exn Db}
    (wrong : ∀ e, written = .error e → Mild e) :
    Raises Mild (settle (env.fault n) written) := by
  unfold settle
  split
  · exact raises_modify _
  · exact raises_bind (raises_modify _) fun _ => raises_throw (wrong _ rfl)
  · exact raises_bind (raises_modify _) fun _ => raises_throw (tame.before n _ ‹_›)
  · exact raises_bind (raises_modify _) fun _ => raises_throw (tame.refused n _ ‹_›)
  · exact raises_bind (raises_modify _) fun _ => raises_bind (raises_modify _) fun _ =>
      raises_throw (tame.after n _ ‹_›)
  · exact raises_bind (raises_modify _) fun _ => raises_throw (wrong _ rfl)

theorem raises_commit (tame : Tame env) {write : Db → Except Exn Db}
    (refused : ∀ db e, write db = .error e → Mild e) : Raises Mild (commit env write) := by
  refine raises_bind raises_await fun n => raises_bind raises_get fun p => ?_
  split
  · exact raises_throw rfl
  · exact raises_bind (raises_modify _) fun _ => raises_throw rfl
  · exact raises_settle tame n (refused _)

theorem writeAction_mild {id : Uuid} {kind : ActionKind} {reason : Json} {db : Db} {e : Exn}
    (refused : writeAction subject id kind reason db = .error e) : Mild e := by
  unfold writeAction at refused
  cases text : asText reason with
  | error e' =>
    rw [text] at refused
    cases refused
    unfold asText at text
    split at text
    · split at text <;> cases text
      rfl
    · cases text
      rfl
    · cases text
      rfl
  | ok text' =>
    rw [text] at refused
    change addAction _ db = .error e at refused
    unfold addAction at refused
    split at refused <;> cases refused
    rfl

theorem toInt_mild {value : Json} {e : Exn} (refused : toInt value = .error e) : Mild e := by
  unfold toInt at refused
  split at refused
  · cases refused
  · cases refused
  · split at refused <;> cases refused
    rfl
  · cases refused
    rfl
  · cases refused
    rfl

theorem minutesBefore_mild {now : ℚ} {minutes : Int} {e : Exn}
    (refused : minutesBefore now minutes = .error e) : Mild e := by
  unfold minutesBefore at refused
  simp only at refused
  split at refused <;> cases refused
  rfl

theorem raises_loadEndpoint (tame : Tame env) (endpointId : Uuid) :
    Raises Mild (loadEndpoint env endpointId) := by
  refine raises_bind (raises_execute tame _) fun found => ?_
  cases found with
  | none => exact raises_throw rfl
  | some e => exact raises_pure _

theorem raises_queryAttempts (tame : Tame env) (endpointId : Uuid) (minutes : Int) :
    Raises Mild (queryAttempts env endpointId minutes) := by
  refine raises_bind raises_get fun p => ?_
  split
  · exact raises_throw (minutesBefore_mild ‹_›)
  · exact raises_bind (raises_execute tame _) fun _ => raises_pure _

theorem raises_getEndpointConfig (tame : Tame env) (endpointId : Uuid) :
    Raises Mild (getEndpointConfig env endpointId) :=
  raises_bind (raises_loadEndpoint tame _) fun _ => raises_bind (raises_execute tame _)
    fun _ => raises_bind (raises_readRedis tame _) fun _ => raises_pure _

theorem raises_probeEndpoint (tame : Tame env) (endpointId : Uuid) :
    Raises Mild (probeEndpoint env endpointId) := by
  refine raises_bind (raises_loadEndpoint tame _) fun _ => raises_bind raises_await fun n => ?_
  split
  · exact raises_throw (tame.sendDelivery n _ ‹_›)
  · exact raises_pure _

theorem raises_checkDnsTls (tame : Tame env) (endpointId : Uuid) :
    Raises Mild (checkDnsTls env endpointId) := by
  refine raises_bind (raises_loadEndpoint tame _) fun e => raises_bind raises_await fun n => ?_
  split
  · exact raises_throw (tame.urlparse _ _ ‹_›)
  · exact raises_throw (tame.getaddrinfo n _ ‹_›)
  · split
    · exact raises_pure _
    · split
      · split
        · exact raises_throw (tame.handshake n _ ‹_›)
        · exact raises_pure _
      · exact raises_pure _

theorem raises_requestMutation (tame : Tame env) (name : String) (kind : ActionKind)
    (reason : Json) : Raises Mild (requestMutation env subject name kind reason) :=
  raises_bind raises_get fun _ =>
    raises_bind (raises_commit tame fun _ _ => writeAction_mild) fun _ => raises_pure _

theorem raises_route (tame : Tame env) (name : String) (input : List (String × Json)) :
    Raises Mild (route env subject name input) := by
  unfold route
  split
  · split
    · exact raises_throw (toInt_mild ‹_›)
    · exact raises_queryAttempts tame _ _
  · split
    · exact raises_getEndpointConfig tame _
    · split
      · exact raises_probeEndpoint tame _
      · split
        · exact raises_checkDnsTls tame _
        · split
          · exact raises_requestMutation tame _ _ _
          · exact raises_pure _

theorem serve_returns (tame : Tame env) (block : Block) :
    Raises (fun _ => False) (serve env subject block) := by
  refine raises_bind (raises_tryCatch (raises_route tame _ _) fun e mild => ?_)
    fun _ => raises_pure _
  rw [if_neg (by rw [mild]; exact Bool.false_ne_true)]
  exact raises_pure _

end Tools

/-! Which tools leave the session unusable -/

section Sessions

variable {env : Surroundings} {subject : Subject} {α : Type}

/-- The session takes neither statements nor commits. -/
def Progress.broken (p : Progress) : Bool := decide (p.transaction ≠ .usable)

/-- What keeps the session as it is. -/
def KeepsSession (p q : Progress) : Prop := q.broken = p.broken

instance : Std.Refl KeepsSession := ⟨fun _ => rfl⟩

instance : IsTrans Progress KeepsSession := ⟨fun _ _ _ first second => second.trans first⟩

/-- No tool mends it. -/
def StaysBroken (p q : Progress) : Prop := p.broken = true → q.broken = true

instance : Std.Refl StaysBroken := ⟨fun _ h => h⟩

instance : IsTrans Progress StaysBroken := ⟨fun _ _ _ first second h => second (first h)⟩

/-- A select breaks a usable session when it is refused, and is answered when nothing fails. -/
theorem execute_usable (env : Surroundings) (query : Db → α) {p : Progress}
    (usable : p.broken = false) :
    (final (execute env query) p).broken = refuses env p.awaits ∧
      (final (execute env query) p).awaits = p.awaits + 1 ∧
      (final (execute env query) p).store = p.store ∧
      (outcome (execute env query) p = .ok (query p.store.db) ∧ env.fault p.awaits = .none ∨
        (∃ e, outcome (execute env query) p = .error e) ∧ env.fault p.awaits ≠ .none) := by
  obtain ⟨s, awaits, transaction, state⟩ := p
  have same : transaction = .usable := of_not_not (of_decide_eq_false usable)
  subst same
  have run : (execute env query).run.run ⟨s, awaits, .usable, state⟩ =
      (answer (query s.db) (env.fault awaits)).run.run ⟨s, awaits + 1, .usable, state⟩ := rfl
  unfold final outcome refuses
  rw [run]
  cases fault : env.fault awaits with
  | none => exact ⟨rfl, rfl, rfl, Or.inl ⟨rfl, rfl⟩⟩
  | before e | after e | refused e => exact ⟨rfl, rfl, rfl, Or.inr ⟨⟨e, rfl⟩, by simp⟩⟩

theorem final_loadEndpoint (endpointId : Uuid) (p : Progress) :
    final (loadEndpoint env endpointId) p =
      final (execute env fun db => db.endpoint endpointId) p := by
  unfold loadEndpoint
  rw [final_bind]
  cases outcome (execute env fun db => db.endpoint endpointId) p with
  | error e => rfl
  | ok found => cases found <;> rfl

/-- A commit of a usable session returns, or leaves an unusable one. -/
theorem commit_session (env : Surroundings) (write : Db → Except Exn Db) (p : Progress) :
    (outcome (commit env write) p = .ok ⟨⟩ ∧ (final (commit env write) p).broken = false ∧
        p.broken = false) ∨
      ((∃ e, outcome (commit env write) p = .error e) ∧
        (final (commit env write) p).broken = true) := by
  obtain ⟨s, awaits, transaction, state⟩ := p
  cases transaction with
  | deactivated | aborted => exact Or.inr ⟨⟨_, rfl⟩, rfl⟩
  | usable =>
    unfold final outcome
    rw [commit_run]
    cases env.fault awaits <;> cases write s.db
    case none.ok db => exact Or.inl ⟨rfl, rfl, rfl⟩
    all_goals exact Or.inr ⟨⟨_, rfl⟩, rfl⟩

theorem commit_refused (env : Surroundings) {write : Db → Except Exn Db} {p : Progress}
    (refused : p.broken = true ∨ ∃ e, write p.store.db = .error e) :
    ∃ e, outcome (commit env write) p = .error e := by
  obtain ⟨s, awaits, transaction, state⟩ := p
  cases transaction with
  | deactivated | aborted => exact ⟨_, rfl⟩
  | usable =>
    obtain ⟨e, wrong⟩ := refused.resolve_left Bool.false_ne_true
    unfold outcome
    rw [commit_run, wrong]
    cases env.fault awaits <;> exact ⟨_, rfl⟩

theorem commit_accepted {write : Db → Except Exn Db} {p : Progress} {db : Db}
    (usable : p.broken = false) (accepts : env.fault p.awaits = .none)
    (written : write p.store.db = .ok db) :
    outcome (commit env write) p = .ok ⟨⟩ ∧
      (final (commit env write) p).store = { p.store with db := db } := by
  obtain ⟨s, awaits, transaction, state⟩ := p
  have same : transaction = .usable := of_not_not (of_decide_eq_false usable)
  subst same
  unfold outcome final
  rw [commit_run, accepts, written]
  exact ⟨rfl, rfl⟩

theorem requestMutation_session (name : String) (kind : ActionKind) (reason : Json)
    (p : Progress) :
    (∃ fields, outcome (requestMutation env subject name kind reason) p = .ok fields ∧
        lookup fields "error" = none ∧
        (final (requestMutation env subject name kind reason) p).broken = false ∧
        p.broken = false) ∨
      ((∃ e, outcome (requestMutation env subject name kind reason) p = .error e) ∧
        (final (requestMutation env subject name kind reason) p).broken = true) := by
  unfold requestMutation
  rw [outcome_get_bind, final_get_bind]
  simp only [outcome_bind, final_bind]
  rcases commit_session env (writeAction subject (env.uuid4 p.awaits) kind reason) p with
    ⟨returned, usable, before⟩ | ⟨⟨e, raised⟩, spoilt⟩
  · rw [returned]
    exact Or.inl ⟨_, rfl, rfl, usable, before⟩
  · rw [raised]
    exact Or.inr ⟨⟨e, rfl⟩, spoilt⟩

theorem route_mutation {name : String} {kind : ActionKind} (mutating : actionOf name = some kind)
    (input : List (String × Json)) : route env subject name input =
      requestMutation env subject name kind ((lookup input "reason").getD (.str "")) := by
  unfold actionOf at mutating
  split at mutating
  · cases mutating
    rfl
  · cases mutating
    rfl
  · cases mutating

/-- `dispatch` adds nothing to what the routed tool leaves. -/
theorem final_serve (block : Block) (p : Progress) : final (serve env subject block) p =
    final (route env subject block.name (block.input.getD [])) p := by
  unfold serve dispatch
  rw [final_bind, final_tryCatch, outcome_tryCatch]
  cases outcome (route env subject block.name (block.input.getD [])) p with
  | ok fields => rfl
  | error e =>
    dsimp only
    cases e.fatal <;> rfl

/-! What reads leave -/

theorem keepsSession_await : Within KeepsSession await := fun _ => rfl

/-- The endpoint that the run is about has a row. -/
def Present (subject : Subject) (p : Progress) : Prop :=
  (p.store.db.endpoint subject.endpointId).isSome = true

theorem staysBroken_route {name : String} (reads : actionOf name = none)
    (input : List (String × Json)) : Within StaysBroken (route env subject name input) := by
  have awaits : Within StaysBroken await := fun _ broken => broken
  have aborts : Within StaysBroken abort := fun _ _ => rfl
  refine within_route_of awaits aborts fun kind mutating => ?_
  rw [reads] at mutating
  cases mutating

section Usable

variable {p : Progress} (usable : p.broken = false)

include usable

theorem queryAttempts_broken (endpointId : Uuid) (minutes : Int) :
    (final (queryAttempts env endpointId minutes) p).broken =
      match minutesBefore (env.clock p.awaits) minutes with
      | .error _ => false
      | .ok _ => refuses env p.awaits := by
  unfold queryAttempts
  rw [final_get_bind]
  cases minutesBefore (env.clock p.awaits) minutes with
  | error e => exact usable
  | ok since =>
    have broken := (execute_usable env (attemptsSince env endpointId since) usable).1
    dsimp only
    rw [final_bind]
    cases outcome (execute env (attemptsSince env endpointId since)) p <;> exact broken

/-- A tool that loads the endpoint and sends nothing more to the database. -/
theorem loading_broken {f : Endpoint → AgentM α} (rest : ∀ e, Within KeepsSession (f e))
    (endpointId : Uuid) :
    (final (loadEndpoint env endpointId >>= f) p).broken = refuses env p.awaits := by
  have loaded : (final (loadEndpoint env endpointId) p).broken = refuses env p.awaits := by
    rw [final_loadEndpoint]
    exact (execute_usable env _ usable).1
  rw [final_bind]
  cases outcome (loadEndpoint env endpointId) p with
  | error e => exact loaded
  | ok e => exact (rest e _).trans loaded

theorem probeEndpoint_broken (endpointId : Uuid) :
    (final (probeEndpoint env endpointId) p).broken = refuses env p.awaits := by
  refine loading_broken usable (fun _ => within_bind keepsSession_await fun n => ?_) endpointId
  split
  · exact within_throw _
  · exact within_pure _

theorem checkDnsTls_broken (endpointId : Uuid) :
    (final (checkDnsTls env endpointId) p).broken = refuses env p.awaits := by
  refine loading_broken usable (fun _ => within_bind keepsSession_await fun n => ?_) endpointId
  split
  · exact within_throw _
  · exact within_throw _
  · split
    · exact within_pure _
    · split
      · split
        · exact within_throw _
        · exact within_pure _
      · exact within_pure _

/-- The second select is sent once the first has been answered. -/
theorem getEndpointConfig_broken (present : Present subject p) :
    (final (getEndpointConfig env subject.endpointId) p).broken =
      match env.fault p.awaits with
      | .none => refuses env (p.awaits + 1)
      | _ => refuses env p.awaits := by
  obtain ⟨broken, later, store, answered⟩ :=
    execute_usable env (fun db => db.endpoint subject.endpointId) usable
  obtain ⟨e, row⟩ := Option.isSome_iff_exists.mp present
  unfold getEndpointConfig
  rw [final_bind, final_loadEndpoint]
  unfold loadEndpoint
  rw [outcome_bind]
  rcases answered with ⟨returned, quiet⟩ | ⟨⟨raised, ended⟩, loud⟩
  · have still : refuses env p.awaits = false := by simp [refuses, quiet]
    rw [returned, row, quiet]
    rw [still] at broken
    have second := (execute_usable env (fun db => db.dead subject.endpointId) broken).1
    rw [later] at second
    change (final (execute env _ >>= _) _).broken = refuses env (p.awaits + 1)
    rw [final_bind]
    cases outcome (execute env fun db => db.dead subject.endpointId)
      (final (execute env fun db => db.endpoint subject.endpointId) p) with
    | error e => exact second
    | ok dead =>
      have reading : Within KeepsSession (readRedis env fun s =>
          getState (s.breakers subject.endpointId)) := within_readRedis keepsSession_await _
      exact (within_bind reading (fun _ => within_pure _) _).trans second
  · rw [ended]
    change (final _ p).broken = _
    rw [broken]
    cases fault : env.fault p.awaits with
    | none => exact absurd fault loud
    | before e | after e | refused e => rfl

theorem route_broken (present : Present subject p) {name : String} (reads : actionOf name = none)
    (input : List (String × Json)) (result : Json) :
    (final (route env subject name input) p).broken =
      (Call.selects env ⟨name, input, p.awaits, result⟩).any (refuses env) := by
  unfold route Call.selects
  by_cases attempts : name = "query_attempts"
  · rw [if_pos attempts, if_pos attempts]
    cases toInt ((lookup input "window_minutes").getD (.num 60)) with
    | error e => exact usable
    | ok minutes =>
      dsimp only
      rw [queryAttempts_broken usable]
      cases minutesBefore (env.clock p.awaits) minutes with
      | error e => rfl
      | ok since => exact (Bool.or_false _).symm
  · rw [if_neg attempts, if_neg attempts]
    by_cases config : name = "get_endpoint_config"
    · rw [if_pos config, if_pos config, getEndpointConfig_broken usable present]
      dsimp only
      cases fault : env.fault p.awaits with
      | none => simp [refuses, fault]
      | before e | after e | refused e => exact (Bool.or_false _).symm
    · rw [if_neg config, if_neg config]
      by_cases probe : name = "probe_endpoint"
      · rw [if_pos probe, if_pos (Or.inl probe), probeEndpoint_broken usable]
        exact (Bool.or_false _).symm
      · rw [if_neg probe]
        by_cases check : name = "check_dns_tls"
        · rw [if_pos check, if_pos (Or.inr check), checkDnsTls_broken usable]
          exact (Bool.or_false _).symm
        · rw [if_neg check, if_neg (not_or.mpr ⟨probe, check⟩), reads]
          exact usable

end Usable

theorem selects_mutation {c : Call} {kind : ActionKind} (mutating : actionOf c.name = some kind) :
    c.selects env = [] := by
  unfold actionOf at mutating
  unfold Call.selects
  split at mutating
  all_goals
    rename_i named
    cases mutating
  all_goals
    rw [named]
    rfl

/-- A tool that comes back has left the session unusable exactly when its call spoils it. -/
theorem serve_session {block : Block} {p : Progress} {result : Json}
    (present : Present subject p) (ended : outcome (serve env subject block) p = .ok result) :
    (final (serve env subject block) p).broken =
      (p.broken || (Call.of block p result).spoils env) := by
  rw [final_serve]
  unfold Call.spoils
  cases kind : actionOf block.name with
  | none =>
    change _ = (p.broken || ((actionOf block.name).isSome && _ || _))
    rw [kind, Option.isSome_none, Bool.false_and, Bool.false_or]
    cases session : p.broken with
    | true => exact staysBroken_route kind _ p session
    | false =>
      rw [Bool.false_or]
      exact route_broken session present kind _ result
  | some kind' =>
    have none : (Call.of block p result).selects env = [] := selects_mutation kind
    rw [none, List.any_nil, Bool.or_false]
    change _ = (p.broken || ((actionOf block.name).isSome && _))
    rw [kind, Option.isSome_some, Bool.true_and]
    obtain ⟨fields, caught, ends⟩ := bind_ok ended
    cases ends.1
    rw [outcome_tryCatch, route_mutation kind] at caught
    rw [route_mutation kind]
    rcases requestMutation_session block.name kind' _ p with
      ⟨answer, returned, clean, usable, before⟩ | ⟨⟨e, raised⟩, spoilt⟩
    · rw [returned] at caught
      cases caught
      have succeeded : (Call.of block p (.obj fields)).failed = false := by
        simp [Call.failed, Call.of, clean]
      rw [usable, before, succeeded]
      rfl
    · rw [raised] at caught
      simp only at caught
      split at caught
      · cases caught
      · cases caught
        have failed : (Call.of block p
            (.obj [("error", .str (e.kind ++ ": " ++ e.message))])).failed = true := by
          simp [Call.failed, Call.of, lookup]
        rw [failed, Bool.or_true]
        exact spoilt

/-- No tool takes the endpoint away. -/
theorem serve_present {block : Block} {p : Progress} (present : Present subject p) :
    Present subject (final (serve env subject block) p) := by
  have served : Within (Serves subject) (serve env subject block) := within_dispatch _ _
  obtain ⟨⟨proposed, _, now⟩, _⟩ := served p
  unfold Present
  rw [now]
  exact present

/-- The session is unusable once a call has spoilt it. -/
theorem session_summarises (tame : Tame env) : Summarises env subject (fun calls p q =>
    Present subject p → Present subject q ∧
      q.broken = (p.broken || calls.any (Call.spoils env))) where
  append {first second p q r} earlier later := fun present => by
    obtain ⟨still, broken⟩ := earlier present
    obtain ⟨last, broken'⟩ := later still
    refine ⟨last, ?_⟩
    rw [broken', broken, List.any_append, Bool.or_assoc]
  awaited p := fun present => ⟨present, (Bool.or_false _).symm⟩
  noted p _ := fun present => ⟨present, (Bool.or_false _).symm⟩
  served {block p result} ended := fun present => by
    refine ⟨serve_present present, ?_⟩
    rw [List.any_cons, List.any_nil, Bool.or_false]
    exact serve_session present ended
  raised {block p e} raised := (serve_returns tame block p e raised).elim

end Sessions

end Relay.Agent
