import Relay.Agent.Calls

/-!
# The messages of the tool loop

The loop together with the conversation that it builds. Its client is anything with
`messages.create`, whose answers may depend on all that it has been sent. `sent` are
the lists that it got and `served` the uses of tools whose dispatch returned; no
operation reads them. Without the conversation this is the loop of the graph.
-/

namespace Relay.Agent.Transcript

open Effects

/-- The answer to one use of a tool. -/
structure ToolResult where
  toolUseId : String
  content : String
  deriving DecidableEq

/-- A turn: a text of the user, a reply as it came, or the results of its tools. -/
inductive Message where
  | user (content : String)
  | assistant (content : List Block)
  | toolResults (content : List ToolResult)

/-- The uses of tools in a turn of the assistant. -/
def usesIn (content : List Block) : List Block := content.filter (fun b => b.type = "tool_use")

/-- `create` gets the number of the await, the system prompt and the messages. -/
structure Client (σ : Type) where
  create : Nat → String → List Message → σ → Except Exn Response × σ

structure Served where
  block : Block
  result : Json

structure Talk (σ : Type) where
  progress : Progress
  client : σ
  sent : List (List Message) := []
  served : List Served := []

abbrev TalkM (σ : Type) := Program Exn (Talk σ)

/-- A part of the run that leaves the conversation alone. -/
def inside {σ α : Type} (m : AgentM α) : TalkM σ α :=
  ExceptT.mk fun t => (outcome m t.progress, { t with progress := final m t.progress })

section Loop

variable {σ : Type} (client : Client σ) (env : Surroundings) (subject : Subject)
  (str : Json → String) (system : String)

def callModel (messages : List Message) : TalkM σ Response := do
  modify (fun t => { t with sent := t.sent ++ [messages] })
  let n ← inside await
  let t ← get
  let answer := client.create n system messages t.client
  modify (fun t => { t with client := answer.2 })
  match answer.1 with
  | .error e => throw e
  | .ok response =>
    inside (update (fun state => { state with
      inputTokens := state.inputTokens + response.inputTokens
      outputTokens := state.outputTokens + response.outputTokens }))
    pure response

/-- The results of the uses of tools in one response, in order. -/
def useTools : List Block → TalkM σ (List ToolResult)
  | [] => pure []
  | block :: rest => do
    let result ← inside (serve env subject block)
    modify (fun t => { t with served := t.served ++ [⟨block, result⟩] })
    inside (update (noted block.name result))
    let results ← useTools rest
    pure (⟨block.id, str result⟩ :: results)

def summarize : Message := .user "Summarize what you found."

/-- Without tools, once the calls or the budget are used up. -/
def wrapUp (messages : List Message) : TalkM σ (Option String) := do
  let response ← callModel client system (messages ++ [summarize])
  pure (some (textOf response))

/-- `none` when the `while` has not ended within these rounds. -/
def toolRounds (maxCalls : Nat) : Nat → Nat → List Message → TalkM σ (Option String)
  | 0, _, _ => pure none
  | rounds + 1, calls, messages => do
    let t ← get
    if calls < maxCalls ∧ overBudget env t.progress.state = false then
      let response ← callModel client system messages
      match toolUses response with
      | [] => pure (some (textOf response))
      | uses => do
        let results ← useTools env subject str uses
        toolRounds maxCalls rounds (calls + uses.length)
          (messages ++ [.assistant response.content, .toolResults results])
    else wrapUp client system messages

def runToolLoop (opening : String) (maxCalls : Nat) : TalkM σ (Option String) :=
  toolRounds client env subject str system maxCalls (maxCalls + 1) 0 [.user opening]

end Loop

/-! One call of the model, and the tools of its reply -/

section Parts

variable {σ : Type} {client : Client σ} {env : Surroundings} {subject : Subject}
  {str : Json → String} {system : String} {messages : List Message}

theorem outcome_callModel (t : Talk σ) : outcome (callModel client system messages) t =
    (client.create t.progress.awaits system messages t.client).1 := by
  unfold callModel
  simp only [outcome_bind]
  change outcome (match (client.create t.progress.awaits system messages t.client).1 with
    | .error e => throw e
    | .ok response => _) _ = _
  cases (client.create t.progress.awaits system messages t.client).1 <;> rfl

/-- What a call changes of the conversation. -/
theorem final_callModel (client : Client σ) (system : String) (messages : List Message)
    (t : Talk σ) : ∃ progress : Progress,
    final (callModel client system messages) t =
      { progress := progress
        client := (client.create t.progress.awaits system messages t.client).2
        sent := t.sent ++ [messages]
        served := t.served } := by
  unfold callModel
  simp only [final_bind]
  change ∃ _, final (match (client.create t.progress.awaits system messages t.client).1 with
    | .error e => throw e
    | .ok response => _) _ = _
  cases (client.create t.progress.awaits system messages t.client).1 <;> exact ⟨_, rfl⟩

@[simp] theorem callModel_sent (t : Talk σ) :
    (final (callModel client system messages) t).sent = t.sent ++ [messages] := by
  obtain ⟨progress, ends⟩ := final_callModel client system messages t
  rw [ends]

@[simp] theorem callModel_served (t : Talk σ) :
    (final (callModel client system messages) t).served = t.served := by
  obtain ⟨progress, ends⟩ := final_callModel client system messages t
  rw [ends]

@[simp] theorem callModel_client (t : Talk σ) :
    (final (callModel client system messages) t).client =
      (client.create t.progress.awaits system messages t.client).2 := by
  obtain ⟨progress, ends⟩ := final_callModel client system messages t
  rw [ends]

/-- The answer that the loop gives to a use. -/
def Served.answer (str : Json → String) (s : Served) : ToolResult :=
  ⟨s.block.id, str s.result⟩

theorem useTools_cons (block : Block) (rest : List Block) :
    useTools (σ := σ) env subject str (block :: rest) = (do
      let result ← inside (serve env subject block)
      modify (fun t => { t with served := t.served ++ [⟨block, result⟩] })
      inside (update (noted block.name result))
      let results ← useTools env subject str rest
      pure (⟨block.id, str result⟩ :: results)) := rfl

/-- The tools leave what was sent, and the client, as they are. -/
structure Apart (t t' : Talk σ) : Prop where
  client : t'.client = t.client
  sent : t'.sent = t.sent
  served : t.served <+: t'.served

instance : Std.Refl (Apart (σ := σ)) := ⟨fun _ => ⟨rfl, rfl, List.prefix_refl _⟩⟩

instance : IsTrans (Talk σ) Apart where
  trans _ _ _ first second := ⟨second.client.trans first.client, second.sent.trans first.sent,
    first.served.trans second.served⟩

theorem within_useTools (env : Surroundings) (subject : Subject) (str : Json → String)
    (uses : List Block) : Within Apart (useTools (σ := σ) env subject str uses) := by
  induction uses with
  | nil => exact within_pure []
  | cons block rest ih =>
    rw [useTools_cons]
    refine within_bind (fun t => ⟨rfl, rfl, List.prefix_refl _⟩) fun result => ?_
    refine within_bind (fun t => ⟨rfl, rfl, List.prefix_append _ _⟩) fun _ => ?_
    refine within_bind (fun t => ⟨rfl, rfl, List.prefix_refl _⟩) fun _ => ?_
    exact within_bind ih fun results => within_pure _

/-- Each use has been served once, and the results answer them in their order. -/
theorem useTools_ok {uses : List Block} {t : Talk σ} {results : List ToolResult}
    (returned : outcome (useTools env subject str uses) t = .ok results) :
    ∃ served, (final (useTools env subject str uses) t).served = t.served ++ served ∧
      served.map Served.block = uses ∧ results = served.map (Served.answer str) := by
  induction uses generalizing t results with
  | nil =>
    cases returned
    exact ⟨[], (List.append_nil _).symm, rfl, rfl⟩
  | cons block rest ih =>
    rw [useTools_cons] at returned ⊢
    obtain ⟨result, _, logging, dispatched⟩ := bind_ok returned
    obtain ⟨_, _, noting, logged⟩ := bind_ok logging
    obtain ⟨_, _, going, noted⟩ := bind_ok noting
    obtain ⟨later, rested, ending, ended⟩ := bind_ok going
    obtain ⟨served, log, blocks, answers⟩ := ih rested
    refine ⟨⟨block, result⟩ :: served, ?_, ?_, ?_⟩
    · rw [dispatched, logged, noted, ended]
      exact log.trans (List.append_assoc _ [_] _)
    · rw [List.map_cons, blocks]
    · cases ending
      rw [List.map_cons, answers]
      rfl

end Parts

/-! Runs of the loop -/

/-- `I` holds whenever the loop tests its condition, and then `Q` of all that may follow. -/
structure Keeps {σ : Type} (client : Client σ) (env : Surroundings) (subject : Subject)
    (str : Json → String) (system : String) (maxCalls : Nat)
    (I : Nat → List Message → Talk σ → Prop) (Q : Talk σ → Prop) : Prop where
  asked : ∀ {calls messages t}, I calls messages t → calls < maxCalls →
    Q (final (callModel client system messages) t)
  closed : ∀ {calls messages t}, I calls messages t →
    Q (final (callModel client system (messages ++ [summarize])) t)
  apart : ∀ {t t'}, Q t → Apart t t' → Q t'
  again : ∀ {calls messages t response results}, I calls messages t → calls < maxCalls →
    outcome (callModel client system messages) t = .ok response → toolUses response ≠ [] →
    outcome (useTools env subject str (toolUses response))
      (final (callModel client system messages) t) = .ok results →
    I (calls + (toolUses response).length)
      (messages ++ [.assistant response.content, .toolResults results])
      (final (useTools env subject str (toolUses response))
        (final (callModel client system messages) t))

section Runs

variable {σ : Type} {client : Client σ} {env : Surroundings} {subject : Subject}
  {str : Json → String} {system : String} {maxCalls : Nat}

/-- One pass through the loop: a closing text, or the tools and the next pass. -/
theorem toolRounds_succ (rounds calls : Nat) (messages : List Message) :
    toolRounds client env subject str system maxCalls (rounds + 1) calls messages = (do
      let t ← get
      if calls < maxCalls ∧ overBudget env t.progress.state = false then
        let response ← callModel client system messages
        if toolUses response = [] then pure (some (textOf response))
        else do
          let results ← useTools env subject str (toolUses response)
          toolRounds client env subject str system maxCalls rounds
            (calls + (toolUses response).length)
            (messages ++ [.assistant response.content, .toolResults results])
      else wrapUp client system messages) := by
  rw [toolRounds]
  congr 1
  funext t
  split
  · congr 1
    funext response
    cases toolUses response with
    | nil => rfl
    | cons block rest => rfl
  · rfl

section Rule

variable {I : Nat → List Message → Talk σ → Prop} {Q : Talk σ → Prop}
  (keeps : Keeps client env subject str system maxCalls I Q) {rounds calls : Nat}
  {messages : List Message} {t : Talk σ}
include keeps

theorem Keeps.wrapsUp (holds : I calls messages t) :
    outcome (wrapUp client system messages) t ≠ .ok none ∧
      Q (final (wrapUp client system messages) t) := by
  unfold wrapUp
  rw [outcome_bind, final_bind]
  cases outcome (callModel client system (messages ++ [summarize])) t with
  | error e => exact ⟨by rintro ⟨⟩, keeps.closed holds⟩
  | ok response => exact ⟨by rintro ⟨⟩, keeps.closed holds⟩

/-- The loop ends by its own condition, since each pass that goes on counts a call. -/
theorem Keeps.ends (enough : maxCalls ≤ calls + rounds) (holds : I calls messages t) :
    outcome (toolRounds client env subject str system maxCalls (rounds + 1) calls messages) t ≠
        .ok none ∧
      Q (final (toolRounds client env subject str system maxCalls (rounds + 1) calls messages) t)
    := by
  induction rounds generalizing calls messages t with
  | zero =>
    have spent : ¬ calls < maxCalls := by omega
    rw [toolRounds_succ, outcome_get_bind, final_get_bind, if_neg fun h => spent h.1]
    exact keeps.wrapsUp holds
  | succ rounds ih =>
    rw [toolRounds_succ, outcome_get_bind, final_get_bind]
    by_cases going : calls < maxCalls ∧ overBudget env t.progress.state = false
    swap
    · rw [if_neg going]
      exact keeps.wrapsUp holds
    have asked := keeps.asked holds going.1
    rw [if_pos going, outcome_bind, final_bind]
    cases replied : outcome (callModel client system messages) t with
    | error e => exact ⟨by rintro ⟨⟩, asked⟩
    | ok response =>
      dsimp only
      by_cases silent : toolUses response = []
      · rw [if_pos silent]
        exact ⟨by rintro ⟨⟩, asked⟩
      · rw [if_neg silent, outcome_bind, final_bind]
        cases worked : outcome (useTools env subject str (toolUses response))
            (final (callModel client system messages) t) with
        | error e => exact ⟨by rintro ⟨⟩, keeps.apart asked (within_useTools _ _ _ _ _)⟩
        | ok results =>
          have counted : 0 < (toolUses response).length := List.length_pos_of_ne_nil silent
          exact ih (by omega) (keeps.again holds going.1 replied silent worked)

end Rule

end Runs

/-! Without the conversation -/

/-- The program does what `a` does, up to the conversation and to `f` of what it returns. -/
def Mirrors {σ α β : Type} (f : α → β) (m : TalkM σ α) (a : AgentM β) : Prop :=
  ∀ t, (outcome m t).map f = outcome a t.progress ∧ (final m t).progress = final a t.progress

/-- The surroundings as a client: they answer whatever they are sent. -/
def answering (env : Surroundings) : Client Unit where
  create n _ _ state := (env.reply n, state)

section Mirror

variable {σ α β γ δ : Type} {f : α → β} {g : γ → δ} {m : TalkM σ α} {a : AgentM β}

theorem mirrors_inside (a : AgentM β) : Mirrors (σ := σ) id (inside a) a := by
  intro t
  change (outcome a t.progress).map id = _ ∧ _
  cases outcome a t.progress <;> exact ⟨rfl, rfl⟩

theorem mirrors_pure {x : α} {y : β} (same : f x = y) :
    Mirrors f (pure x : TalkM σ α) (pure y) := by
  subst same
  exact fun _ => ⟨rfl, rfl⟩

theorem mirrors_throw (e : Exn) : Mirrors f (throw e : TalkM σ α) (throw e) :=
  fun _ => ⟨rfl, rfl⟩

theorem Mirrors.bind {k : α → TalkM σ γ} {l : β → AgentM δ} (first : Mirrors f m a)
    (rest : ∀ x, Mirrors g (k x) (l (f x))) : Mirrors g (m >>= k) (a >>= l) := by
  intro t
  obtain ⟨same, now⟩ := first t
  rw [outcome_bind, final_bind, outcome_bind, final_bind, ← same, ← now]
  cases outcome m t with
  | error e => exact ⟨rfl, rfl⟩
  | ok x => exact rest x (final m t)

/-- What is only noted of the conversation. -/
theorem Mirrors.noting {note : Talk σ → Talk σ} {k : PUnit → TalkM σ γ} {l : AgentM δ}
    (quiet : ∀ t, (note t).progress = t.progress) (rest : Mirrors g (k ⟨⟩) l) :
    Mirrors g (modify note >>= k) l := by
  intro t
  have after := rest (note t)
  rw [quiet] at after
  exact after

theorem Mirrors.peeking {k : Talk σ → TalkM σ γ} {l : AgentM δ}
    (rest : ∀ t, Mirrors g (k t) l) : Mirrors g (get >>= k) l := fun t => rest t t

theorem Mirrors.looking {k : Talk σ → TalkM σ γ} {l : Progress → AgentM δ}
    (rest : ∀ t, Mirrors g (k t) (l t.progress)) : Mirrors g (get >>= k) (get >>= l) :=
  fun t => rest t t

variable (env : Surroundings) (subject : Subject) (str : Json → String) (system : String)

theorem callModel_mirrors (messages : List Message) :
    Mirrors id (callModel (answering env) system messages) (Agent.callModel env) := by
  unfold callModel Agent.callModel
  refine .noting (fun t => rfl) ((mirrors_inside await).bind fun n => ?_)
  refine .peeking fun t => .noting (fun t => rfl) ?_
  dsimp only [answering, id]
  cases env.reply n with
  | error e => exact mirrors_throw e
  | ok response => exact (mirrors_inside _).bind fun _ => mirrors_pure rfl

theorem useTools_mirrors (uses : List Block) :
    Mirrors (σ := σ) (fun _ => ⟨⟩) (useTools env subject str uses)
      (Agent.useTools env subject uses) := by
  induction uses with
  | nil => exact mirrors_pure rfl
  | cons block rest ih =>
    rw [useTools_cons, Agent.useTools_cons]
    refine (mirrors_inside _).bind fun result => .noting (fun t => rfl) ?_
    refine (mirrors_inside _).bind fun _ => ?_
    have later := ih.bind (l := pure) (g := fun _ => ⟨⟩) (k := fun results =>
      pure ((⟨block.id, str result⟩ : ToolResult) :: results)) fun results => mirrors_pure rfl
    rwa [bind_pure] at later

/-- The loop of the graph is this one without its conversation. -/
theorem toolRounds_mirrors {maxCalls rounds calls : Nat} (enough : maxCalls ≤ calls + rounds)
    (messages : List Message) :
    Mirrors (fun notes => notes.getD "")
      (toolRounds (answering env) env subject str system maxCalls (rounds + 1) calls messages)
      (Agent.toolRounds env subject maxCalls rounds calls) := by
  have wraps (messages : List Message) : Mirrors (fun notes => notes.getD "")
      (wrapUp (answering env) system messages) (toolRounds.wrapUp env) :=
    (callModel_mirrors env system _).bind fun response => mirrors_pure rfl
  induction rounds generalizing calls messages with
  | zero =>
    have spent : ¬ calls < maxCalls := by omega
    rw [toolRounds_succ, Agent.toolRounds]
    refine .peeking fun t => ?_
    rw [if_neg fun h => spent h.1]
    exact wraps messages
  | succ rounds ih =>
    rw [toolRounds_succ, Agent.toolRounds]
    refine .looking fun t => ?_
    split
    · refine (callModel_mirrors env system messages).bind fun response => ?_
      dsimp only [id]
      cases uses : toolUses response with
      | nil => exact mirrors_pure rfl
      | cons block rest =>
        have counted : maxCalls ≤ calls + (block :: rest).length + rounds := by
          rw [List.length_cons]
          omega
        exact (useTools_mirrors env subject str _).bind fun results => ih counted _
    · exact wraps messages

theorem runToolLoop_mirrors (opening : String) (maxCalls : Nat) :
    Mirrors (fun notes => notes.getD "")
      (runToolLoop (answering env) env subject str system opening maxCalls)
      (Agent.runToolLoop env subject maxCalls) :=
  toolRounds_mirrors env subject str system (Nat.le_add_left _ _) _

end Mirror

end Relay.Agent.Transcript
