import Mathlib.Data.List.Forall2
import Relay.Agent.Llm
import Relay.Properties.AgentFrame

/-!
# Does the provider get its own messages back?

The cache is keyed by the ids of calls, which nobody keeps from recurring, and one call
with an id is enough for the whole message to be sent again as it was. So a turn is
right exactly when the provider gave no id in it, or gave one to every call and has
not returned another message with the first of them since.
-/

namespace Relay.Agent.Llm

open Effects Transcript

/-- The message is the one that produced the turn, or says the same in the same order. -/
def Stands (message : AIMessage) : LcMessage → Prop
  | .ai sent => sent = message
  | .rebuilt content calls => content = message.content.str ∧
    calls.map (fun c => (c.name, c.input)) = message.toolCalls.map (fun c => (c.name, c.input))
  | _ => False

def LcMessage.isAI : LcMessage → Bool
  | .ai _ => true
  | .rebuilt _ _ => true
  | _ => false

/-- The ids of the calls of a message. -/
def LcMessage.callIds : LcMessage → List (Option String)
  | .ai message => message.toolCalls.map ToolCall.id
  | .rebuilt _ calls => calls.map ToolCall.id
  | _ => []

/-- Each tool message has the id of the next call that is waiting for one. -/
def Answers : List (Option String) → List LcMessage → Prop
  | _, [] => True
  | waiting, .tool _ id :: rest => waiting.head? = some (some id) ∧ Answers waiting.tail rest
  | waiting, message :: rest =>
    if message.isAI then Answers message.callIds rest else Answers waiting rest

/-- The list pairs with the messages that produced its turns. -/
def Pairs (turns : List AIMessage) (list : List LcMessage) : Prop :=
  List.Forall₂ Stands turns (list.filter LcMessage.isAI) ∧ Answers [] list

/-- Either no call has an id of the provider, or all have, and the last message that was
returned with the first of these ids is this one. -/
def Kept (returned : List AIMessage) (message : AIMessage) : Prop :=
  (∀ c ∈ message.toolCalls, c.providerId = none) ∨
    (∀ c ∈ message.toolCalls, c.providerId ≠ none) ∧
      ∃ id, message.toolCalls.findSome? ToolCall.providerId = some id ∧
        Latest.latest AIMessage.providerIds returned id = some message

/-! A turn of the assistant with the results of its tools -/

structure Exchange where
  message : AIMessage
  ids : Nat → String
  results : List ToolResult

namespace Exchange

variable (e : Exchange) (cache : String → Option AIMessage)

def content : List Block := (fromLcResponse e.ids e.message).content

def turns : List Message := [.assistant e.content, .toolResults e.results]

/-- One result for each use, under its id. -/
def Answered : Prop := e.results.map ToolResult.toolUseId = (usesIn e.content).map Block.id

def turn : LcMessage := toLcTurn cache e.content

/-- What becomes of the two turns. -/
def built : List LcMessage :=
  e.turn cache :: e.results.map (fun item => .tool item.content item.toolUseId)

/-- The ids of the results are those of the message, in order. -/
def Matches : Prop := e.results.map (fun r => some r.toolUseId) <+: (e.turn cache).callIds

theorem turn_isAI : (e.turn cache).isAI = true := by
  unfold turn toLcTurn
  split <;> rfl

end Exchange

/-- The messages of a loop: the opening, the exchanges and, at the end, the wrap-up. -/
def transcript (opening : String) (exchanges : List Exchange) (closing : List String) :
    List Message :=
  .user opening :: exchanges.flatMap Exchange.turns ++ closing.map .user

section Lists

variable {cache : String → Option AIMessage}

theorem answers_cons {waiting : List (Option String)} {message : LcMessage}
    (ai : message.isAI = true) {rest : List LcMessage} :
    Answers waiting (message :: rest) ↔ Answers message.callIds rest := by
  cases message with
  | ai message => exact Iff.rfl
  | rebuilt content calls => exact Iff.rfl
  | system content => cases ai
  | human content => cases ai
  | tool content id => cases ai

theorem answers_tools {waiting : List (Option String)} {results : List ToolResult}
    {rest : List LcMessage} :
    Answers waiting (results.map (fun item => .tool item.content item.toolUseId) ++ rest) ↔
      results.map (fun r => some r.toolUseId) <+: waiting ∧
        Answers (waiting.drop results.length) rest := by
  induction results generalizing waiting with
  | nil => simp
  | cons r results ih =>
    rw [List.map_cons, List.cons_append, Answers, List.map_cons, List.length_cons]
    cases waiting with
    | nil => simp
    | cons id later =>
      rw [List.head?_cons, Option.some.injEq, List.tail_cons, ih, List.cons_prefix_cons,
        List.drop_succ_cons, and_assoc, eq_comm]

theorem answers_humans (waiting : List (Option String)) (closing : List String) :
    Answers waiting (closing.map .human) := by
  induction closing with
  | nil => trivial
  | cons text closing ih => exact ih

theorem answers_exchanges {waiting : List (Option String)} {exchanges : List Exchange}
    {closing : List String} :
    Answers waiting (exchanges.flatMap (fun e => e.built cache) ++ closing.map .human) ↔
      ∀ e ∈ exchanges, e.Matches cache := by
  induction exchanges generalizing waiting with
  | nil => simp [answers_humans]
  | cons e exchanges ih =>
    have opens : Answers waiting ((e :: exchanges).flatMap (fun e => e.built cache) ++
        closing.map .human) ↔ Answers (e.turn cache).callIds
          (e.results.map (fun item => .tool item.content item.toolUseId) ++
            (exchanges.flatMap (fun e => e.built cache) ++ closing.map .human)) := by
      rw [List.flatMap_cons, Exchange.built, List.cons_append, List.cons_append, List.append_assoc]
      exact answers_cons (e.turn_isAI cache)
    rw [opens, answers_tools, ih, List.forall_mem_cons]
    rfl

theorem filter_map_quiet {A : Type} {f : A → LcMessage} (quiet : ∀ a, (f a).isAI = false)
    (l : List A) : (l.map f).filter LcMessage.isAI = [] := by
  refine List.filter_eq_nil_iff.mpr fun m listed => ?_
  obtain ⟨a, _, rfl⟩ := List.mem_map.mp listed
  rw [quiet a]
  exact Bool.false_ne_true

/-- The messages of the model in what becomes of the exchanges. -/
theorem filter_exchanges (exchanges : List Exchange) (closing : List String) :
    (exchanges.flatMap (fun e : Exchange => e.built cache) ++
      closing.map LcMessage.human).filter LcMessage.isAI =
        exchanges.map (fun e => e.turn cache) := by
  rw [List.filter_append, filter_map_quiet (fun _ => rfl) closing, List.append_nil]
  induction exchanges with
  | nil => rfl
  | cons e exchanges ih =>
    rw [List.flatMap_cons, List.filter_append, ih, Exchange.built,
      List.filter_cons_of_pos (e.turn_isAI cache), filter_map_quiet (fun _ => rfl) e.results]
    rfl

/-- What comes before the first turn of the model. -/
def heading (system opening : String) : List LcMessage :=
  (if system = "" then [] else [.system system]) ++ [.human opening]

theorem toLcMessages_transcript (system opening : String) (exchanges : List Exchange)
    (closing : List String) :
    toLcMessages cache system (transcript opening exchanges closing) =
      heading system opening ++
        (exchanges.flatMap (fun e => e.built cache) ++ closing.map .human) := by
  have turns : (exchanges.flatMap Exchange.turns).flatMap (toLcMessage cache) =
      exchanges.flatMap (fun e => e.built cache) := by
    rw [List.flatMap_assoc]
    refine List.flatMap_congr fun e _ => ?_
    simp [Exchange.turns, Exchange.built, Exchange.turn, toLcMessage]
  have humans : (closing.map Message.user).flatMap (toLcMessage cache) = closing.map .human := by
    rw [List.flatMap_map, List.map_eq_flatMap]
    rfl
  unfold toLcMessages transcript heading
  rw [List.cons_append, List.flatMap_cons, List.flatMap_append, turns, humans]
  exact (List.append_assoc _ [_] _).symm

/-- A list pairs when each of its turns stands for its message and has its ids. -/
theorem pairs_transcript {system opening : String} {exchanges : List Exchange}
    {closing : List String} :
    Pairs (exchanges.map Exchange.message)
        (toLcMessages cache system (transcript opening exchanges closing)) ↔
      ∀ e ∈ exchanges, Stands e.message (e.turn cache) ∧ e.Matches cache := by
  have quiet : (heading system opening).filter LcMessage.isAI = [] := by
    unfold heading
    split <;> rfl
  have opens (list : List LcMessage) :
      Answers [] (heading system opening ++ list) ↔ Answers [] list := by
    unfold heading
    split <;> rfl
  unfold Pairs
  rw [toLcMessages_transcript, List.filter_append, quiet, List.nil_append, filter_exchanges, opens,
    answers_exchanges, List.forall₂_map_left_iff, List.forall₂_map_right_iff,
      List.forall₂_same]
  exact forall₂_and.symm

end Lists

/-! One turn -/

section Turn

variable {cache : String → Option AIMessage} {ids : Nat → String} {calls : List ToolCall}

/-- The ids made up for calls are not cached, so the first id of the provider is looked up. -/
theorem findSome_useBlocks (blank : ∀ k, cache (ids k) = none)
    (found : ∀ c ∈ calls, ∀ id, c.providerId = some id → cache id ≠ none) :
    ((useBlocks ids calls).map Block.id).findSome? cache =
      (calls.findSome? ToolCall.providerId).bind cache := by
  induction calls generalizing ids with
  | nil => rfl
  | cons c rest ih =>
    rw [useBlocks_cons, List.map_cons, List.findSome?_cons, List.findSome?_cons]
    have later : ((useBlocks (fun k => ids (k + 1)) rest).map Block.id).findSome? cache =
        (rest.findSome? ToolCall.providerId).bind cache :=
      ih (fun k => blank (k + 1)) fun c' listed => found c' (List.mem_cons_of_mem c listed)
    cases own : c.providerId with
    | none =>
      have id : (useBlock ids c 0).id = ids 0 := by rw [useBlock, own]; rfl
      rw [id, blank 0]
      exact later
    | some id =>
      have same : (useBlock ids c 0).id = id := by rw [useBlock, own]; rfl
      obtain ⟨message, cached⟩ :=
        Option.ne_none_iff_exists'.mp (found c List.mem_cons_self id own)
      rw [same, cached]
      exact cached.symm

/-- The blocks have the ids of the calls exactly when the provider gave one to each. -/
theorem ids_useBlocks (named : ∀ k, ids k ≠ "") :
    (useBlocks ids calls).map (fun b => some b.id) = calls.map ToolCall.id ↔
      ∀ c ∈ calls, c.providerId ≠ none := by
  induction calls generalizing ids with
  | nil => simp [useBlocks]
  | cons c rest ih =>
    have own : some (useBlock ids c 0).id = c.id ↔ c.providerId ≠ none := by
      unfold useBlock ToolCall.providerId
      cases c.id with
      | none => simp
      | some id =>
        by_cases empty : id = ""
        · simp [Option.filter_some, empty, named 0]
        · simp [Option.filter_some, empty]
    rw [useBlocks_cons, List.map_cons, List.map_cons, List.cons.injEq, own,
      ih (fun k => named (k + 1)), List.forall_mem_cons]

/-- A rebuilt message has the names and the arguments of the calls. -/
theorem calls_useBlocks : ((useBlocks ids calls).map
      (fun b => (⟨b.name, some (b.input.getD []), some b.id⟩ : ToolCall))).map
        (fun c => (c.name, c.input)) = calls.map (fun c => (c.name, c.input)) := by
  induction calls generalizing ids with
  | nil => rfl
  | cons c rest ih =>
    rw [useBlocks_cons, List.map_cons, List.map_cons, List.map_cons, ih]
    rfl

end Turn

theorem mem_providerIds {message : AIMessage} {id : String} :
    id ∈ message.providerIds ↔ ∃ c ∈ message.toolCalls, c.providerId = some id :=
  List.mem_filterMap

namespace Exchange

variable {e : Exchange} {cache : String → Option AIMessage} {returned : List AIMessage}

theorem Answered.results (answered : e.Answered) :
    e.results.map (fun r => some r.toolUseId) =
      (useBlocks e.ids e.message.toolCalls).map (fun b => some b.id) := by
  have same := congrArg (List.map some) answered
  rw [List.map_map, List.map_map, content, usesIn_fromLcResponse] at same
  exact same

/-- The object that is sent for the turn, if it is cached under one of its ids. -/
theorem replay_eq (filled : cache = Latest.fill AIMessage.providerIds returned)
    (listed : e.message ∈ returned) (blank : ∀ k, cache (e.ids k) = none) :
    replay cache e.content = (e.message.toolCalls.findSome? ToolCall.providerId).bind
      (Latest.latest AIMessage.providerIds returned) := by
  have found : ∀ c ∈ e.message.toolCalls, ∀ id, c.providerId = some id →
      cache id ≠ none := by
    intro c own id given
    obtain ⟨last, cached⟩ := Latest.exists_latest AIMessage.providerIds listed
      (mem_providerIds.mpr ⟨c, own, given⟩)
    rw [filled, Latest.fill_apply, cached]
    exact Option.some_ne_none last
  rw [replay, content, usesIn_fromLcResponse, findSome_useBlocks blank found, filled]
  congr 1
  exact funext fun id => Latest.fill_apply returned id

/-- A turn stands for its message and has its ids exactly when the message is kept. -/
theorem iff_kept (filled : cache = Latest.fill AIMessage.providerIds returned)
    (listed : e.message ∈ returned) (blank : ∀ k, cache (e.ids k) = none)
    (named : ∀ k, e.ids k ≠ "") (answered : e.Answered) :
    Stands e.message (e.turn cache) ∧ e.Matches cache ↔ Kept returned e.message := by
  have replays := replay_eq filled listed blank
  have results := answered.results
  unfold Matches turn toLcTurn
  rw [replays, results]
  cases first : e.message.toolCalls.findSome? ToolCall.providerId with
  | none =>
    have none : ∀ c ∈ e.message.toolCalls, c.providerId = none := by
      intro c own
      exact List.findSome?_eq_none_iff.mp first c own
    rw [Option.bind_none, content, rebuild_fromLcResponse]
    refine ⟨fun _ => Or.inl none, fun _ => ⟨⟨rfl, calls_useBlocks⟩, ?_⟩⟩
    rw [LcMessage.callIds, List.map_map]
    exact List.prefix_refl _
  | some id =>
    obtain ⟨c, own, given⟩ := List.exists_of_findSome?_eq_some first
    obtain ⟨last, cached⟩ := Latest.exists_latest AIMessage.providerIds listed
      (mem_providerIds.mpr ⟨c, own, given⟩)
    rw [Option.bind_some, cached]
    constructor
    · rintro ⟨rfl, fits⟩
      change _ <+: e.message.toolCalls.map ToolCall.id at fits
      have same := fits.eq_of_length (by simp [useBlocks])
      exact Or.inr ⟨(ids_useBlocks named).mp same, id, first, cached⟩
    · rintro (none | ⟨all, id', first', cached'⟩)
      · rw [none c own] at given
        cases given
      · obtain rfl := Option.some.inj (first.symm.trans first')
        obtain rfl := Option.some.inj (cached.symm.trans cached')
        refine ⟨rfl, ?_⟩
        rw [(ids_useBlocks named).mpr all]
        exact List.prefix_refl _

end Exchange

/-! The loop -/

/-- The client after these messages, to whichever calls they were returned. -/
def Session.after (log : List AIMessage) : Session :=
  { cache := Latest.fill AIMessage.providerIds log, returned := log }

/-- The id that is made up for the `k`-th call of a message. -/
def Provider.madeUp (provider : Provider) (n k : Nat) : String := generatedId (provider.uuid4 n k)

/-- No such id is one that the provider gives. -/
def Fresh (provider : Provider) (log : List AIMessage) : Prop :=
  ∀ n k, (∀ m ∈ log, provider.madeUp n k ∉ m.providerIds) ∧
    ∀ n' attempt m, provider.ainvoke n' attempt = .ok m → provider.madeUp n k ∉ m.providerIds

/-- The list pairs with the messages of its own loop exactly when each of them is kept. -/
def Built.Exact (b : Built) (log : List AIMessage) : Prop :=
  Pairs (b.returned.drop log.length) b.list ↔
    ∀ message ∈ b.returned.drop log.length, Kept b.returned message

section Loop

variable {provider : Provider} {env : Surroundings} {subject : Subject} {str : Json → String}
  {system opening : String} {maxCalls : Nat} {log : List AIMessage}

theorem create_built (n : Nat) (messages : List Message) (s : Session) :
    ((client provider).create n system messages s).2.built =
      s.built ++ [⟨s.returned, toLcMessages s.cache system messages⟩] := by
  unfold client
  dsimp only
  cases attempts provider n 0 retryMax <;> rfl

/-- A response is that of a message, which is cached and noted. -/
theorem create_ok {n : Nat} {messages : List Message} {s : Session} {response : Response}
    (returned : ((client provider).create n system messages s).1 = .ok response) :
    ∃ message, (∃ attempt, provider.ainvoke n attempt = .ok message) ∧
      response = fromLcResponse (provider.madeUp n) message ∧
      ((client provider).create n system messages s).2.cache =
        Latest.put AIMessage.providerIds s.cache message ∧
      ((client provider).create n system messages s).2.returned = s.returned ++ [message] := by
  unfold client at returned ⊢
  dsimp only at returned ⊢
  cases asked : attempts provider n 0 retryMax with
  | error e =>
    rw [asked] at returned
    cases returned
  | ok message =>
    rw [asked] at returned
    cases returned
    exact ⟨message, attempts_ok asked, rfl, rfl, rfl⟩

/-- The messages so far are the opening and an exchange for each message returned since. -/
structure Underway (provider : Provider) (log : List AIMessage) (opening : String)
    (messages : List Message) (t : Talk Session) : Prop where
  exchanged : ∃ exchanges : List Exchange, messages = transcript opening exchanges [] ∧
    t.client.returned = log ++ exchanges.map Exchange.message ∧
    ∀ e ∈ exchanges, e.Answered ∧ ∃ n, e.ids = provider.madeUp n
  filled : t.client.cache = Latest.fill AIMessage.providerIds t.client.returned
  fresh : ∀ m ∈ t.client.returned, ∀ n k, provider.madeUp n k ∉ m.providerIds
  exact : ∀ b ∈ t.client.built, b.Exact log

/-- The list of the next call, also when the summary has been asked for. -/
theorem Underway.asks {messages : List Message} {t : Talk Session}
    (underway : Underway provider log opening messages t) (system : String)
    (closing : List String) : Built.Exact
      ⟨t.client.returned, toLcMessages t.client.cache system (messages ++ closing.map .user)⟩
        log
    := by
  obtain ⟨exchanges, rfl, returned, answered⟩ := underway.exchanged
  have list : transcript opening exchanges [] ++ closing.map .user =
      transcript opening exchanges closing := by
    unfold transcript
    rw [List.map_nil, List.append_nil]
  have since : t.client.returned.drop log.length = exchanges.map Exchange.message := by
    rw [returned, List.drop_left]
  unfold Built.Exact
  dsimp only
  rw [since, list, pairs_transcript, List.forall_mem_map]
  refine forall₂_congr fun e own => ?_
  obtain ⟨results, n, ids⟩ := answered e own
  have listed : e.message ∈ t.client.returned := by
    rw [returned]
    exact List.mem_append_right _ (List.mem_map_of_mem own)
  have blank : ∀ k, t.client.cache (e.ids k) = none := by
    intro k
    rw [underway.filled, Latest.fill_apply, Latest.latest_eq_none, ids]
    exact fun m known => underway.fresh m known n k
  exact Exchange.iff_kept underway.filled listed blank
    (fun k => ids ▸ generatedId_ne_empty _) results

/-- A call adds its own list to those that were sent. -/
theorem Underway.sends {messages sent : List Message} {t : Talk Session}
    (underway : Underway provider log opening messages t) (closing : List String)
    (same : sent = messages ++ closing.map .user) :
    ∀ b ∈ (final (Transcript.callModel (client provider) system sent) t).client.built,
      b.Exact log := by
  intro b listed
  rw [callModel_client, create_built, List.mem_append, List.mem_singleton] at listed
  rcases listed with earlier | rfl
  · exact underway.exact b earlier
  · rw [same]
    exact underway.asks system closing

theorem keeps_underway (fresh : Fresh provider log) :
    Keeps (client provider) env subject str system maxCalls
      (fun _ => Underway provider log opening)
        (fun t => ∀ b ∈ t.client.built, b.Exact log) where
  asked underway _ := underway.sends [] (List.append_nil _).symm
  closed underway := underway.sends ["Summarize what you found."] rfl
  apart exact apart := by
    rw [apart.client]
    exact exact
  again {calls messages t response results} underway _ replied _ worked := by
    have sent : ∀ b ∈ (final (Transcript.callModel (client provider) system messages)
      t).client.built,
        b.Exact log := underway.sends [] (List.append_nil messages).symm
    have apart := Transcript.within_useTools env subject str (toolUses response)
      (final (Transcript.callModel (client provider) system messages) t)
    obtain ⟨served, _, blocks, answers⟩ := Transcript.useTools_ok worked
    obtain ⟨exchanges, spoken, returned, answered⟩ := underway.exchanged
    rw [outcome_callModel] at replied
    obtain ⟨message, ⟨attempt, asked⟩, rfl, cache, log'⟩ := create_ok replied
    rw [← callModel_client, ← apart.client] at cache log'
    let e : Exchange := ⟨message, provider.madeUp t.progress.awaits, results⟩
    have own : e.Answered := by
      have ids : results.map ToolResult.toolUseId = (served.map Served.block).map Block.id := by
        rw [answers, List.map_map, List.map_map]
        rfl
      exact ids.trans (congrArg (List.map Block.id) blocks)
    refine ⟨⟨exchanges ++ [e], ?_, ?_, ?_⟩, ?_, ?_, ?_⟩
    · rw [spoken]
      simp [transcript, Exchange.turns, Exchange.content, e]
    · rw [log', returned, List.map_append, List.append_assoc]
      rfl
    · intro e' listed
      rcases List.mem_append.mp listed with earlier | last
      · exact answered e' earlier
      · obtain rfl := List.mem_singleton.mp last
        exact ⟨own, _, rfl⟩
    · rw [cache, log', Latest.fill_append_singleton, underway.filled]
    · intro m known n k
      rw [log', List.mem_append, List.mem_singleton] at known
      rcases known with earlier | rfl
      · exact underway.fresh m earlier n k
      · exact (fresh n k).2 _ attempt m asked
    · rw [apart.client]
      exact sent

end Loop

/-- In every list that the loop sends, the turns pair with the messages that produced them
exactly when in each turn no call has an id of the provider, or all have and the last message
returned with the first of them is that of the turn. -/
theorem provider_pairing (provider : Provider) (env : Surroundings) (subject : Subject)
    (str : Json → String) (system opening : String) (maxCalls : Nat) (p : Progress)
    (log : List AIMessage) (fresh : Fresh provider log) :
    let loop := Transcript.runToolLoop (client provider) env subject str system opening maxCalls
    ∀ b ∈ (final loop { progress := p, client := Session.after log }).client.built,
      Pairs (b.returned.drop log.length) b.list ↔
        ∀ message ∈ b.returned.drop log.length, Kept b.returned message := by
  have start : Underway provider log opening [.user opening]
      { progress := p, client := Session.after log } := by
    refine ⟨⟨[], rfl, (List.append_nil log).symm, ?_⟩, rfl, ?_, ?_⟩
    · exact fun e listed => absurd listed List.not_mem_nil
    · exact fun m listed n k => (fresh n k).1 m listed
    · exact fun b listed => absurd listed List.not_mem_nil
  exact ((keeps_underway fresh).ends (Nat.le_add_left maxCalls 0) start).2

/-! Two providers whose ids are not enough -/

/-- What is sent for the turns, by its object. -/
def objects (list : List LcMessage) : List (Option Nat) :=
  (list.filter LcMessage.isAI).map fun m =>
    match m with
    | .ai message => some message.object
    | _ => none

/-- Only the object that produced a turn, or a new one, stands for it. -/
theorem Pairs.objects {turns : List AIMessage} {list : List LcMessage} (pairs : Pairs turns list) :
    List.Forall₂ (fun turn object => object = none ∨ object = some turn.object) turns
      (objects list) := by
  refine List.forall₂_map_right_iff.mpr (pairs.1.imp fun turn m stands => ?_)
  cases m with
  | ai message => exact Or.inr (congrArg (fun m => some m.object) stands)
  | rebuilt content calls => exact Or.inl rfl
  | system content => exact stands.elim
  | human content => exact stands.elim
  | tool content id => exact stands.elim

def Answers.decide : (waiting : List (Option String)) → (list : List LcMessage) →
    Decidable (Answers waiting list)
  | _, [] => isTrue trivial
  | waiting, .tool _ _ :: rest =>
    @instDecidableAnd _ _ _ (Answers.decide waiting.tail rest)
  | waiting, .system _ :: rest => Answers.decide waiting rest
  | waiting, .human _ :: rest => Answers.decide waiting rest
  | _, .ai message :: rest => Answers.decide (message.toolCalls.map ToolCall.id) rest
  | _, .rebuilt _ calls :: rest => Answers.decide (calls.map ToolCall.id) rest

instance (waiting : List (Option String)) (list : List LcMessage) :
    Decidable (Answers waiting list) := Answers.decide waiting list

/-- It calls tools in its first two replies, which are the awaits 0 and 4. -/
def calling (first second : List ToolCall) : Provider where
  ainvoke n _ :=
    if n = 0 then .ok { object := 0, content := .text "", toolCalls := first }
    else if n = 4 then .ok { object := 4, content := .text "", toolCalls := second }
    else .ok { object := n, content := .text "It is down." }
  uuid4 _ _ := 0

/-- The second message has the id of the first again. -/
def reusing : Provider :=
  calling [{ name := "get_endpoint_config", id := some "call_0" }]
    [{ name := "query_attempts", id := some "call_0" }]

/-- The second call of the first message has no id. -/
def mixing : Provider :=
  calling [{ name := "get_endpoint_config", id := some "call_0" }, { name := "drop_tables" }] []

def sentBy (provider : Provider) : List Built :=
  (final (Transcript.runToolLoop (client provider) pausing manual (fun _ => "") "" "Look." 6)
    { progress := { store := brokenEndpoint }, client := Session.after [] }).client.built

theorem fresh_calling {first second : List ToolCall}
    (others : ∀ c ∈ first ++ second, c.providerId ≠ some "call_00000000") :
    Fresh (calling first second) [] := by
  intro n k
  have made : generatedId 0 = "call_00000000" := by decide +kernel
  refine ⟨fun m listed => absurd listed List.not_mem_nil, fun n' attempt m returned known => ?_⟩
  change generatedId 0 ∈ m.providerIds at known
  rw [made, mem_providerIds] at known
  obtain ⟨c, own, given⟩ := known
  dsimp only [calling] at returned
  split at returned
  · cases returned
    exact others c (List.mem_append_left _ own) given
  · split at returned
    · cases returned
      exact others c (List.mem_append_right _ own) given
    · cases returned
      exact absurd own List.not_mem_nil

/-- A turn is sent as the message of a later one, and a tool message has the id of no call. -/
theorem provider_pairing_broken :
    (Fresh reusing [] ∧ ¬ ∀ b ∈ sentBy reusing, Pairs b.returned b.list) ∧
      (Fresh mixing [] ∧ ¬ ∀ b ∈ sentBy mixing, Pairs b.returned b.list) := by
  have later : ¬ ∀ b ∈ sentBy reusing, List.Forall₂
      (fun turn object => object = none ∨ object = some turn.object) b.returned
        (objects b.list) := by
    decide +kernel
  have unnamed : ¬ ∀ b ∈ sentBy mixing, Answers [] b.list := by decide +kernel
  refine ⟨⟨fresh_calling (by decide +kernel), fun pairs => ?_⟩,
    fresh_calling (by decide +kernel), fun pairs => ?_⟩
  · exact later fun b listed => (pairs b listed).objects
  · exact unnamed fun b listed => (pairs b listed).2

/-- The first of them, in its three lists. -/
theorem provider_pairing_reusing : Fresh reusing [] ∧ (sentBy reusing).length = 3 ∧
    ∀ b ∈ sentBy reusing, Pairs (b.returned.drop 0) b.list ↔
      ∀ message ∈ b.returned.drop 0, Kept b.returned message :=
  have fresh : Fresh reusing [] := fresh_calling (by decide +kernel)
  ⟨fresh, by decide +kernel, provider_pairing reusing pausing manual (fun _ => "") "" "Look." 6
    { store := brokenEndpoint } [] fresh⟩

end Relay.Agent.Llm
