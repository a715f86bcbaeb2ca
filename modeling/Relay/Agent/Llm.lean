import Relay.Agent.Transcript
import Relay.Lib.Latest

/-!
# The client of the model

The graph speaks of blocks, the provider of messages that are objects. A message that
called tools is kept under the ids of its calls, and such a turn is sent again as that
object; only where none is found is one built from the blocks. `returned` are the
messages that the model has returned, and `built` the lists that it has been sent,
each with those returned by then; no operation reads them.
-/

namespace Relay.Agent.Llm

open Transcript

structure ToolCall where
  name : String
  args : Option (List (String × Json)) := none
  id : Option String := none

/-- A part of a list content: a dict with its text, or anything else as `str` shows it. -/
inductive Part where
  | dict (text : Option String)
  | other (str : String)

inductive Content where
  | text (s : String)
  | parts (ps : List Part)

/-- A message of the provider; `object` is what `is` compares and stands for its own state. -/
structure AIMessage where
  object : Nat
  content : Content
  toolCalls : List ToolCall := []
  inputTokens : Int := 0
  outputTokens : Int := 0

/-- What the model is sent; an `AIMessage` is one that it has returned, or a new one. -/
inductive LcMessage where
  | system (content : String)
  | human (content : String)
  | ai (message : AIMessage)
  | rebuilt (content : String) (toolCalls : List ToolCall)
  | tool (content toolCallId : String)

/-- The id that the provider gave; an empty one counts as none. -/
def ToolCall.providerId (call : ToolCall) : Option String := call.id.filter (fun id => id ≠ "")

def ToolCall.input (call : ToolCall) : List (String × Json) := call.args.getD []

def Part.text : Part → String
  | .dict text => text.getD ""
  | .other str => str

def Content.str : Content → String
  | .text s => s
  | .parts ps => String.join (ps.map Part.text)

/-! `_to_lc_messages` -/

section Build

variable (cache : String → Option AIMessage)

/-- The first message that is cached under an id of the turn. -/
def replay (content : List Block) : Option AIMessage :=
  ((usesIn content).map Block.id).findSome? cache

def rebuild (content : List Block) : LcMessage :=
  .rebuilt (String.intercalate "\n" ((content.filter (fun b => b.type = "text")).map Block.text))
    ((usesIn content).map (fun b => ⟨b.name, some (b.input.getD []), some b.id⟩))

def toLcTurn (content : List Block) : LcMessage :=
  match replay cache content with
  | some message => .ai message
  | none => rebuild content

def toLcMessage : Message → List LcMessage
  | .user content => [.human content]
  | .assistant content => [toLcTurn cache content]
  | .toolResults content => content.map (fun item => .tool item.content item.toolUseId)

def toLcMessages (system : String) (messages : List Message) : List LcMessage :=
  (if system = "" then [] else [.system system]) ++ messages.flatMap (toLcMessage cache)

end Build

/-! `_from_lc_response` -/

/-- `call_` and eight digits of a new UUID. -/
def generatedId (uuid4 : Uuid) : String :=
  "call_" ++ String.ofList ((Digits.hex 32 uuid4.toNat).take 8)

/-- The block of a call; `ids` are the ids for calls that have none. -/
def useBlock (ids : Nat → String) (call : ToolCall) (k : Nat) : Block :=
  { type := "tool_use", id := call.providerId.getD (ids k), name := call.name,
    input := some call.input }

def useBlocks (ids : Nat → String) (calls : List ToolCall) : List Block :=
  calls.mapIdx (fun k call => useBlock ids call k)

def textBlocks (text : String) : List Block :=
  if text = "" then [] else [{ type := "text", text := text }]

def fromLcResponse (ids : Nat → String) (message : AIMessage) : Response where
  content := textBlocks message.content.str ++ useBlocks ids message.toolCalls
  inputTokens := message.inputTokens
  outputTokens := message.outputTokens

/-! `_Messages.create` -/

/-- What `ainvoke` does in each attempt of a call, and the UUIDs for its tool calls. -/
structure Provider where
  ainvoke : Nat → Nat → Except Exn AIMessage
  uuid4 : Nat → Nat → Uuid

def retryMax : Nat := 2

/-- The text in lower case contains the marker. -/
def Mentions (text marker : String) : Prop := marker.toList <:+: text.toList.map Char.toLower

instance (text marker : String) : Decidable (Mentions text marker) :=
  inferInstanceAs (Decidable (_ <:+: _))

def isRateLimit (e : Exn) : Bool :=
  Mentions e.kind "resourceexhausted" || Mentions e.kind "ratelimit" ||
    ["429", "resource has been exhausted", "quota", "rate limit"].any
      (fun m => Mentions e.message m)

/-- The attempts from this one on, when so many are left after it. -/
def attempts (provider : Provider) (n : Nat) : Nat → Nat → Except Exn AIMessage
  | attempt, 0 => provider.ainvoke n attempt
  | attempt, left + 1 =>
    match provider.ainvoke n attempt with
    | .ok message => .ok message
    | .error e =>
      if e.fatal = false ∧ isRateLimit e then attempts provider n (attempt + 1) left else .error e

/-- The ids under which a message is cached. -/
def AIMessage.providerIds (message : AIMessage) : List String :=
  message.toolCalls.filterMap ToolCall.providerId

/-- A list that was sent, with the messages that had been returned by then. -/
structure Built where
  returned : List AIMessage
  list : List LcMessage

structure Session where
  cache : String → Option AIMessage := fun _ => none
  returned : List AIMessage := []
  built : List Built := []

def client (provider : Provider) : Client Session where
  create n system messages s :=
    let lcMessages := toLcMessages s.cache system messages
    let sent := { s with built := s.built ++ [⟨s.returned, lcMessages⟩] }
    match attempts provider n 0 retryMax with
    | .error e => (.error e, sent)
    | .ok message =>
      (.ok (fromLcResponse (fun k => generatedId (provider.uuid4 n k)) message),
        { sent with
          cache := Latest.put AIMessage.providerIds s.cache message
          returned := s.returned ++ [message] })

/-! What the parts do -/

theorem useBlocks_cons (ids : Nat → String) (call : ToolCall) (rest : List ToolCall) :
    useBlocks ids (call :: rest) = useBlock ids call 0 :: useBlocks (fun k => ids (k + 1)) rest :=
  List.mapIdx_cons

/-- The uses of tools in a response are its calls. -/
theorem usesIn_fromLcResponse (ids : Nat → String) (message : AIMessage) :
    usesIn (fromLcResponse ids message).content = useBlocks ids message.toolCalls := by
  have texts : usesIn (textBlocks message.content.str) = [] := by
    unfold textBlocks usesIn
    split <;> rfl
  have calls : usesIn (useBlocks ids message.toolCalls) = useBlocks ids message.toolCalls := by
    refine List.filter_eq_self.mpr fun b listed => ?_
    obtain ⟨k, _, rfl⟩ := List.mem_mapIdx.mp listed
    rfl
  unfold usesIn at texts calls ⊢
  rw [fromLcResponse, List.filter_append, texts, calls, List.nil_append]

/-- The text of a rebuilt message is that of the response. -/
theorem rebuild_fromLcResponse (ids : Nat → String) (message : AIMessage) :
    rebuild (fromLcResponse ids message).content = .rebuilt message.content.str
      ((useBlocks ids message.toolCalls).map
        (fun b => ⟨b.name, some (b.input.getD []), some b.id⟩))
    := by
  have calls : (useBlocks ids message.toolCalls).filter (fun b => b.type = "text") = [] := by
    refine List.filter_eq_nil_iff.mpr fun b listed => ?_
    obtain ⟨k, _, rfl⟩ := List.mem_mapIdx.mp listed
    exact Bool.false_ne_true
  rw [rebuild, usesIn_fromLcResponse, fromLcResponse, List.filter_append, calls, List.append_nil]
  congr 1
  unfold textBlocks
  split
  · rename_i empty
    rw [empty]
    rfl
  · exact String.intercalate_singleton ..

theorem generatedId_ne_empty (uuid4 : Uuid) : generatedId uuid4 ≠ "" := by
  intro empty
  have none := congrArg String.toList empty
  rw [generatedId, String.toList_append] at none
  exact List.cons_ne_nil _ _ none

/-- What a call returns is what one of the attempts returned. -/
theorem attempts_ok {provider : Provider} {n attempt left : Nat} {message : AIMessage}
    (returned : attempts provider n attempt left = .ok message) :
    ∃ attempt', provider.ainvoke n attempt' = .ok message := by
  induction left generalizing attempt with
  | zero => exact ⟨attempt, returned⟩
  | succ left ih =>
    rw [attempts] at returned
    cases first : provider.ainvoke n attempt with
    | ok message' =>
      rw [first] at returned
      exact ⟨attempt, first.trans returned⟩
    | error e =>
      rw [first] at returned
      dsimp only at returned
      split at returned
      · exact ih returned
      · cases returned

end Relay.Agent.Llm
