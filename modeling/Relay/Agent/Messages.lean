import Relay.Agent.Trigger
import Relay.Lib.JsonOrder
import Relay.Text

/-!
# Messages of the breaker as texts

What the script and `record_outcome` publish, and `handle_breaker_event` up to
the claim. `cjson` writes the fields of a message in any order, and numbers in a
way of its own; `json.dumps` keeps the order of the dict.
-/

namespace Relay.Agent.Messages

open JsonText CircuitBreaker

variable {F : Type}

/-! Publishing -/

/-- The table that the script encodes. -/
def transitionFields (endpointId : Uuid) (fromState toState : BreakerState)
    (time consecutive : Value F) : List (String × Value F) :=
  [("endpoint_id", .str (uuidText endpointId)), ("from_state", .str (stateText fromState)),
    ("to_state", .str (stateText toState)), ("at", time), ("consecutive", consecutive)]

/-- The dict that `record_outcome` dumps. -/
def streakFields (endpointId : Uuid) (consecutive : Nat) (time : Value F) :
    List (String × Value F) :=
  [("endpoint_id", .str (uuidText endpointId)), ("trigger", .str "consecutive_failures"),
    ("consecutive", .int consecutive), ("at", time)]

/-- Lua's own texts of floats, read as Python reads. -/
def luaText (format : FloatFormat F) (lua : F → List Char) : FloatText F := ⟨lua, format.read⟩

/-- The texts that may be published for an event; the numbers in it are written
in some way that can be read. -/
inductive Published (format : FloatFormat F) : BreakerEvent → List Char → Prop
  | transition {endpointId : Uuid} {fromState toState : BreakerState} {now : ℚ} {n : Nat}
      (lua : F → List Char) {time consecutive : Value F} {order : List (String × Value F)}
      (anyOrder : order.Perm (transitionFields endpointId fromState toState time consecutive))
      (timeReadable : time.WellFormed (luaText format lua) maxStrDigits)
      (countReadable : consecutive.WellFormed (luaText format lua) maxStrDigits) :
      Published format (.transition endpointId fromState toState now n)
        ((Value.obj order).text (luaText format lua) compact)
  | consecutiveFailures {endpointId : Uuid} {n : Nat} {now : ℚ} {time : Value F}
      (timeReadable : time.WellFormed format.toFloatText maxStrDigits) (short : Printable n) :
      Published format (.consecutiveFailures endpointId n now)
        ((Value.obj (streakFields endpointId n time)).dumps format.toFloatText spaced false)

/-! Reading -/

/-- `event.get(key)`. -/
def get (fields : List (String × Value F)) (key : String) : Option (Value F) :=
  (fields.find? (fun f => f.1 = key)).map Prod.snd

/-- `value == text`. -/
def isText (text : String) : Option (Value F) → Bool
  | some (.str s) => decide (s = text)
  | _ => false

/-- `text.replace(pattern, "")`; the first argument is what is left of a match. -/
def removeAll (pattern : List Char) : Nat → List Char → List Char
  | _, [] => []
  | left + 1, _ :: rest => removeAll pattern left rest
  | 0, c :: rest =>
    if pattern.isPrefixOf (c :: rest) then removeAll pattern (pattern.length - 1) rest
    else c :: removeAll pattern 0 rest

def isBrace (c : Char) : Bool := c = openBrace || c = closeBrace

def hexNumber (cs : List Char) : Option Nat :=
  cs.foldl (fun n c => n.bind (fun n => (hexDigit c).map (fun d => n * 16 + d))) (some 0)

def stripBraces (cs : List Char) : List Char :=
  ((cs.dropWhile isBrace).reverse.dropWhile isBrace).reverse

/-- What is left of the text without its marks. -/
def uuidDigits (text : String) : List Char :=
  (stripBraces (removeAll ['u', 'u', 'i', 'd', ':'] 0
    (removeAll ['u', 'r', 'n', ':'] 0 text.toList))).filter (fun c => c ≠ '-')

/-- `uuid.UUID(text)`; a text that is no UUID raises `ValueError`. -/
def uuidOfText (text : String) : Option Uuid :=
  if (uuidDigits text).length = 32 then (hexNumber (uuidDigits text)).map (BitVec.ofNat 128)
  else none

inductive Exception where
  | valueError
  | keyError
  | typeError
  | attributeError
  deriving DecidableEq

/-- What comes of a message before the budget is asked. -/
inductive Reaction where
  | ignored
  | claims (endpointId : Uuid) (triggeredBy : String)
  | raised (e : Exception)
  deriving DecidableEq

/-- `uuid.UUID(event["endpoint_id"])`. -/
def endpointOf (event : List (String × Value F)) : Except Exception Uuid :=
  match get event "endpoint_id" with
  | none => .error .keyError
  | some .null => .error .typeError
  | some (.str text) =>
    match uuidOfText text with
    | none => .error .valueError
    | some id => .ok id
  | some _ => .error .attributeError

def claiming (event : List (String × Value F)) (triggeredBy : String) : Reaction :=
  match endpointOf event with
  | .error e => .raised e
  | .ok id => .claims id triggeredBy

/-- `handle_breaker_event`, up to the claim. `none`: a string of the message has
a lone surrogate, and is no text here. -/
def handleBreakerEvent (format : FloatFormat F) (message : List Char) : Option Reaction :=
  match loads format.toFloatText maxStrDigits message with
  | .error .surrogate => none
  | .error .tooLong => some (.raised .valueError)
  | .error _ => some .ignored
  | .ok (.obj event) =>
    if isText "open" (get event "to_state") then some (claiming event "breaker_open")
    else if isText "consecutive_failures" (get event "trigger") then
      some (claiming event "consecutive_failures")
    else some .ignored
  | .ok _ => some (.raised .attributeError)

def endpointOfEvent : BreakerEvent → Uuid
  | .transition endpointId _ _ _ _ | .consecutiveFailures endpointId _ _ => endpointId

/-- What an event asks for, by `triggeredBy`. -/
def reaction (e : BreakerEvent) : Reaction :=
  match Trigger.triggeredBy e with
  | none => .ignored
  | some reason => .claims (endpointOfEvent e) reason

/-! UUIDs -/

theorem removeAll_plain {p : Char} {pattern cs : List Char} (absent : p ∉ cs) :
    removeAll (p :: pattern) 0 cs = cs := by
  induction cs with
  | nil => rfl
  | cons c rest ih =>
    have other : p ≠ c := fun same => absent (same ▸ List.mem_cons_self)
    have unmatched : (p :: pattern).isPrefixOf (c :: rest) = false := by
      simp [List.isPrefixOf, other]
    rw [removeAll, unmatched, if_neg Bool.false_ne_true,
      ih (fun h => absent (List.mem_cons_of_mem c h))]

theorem foldl_hexDigit {ds : List Nat} (digits : ∀ d ∈ ds, d < 16) (n : Nat) :
    (ds.map Nat.digitChar).foldl
      (fun n c => n.bind (fun n => (hexDigit c).map (fun d => n * 16 + d))) (some n) =
        some (ds.foldl (fun v d => v * 16 + d) n) := by
  induction ds generalizing n with
  | nil => rfl
  | cons d ds ih =>
    have first : hexDigit d.digitChar = some d := hexDigit_digitChar (digits d List.mem_cons_self)
    simp only [List.map_cons, List.foldl_cons, Option.bind_some, first, Option.map_some]
    exact ih (fun e h => digits e (List.mem_cons_of_mem d h)) _

theorem hexNumber_hex {count n : Nat} (small : n < 16 ^ count) :
    hexNumber (Digits.hex count n) = some n := by
  have read := foldl_hexDigit (fun d h => Digits.lt_of_mem_digits (by decide) h :
    ∀ d ∈ Digits.digits 16 count n, d < 16) 0
  have value := Digits.value_digits small
  unfold Digits.value at value
  rw [value] at read
  exact read

theorem stripBraces_plain {cs : List Char} (plain : ∀ c ∈ cs, isBrace c = false) :
    stripBraces cs = cs := by
  have kept : ∀ {l : List Char}, (∀ c ∈ l, isBrace c = false) →
      l.dropWhile isBrace = l := by
    intro l none
    cases l with
    | nil => rfl
    | cons c rest => rw [List.dropWhile_cons, none c List.mem_cons_self, if_neg (by decide)]
  rw [stripBraces, kept plain, kept (fun c h => plain c (List.mem_reverse.mp h)),
    List.reverse_reverse]

theorem uuidDigits_uuidText (id : Uuid) : uuidDigits (uuidText id) = Digits.hex 32 id.toNat := by
  have noU : 'u' ∉ (uuidText id).toList := not_mem_uuidText (by decide) (by decide) id
  have noOpen : openBrace ∉ (uuidText id).toList := not_mem_uuidText (by decide) (by decide) id
  have noClose : closeBrace ∉ (uuidText id).toList := not_mem_uuidText (by decide) (by decide) id
  have plain : ∀ c ∈ (uuidText id).toList, isBrace c = false := by
    intro c h
    have other : c ≠ openBrace := fun same => noOpen (same ▸ h)
    have other' : c ≠ closeBrace := fun same => noClose (same ▸ h)
    simp [isBrace, other, other']
  rw [uuidDigits, removeAll_plain noU, removeAll_plain noU, stripBraces_plain plain,
    filter_uuidText]

/-- A UUID is read back from its text. -/
theorem uuidOfText_uuidText (id : Uuid) : uuidOfText (uuidText id) = some id := by
  rw [uuidOfText, uuidDigits_uuidText, Digits.length_hex, if_pos rfl,
    hexNumber_hex (show id.toNat < 16 ^ 32 from id.isLt), Option.map_some, BitVec.ofNat_toNat,
    BitVec.setWidth_eq]

end Relay.Agent.Messages
