import Relay.Agent.Messages
import Relay.Delivery.Wire
import Relay.Lib.JsonBound
import Relay.Pipeline.History
import Relay.Pipeline.Schedule
import Relay.Pipeline.Transient

/-!
# The agent understands what the breakers say

Every message on the channel is read as the event it was published for, whatever
order its fields were written in, and as long as no endpoint is deleted an event names
one that exists.
-/

namespace Relay.Agent.Messages

open JsonText CircuitBreaker

variable {F : Type} {format : FloatFormat F} {cs : List Char}

theorem get_of_mem {fields : List (String × Value F)} {key : String} {v : Value F}
    (distinct : (fields.map Prod.fst).Nodup) (listed : (key, v) ∈ fields) :
    get fields key = some v := by
  unfold get
  cases found : fields.find? (fun f => f.1 = key) with
  | none => exact absurd (List.find?_eq_none.mp found _ listed) (by simp)
  | some f =>
    have same : f.1 = key := by simpa using List.find?_some found
    have there : (key, f.2) ∈ fields := same ▸ List.mem_of_find?_eq_some found
    exact congrArg some (Value.value_unique distinct there listed)

theorem get_of_not_mem {fields : List (String × Value F)} {key : String}
    (absent : key ∉ fields.map Prod.fst) : get fields key = none := by
  unfold get
  rw [Option.map_eq_none_iff, List.find?_eq_none]
  intro f listed same
  exact absent (List.mem_map.mpr ⟨f, listed, by simpa using same⟩)

theorem claiming_of {event : List (String × Value F)} {id : Uuid} {reason : String}
    (named : get event "endpoint_id" = some (.str (uuidText id))) :
    claiming event reason = .claims id reason := by
  unfold claiming endpointOf
  rw [named]
  simp only [uuidOfText_uuidText]

theorem stateText_open {state : BreakerState} : stateText state = "open" ↔ state = .opened := by
  cases state <;> decide

/-- A text is ignored if it is no JSON or names neither trigger, and for nothing else. -/
theorem handle_ignored (ignored : handleBreakerEvent format cs = some .ignored) :
    loads format.toFloatText maxStrDigits cs = .error .malformed ∨
      ∃ event, loads format.toFloatText maxStrDigits cs = .ok (.obj event) ∧
        isText "open" (get event "to_state") = false ∧
        isText "consecutive_failures" (get event "trigger") = false := by
  have finite : loads format.toFloatText maxStrDigits cs ≠ .error .exhausted :=
    loads_ne_exhausted _ _ _
  have claims {event : List (String × Value F)} {reason : String} :
      some (claiming event reason) ≠ some .ignored := by
    unfold claiming
    cases endpointOf event <;> exact fun same => by cases same
  unfold handleBreakerEvent at ignored
  cases read : loads format.toFloatText maxStrDigits cs with
  | error e =>
    rw [read] at ignored finite
    cases e with
    | malformed => exact Or.inl rfl
    | exhausted => exact absurd rfl finite
    | surrogate | tooLong => cases ignored
  | ok v =>
    rw [read] at ignored
    cases v with
    | obj event =>
      refine Or.inr ⟨event, rfl, ?_⟩
      dsimp only at ignored
      split at ignored
      · exact absurd ignored claims
      · rename_i closed
        split at ignored
        · exact absurd ignored claims
        · rename_i other
          exact ⟨Bool.eq_false_iff.mpr closed, Bool.eq_false_iff.mpr other⟩
    | _ => cases ignored

/-- What is read as the fields of a transition, in any order, is that transition. -/
theorem handle_transition {id : Uuid} {fromState toState : BreakerState} {now : ℚ} {n : Nat}
    {time consecutive : Value F} {order : List (String × Value F)}
    (anyOrder : order.Perm (transitionFields id fromState toState time consecutive))
    (read : loads format.toFloatText maxStrDigits cs = .ok (.obj order)) :
    handleBreakerEvent format cs = some (reaction (.transition id fromState toState now n)) := by
  have keys : (order.map Prod.fst).Perm
      ["endpoint_id", "from_state", "to_state", "at", "consecutive"] := anyOrder.map Prod.fst
  have distinct : (order.map Prod.fst).Nodup := keys.nodup_iff.mpr (by decide)
  have toField : get order "to_state" = some (.str (stateText toState)) :=
    get_of_mem distinct (anyOrder.mem_iff.mpr (by simp [transitionFields]))
  have idField : get order "endpoint_id" = some (.str (uuidText id)) :=
    get_of_mem distinct (anyOrder.mem_iff.mpr (by simp [transitionFields]))
  have noTrigger : get order "trigger" = none :=
    get_of_not_mem (fun listed => absurd (keys.mem_iff.mp listed) (by decide))
  unfold handleBreakerEvent
  rw [read]
  simp only [toField, noTrigger, isText, stateText_open, decide_eq_true_eq]
  unfold reaction Trigger.triggeredBy
  by_cases opens : toState = .opened
  · simp only [opens, if_true, claiming_of idField, endpointOfEvent]
  · simp only [opens, if_false, Bool.false_eq_true]

theorem keys_streakFields (id : Uuid) (n : Nat) (time : Value F) :
    (streakFields id n time).map Prod.fst = ["endpoint_id", "trigger", "consecutive", "at"] := rfl

theorem distinct_streakFields (id : Uuid) (n : Nat) (time : Value F) :
    ((streakFields id n time).map Prod.fst).Nodup := by
  rw [keys_streakFields]
  decide

theorem handle_streak {id : Uuid} {n : Nat} {now : ℚ} {time : Value F}
    (read : loads format.toFloatText maxStrDigits cs = .ok (.obj (streakFields id n time))) :
    handleBreakerEvent format cs = some (reaction (.consecutiveFailures id n now)) := by
  have distinct := distinct_streakFields id n time
  have idField : get (streakFields id n time) "endpoint_id" = some (.str (uuidText id)) :=
    get_of_mem distinct (by simp [streakFields])
  have trigger : get (streakFields id n time) "trigger" = some (.str "consecutive_failures") :=
    get_of_mem distinct (by simp [streakFields])
  have noState : get (streakFields id n time) "to_state" = none :=
    get_of_not_mem (keys_streakFields id n time ▸ by decide)
  unfold handleBreakerEvent
  rw [read]
  simp only [trigger, noState, isText, Bool.false_eq_true, if_false, decide_true, if_true,
    claiming_of idField]
  rfl

/-- A published text is handled as the event that it was published for. -/
theorem handle_published {e : BreakerEvent} (published : Published format e cs) :
    handleBreakerEvent format cs = some (reaction e) := by
  cases published with
  | @transition id fromState toState now n lua time consecutive order anyOrder timeReadable
      countReadable =>
    refine handle_transition anyOrder ?_
    have distinct : (order.map Prod.fst).Nodup :=
      (anyOrder.map Prod.fst).nodup_iff.mpr
        (by decide : ["endpoint_id", "from_state", "to_state", "at", "consecutive"].Nodup)
    have formed : ∀ f ∈ order, f.2.WellFormed (luaText format lua) maxStrDigits := by
      intro f listed
      have field := anyOrder.mem_iff.mp listed
      simp only [transitionFields, List.mem_cons, List.not_mem_nil, or_false] at field
      rcases field with rfl | rfl | rfl | rfl | rfl
      · trivial
      · trivial
      · trivial
      · exact timeReadable
      · exact countReadable
    have read : loads (luaText format lua) maxStrDigits
        ((Value.obj order).text (luaText format lua) compact) = .ok (.obj order) :=
      Value.loads_text (by decide) ⟨distinct, Value.fieldsWellFormed_iff.mpr formed⟩
    have reads : format.read = (luaText format lua).read := rfl
    exact (loads_of_read reads _).trans read
  | @consecutiveFailures id n now time timeReadable short =>
    refine handle_streak (Value.loads_dumps (by decide) false ⟨?_, ?_⟩)
    · exact distinct_streakFields id n time
    · exact ⟨trivial, trivial, short, timeReadable, trivial⟩

end Relay.Agent.Messages

namespace Relay

open CircuitBreaker Worker Agent.Messages

/-! The channel -/

/-- The message that is about to be published. -/
def Worker.Pc.announcing : Pc → Option BreakerEvent
  | .publishTrigger _ _ event => some event
  | _ => none

/-- What a step does to the channel. -/
inductive Worker.Pc.Publishes (s s' : Store) (pc pc' : Pc) : Prop
  | nothing (same : s'.published = s.published) (next : pc'.announcing = none)
  | outcome {v : Locals} {slot : Uuid} {time : ℚ} (before : pc = .recordOutcome v slot time)
      (same : ∀ e ∈ s'.published, e ∈ s.published ∨ endpointOfEvent e = v.endpoint.id)
      (next : ∀ e, pc'.announcing = some e → endpointOfEvent e = v.endpoint.id)
  | trigger {e : BreakerEvent} (before : pc.announcing = some e)
      (same : s'.published = s.published ++ [e]) (next : pc'.announcing = none)

section Step

variable {env : Env} {clock : ℚ} {c : Choice} {shard messageId : Nat} {id : Uuid}
  {s s' : Store} {pc pc' : Pc}

theorem Worker.Pc.announcing_afterOutcome (v : Locals) (slot : Uuid) :
    (Pc.afterOutcome v slot).announcing = none := by
  unfold Pc.afterOutcome
  split <;> rfl

theorem Worker.Pc.announcing_unlock (v : Locals) (acks : Bool) :
    (Pc.unlock v acks).announcing = none := by
  unfold Pc.unlock
  split <;> rfl

theorem Worker.Pc.announcing_of_leaving {acks : Bool} (leaving : pc.session = .leaving acks) :
    pc.announcing = none := by
  cases pc with
  | publishTrigger => cases leaving
  | _ => rfl

theorem CircuitBreaker.endpoint_transitionEvent {endpointId : Uuid} {before : BreakerState}
    {o : Outcome} {now : ℚ} {e : BreakerEvent}
    (listed : e ∈ transitionEvent endpointId before o now) : endpointOfEvent e = endpointId := by
  unfold transitionEvent at listed
  split at listed
  · rw [List.mem_singleton.mp listed]
    rfl
  · exact absurd listed List.not_mem_nil

theorem Worker.Pc.step_publishes (h : pc.step env clock c shard messageId id s = some (s', pc')) :
    Publishes s s' pc pc' := by
  cases pc with
  | recordOutcome v slot time =>
    simp only [Pc.step] at h
    have listed : ∀ e ∈ (s.recordOutcome v.endpoint.id (decide (v.delivery.status = .delivered))
        clock time c.token).1.published,
        e ∈ s.published ∨ endpointOfEvent e = v.endpoint.id := by
      intro e listed
      rcases List.mem_append.mp listed with old | new
      · exact Or.inl old
      · exact Or.inr (endpoint_transitionEvent new)
    split at h <;> cases h
    · refine .outcome rfl listed (fun e announced => ?_)
      cases announced
      rfl
    · refine .outcome rfl listed (fun e announced => ?_)
      rw [announcing_afterOutcome] at announced
      cases announced
  | publishTrigger v slot event =>
    cases h
    exact .trigger rfl rfl (announcing_afterOutcome v slot)
  | releaseSlot v slot acks | deferGated v dueAt =>
    cases h
    exact .nothing rfl (announcing_unlock v _)
  | acquireLock v =>
    simp only [Pc.step] at h
    split at h <;> cases h
    · exact .nothing rfl rfl
    · rename_i acquired
      unfold Store.acquireLock at acquired
      split at acquired <;> cases acquired
      exact .nothing rfl rfl
  | releaseNotHead v =>
    cases h
    refine .nothing ?_ rfl
    split
    · unfold Store.releaseLock
      split <;> rfl
    · rfl
  | releaseLock v token acks =>
    cases h
    refine .nothing ?_ rfl
    unfold Store.releaseLock
    split <;> rfl
  | allowRequest v | takeToken v rate | acquireSlot v cap =>
    simp only [Pc.step] at h
    split at h
    all_goals
      rename_i answer
      cases h
      exact .nothing (congrArg (fun a => a.1.published) answer).symm rfl
  | _ =>
    simp only [Pc.step] at h
    repeat' split at h
    all_goals
      cases h <;> exact .nothing rfl rfl

end Step

namespace World

variable {env : Env} {l : Label} {x y : World}

/-- Messages name endpoints that exist, also those about to be published. -/
structure Named (x : World) : Prop where
  published : ∀ e ∈ x.store.published, (x.core.orderings (endpointOfEvent e)).isSome = true
  announced : ∀ w h e, x.Handles w h → h.pc.announcing = some e →
    (x.core.orderings (endpointOfEvent e)).isSome = true

theorem named_initial (shardOf : Nat → Nat) : Named (initial shardOf) where
  published := fun _ listed => absurd listed List.not_mem_nil
  announced := fun _ _ _ handles => by cases handles

theorem Change.orderings_isSome (change : Change env x y l) {id : Uuid}
    (known : (x.core.orderings id).isSome = true) : (y.core.orderings id).isSome = true := by
  obtain ⟨o, found⟩ := Option.isSome_iff_exists.mp known
  exact Option.isSome_iff_exists.mpr ⟨o, change.extends.orderings found⟩

theorem Named.step (inv : Consistent env x) (named : Named x)
    (next : World.step env l x = some y) : Named y := by
  have change := step_change next
  have known : ∀ {id}, (x.core.orderings id).isSome = true →
      (y.core.orderings id).isSome = true :=
    change.orderings_isSome
  refine ⟨fun e listed => ?published, fun w h e handles announced => ?announced⟩
  case announced =>
    cases change.arises handles with
    | same old _ => exact known (named.announced w h e old announced)
    | begun _ _ begun =>
      rw [begun] at announced
      cases announced
    | @moved c old _ handled step _ _ =>
      cases Pc.step_publishes step with
      | nothing _ none | trigger _ _ none =>
        rw [none] at announced
        cases announced
      | outcome before _ next =>
        have sound := inv.sessions w old handled
        rw [before] at sound
        rw [next e announced]
        exact known (Option.isSome_iff_exists.mpr ⟨_, sound.1.ordering⟩)
    | raised _ _ leaving _ =>
      rw [Pc.announcing_of_leaving leaving] at announced
      cases announced
  case published =>
    by_cases working : ∃ w c, l = .work w c
    · obtain ⟨w, c, rfl⟩ := working
      cases change with
      | admin label => exact label.elim
      | drop label => rcases label with same | same <;> cases same
      | @work w c h pc clock handles step move workers requests =>
        cases Pc.step_publishes step with
        | nothing same _ => exact known (named.published e (same ▸ listed))
        | @outcome v slot time before same _ =>
          have sound := inv.sessions w h handles
          rw [before] at sound
          rcases same e listed with old | new
          · exact known (named.published e old)
          · rw [new]
            exact known (Option.isSome_iff_exists.mpr ⟨_, sound.1.ordering⟩)
        | @trigger e' before same _ =>
          rw [same] at listed
          rcases List.mem_append.mp listed with old | new
          · exact known (named.published e old)
          · rw [List.mem_singleton.mp new]
            exact known (named.announced w h e' handles before)
    · have same := step_transient next (fun w c label => working ⟨w, c, label⟩)
      have published : y.store.published = x.store.published := congrArg (fun t => t.2.2.2) same
      exact known (named.published e (published ▸ listed))

theorem named_run {guard : World → Label → Prop} {shardOf : Nat → Nat}
    (run : Transition.Run (World.step env) guard (initial shardOf) x) : Named x :=
  run.invariant_under (consistent_initial env shardOf) (named_initial shardOf)
    (fun inv _ next => inv.step (step_change next)) (fun inv named _ next => named.step inv next)

/-- The agent reads every message as the event it was published for; and as the steps of the
pipeline delete no endpoint, the one that it claims a diagnosis for has a row. -/
theorem published_understood {guard : World → Label → Prop} {shardOf : Nat → Nat} {F : Type}
    {format : JsonText.FloatFormat F} {e : BreakerEvent} {cs : List Char}
    (run : Transition.Run (World.step env) guard (initial shardOf) x)
    (listed : e ∈ x.store.published) (published : Published format e cs) :
    handleBreakerEvent format cs = some (reaction e) ∧
      ∃ endpoint, x.store.db.endpoint (endpointOfEvent e) = some endpoint := by
  refine ⟨handle_published published, ?_⟩
  have known := (named_run run).published e listed
  rw [Store.core_orderings, Option.isSome_map] at known
  exact Option.isSome_iff_exists.mp known

/-- A delivery that fails. -/
def failed (i : Nat) : List Label :=
  ingest i shop (BitVec.ofNat 128 (10 + i)) (BitVec.ofNat 128 (30 + i)) ++ [.read 0, .take 0] ++
    works 0 (if i = 4 then 21 else 20) { erring with token := BitVec.ofNat 128 (50 + i) }

/-- The fifth failure is announced, and the agent claims the endpoint. -/
theorem published_understood_streak : ∃ (x : World) (cs : List Char),
    Transition.Run (World.step headerless) (fun _ _ => True) (initial (fun _ => 3)) x ∧
      Published Wire.tenths (.consecutiveFailures 1 5 0) cs ∧
      handleBreakerEvent Wire.tenths cs = some (.claims 1 "consecutive_failures") ∧
      ∃ endpoint, x.store.db.endpoint 1 = some endpoint := by
  have evaluates : (Transition.exec (World.step headerless) (fun _ _ => true)
      ([.createTenant { id := 2 }, .createEndpoint shop] ++ (List.range 5).flatMap failed)
      (initial (fun _ => 3))).elim false
        (fun x => decide (BreakerEvent.consecutiveFailures 1 5 0 ∈ x.store.published)) =
          true := by
    decide +kernel
  obtain ⟨x, executed, passes⟩ := Transition.reached evaluates
  have dated : (JsonText.Value.float 0 : JsonText.Value Nat).WellFormed Wire.tenths.toFloatText
      maxStrDigits :=
    Wire.tenths.readable 0
  have text : Published Wire.tenths (.consecutiveFailures 1 5 0) _ :=
    .consecutiveFailures dated (by decide +kernel)
  exact ⟨x, _, free_run executed, text,
    published_understood (free_run executed) (of_decide_eq_true passes) text⟩

end World

end Relay
