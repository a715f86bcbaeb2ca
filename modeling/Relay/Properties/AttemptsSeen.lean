import Relay.Pipeline.Schedule
import Relay.Pipeline.History

/-!
# What the breaker is told about the attempts

Any number of workers on any entries, with replays in between and no call that
raises. Every attempt that is answered becomes one call of `record_outcome` by
the same worker for the same entry. The flag of the call comes from the row,
which other processes may have changed since the outcome was committed.
-/

namespace Relay

open Enqueue Worker Api Transition

/-- An answered attempt and its success, or a call of `record_outcome` and its flag. -/
structure Mark where
  worker : Nat
  messageId : Nat
  endpointId : Uuid
  success : Bool
  deriving DecidableEq

namespace Worker

/-- The attempt that the await finishes. -/
def Pc.attempted (c : Choice) : Pc → List (Uuid × Bool)
  | .receive v _ => [(v.endpoint.id, c.result.succeeded)]
  | _ => []

/-- The arguments with which the await calls `record_outcome`. -/
def Pc.recorded : Pc → List (Uuid × Bool)
  | .recordOutcome v _ _ => [(v.endpoint.id, decide (v.delivery.status = .delivered))]
  | _ => []

/-- The attempt that is answered and not yet recorded. -/
def Pc.unrecorded : Pc → List (Uuid × Bool)
  | .commitOutcome v _ _ outcome _ => [(v.endpoint.id, decide (outcome.status = .delivered))]
  | .scheduleRetry v _ _ | .refresh v _ | .recordOutcome v _ _ =>
    [(v.endpoint.id, decide (v.delivery.status = .delivered))]
  | _ => []

/-- The row reads delivered exactly if the session's copy does. -/
def Unchanged (s : Store) (copy : Delivery) : Prop :=
  ∀ row, s.db.delivery copy.id = some row →
    (row.status = .delivered ↔ copy.status = .delivered)

/-- What `process_delivery` looks up is there. -/
structure Attemptable (s : Store) (id : Uuid) (d : Delivery) : Prop where
  row : (s.db.delivery id).isSome = true
  undelivered : d.status ≠ .delivered
  endpoint : (s.db.endpoint d.endpointId).isSome = true
  event : (s.db.event d.eventId).isSome = true

theorem resolve_delivered {env : Env} {clock jitter : ℚ} {v : Locals}
    {r : AttemptResult String}
    {outcome : Delivery} {delay : Option ℚ}
    (resolved : resolve env clock v r jitter = some (outcome, delay)) :
    decide (outcome.status = .delivered) = r.succeeded := by
  unfold resolve at resolved
  split at resolved
  · rename_i succeeded
    cases resolved
    exact succeeded.symm
  · rename_i failed
    have no : r.succeeded = false := Bool.not_eq_true _ ▸ failed
    rw [no]
    split at resolved <;> cases resolved <;> rfl

theorem Pc.unrecorded_unlock (v : Locals) (acks : Bool) : (Pc.unlock v acks).unrecorded = [] := by
  unfold Pc.unlock
  split <;> rfl

theorem Pc.unrecorded_afterOutcome (v : Locals) (slot : Uuid) :
    (Pc.afterOutcome v slot).unrecorded = [] := by
  unfold Pc.afterOutcome
  split <;> rfl

/-- An await finishes an attempt, records one, or does neither. -/
theorem Pc.step_recorded {env : Env} {clock : ℚ} {c : Choice} {shard messageId : Nat} {id : Uuid}
    {s s' : Store} {pc pc' : Pc} (h : pc.step env clock c shard messageId id s = some (s', pc'))
    (there : ∀ d e, pc.session = .gated d e → Attemptable s id d)
    (unchanged : ∀ v slot, pc = .refresh v slot → Unchanged s v.delivery) :
    pc.attempted c ++ pc.unrecorded = pc'.unrecorded ++ pc.recorded := by
  cases pc with
  | reloadDelivery v slot =>
    have found := there v.delivery v.endpoint rfl
    obtain ⟨row, same⟩ := Option.isSome_iff_exists.mp found.row
    simp only [Pc.step, same, if_neg found.undelivered] at h
    cases h
    rfl
  | reloadEndpoint v slot =>
    have found := there v.delivery v.endpoint rfl
    obtain ⟨row, same⟩ := Option.isSome_iff_exists.mp found.endpoint
    simp only [Pc.step, same] at h
    cases h
    rfl
  | loadEvent v slot =>
    have found := there v.delivery v.endpoint rfl
    obtain ⟨row, same⟩ := Option.isSome_iff_exists.mp found.event
    simp only [Pc.step, same] at h
    cases h
    rfl
  | receive v slot =>
    simp only [Pc.step] at h
    split at h
    · split at h
      · cases h
      · rename_i outcome delay resolved
        cases h
        simp only [Pc.attempted, Pc.unrecorded, Pc.recorded, resolve_delivered resolved]
    · cases h
  | refresh v slot =>
    simp only [Pc.step] at h
    split at h
    · cases h
    · rename_i row found
      cases h
      have same := unchanged v slot rfl row found
      simp only [Pc.attempted, Pc.unrecorded, Pc.recorded, List.nil_append, List.append_nil,
        decide_eq_decide.mpr same]
  | recordOutcome v slot time =>
    simp only [Pc.step] at h
    split at h
    · cases h
      rfl
    · cases h
      rw [unrecorded_afterOutcome]
      rfl
  | publishTrigger v slot event =>
    cases h
    rw [unrecorded_afterOutcome]
    rfl
  | releaseSlot v slot acks =>
    cases h
    rw [unrecorded_unlock]
    rfl
  | deferGated v dueAt =>
    cases h
    rw [unrecorded_unlock]
    rfl
  | commitOutcome v slot attempt outcome delay =>
    simp only [Pc.step] at h
    repeat' split at h
    all_goals
      cases h <;> rfl
  | close acks =>
    cases h
    cases acks <;> rfl
  | _ =>
    simp only [Pc.step] at h
    repeat' split at h
    all_goals
      cases h <;> rfl

end Worker

def marks (w messageId : Nat) (answers : List (Uuid × Bool)) : List Mark :=
  answers.map (fun a => ⟨w, messageId, a.1, a.2⟩)

theorem marks_append (w messageId : Nat) (first second : List (Uuid × Bool)) :
    marks w messageId (first ++ second) = marks w messageId first ++ marks w messageId second :=
  List.map_append

namespace World

variable {env : Env} {l : Label} {x y : World}

/-- The attempt that the worker has had answered and not yet recorded. -/
def unrecorded (x : World) (w : Nat) : List Mark :=
  (x.workers w).current.elim [] (fun h => marks w h.messageId h.pc.unrecorded)

def attempted (x : World) : Label → List Mark
  | .work w c => (x.workers w).current.elim [] (fun h => marks w h.messageId (h.pc.attempted c))
  | _ => []

def recorded (x : World) : Label → List Mark
  | .work w _ => (x.workers w).current.elim [] (fun h => marks w h.messageId h.pc.recorded)
  | _ => []

/-- No call of a worker raises. -/
def Returns (l : Label) : Prop := ∀ w, l ≠ .raise w

/-- Since the worker committed the outcome, no other process has made the row
delivered, or delivered no longer, when the worker refreshes it. -/
def RefreshesOwn (x : World) (l : Label) : Prop :=
  ∀ w c h v slot, l = .work w c → x.Handles w h → h.pc = .refresh v slot →
    Unchanged x.store v.delivery

theorem goto_unrecorded (w : Nat) (c : Consumer) (h : Handling) (pc : Pc) :
    (Consumer.goto c h pc).current.elim [] (fun h => marks w h.messageId h.pc.unrecorded) =
      marks w h.messageId pc.unrecorded := by
  cases pc <;> rfl

/-- A worker that does not step keeps what it has to record, unless it crashes. -/
theorem Change.unrecorded (change : Change env x y l) (returns : Returns l) {w : Nat}
    (resting : ∀ c, l ≠ .work w c) (alive : (y.workers w).crashed = false)
    (crashes : l = .crash w → (y.workers w).crashed = true) :
    y.unrecorded w = x.unrecorded w ∧ (x.workers w).crashed = false := by
  have others : ∀ {w₀ : Nat} {c : Consumer}, y.workers = Function.update x.workers w₀ c →
      (w = w₀ → c.crashed = (x.workers w).crashed ∧
        c.current.elim [] (fun h => marks w h.messageId h.pc.unrecorded) = x.unrecorded w) →
      y.unrecorded w = x.unrecorded w ∧ (x.workers w).crashed = false := by
    intro w₀ c workers mine
    unfold World.unrecorded
    by_cases same : w = w₀
    · subst same
      obtain ⟨crashed, kept⟩ := mine rfl
      rw [workers, Function.update_self] at alive ⊢
      exact ⟨kept, crashed ▸ alive⟩
    · rw [workers, Function.update_of_ne same] at alive ⊢
      exact ⟨rfl, alive⟩
  cases change with
  | admin _ _ _ _ _ workers _ | arrive _ _ workers _ _ | schedule _ _ workers _
  | serve _ _ _ workers _ | fail _ _ _ _ workers _ =>
    unfold World.unrecorded
    rw [workers] at alive ⊢
    exact ⟨rfl, alive⟩
  | read _ _ _ _ workers _ | claim _ _ _ _ _ _ workers _ =>
    exact others workers (fun same => same ▸ ⟨rfl, rfl⟩)
  | @take w₀ id f rest _ _ free _ workers _ =>
    refine others workers (fun same => ?_)
    subst same
    refine ⟨rfl, ?_⟩
    unfold World.unrecorded
    rw [free]
    rfl
  | @work w₀ c _ _ _ _ _ _ workers _ =>
    exact others workers (fun same => absurd (congrArg (Label.work · c) same.symm) (resting c))
  | raise => exact absurd rfl (returns _)
  | @drop _ w₀ c label _ _ _ _ workers _ =>
    refine others workers (fun same => ?_)
    subst same
    rcases label with crash | raise
    · rw [crashes crash] at alive
      cases alive
    · exact absurd raise (returns w)

end World

/-- The pipeline with the answered attempts and the calls of `record_outcome`,
newest first. -/
structure Watch where
  world : World
  attempts : List Mark := []
  calls : List Mark := []

namespace Watch

open World

variable {env : Env} {l : Label} {a b : Watch}

def step (env : Env) (l : Label) (a : Watch) : Option Watch :=
  (World.step env l a.world).map (fun y =>
    { world := y
      attempts := a.world.attempted l ++ a.attempts
      calls := a.world.recorded l ++ a.calls })

def start (shardOf : Nat → Nat) : Watch := { world := initial shardOf }

def attemptsOf (a : Watch) (w : Nat) : List Mark := a.attempts.filter (fun m => m.worker = w)

def callsOf (a : Watch) (w : Nat) : List Mark := a.calls.filter (fun m => m.worker = w)

/-- One call for every attempt of the worker, in order and with its success; the
last attempt may still have to be recorded. -/
def Told (a : Watch) (w : Nat) : Prop := a.attemptsOf w = a.world.unrecorded w ++ a.callsOf w

structure Guard (a : Watch) (l : Label) : Prop where
  returns : Returns l
  own : RefreshesOwn a.world l

structure Seen (env : Env) (a : Watch) : Prop where
  inv : Consistent env a.world
  told : ∀ w, (a.world.workers w).crashed = false → a.Told w

theorem seen_start (env : Env) (shardOf : Nat → Nat) : Seen env (start shardOf) where
  inv := consistent_initial env shardOf
  told := fun _ _ => rfl

theorem filter_marks_self (w messageId : Nat) (answers : List (Uuid × Bool)) :
    (marks w messageId answers).filter (fun m => m.worker = w) = marks w messageId answers := by
  refine List.filter_eq_self.mpr (fun m listed => ?_)
  obtain ⟨a, _, rfl⟩ := List.mem_map.mp listed
  exact decide_eq_true rfl

theorem filter_marks_ne {w w' : Nat} (messageId : Nat) (answers : List (Uuid × Bool))
    (other : w' ≠ w) : (marks w' messageId answers).filter (fun m => m.worker = w) = [] := by
  refine List.filter_eq_nil_iff.mpr (fun m listed => ?_)
  obtain ⟨a, _, rfl⟩ := List.mem_map.mp listed
  exact fun same => other (of_decide_eq_true same)

/-- The rows that a session loaded are still there. -/
theorem attemptable (inv : Consistent env a.world) {w : Nat} {h : Handling}
    (handles : a.world.Handles w h) {d : Delivery} {e : Endpoint}
    (gated : h.pc.session = .gated d e) :
    Attemptable a.world.store h.fields.deliveryId d := by
  have sound := inv.sessions w h handles
  rw [gated] at sound
  obtain ⟨copies, fresh⟩ := sound
  have eventId : d.eventId = h.fields.eventId := congrArg Fields.eventId copies.fields
  have endpointId : d.endpointId = h.fields.endpointId := congrArg Fields.endpointId copies.fields
  obtain ⟨r, found, event, endpoint⟩ := (inv.known handles).row
  obtain ⟨⟨ev, present⟩, o, ordering⟩ := inv.core.rows r (Table.get_mem found)
  rw [Store.core_orderings] at ordering
  obtain ⟨e', row, _⟩ := Option.map_eq_some_iff.mp ordering
  refine ⟨Option.isSome_iff_exists.mpr ⟨r, found⟩, fun delivered => ?_, ?_, ?_⟩
  · exact fresh (delivered ▸ settled_delivered)
  · rw [endpointId, ← endpoint, row]
    rfl
  · rw [eventId, ← event]
    exact Option.isSome_iff_exists.mpr ⟨ev, present⟩

/-- A step of the worker itself. -/
theorem Seen.work (seen : Seen env a) {w : Nat} {c : Choice} {y : World}
    (own : RefreshesOwn a.world (.work w c)) (next : World.step env (.work w c) a.world = some y)
    (alive : (y.workers w).crashed = false) :
    Told ⟨y, a.world.attempted (.work w c) ++ a.attempts,
      a.world.recorded (.work w c) ++ a.calls⟩ w := by
  cases step_change next with
  | admin label => exact label.elim
  | drop label => rcases label with same | same <;> cases same
  | @work _ _ h pc _ handles stepped _ workers _ =>
    have books := Pc.step_recorded stepped (fun d e gated => attemptable seen.inv handles gated)
      (fun v slot refreshing => own w c h v slot rfl handles refreshing)
    have current : (a.world.workers w).current = some h := handles
    have before : (a.world.workers w).crashed = false := by
      rw [workers, Function.update_self, goto_crashed] at alive
      exact alive
    have told := seen.told w before
    have due : a.world.unrecorded w = marks w h.messageId h.pc.unrecorded := by
      rw [World.unrecorded, current]
      rfl
    have after : y.unrecorded w = marks w h.messageId pc.unrecorded := by
      rw [World.unrecorded, workers, Function.update_self]
      exact goto_unrecorded w _ h pc
    have attempted : a.world.attempted (.work w c) = marks w h.messageId (h.pc.attempted c) := by
      simp only [World.attempted, current]
      rfl
    have recorded : a.world.recorded (.work w c) = marks w h.messageId h.pc.recorded := by
      simp only [World.recorded, current]
      rfl
    unfold Told attemptsOf callsOf at told ⊢
    simp only [attempted, recorded, after, List.filter_append, filter_marks_self, told, due]
    have marked := congrArg (marks w h.messageId) books
    rw [marks_append, marks_append] at marked
    rw [← List.append_assoc, marked, List.append_assoc]

theorem Seen.step (seen : Seen env a) (guard : Guard a l) (stepped : step env l a = some b) :
    Seen env b := by
  obtain ⟨y, next, rfl⟩ := Option.map_eq_some_iff.mp stepped
  have change := step_change next
  refine ⟨seen.inv.step change, fun w alive => ?_⟩
  by_cases working : ∃ c, l = .work w c
  · obtain ⟨c, rfl⟩ := working
    exact seen.work guard.own next alive
  · have resting : ∀ c, l ≠ .work w c := fun c same => working ⟨c, same⟩
    have crashes : l = .crash w → (y.workers w).crashed = true := by
      rintro rfl
      cases next
      simp only [setWorker, Function.update_self]
    obtain ⟨kept, before⟩ := change.unrecorded guard.returns resting alive crashes
    -- what another worker finishes or records is not this worker's
    have foreign : (a.world.attempted l).filter (fun m => m.worker = w) = [] ∧
        (a.world.recorded l).filter (fun m => m.worker = w) = [] := by
      cases l with
      | work w' c =>
        have other : w' ≠ w := fun same => working ⟨c, congrArg (Label.work · c) same⟩
        simp only [World.attempted, World.recorded]
        cases (a.world.workers w').current with
        | none => exact ⟨rfl, rfl⟩
        | some h => exact ⟨filter_marks_ne _ _ other, filter_marks_ne _ _ other⟩
      | _ => exact ⟨rfl, rfl⟩
    have told := seen.told w before
    unfold Told attemptsOf callsOf at told ⊢
    simp only [List.filter_append, foreign.1, foreign.2, List.nil_append, kept]
    exact told

/-- If no row is made delivered, or delivered no longer, between the commit of an
outcome and the refresh that follows, each attempt is recorded once, by the worker
that made it, for the same entry and with its success. -/
theorem attempts_seen {shardOf : Nat → Nat}
    (run : Run (step env) Guard (start shardOf) a) (w : Nat)
    (alive : (a.world.workers w).crashed = false) : a.Told w := by
  have seen : Seen env a := run.invariant (seen_start env shardOf)
    (fun seen guard next => seen.step guard next)
  exact seen.told w alive

/-! Two attempts that are recorded as they were, and one that is not -/

def returns : Label → Bool
  | .raise _ => false
  | _ => true

theorem returns_sound (checked : returns l = true) : Returns l := by
  rintro w rfl
  cases checked

/-- The row that is refreshed still has the session's status. -/
def refreshed (s : Store) : Pc → Bool
  | .refresh v _ => decide ((s.db.delivery v.delivery.id).map Delivery.status =
      some v.delivery.status)
  | _ => true

theorem refreshed_sound {s : Store} {v : Locals} {slot : Uuid}
    (checked : refreshed s (.refresh v slot) = true) : Unchanged s v.delivery := by
  intro row found
  have same := of_decide_eq_true checked
  rw [found] at same
  rw [Option.some.inj same]

def guards (a : Watch) (l : Label) : Bool :=
  returns l && match l with
    | .work w _ => (a.world.workers w).current.elim true (fun h => refreshed a.world.store h.pc)
    | _ => true

theorem guards_sound (a : Watch) (l : Label) (checked : guards a l = true) : Guard a l := by
  obtain ⟨returning, own⟩ := Bool.and_eq_true_iff.mp checked
  refine ⟨returns_sound returning, ?_⟩
  rintro w c h v slot rfl handles refreshing
  unfold Handles at handles
  simp only [handles, Option.elim_some, refreshing] at own
  exact refreshed_sound own

/-- A failed attempt, and one that succeeds, by another worker. -/
def retried : List Label :=
  ingested shop 10 11 ++ [.read 0, .take 0] ++ works 0 20 erring ++
    [.schedule 500 100, .read 1, .take 1] ++ works 1 16 succeeding

theorem attempts_seen_retried : ∃ a : Watch,
    Run (step headerless) Guard (start (fun _ => 3)) a ∧
      a.callsOf 0 = [⟨0, 0, 1, false⟩] ∧ a.callsOf 1 = [⟨1, 1, 1, true⟩] ∧ a.Told 0 ∧
        a.Told 1 := by
  have evaluates : (exec (step headerless) guards retried (start (fun _ => 3))).elim false
      (fun a => decide (a.callsOf 0 = [⟨0, 0, 1, false⟩] ∧
        a.callsOf 1 = [⟨1, 1, 1, true⟩] ∧
        (a.world.workers 0).crashed = false ∧ (a.world.workers 1).crashed = false)) = true := by
    decide +kernel
  obtain ⟨a, executed, passes⟩ := reached evaluates
  obtain ⟨first, second, alive, alive'⟩ := of_decide_eq_true passes
  have run : Run (step headerless) Guard (start (fun _ => 3)) a :=
    run_of_exec guards_sound executed
  exact ⟨a, run, first, second, attempts_seen run 0 alive, attempts_seen run 1 alive'⟩

/-- Workers 0 and 1 have loaded the same pending row. Worker 1 begins its attempt
after worker 0 has committed its success and before it refreshes the row. -/
def overtaken : List Label :=
  ingested shop 10 11 ++ [.read 0, .take 0] ++ works 0 10 succeeding ++
    [.tick 60, .claim 1 [0], .take 1] ++ works 1 10 succeeding ++ works 0 4 succeeding ++
    works 1 1 succeeding ++ works 0 5 succeeding

/-- The success of worker 0 is recorded as a failure. -/
theorem success_recorded_failed : ∃ a : Watch,
    Run (step headerless) (fun _ l => Returns l) (start (fun _ => 3)) a ∧
      (a.world.workers 0).crashed = false ∧ (a.world.workers 0).current.isNone = true ∧
      a.attemptsOf 0 = [⟨0, 0, 1, true⟩] ∧ a.callsOf 0 = [⟨0, 0, 1, false⟩] ∧
        ¬ a.Told 0 := by
  have evaluates : (exec (step headerless) (fun _ => returns) overtaken
      (start (fun _ => 3))).elim false
      (fun a => decide ((a.world.workers 0).crashed = false ∧
        (a.world.workers 0).current.isNone = true ∧ a.attemptsOf 0 = [⟨0, 0, 1, true⟩] ∧
        a.callsOf 0 = [⟨0, 0, 1, false⟩])) = true := by
    decide +kernel
  obtain ⟨a, executed, passes⟩ := reached evaluates
  obtain ⟨alive, rests, attempted, called⟩ := of_decide_eq_true passes
  have run : Run (step headerless) (fun _ l => Returns l) (start (fun _ => 3)) a :=
    run_of_exec (fun _ _ checked => returns_sound checked) executed
  refine ⟨a, run, alive, rests, attempted, called, fun told => ?_⟩
  have idle : a.world.unrecorded 0 = [] := by
    unfold World.unrecorded
    rw [Option.isNone_iff_eq_none.mp rests]
    rfl
  unfold Told at told
  rw [attempted, called, idle] at told
  cases told

end Watch

end Relay
