import Relay.Lib.Fifo
import Relay.Pipeline.Lists
import Relay.Pipeline.Schedule

/-!
# Strict order of ordered endpoints

The list of an endpoint agrees with its pushes on all deliveries that were never
settled, since only settled deliveries are popped. A worker that finds its
delivery at the head, or the list empty, may therefore send: everything pushed
earlier has been settled. The locks play no part in this.
-/

namespace Relay

open Enqueue RetryQueue Worker Api Transition

/-- Everything that was pushed before this delivery has been settled. -/
def Cleared (log : List LogEntry) (endpointId id : Uuid) : Prop :=
  ∀ a, a ≠ id → Fifo.Before (pushes endpointId log) a id → settledIn log a = true

theorem Cleared.mono {log more : List LogEntry} {endpointId id : Uuid}
    (cleared : Cleared log endpointId id) (pushed : id ∈ pushes endpointId log) :
    Cleared (more ++ log) endpointId id := by
  intro a ne before
  rw [pushes_append] at before
  exact settledIn_mono (cleared a ne (before.of_append pushed ne))

/-- Past the look at the head of the list, with the attempt still to come. -/
def Worker.Session.Turn (d : Delivery) (e : Endpoint) : Session → Prop
  | .gated d' e' | .sending d' e' => d' = d ∧ e' = e
  | _ => False

namespace World

variable {env : Env} {l : Label} {x y : World}

/-- Whoever is about to attempt a first time has its turn. -/
def InTurn (x : World) : Prop :=
  ∀ w h d e, x.Handles w h → h.pc.session.Turn d e → e.ordering = .ordered →
    x.core.Attempted d.id ∨ Cleared x.core.log e.id d.id

/-- Every first attempt had its turn. -/
def AttemptsInTurn (x : World) : Prop :=
  ∀ since time before id, x.core.log = since ++ .attempt id time :: before →
    (∀ t, .attempt id t ∉ before) →
    ∀ row, x.core.delivery id = some row → x.core.orderings row.endpointId = some .ordered →
      id ∈ pushes row.endpointId before ∧ Cleared before row.endpointId id

structure KeepsOrder (x : World) : Prop where
  inOrder : ∀ endpointId, Fifo.InOrder (settledIn x.core.log)
    (pushes endpointId x.core.log) (x.core.ordered endpointId)
  rows : ∀ endpointId id, id ∈ pushes endpointId x.core.log →
    ∃ row, x.core.delivery id = some row ∧ row.endpointId = endpointId
  inTurn : InTurn x
  attempts : AttemptsInTurn x

theorem keepsOrder_initial (shardOf : Nat → Nat) : KeepsOrder (initial shardOf) where
  inOrder := fun _ => Fifo.inOrder_nil
  rows := fun _ _ h => absurd h List.not_mem_nil
  inTurn := fun _ _ _ _ handles => by cases handles
  attempts := fun since _ _ _ log => by cases since <;> cases log

/-- The handled delivery of an ordered endpoint was pushed. -/
theorem Consistent.pushed (inv : Consistent env x) {w : Nat} {h : Handling}
    (handles : x.Handles w h) {d : Delivery} {e : Endpoint}
    (copies : Copies x.core h.fields d e) (ordered : e.ordering = .ordered) :
    d.id ∈ pushes e.id x.core.log := by
  have key : e.id = h.fields.endpointId := by
    rw [copies.key]
    exact congrArg Fields.endpointId copies.fields
  have own : d.id = h.fields.deliveryId := congrArg Fields.deliveryId copies.fields
  have ordering := copies.ordering
  rw [key, ordered] at ordering
  rw [mem_pushes, key, own]
  exact (inv.known handles).pushed_of_ordered ordering

theorem Turn.copies {q : Session} {c : Core} {f : Fields} {d : Delivery} {e : Endpoint}
    (turn : q.Turn d e) (sound : q.Sound c f) : Copies c f d e := by
  cases q with
  | gated | sending =>
    obtain ⟨rfl, rfl⟩ := turn
    exact sound.1
  | _ => exact turn.elim

theorem KeepsOrder.inOrder_step (order : KeepsOrder x) (inv : Consistent env x)
    (change : Change env x y l) (endpointId : Uuid) :
    Fifo.InOrder (settledIn y.core.log) (pushes endpointId y.core.log)
      (y.core.ordered endpointId) := by
  have old := order.inOrder endpointId
  cases change.logs with
  | @quiet more ordered log only =>
    rw [log, ordered, pushes_append, pushes_quiet only, List.append_nil]
    exact old.dismiss (fun _ => settledIn_mono)
  | attempt _ _ _ ordered log =>
    rw [log, ordered]
    exact old.dismiss (fun _ settled => List.singleton_append ▸ settledIn_mono settled)
  | @push _ _ _ _ _ endpointId' id _ _ _ ordered log =>
    have later : ∀ a, settledIn x.core.log a = true →
        settledIn ([.rpush endpointId' id] ++ x.core.log) a = true := fun _ => settledIn_mono
    have kept := old.dismiss later
    rw [log, ordered]
    by_cases mine : endpointId = endpointId'
    · subst mine
      rw [Function.update_self]
      have pushed : pushes endpointId (.rpush endpointId id :: x.core.log) =
          pushes endpointId x.core.log ++ [id] := by
        simp [pushes]
      exact pushed ▸ kept.push id
    · rw [Function.update_of_ne mine]
      have elsewhere : pushes endpointId (.rpush endpointId' id :: x.core.log) =
          pushes endpointId x.core.log := by
        simp [pushes, Ne.symm mine]
      exact elsewhere ▸ kept
  | @pop _ _ h d e _ handles session ordered log =>
    rw [log, ordered]
    by_cases mine : endpointId = e.id
    · subst mine
      rw [Function.update_self]
      have sound := inv.sessions _ _ handles
      rw [session] at sound
      exact old.remove (settledIn_iff.mpr sound.2.2.2)
    · rwa [Function.update_of_ne mine]

theorem KeepsOrder.rows_step (order : KeepsOrder x) (inv : Consistent env x)
    (change : Change env x y l)
    {endpointId id : Uuid} (pushed : id ∈ pushes endpointId y.core.log) :
    ∃ row, y.core.delivery id = some row ∧ row.endpointId = endpointId := by
  have kept : (∃ row, x.core.delivery id = some row ∧ row.endpointId = endpointId) →
      ∃ row, y.core.delivery id = some row ∧ row.endpointId = endpointId := by
    rintro ⟨row, found, same⟩
    obtain ⟨row', found', _, endpoint⟩ := change.extends.rows found
    exact ⟨row', found', endpoint.trans same⟩
  have old : LogEntry.rpush endpointId id ∈ x.core.log →
      ∃ row, y.core.delivery id = some row ∧ row.endpointId = endpointId :=
    fun logged => kept (order.rows endpointId id (mem_pushes.mpr logged))
  rw [mem_pushes] at pushed
  cases change.logs with
  | quiet _ log only =>
    rw [log] at pushed
    exact (List.mem_append.mp pushed).elim (fun new => (only _ new).elim) old
  | attempt _ _ _ _ log =>
    rw [log] at pushed
    rcases List.mem_cons.mp pushed with impossible | before
    · cases impossible
    · exact old before
  | @push _ _ q _ _ _ _ _ running job _ log =>
    rw [log] at pushed
    rcases List.mem_cons.mp pushed with same | before
    · cases same
      have sound := inv.jobs _ q running
      rw [job] at sound
      exact kept sound.1
    · exact old before
  | pop _ _ _ _ log => exact old (log ▸ pushed)

/-- A worker gets its turn only where everything pushed earlier is settled. -/
theorem KeepsOrder.inTurn_step (order : KeepsOrder x) (inv : Consistent env x)
    (change : Change env x y l) : InTurn y := by
  intro w h d e handles turn ordered
  have mono : ∀ {h₀ : Handling} {d₀ : Delivery}, x.Handles w h₀ → d₀.id = d.id →
      h₀.pc.session.Turn d₀ e → y.core.Attempted d.id ∨ Cleared y.core.log e.id d.id := by
    intro h₀ d₀ old same turn
    have copies := Turn.copies turn (inv.sessions w h₀ old)
    rcases order.inTurn w h₀ d₀ e old turn ordered with attempted | cleared
    · exact Or.inl (same ▸ attempted.mono change.extends)
    · obtain ⟨more, log⟩ := change.extends.log
      rw [← log, ← same]
      exact Or.inr (cleared.mono (inv.pushed old copies ordered))
  cases change.arises handles with
  | same old _ => exact mono old rfl turn
  | begun _ _ begun =>
    subst begun
    exact turn.elim
  | raised _ _ session _ =>
    rw [session] at turn
    exact turn.elim
  | @moved _ old _ handled _ move kept =>
    have sound := inv.sessions w old handled
    generalize before : old.pc.session = q at move sound
    generalize core : y.core = c at move
    generalize h.pc.session = q' at move turn
    cases move with
    | stay => exact core ▸ mono handled rfl (before ▸ turn)
    | @gate d' e' row unordered =>
      obtain ⟨rfl, rfl⟩ := turn
      exact absurd ordered unordered
    | @commitDelivering d' row e' found =>
      obtain ⟨rfl, rfl⟩ := turn
      have same : old.pc.session.Turn d' e' := before ▸ ⟨rfl, rfl⟩
      exact core ▸ @mono _ d' handled rfl same
    | @pass d' e' head =>
      obtain ⟨rfl, rfl⟩ := turn
      by_cases attempted : x.core.Attempted d'.id
      · exact Or.inl attempted
      · refine Or.inr (fun a ne first => ?_)
        have waits : settledIn x.core.log d'.id = false := by
          rw [Bool.eq_false_iff]
          exact fun settled => attempted (inv.core.everSettled _ (settledIn_iff.mp settled))
        exact (order.inOrder e'.id).head head waits first ne
    | _ => exact turn.elim

theorem KeepsOrder.attempts_step (order : KeepsOrder x) (inv : Consistent env x)
    (change : Change env x y l) : AttemptsInTurn y := by
  -- an attempt of the past had its turn then
  have old : ∀ since time before id, x.core.log = since ++ .attempt id time :: before →
      (∀ t, .attempt id t ∉ before) →
      ∀ row, y.core.delivery id = some row → y.core.orderings row.endpointId = some .ordered →
        id ∈ pushes row.endpointId before ∧ Cleared before row.endpointId id := by
    intro since time before id log first row found ordered
    have logged : LogEntry.attempt id time ∈ x.core.log :=
      log ▸ List.mem_append_right _ List.mem_cons_self
    obtain ⟨f, rfl, known⟩ := inv.core.attempted id ⟨time, logged⟩
    obtain ⟨r, present, _, _⟩ := known.row
    obtain ⟨r', found', _, endpoint⟩ := change.extends.rows present
    rw [found] at found'
    cases found'
    obtain ⟨o, ordering⟩ := (inv.core.rows r (Table.get_mem present)).2
    rw [endpoint] at ordered ⊢
    have same := (change.extends.orderings ordering).symm.trans ordered
    cases same
    exact order.attempts since time before _ log first r present ordering
  have prefixed : ∀ {more : List LogEntry}, y.core.log = more ++ x.core.log →
      (∀ id t, LogEntry.attempt id t ∉ more) → AttemptsInTurn y := by
    intro more log none_new since time before id split first
    rw [log] at split
    rcases List.append_eq_append_iff.mp split with ⟨rest, _, later⟩ | ⟨rest, rfl, earlier⟩
    · exact old rest time before id later first
    · cases rest with
      | nil => exact old [] time before id (by simpa using earlier.symm) first
      | cons a tail =>
        obtain ⟨rfl, _⟩ := List.cons.inj earlier
        exact absurd (List.mem_append_right _ List.mem_cons_self) (none_new id time)
  cases change.logs with
  | quiet _ log only => exact prefixed log (fun id t listed => only _ listed)
  | push _ _ _ _ log =>
    exact prefixed (log.trans List.singleton_append.symm)
      (fun _ _ listed => by cases List.mem_singleton.mp listed)
  | pop _ _ _ _ log =>
    exact prefixed (log.trans (List.nil_append _).symm) (fun _ _ => List.not_mem_nil)
  | @attempt w c h d e _ handles session _ log =>
    intro since time before id split first row found ordered
    rw [log] at split
    cases since with
    | cons a since => exact old since time before id (List.cons.inj split).2 first row found ordered
    | nil =>
      obtain ⟨head, rfl⟩ := List.cons.inj split
      cases head
      have sound := inv.sessions w h handles
      rw [session] at sound
      have copies := sound.1.mono change.extends
      have same : row.endpointId = e.id := by
        have own : d.id = h.fields.deliveryId := congrArg Fields.deliveryId copies.fields
        rw [own] at found
        have known : y.core.Known h.fields := (inv.known handles).mono change.extends
        have fields := known.fields_eq found
        exact (congrArg Fields.endpointId (fields.trans copies.fields.symm)).trans copies.key.symm
      rw [same] at ordered ⊢
      have mine : e.ordering = .ordered :=
        Option.some.inj (copies.ordering.symm.trans ordered)
      refine ⟨inv.pushed handles sound.1 mine, ?_⟩
      rcases order.inTurn w h d e handles (session ▸ ⟨rfl, rfl⟩) mine with attempted | cleared
      · obtain ⟨t, logged⟩ := attempted
        exact absurd logged (first t)
      · exact cleared

theorem KeepsOrder.step (order : KeepsOrder x) (inv : Consistent env x)
    (change : Change env x y l) : KeepsOrder y where
  inOrder := order.inOrder_step inv change
  rows := fun _ _ => order.rows_step inv change
  inTurn := order.inTurn_step inv change
  attempts := order.attempts_step inv change

theorem keepsOrder_run {guard : World → Label → Prop} {shardOf : Nat → Nat}
    (run : Run (World.step env) guard (initial shardOf) x) : KeepsOrder x :=
  run.invariant_under (I := Consistent env) (consistent_initial env shardOf)
    (keepsOrder_initial shardOf) (fun inv _ next => inv.step (step_change next))
    (fun inv order _ next => order.step inv (step_change next))

/-- In every run: when a delivery of an ordered endpoint was first attempted, the
row of every delivery pushed before it had been delivered or dead. -/
theorem strict_fifo {guard : World → Label → Prop} {shardOf : Nat → Nat} {e : Endpoint}
    {id₁ id₂ : Uuid} {since before : List LogEntry} {time : ℚ}
    (run : Run (World.step env) guard (initial shardOf) x)
    (endpoint : x.store.db.endpoint e.id = some e) (ordered : e.ordering = .ordered)
    (distinct : id₁ ≠ id₂) (pushed : Fifo.Before (pushes e.id x.store.log) id₁ id₂)
    (attempted : x.store.log = since ++ .attempt id₂ time :: before)
    (first : ∀ t, .attempt id₂ t ∉ before) :
    ∃ stage row, .committed stage row ∈ before ∧ row.id = id₁ ∧
      (row.status = .delivered ∨ row.status = .dead) := by
  have order := keepsOrder_run run
  obtain ⟨row, found, same⟩ := order.rows e.id id₂ pushed.mem
  have ordering : x.core.orderings row.endpointId = some .ordered := by
    rw [same, Store.core_orderings, endpoint, Option.map_some, ordered]
  obtain ⟨listed, cleared⟩ :=
    order.attempts since time before id₂ attempted first row found ordering
  rw [same] at listed cleared
  have log : pushes e.id x.store.log = pushes e.id before ++ pushes e.id
      (since ++ [.attempt id₂ time]) := by
    rw [attempted, ← pushes_append, List.append_assoc]
    rfl
  rw [log] at pushed
  exact settledIn_iff.mp (cleared id₁ distinct (pushed.of_append listed distinct))

/-! Two deliveries of one endpoint -/

/-- The second delivery is attempted after the first one is done. -/
def oneAfterTheOther : List Label :=
  ingested queueShop 10 11 ++ ingest 1 queueShop 12 13 ++ [.read 0, .take 0] ++
    works 0 23 ⟨7, answered, 1⟩ ++ [.read 0, .take 0] ++ works 0 14 ⟨7, answered, 1⟩

def attemptOf (id : Uuid) : LogEntry → Bool
  | .attempt d _ => decide (d = id)
  | _ => false

theorem strict_fifo_two : ∃ (x : World) (since before : List LogEntry),
    Run (World.step headerless) (fun _ _ => True) (initial (fun _ => 3)) x ∧
      x.store.log = since ++ .attempt 13 0 :: before ∧
      ∃ stage row, .committed stage row ∈ before ∧ row.id = 11 ∧
        (row.status = .delivered ∨ row.status = .dead) := by
  have evaluates : (exec (World.step headerless) (fun _ _ => true) oneAfterTheOther
      (initial (fun _ => 3))).elim false (fun x =>
        decide (x.store.log.head? = some (.attempt 13 0) ∧ pushes 1 x.store.log = [11, 13] ∧
          x.store.log.tail.all (fun l => !attemptOf 13 l) = true ∧
          x.store.db.endpoint 1 = some queueShop)) = true := by
    decide +kernel
  obtain ⟨x, executed, passes⟩ := reached evaluates
  obtain ⟨head, pushed, fresh, endpoint⟩ := of_decide_eq_true passes
  have log : x.store.log = [] ++ .attempt 13 0 :: x.store.log.tail := by
    cases split : x.store.log with
    | nil => rw [split] at head; cases head
    | cons a rest => rw [split] at head; cases head; rfl
  have before : Fifo.Before (pushes queueShop.id x.store.log) 11 13 :=
    ⟨[], [13], pushed, List.not_mem_nil, List.mem_cons_self⟩
  have first : ∀ t, LogEntry.attempt 13 t ∉ x.store.log.tail := by
    intro t listed
    have none := List.all_eq_true.mp fresh _ listed
    simp [attemptOf] at none
  exact ⟨x, [], x.store.log.tail, free_run executed, log,
    strict_fifo (free_run executed) endpoint rfl (by decide) before log first⟩

end World

end Relay
