import Relay.Pipeline.Holding

/-!
# Executed schedules

A schedule that names finitely many workers and requests leaves all others as
they started, so guards over all of them can be checked by evaluation.
-/

namespace Relay.World

open Enqueue RetryQueue Worker Api Transition

/-- No header of an example response is a number. -/
def headerless : Env where
  float := fun _ => none

/-- The same await-by-await choice, `n` times. -/
def works (w n : Nat) (c : Choice) : List Label := List.replicate n (.work w c)

def serves (r n : Nat) : List Label := List.replicate n (.serve r [])

/-- Request `r` ingests an event that fans out to one endpoint. -/
def ingest (r : Nat) (e : Endpoint) (eventId deliveryId : Uuid) : List Label :=
  [.arrive r (.ingest e.tenantId ⟨"order.created", "payload", none⟩),
    .serve r [eventId, deliveryId]] ++ serves r (if e.ordering = .ordered then 4 else 3)

def ingested (e : Endpoint) (eventId deliveryId : Uuid) : List Label :=
  [.createTenant { id := e.tenantId }, .createEndpoint e] ++ ingest 0 e eventId deliveryId

def shop : Endpoint := { id := 1, tenantId := 2 }

def queueShop : Endpoint := { id := 1, tenantId := 2, ordering := .ordered }

def answered : AttemptResult String := ⟨0, some 200, none, none, none⟩

def rejected : AttemptResult String := ⟨0, some 400, some "http_4xx", none, none⟩

def erring : Choice := ⟨7, ⟨0, some 500, some "http_5xx", none, none⟩, 1⟩

def succeeding : Choice := ⟨8, answered, 1⟩

def Within (workers requests : Nat) : Label → Bool
  | .read w | .claim w _ | .take w | .work w _ | .raise w | .crash w => decide (w < workers)
  | .arrive r _ | .serve r _ | .fail r => decide (r < requests)
  | _ => true

/-- From these numbers on, workers and requests are as in the initial state. -/
structure Untouched (workers requests : Nat) (x : World) : Prop where
  workers : ∀ w, workers ≤ w → (x.workers w).held = []
  requests : ∀ r, requests ≤ r → x.requests r = none

variable {env : Env} {l : Label} {x y : World} {workers requests : Nat}

theorem untouched_initial (workers requests : Nat) (shardOf : Nat → Nat) :
    Untouched workers requests (initial shardOf) := ⟨fun _ _ => rfl, fun _ _ => rfl⟩

theorem Untouched.handles (untouched : Untouched workers requests x) {w : Nat} {h : Handling}
    (handles : x.Handles w h) : w < workers := by
  by_contra outside
  have none_held := untouched.workers w (Nat.le_of_not_lt outside)
  unfold Handles at handles
  simp [Consumer.held, handles] at none_held

theorem Untouched.running (untouched : Untouched workers requests x) {r : Nat} {q : Request}
    (running : x.requests r = some q) : r < requests := by
  by_contra outside
  rw [untouched.requests r (Nat.le_of_not_lt outside)] at running
  cases running

theorem Untouched.step (untouched : Untouched workers requests x)
    (within : Within workers requests l = true) (change : Change env x y l) :
    Untouched workers requests y := by
  have workerKept : ∀ {w₀ : Nat} {c : Consumer}, w₀ < workers →
      y.workers = Function.update x.workers w₀ c →
      ∀ w, workers ≤ w → (y.workers w).held = [] := by
    intro w₀ c inside same w outside
    have ne : w ≠ w₀ := by omega
    rw [same, Function.update_of_ne ne]
    exact untouched.workers w outside
  have requestKept : ∀ {r₀ : Nat} {q : Request}, r₀ < requests →
      y.requests = Function.update x.requests r₀ (some q) →
      ∀ r, requests ≤ r → y.requests r = none := by
    intro r₀ q inside same r outside
    have ne : r ≠ r₀ := by omega
    rw [same, Function.update_of_ne ne]
    exact untouched.requests r outside
  cases change with
  | admin _ _ _ _ _ same same' | schedule _ _ same same' =>
    exact ⟨same ▸ untouched.workers, same' ▸ untouched.requests⟩
  | arrive _ _ same _ same' | serve _ _ _ same same' | fail _ _ _ _ same same' =>
    exact ⟨same ▸ untouched.workers, requestKept (by simpa [Within] using within) same'⟩
  | read _ _ _ _ same same' | claim _ _ _ _ _ _ same same' | take _ _ _ _ same same'
  | work _ _ _ _ same same' | raise _ _ _ same same' =>
    exact ⟨workerKept (by simpa [Within] using within) same, same' ▸ untouched.requests⟩
  | drop label _ _ _ _ same same' =>
    refine ⟨workerKept ?_ same, same' ▸ untouched.requests⟩
    rcases label with rfl | rfl <;> simpa [Within] using within

/-- No handling is under way. -/
def resting (n : Nat) (x : World) : Bool :=
  (List.range n).all (fun w => (x.workers w).current.isNone)

theorem resting_sound {n m : Nat} (untouched : Untouched n m x) (rests : resting n x = true)
    (w : Nat) (h : Handling) : ¬ x.Handles w h := by
  intro handles
  have mine := List.all_eq_true.mp rests w (List.mem_range.mpr (untouched.handles handles))
  unfold Handles at handles
  simp [handles] at mine

/-- The check of `ClaimsReleased` for the first `n` workers. -/
def releasedClaims (n : Nat) (x : World) : Label → Bool
  | .claim w ids => ids.all (fun id => (List.range n).all (fun w' =>
      decide (x.shard w' = x.shard w → id ∉ (x.held w').map Prod.fst)))
  | _ => true

theorem releasedClaims_sound {n m : Nat} (untouched : Untouched n m x)
    (checked : releasedClaims n x l = true) : ClaimsReleased x l := by
  rintro w ids rfl id listed w' same holds
  have inside : w' < n := by
    by_contra outside
    unfold Holds at holds
    rw [show x.held w' = [] from untouched.workers w' (Nat.le_of_not_lt outside)] at holds
    exact List.not_mem_nil holds
  have mine := List.all_eq_true.mp (List.all_eq_true.mp checked id listed) w'
    (List.mem_range.mpr inside)
  exact of_decide_eq_true mine same holds

/-- A schedule that evaluates is a run under every guard that its check implies. -/
theorem schedule_run {admits : World → Label → Bool} {guard : World → Label → Prop}
    {labels : List Label} (start : Untouched workers requests x)
    (within : labels.all (Within workers requests) = true)
    (sound : ∀ {x l}, Untouched workers requests x → Within workers requests l = true →
      admits x l = true → guard x l)
    (done : exec (World.step env) admits labels x = some y) :
    Run (World.step env) guard x y ∧ Untouched workers requests y := by
  have inside : ∀ l ∈ labels, Within workers requests l = true := List.all_eq_true.mp within
  exact exec_run start
    (fun l h _ _ untouched next => untouched.step (inside l h) (step_change next))
    (fun l h _ untouched admitted => sound untouched (inside l h) admitted) done

/-- Without a guard every schedule that evaluates is a run. -/
theorem free_run {labels : List Label} (done :
    exec (World.step env) (fun _ _ => true) labels x = some y) :
    Run (World.step env) (fun _ _ => True) x y :=
  (exec_run (I := fun _ => True) trivial (fun _ _ _ _ _ _ => trivial)
    (fun _ _ _ _ _ => trivial) done).1

end Relay.World
