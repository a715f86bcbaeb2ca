import Relay.Pipeline.Schedule
import Relay.Pipeline.UnderWay

/-!
# A paused endpoint is left alone

While an endpoint is not active, only the workers that had already loaded its
row attempt its deliveries, and each of them once.
-/

namespace Relay

open Enqueue RetryQueue Worker Api Transition

/-- Past the check of the endpoint and before the attempt. -/
def Worker.Session.approaching : Session → Option Endpoint
  | .queueing _ e | .gated _ e | .sending _ e => some e
  | _ => none

/-- The way to an attempt begins with an active row. -/
theorem Worker.Pc.step_approaching {env : Env} {clock : ℚ} {c : Choice} {shard messageId : Nat}
    {id : Uuid} {s s' : Store} {pc pc' : Pc} {e : Endpoint}
    (h : pc.step env clock c shard messageId id s = some (s', pc'))
    (now : pc'.session.approaching = some e) :
    (pc.session.approaching = some e ∧ ∀ d, pc.session ≠ .sending d e) ∨
      (s.db.endpoint e.id = some e ∧ e.status = .active) := by
  cases pc with
  | loadEndpoint time d =>
    right
    simp only [Pc.step] at h
    split at h
    · cases h
      cases now
    · rename_i row found
      split at h
      · cases h
        cases now
      · rename_i active
        split at h <;> cases h <;> cases now
        · exact ⟨Db.endpoint_id found ▸ found, not_not.mp active⟩
        · exact ⟨Db.endpoint_id found ▸ found, not_not.mp active⟩
  | send v slot =>
    cases h
    cases now
  | _ =>
    left
    have move := Pc.step_move h
    generalize s'.core = c' at move
    generalize pc'.session = q' at move now
    simp only [Pc.session] at move ⊢
    cases move <;> first
      | exact ⟨now, fun _ same => Session.noConfusion same⟩
      | cases now

namespace World

variable {env : Env} {l : Label} {x y : World} {endpointId : Uuid}

/-- The worker may still attempt a delivery of the endpoint. -/
def Approaches (x : World) (endpointId : Uuid) (w : Nat) : Prop :=
  ∃ h e, x.Handles w h ∧ h.pc.session.approaching = some e ∧ e.id = endpointId

/-- The row is there, and not active. -/
def Rests (x : World) (endpointId : Uuid) : Prop :=
  ∃ e, x.store.db.endpoint endpointId = some e ∧ e.status ≠ .active

/-- No PATCH sets the endpoint to active. -/
def LeftAlone (endpointId : Uuid) (_ : World) (l : Label) : Prop := ¬ l.Wakes endpointId

theorem Rests.step (rests : x.Rests endpointId) (alone : LeftAlone endpointId x l)
    (next : World.step env l x = some y) : y.Rests endpointId := by
  obtain ⟨e, row, inactive⟩ := rests
  obtain ⟨e', row', kept⟩ := step_keeps next endpointId e row
  exact ⟨e', row', fun active => alone (kept.rests inactive active)⟩

theorem Approaches.before (change : Change env x y l) {w : Nat}
    (approaches : y.Approaches endpointId w) :
    x.Approaches endpointId w ∨ ∃ e, x.store.db.endpoint endpointId = some e ∧
      e.status = .active := by
  obtain ⟨h, e, handles, on, rfl⟩ := approaches
  cases change.arises handles with
  | same old _ => exact Or.inl ⟨h, e, old, on, rfl⟩
  | begun _ _ begun =>
    rw [begun] at on
    cases on
  | raised _ _ leaving _ =>
    rw [leaving] at on
    cases on
  | @moved _ old _ handled step _ _ =>
    rcases Pc.step_approaching step on with before | row
    · exact Or.inl ⟨old, e, handled, before.1, rfl⟩
    · exact Or.inr ⟨e, row⟩

/-- Since the endpoint rests, the attempts made and the workers still on their
way to one are no more than those at the start. -/
structure Spent (endpointId : Uuid) (bound : Nat) (x : World) : Prop where
  rests : x.Rests endpointId
  left : Limited (fun x => x.Approaches endpointId) (fun x => x.attemptsTo endpointId) bound x

theorem Spent.step {bound : Nat} (inv : Consistent env x) (spent : Spent endpointId bound x)
    (alone : LeftAlone endpointId x l) (next : World.step env l x = some y) :
    Spent endpointId bound y := by
  have change := step_change next
  refine ⟨spent.rests.step alone next, spent.left.step_attempts inv change ?_ ?_⟩
  · intro w approaches
    rcases approaches.before change with old | ⟨e, row, active⟩
    · exact old
    · obtain ⟨e', row', inactive⟩ := spent.rests
      rw [row] at row'
      cases row'
      exact absurd active inactive
  · rintro w c label ⟨h, d, e, handles, sends, mine⟩
    refine ⟨⟨h, e, handles, by rw [sends]; rfl, mine⟩, ?_⟩
    rintro ⟨h', e', handles', on, _⟩
    rw [not_handles_sent change label handles sends handles'] at on
    cases on

/-- From any reachable state in which an endpoint is not active, and for as long as
no one sets it to active, its deliveries are attempted at most once by each of the
workers that had already passed the check. -/
theorem paused_left_alone {guard : World → Label → Prop} {shardOf : Nat → Nat}
    {ws : Finset Nat}
    (start : Run (World.step env) guard (initial shardOf) x) (rests : x.Rests endpointId)
    (under_way : ∀ w, x.Approaches endpointId w → w ∈ ws)
    (run : Run (World.step env) (LeftAlone endpointId) x y) :
    y.Rests endpointId ∧ y.attemptsTo endpointId ≤ x.attemptsTo endpointId + ws.card := by
  have spent : Spent endpointId (x.attemptsTo endpointId + ws.card) y :=
    run.invariant_under (I := Consistent env) (consistent_run start)
      ⟨rests, ws, under_way, Nat.le_refl _⟩ (fun inv _ next => inv.step (step_change next))
      (fun inv spent alone next => spent.step inv alone next)
  exact ⟨spent.rests, spent.left.attempts_le⟩

/-! A shop that is paused under a request -/

/-- Of two deliveries, the worker has passed the check for the first one. -/
def pausedLate : List Label :=
  ingested shop 10 30 ++ ingest 1 shop 11 31 ++ [.read 0, .take 0] ++ works 0 4 succeeding ++
    [.patchEndpoint 1 none (some .paused) none]

/-- It attempts the first delivery and drops the second. -/
def afterwards : List Label :=
  works 0 15 succeeding ++ [.read 0, .take 0] ++ works 0 4 succeeding

def unpatched (_ : World) : Label → Bool
  | .patchEndpoint _ _ _ _ => false
  | _ => true

theorem unpatched_sound (checked : unpatched x l = true) : LeftAlone endpointId x l := by
  rintro ⟨url, eventTypes, rfl⟩
  cases checked

theorem paused_left_alone_late : ∃ x y : World,
    Run (World.step headerless) (fun _ _ => True) (initial (fun _ => 3)) x ∧
      Run (World.step headerless) (LeftAlone 1) x y ∧ x.attemptsTo 1 = 0 ∧
      y.attemptsTo 1 = 1 ∧ y.Rests 1 ∧ y.attemptsTo 1 ≤ x.attemptsTo 1 + 1 := by
  have evaluates : (exec (World.step headerless) (fun _ _ => true) pausedLate
      (initial (fun _ => 3))).elim false (fun x => decide (x.attemptsTo 1 = 0 ∧
        x.store.db.endpoint 1 = some { shop with status := .paused }) &&
        (exec (World.step headerless) unpatched afterwards x).elim false
          (fun y => decide (y.attemptsTo 1 = 1))) = true := by
    decide +kernel
  obtain ⟨x, executed, passes⟩ := reached evaluates
  obtain ⟨here, later⟩ := Bool.and_eq_true_iff.mp passes
  obtain ⟨none, row⟩ := of_decide_eq_true here
  obtain ⟨y, executed', passes'⟩ := reached later
  have start : Run (World.step headerless) (fun _ _ => True) (initial (fun _ => 3)) x ∧
      Untouched 1 2 x :=
    schedule_run (untouched_initial 1 2 _) (by decide) (fun _ _ _ => trivial) executed
  have run : Run (World.step headerless) (LeftAlone 1) x y :=
    run_of_exec (fun _ _ => unpatched_sound) executed'
  have rests : x.Rests 1 := ⟨_, row, by decide⟩
  have alone : ∀ w, x.Approaches 1 w → w ∈ ({0} : Finset Nat) := by
    rintro w ⟨h, _, handles, _⟩
    exact Finset.mem_singleton.mpr (Nat.lt_one_iff.mp (start.2.handles handles))
  exact ⟨x, y, start.1, run, none, of_decide_eq_true passes',
    paused_left_alone start.1 rests alone run⟩

end World

end Relay
