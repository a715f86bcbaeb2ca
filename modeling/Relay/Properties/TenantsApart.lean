import Relay.Delivery.Tokens
import Relay.Pipeline.Schedule
import Relay.Pipeline.Tenancy

/-!
# Tenants stay apart, and no event is fanned out twice

Everything that names a delivery names one event and one endpoint, both of one
tenant, and no two deliveries name the same two.
-/

namespace Relay.World

open Enqueue RetryQueue Worker Api Transition

variable {env : Env} {x : World} {guard : World → Label → Prop} {shardOf : Nat → Nat}

/-- A row, a stream entry or a member of the retry set names these ids. -/
inductive Names (x : World) : Fields → Prop
  | row {d : Delivery} (listed : d ∈ x.core.deliveries) : Names x d.fields
  | entry {n : Nat} {f : Fields} (listed : f ∈ (x.core.queues.streams n).entries) : Names x f
  | member {m : Member} (listed : x.core.queues.retries.Mem m) : Names x m.fields

theorem Names.row_of (inv : Consistent env x) {f : Fields} (names : x.Names f) :
    ∃ d ∈ x.core.deliveries, d.fields = f := by
  have known : ∀ {f : Fields}, x.core.Known f → ∃ d ∈ x.core.deliveries, d.fields = f := by
    intro f known
    obtain ⟨d, found, _⟩ := known.row
    exact ⟨d, Table.get_mem found, known.fields_eq found⟩
  cases names with
  | @row d listed => exact ⟨d, listed, rfl⟩
  | entry listed => exact known (inv.core.entries _ _ listed).1
  | member listed => exact known (inv.core.members _ listed).1

theorem Names.joins (inv : Consistent env x) (tenanted : Tenanted env x) {f : Fields}
    (names : x.Names f) : x.store.Joins f.eventId f.endpointId := by
  obtain ⟨d, listed, rfl⟩ := names.row_of inv
  exact tenanted.pairs (d.eventId, d.endpointId) (List.mem_map_of_mem listed)

/-- Whatever names a delivery pairs an event with an endpoint of its tenant; what
a worker sends to an endpoint is an event of its tenant, within that tenant's limits. -/
theorem tenants_apart (run : Run (World.step env) guard (initial shardOf) x) :
    (∀ f, x.Names f → x.store.Joins f.eventId f.endpointId) ∧
    ∀ w h v slot, x.Handles w h → h.pc = .send v slot →
      v.endpoint.id = v.delivery.endpointId ∧
      x.store.db.owner v.endpoint.id = some v.endpoint.tenantId ∧
      x.core.tenantOf v.delivery.eventId = some v.endpoint.tenantId ∧
      h.pc.occupying = some (v.endpoint.tenantId, slot) := by
  have inv : Consistent env x := consistent_run run
  have tenanted := tenanted_run run
  refine ⟨fun f names => names.joins inv tenanted, fun w h v slot handles sends => ?_⟩
  have copies := inv.sessions w h handles
  rw [sends] at copies
  have owner := tenanted.copies w h v.endpoint handles (by rw [sends]; rfl)
  have entry := inv.held w _ handles.mem_held
  obtain ⟨t, event, owns⟩ := (Names.entry (List.mem_of_getElem? entry)).joins inv tenanted
  have fields := copies.1.fields
  have same : v.delivery.eventId = h.fields.eventId := congrArg Fields.eventId fields
  have there : v.endpoint.id = h.fields.endpointId :=
    copies.1.key.trans (congrArg Fields.endpointId fields)
  rw [← there, owner] at owns
  cases owns
  exact ⟨copies.1.key, owner, same ▸ event, by rw [sends]; rfl⟩

/-- Two names of one event and one endpoint are names of one delivery. -/
theorem fanned_out_once (run : Run (World.step env) guard (initial shardOf) x) {f g : Fields}
    (first : x.Names f) (second : x.Names g) (event : f.eventId = g.eventId)
    (endpoint : f.endpointId = g.endpointId) : f = g := by
  have inv : Consistent env x := consistent_run run
  obtain ⟨d, listed, rfl⟩ := first.row_of inv
  obtain ⟨d', listed', rfl⟩ := second.row_of inv
  have one : d = d' :=
    List.inj_on_of_nodup_map (tenanted_run run).once listed listed' (Prod.ext event endpoint)
  rw [one]

/-! An order on its way to a shop -/

/-- The worker is about to send. -/
def sending : List Label :=
  ingested shop 10 30 ++ [.read 0, .take 0] ++ works 0 11 succeeding

def sendsTo (x : World) : Option (Uuid × Uuid) :=
  match (x.workers 0).current with
  | some ⟨_, _, _, .send v _⟩ => some (v.delivery.eventId, v.endpoint.tenantId)
  | _ => none

theorem tenants_apart_sending : ∃ x : World,
    Run (World.step headerless) (fun _ _ => True) (initial (fun _ => 3)) x ∧
      x.core.tenantOf 10 = some 2 := by
  have evaluates : (exec (World.step headerless) (fun _ _ => true) sending
      (initial (fun _ => 3))).elim false (fun x => decide (sendsTo x = some (10, 2))) = true := by
    decide +kernel
  obtain ⟨x, executed, passes⟩ := reached evaluates
  have named := of_decide_eq_true passes
  unfold sendsTo at named
  split at named
  · rename_i v slot handles
    obtain ⟨event, tenant⟩ := Prod.mk.inj (Option.some.inj named)
    have apart := ((tenants_apart (free_run executed)).2 0 _ v slot handles rfl).2.2.1
    rw [event, tenant] at apart
    exact ⟨x, free_run executed, apart⟩
  · cases named

/-- The entry of the stream and the row that was inserted. -/
theorem fanned_out_once_sending : ∃ (x : World) (f g : Fields),
    Run (World.step headerless) (fun _ _ => True) (initial (fun _ => 3)) x ∧
      x.Names f ∧ x.Names g ∧ f = g := by
  have evaluates : (exec (World.step headerless) (fun _ _ => true) sending
      (initial (fun _ => 3))).elim false (fun x =>
        decide ((x.core.queues.streams 3).entries = [⟨30, 10, 1⟩] ∧
          x.core.deliveries.map Delivery.fields = [⟨30, 10, 1⟩])) = true := by
    decide +kernel
  obtain ⟨x, executed, passes⟩ := reached evaluates
  obtain ⟨entries, rows⟩ := of_decide_eq_true passes
  have entry : x.Names ⟨30, 10, 1⟩ := .entry (n := 3) (entries ▸ List.mem_singleton_self _)
  have listed : (⟨30, 10, 1⟩ : Fields) ∈ x.core.deliveries.map Delivery.fields :=
    rows ▸ List.mem_singleton_self _
  obtain ⟨d, there, same⟩ := List.mem_map.mp listed
  have row : x.Names ⟨30, 10, 1⟩ := same ▸ .row there
  exact ⟨x, _, _, free_run executed, entry, row,
    fanned_out_once (free_run executed) entry row rfl rfl⟩

end Relay.World
