import Relay.Pipeline.History

/-!
# Who writes a delivery row

The row of one delivery across a step: unchanged, written by the two commits of
an attempt, requeued by a replay, or inserted.
-/

namespace Relay

open Enqueue RetryQueue Worker Api

theorem Core.delivery_commitRequeued {c : Core} {rows : List Delivery} (id : Uuid)
    (dead : ∀ d ∈ rows, d.status = .dead) :
    (c.commitRequeued rows).delivery id = c.delivery id ∨
      ((∃ d ∈ rows, d.id = id) ∧ ∃ row, (c.commitRequeued rows).delivery id = some row ∧
        row.status = .pending) := by
  unfold Core.commitRequeued
  induction rows generalizing c with
  | nil => exact Or.inl rfl
  | cons d rest ih =>
    have status : d.status = .dead := dead d List.mem_cons_self
    have later := ih (c := c.commitDelivery .requeued d (requeued d))
      (fun a h => dead a (List.mem_cons_of_mem _ h))
    simp only [List.foldl_cons]
    rcases later with same | ⟨⟨a, listed, key⟩, now⟩
    · rw [same, Core.delivery_commitDelivery]
      by_cases key : id = d.id
      · rw [if_pos key]
        cases found : c.delivery id with
        | none => exact Or.inl rfl
        | some row =>
          refine Or.inr ⟨⟨d, List.mem_cons_self, key.symm⟩, _, rfl, ?_⟩
          rw [Delivery.flush_status]
          simp [requeued, status]
      · exact Or.inl (if_neg key)
    · exact Or.inr ⟨⟨a, List.mem_cons_of_mem _ listed, key⟩, now⟩

namespace World

variable {env : Env} {l : Label} {x y : World}

/-- The row of delivery `id` before and after a step. -/
inductive RowChange (env : Env) (x y : World) (l : Label) (id : Uuid) : Prop
  | same (same : y.core.delivery id = x.core.delivery id)
  | delivering {w : Nat} {c : Choice} {h h' : Handling} {d row : Delivery} {e : Endpoint}
      (label : l = .work w c) (handles : x.Handles w h) (session : h.pc.session = .gated d e)
      (key : d.id = id) (found : x.core.delivery id = some row)
      (now : y.core.delivery id = some (d.flush (delivering d) row)) (goes : y.Handles w h')
      (next : h'.pc.session = .sending (delivering d) e)
      (entry : h'.messageId = h.messageId ∧ h'.fields = h.fields)
  | outcome {w : Nat} {c : Choice} {h h' : Handling} {d row outcome : Delivery} {e : Endpoint}
      {delay : Option ℚ} (label : l = .work w c) (handles : x.Handles w h)
      (session : h.pc.session = .committing d e outcome delay)
      (key : d.id = id) (found : x.core.delivery id = some row)
      (now : y.core.delivery id = some (d.flush outcome row)) (goes : y.Handles w h')
      (next : (delay = none ∧ h'.pc.session = .refreshing outcome e) ∨
        ∃ seconds, delay = some seconds ∧
          h'.pc.session = .scheduling outcome e (x.clock + seconds))
      (entry : h'.messageId = h.messageId ∧ h'.fields = h.fields)
  | requeued {r : Nat} {ids : List Uuid} {q q' : Request} {rows : List Delivery} {row : Delivery}
      {source : Source} {commands : List Command}
      (label : l = .serve r ids) (running : x.requests r = some q)
      (job : q.job env.settings.streamShards = .selected rows) (listed : ∃ d ∈ rows, d.id = id)
      (now : y.core.delivery id = some row) (pending : row.status = .pending)
      (goes : y.requests r = some q')
      (next : q'.job env.settings.streamShards = .enqueueing source commands)
      (issued : Requeues env.settings.streamShards rows source commands)
  | inserted {row : Delivery} (absent : x.core.delivery id = none)
      (now : y.core.delivery id = some row) (pending : row.status = .pending)

theorem Change.row (inv : Consistent env x) (change : Change env x y l) (id : Uuid) :
    RowChange env x y l id := by
  have quiet : y.core.deliveries = x.core.deliveries → RowChange env x y l id := by
    intro deliveries
    refine .same ?_
    simp only [Core.delivery, deliveries]
  cases change with
  | admin _ _ _ _ core _ _ | arrive _ core | read _ _ _ core | claim _ _ _ _ _ core
  | take _ _ _ core | raise _ _ core | drop _ _ core | schedule _ core | fail _ _ core =>
    exact quiet (congrArg Core.deliveries core :)
  | @work w c h pc _ handles step move workers _ =>
    have goes : pc.session ≠ .finished → y.Handles w { h with pc := pc } :=
      fun running => goto_handles running workers
    generalize session : h.pc.session = q at move
    generalize core : y.core = c' at move
    generalize next : pc.session = q' at move goes
    cases move with
    | @commitDelivering d row e found =>
      by_cases key : id = d.id
      · subst key
        refine .delivering rfl handles session rfl found ?_ (goes (by simp)) next ⟨rfl, rfl⟩
        rw [core, Core.delivery_commitDelivery, if_pos rfl]
        exact congrArg (Option.map _) found
      · refine .same ?_
        rw [core, Core.delivery_commitDelivery, if_neg key]
    | @commitFailed d row outcome e delay found =>
      by_cases key : id = d.id
      · subst key
        refine .outcome rfl handles session rfl found ?_ (goes (by simp))
          (Or.inr ⟨delay, rfl, next⟩) ⟨rfl, rfl⟩
        rw [core, Core.delivery_commitDelivery, if_pos rfl]
        exact congrArg (Option.map _) found
      · refine .same ?_
        rw [core, Core.delivery_commitDelivery, if_neg key]
    | @commitSettled d row outcome e found =>
      by_cases key : id = d.id
      · subst key
        refine .outcome rfl handles session rfl found ?_ (goes (by simp))
          (Or.inl ⟨rfl, next⟩) ⟨rfl, rfl⟩
        rw [core, Core.delivery_commitDelivery, if_pos rfl]
        exact congrArg (Option.map _) found
      · refine .same ?_
        rw [core, Core.delivery_commitDelivery, if_neg key]
    | _ => exact quiet (congrArg Core.deliveries core :)
  | @serve r ids q q' _ running move _ requests =>
    have sound := inv.jobs r q running
    have fansOut := inv.fansOut r q running
    have goes : y.requests r = some q' := by rw [requests, Function.update_self]
    generalize job : Request.job _ q = j at move sound fansOut
    generalize core : y.core = c' at move
    generalize next : Request.job _ q' = j' at move
    cases move with
    | @commit event endpoints deliveries =>
      obtain ⟨drawn, length, rfl⟩ := fansOut
      cases old : x.core.delivery id with
      | some row =>
        refine .same ?_
        rw [core, old]
        exact Table.get_append_of_some _ old
      | none =>
        have added : y.core.delivery id =
            Table.get Delivery.id (Ingest.newDeliveries event.id drawn endpoints) id := by
          rw [core]
          refine (Table.get_append _).trans ?_
          rw [show Table.get Delivery.id _ id = none from old, Option.none_or]
        cases found : y.core.delivery id with
        | none => exact .same (found.trans old.symm)
        | some row =>
          rw [found] at added
          have pending := (Ingest.mem_newDeliveries (Table.get_mem added.symm)).2.1
          exact .inserted old found pending
    | @requeue rows source commands issued =>
      rcases Core.delivery_commitRequeued (c := x.core) id (fun d h => (sound d h).2) with
        same | ⟨listed, row, now, pending⟩
      · refine .same ?_
        rw [core]
        exact same
      · exact .requeued rfl running job listed (core ▸ now) pending goes next issued
    | @exec _ command _ =>
      cases command <;> exact quiet (congrArg Core.deliveries core :)
    | _ => exact quiet (congrArg Core.deliveries core :)

/-! What a commit writes -/

/-- What is about to be committed was decided earlier. -/
def OutcomesTimed (x : World) : Prop :=
  ∀ w h d e outcome delay, x.Handles w h → h.pc.session = .committing d e outcome delay →
    ∃ time ≤ x.clock, Resolved time d outcome delay

theorem Change.clock_le (change : Change env x y l) : x.clock ≤ y.clock := by
  rcases change.clock with same | ⟨time, _, later, now⟩
  · exact le_of_eq same.symm
  · exact now ▸ later

theorem OutcomesTimed.step (timed : OutcomesTimed x) (change : Change env x y l) :
    OutcomesTimed y := by
  have later := change.clock_le
  intro w h d e outcome delay handles session
  cases change.arises handles with
  | same old _ =>
    obtain ⟨time, before, resolved⟩ := timed w h d e outcome delay old session
    exact ⟨time, before.trans later, resolved⟩
  | begun _ _ begun =>
    subst begun
    cases session
  | raised _ _ ended _ =>
    rw [ended] at session
    cases session
  | @moved _ old _ handled _ move _ =>
    rw [session] at move
    generalize before : old.pc.session = q at move
    generalize y.core = c at move
    cases move with
    | stay =>
      obtain ⟨time, earlier, resolved⟩ := timed w old d e outcome delay handled before
      exact ⟨time, earlier.trans later, resolved⟩
    | receive resolved => exact ⟨x.clock, later, resolved⟩

end World

end Relay
