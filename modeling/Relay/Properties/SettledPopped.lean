import Relay.Pipeline.Lists
import Relay.Pipeline.Rows
import Relay.Pipeline.Schedule

/-!
# Are settled deliveries popped?

The worker whose commit settles a row pops the delivery from the list of its
ordered endpoint a few awaits later. Nobody else does: a reclaimed entry of a
settled row is only acknowledged. The list stays clean where no worker is lost
in between and a replay pushes only what is neither listed nor settled.
-/

namespace Relay

open Enqueue RetryQueue Worker Api Transition

/-- On the way to the pop of the delivery. -/
def Worker.Session.Pops (endpointId id : Uuid) : Session → Prop
  | .refreshing d e | .popping d e => d.id = id ∧ e.id = endpointId
  | .recording d e => d.id = id ∧ e.id = endpointId ∧ d.status.Settled
  | _ => False

namespace World

variable {env : Env} {l : Label} {x y : World} {endpointId id : Uuid}

/-- A settled delivery that is still in the list of its endpoint. -/
structure Lingers (x : World) (endpointId id : Uuid) : Prop where
  listed : id ∈ x.core.ordered endpointId
  settled : ∃ row, x.core.delivery id = some row ∧ row.status.Settled

/-- Some worker other than `w` is on its way to the pop. -/
def PoppedBeside (x : World) (w : Nat) (endpointId id : Uuid) : Prop :=
  ∃ w' h, w' ≠ w ∧ x.Handles w' h ∧ h.pc.session.Pops endpointId id

/-- No worker is lost while the pop of a settled delivery depends on it, and
what is pushed is neither listed nor settled. -/
structure PopsKept (env : Env) (endpointId : Uuid) (x : World) (l : Label) : Prop where
  alive : ∀ w h id, l = .raise w ∨ l = .crash w → x.Handles w h →
    h.pc.session.Pops endpointId id → x.Lingers endpointId id → x.PoppedBeside w endpointId id
  pushes : ∀ r ids q source id rest, l = .serve r ids → x.requests r = some q →
    q.job env.settings.streamShards = .enqueueing source (.rpush endpointId id :: rest) →
    id ∉ x.store.ordered endpointId ∧
      ∀ row, x.store.db.delivery id = some row → ¬ row.status.Settled

/-- Nothing is listed twice, and what lingers is about to be popped. -/
structure Clean (x : World) (endpointId : Uuid) : Prop where
  nodup : (x.core.ordered endpointId).Nodup
  popped : ∀ id, x.core.orderings endpointId = some .ordered → x.Lingers endpointId id →
    ∃ w h, x.Handles w h ∧ h.pc.session.Pops endpointId id

theorem Clean.nodup_step (clean : Clean x endpointId) (kept : PopsKept env endpointId x l)
    (change : Change env x y l) : (y.core.ordered endpointId).Nodup := by
  cases change.logs with
  | quiet ordered | attempt _ _ _ ordered => exact ordered ▸ clean.nodup
  | @push r ids q source rest endpointId' id label running job ordered _ =>
    rw [ordered]
    by_cases mine : endpointId = endpointId'
    · subst mine
      have absent := (kept.pushes r ids q source id rest label running job).1
      rw [Function.update_self, List.nodup_append]
      refine ⟨clean.nodup, List.nodup_singleton id, fun a ha b hb same => absent ?_⟩
      rw [List.mem_singleton.mp hb] at same
      exact same ▸ ha
    · rw [Function.update_of_ne mine]
      exact clean.nodup
  | @pop _ _ _ d e _ _ _ ordered _ =>
    rw [ordered]
    by_cases mine : endpointId = e.id
    · subst mine
      rw [Function.update_self]
      exact clean.nodup.erase d.id
    · rw [Function.update_of_ne mine]
      exact clean.nodup

/-- A delivery in the list was there before, unless it was pushed unsettled. -/
theorem Change.listed (change : Change env x y l) (inv : Consistent env x)
    (kept : PopsKept env endpointId x l) (lingers : y.Lingers endpointId id) :
    id ∈ x.core.ordered endpointId := by
  have listed := lingers.listed
  cases change.logs with
  | quiet ordered | attempt _ _ _ ordered => exact ordered ▸ listed
  | @push r ids q source rest endpointId' id' label running job ordered _ =>
    rw [ordered] at listed
    by_cases mine : endpointId = endpointId'
    · subst mine
      rw [Function.update_self] at listed
      rcases List.mem_append.mp listed with old | new
      · exact old
      · rw [List.mem_singleton] at new
        subst new
        obtain ⟨row, found, settled⟩ := lingers.settled
        have fresh := (kept.pushes r ids q source id rest label running job).2
        have sound := inv.jobs r q running
        rw [job] at sound
        obtain ⟨before, present, _⟩ := sound.1
        cases change.row inv id with
        | same same => exact absurd settled (fresh row (same.symm.trans found))
        | delivering label' | outcome label' =>
          rw [label] at label'
          cases label'
        | requeued label' running' job' =>
          rw [label] at label'
          cases label'
          rw [running] at running'
          cases running'
          rw [job] at job'
          cases job'
        | inserted absent => exact absurd present (by simp [absent])
    · rwa [Function.update_of_ne mine] at listed
  | @pop _ _ _ d e _ _ _ ordered _ =>
    rw [ordered] at listed
    by_cases mine : endpointId = e.id
    · subst mine
      rw [Function.update_self] at listed
      exact List.mem_of_mem_erase listed
    · rwa [Function.update_of_ne mine] at listed

/-- A worker on its way to the pop stays on it until it has popped. -/
theorem Clean.popper_step (clean : Clean x endpointId) (inv : Consistent env x)
    (kept : PopsKept env endpointId x l) (change : Change env x y l)
    (ordered : x.core.orderings endpointId = some .ordered) (before : x.Lingers endpointId id)
    (lingers : y.Lingers endpointId id) {row : Delivery}
    (found : x.core.delivery id = some row) (settled : row.status.Settled) :
    ∃ w h, y.Handles w h ∧ h.pc.session.Pops endpointId id := by
  obtain ⟨w, h, handles, pops⟩ := clean.popped id ordered before
  -- the popper goes on, or another one does
  have away : ∀ w₀, l = .raise w₀ ∨ l = .crash w₀ →
      ∃ w h, y.Handles w h ∧ h.pc.session.Pops endpointId id := by
    intro w₀ label
    have stays : ∀ w h, w ≠ w₀ → x.Handles w h → h.pc.session.Pops endpointId id →
        ∃ w h, y.Handles w h ∧ h.pc.session.Pops endpointId id := by
      intro w h ne handles pops
      have other : ∀ l', l' = Label.raise w ∨ l' = Label.crash w → l ≠ l' := by
        rintro l' here rfl
        rcases label with rfl | rfl <;> rcases here with here | here <;> cases here
        all_goals exact ne rfl
      refine ⟨w, h, change.handles_kept handles (fun c same => ?_) (other _ (Or.inl rfl))
        (other _ (Or.inr rfl)), pops⟩
      rcases label with label | label <;> (rw [same] at label; cases label)
    by_cases mine : w = w₀
    · subst mine
      obtain ⟨w', h', ne, handles', pops'⟩ := kept.alive w h id label handles pops before
      exact stays w' h' ne handles' pops'
    · exact stays w h mine handles pops
  by_cases raising : l = .raise w
  · exact away w (Or.inl raising)
  by_cases crashing : l = .crash w
  · exact away w (Or.inr crashing)
  by_cases working : ∃ c, l = .work w c
  · obtain ⟨c, rfl⟩ := working
    have list := change.logs
    cases change with
    | admin label => exact label.elim
    | drop label => rcases label with same | same <;> cases same
    | @work _ _ h' pc _ handles' _ move workers _ =>
      have mine : h' = h := Option.some.inj (handles'.symm.trans handles)
      subst mine
      have sound := inv.sessions w h' handles
      have goes : pc.session ≠ .finished → y.Handles w { h' with pc := pc } :=
        fun running => goto_handles running workers
      generalize session : h'.pc.session = q at move sound pops
      generalize core : y.core = c' at move
      generalize next : pc.session = q' at move goes
      cases move with
      | stay =>
        refine ⟨w, _, goes ?_, next.symm ▸ pops⟩
        rintro rfl
        exact pops
      | @refresh d row' e now =>
        obtain ⟨rfl, same⟩ := pops
        have current : row = row' := Option.some.inj (found.symm.trans now)
        subst current
        exact ⟨w, _, goes (by simp), next.symm ▸ ⟨Db.delivery_id now, same, settled⟩⟩
      | @keep d e stays =>
        obtain ⟨_, rfl, done⟩ := pops
        have ordering := sound.1.ordering
        rw [ordered] at ordering
        exact absurd ⟨(Option.some.inj ordering).symm, done⟩ stays
      | toPop => exact ⟨w, _, goes (by simp), next.symm ▸ ⟨pops.1, pops.2.1⟩⟩
      | @pop d e =>
        obtain ⟨rfl, rfl⟩ := pops
        have listed := lingers.listed
        rw [core] at listed
        simp only [Core.popHead, Function.update_self] at listed
        exact absurd listed (clean.nodup.not_mem_erase)
      | _ => exact pops.elim
  · exact ⟨w, h, change.handles_kept handles (fun c same => working ⟨c, same⟩)
      raising crashing,
      pops⟩

theorem Clean.step (clean : Clean x endpointId) (inv : Consistent env x)
    (kept : PopsKept env endpointId x l) (change : Change env x y l) : Clean y endpointId where
  nodup := clean.nodup_step kept change
  popped := by
    intro id ordered lingers
    have listed := change.listed inv kept lingers
    obtain ⟨row, found, endpoint⟩ := inv.core.listed endpointId id listed
    obtain ⟨o, ordering⟩ := (inv.core.rows row (Table.get_mem found)).2
    rw [endpoint] at ordering
    have same := (change.extends.orderings ordering).symm.trans ordered
    cases same
    obtain ⟨row', now, settled⟩ := lingers.settled
    have kept' : row.status.Settled →
        ∃ w h, y.Handles w h ∧ h.pc.session.Pops endpointId id := fun settled =>
      clean.popper_step inv kept change ordering ⟨listed, row, found, settled⟩
        lingers found settled
    cases change.row inv id with
    | same same =>
      rw [same, found] at now
      cases now
      exact kept' settled
    | @delivering _ _ _ _ d _ _ _ _ _ _ before after _ _ _ =>
      rw [found] at before
      cases before
      rw [after] at now
      cases now
      rw [Delivery.flush_status] at settled
      split at settled
      · exact kept' settled
      · exact absurd settled not_settled_delivering
    | @outcome w _ h h' d _ outcome e delay _ handles session key _ after goes next _ =>
      have sound := inv.sessions w h handles
      rw [session] at sound
      obtain ⟨copies, delivering, _, fields, status⟩ := sound
      rcases next with ⟨_, next⟩ | ⟨seconds, rfl, _⟩
      · refine ⟨w, h', goes, next ▸ ⟨?_, ?_⟩⟩
        · exact (congrArg Fields.deliveryId (fields.trans copies.fields.symm)).trans key
        · have own : h.fields.deliveryId = id :=
            (congrArg Fields.deliveryId copies.fields).symm.trans key
          have row := (inv.known handles).fields_eq (own ▸ found)
          exact copies.key.trans
            ((congrArg Fields.endpointId (copies.fields.trans row.symm)).trans endpoint)
      · rcases status with ⟨impossible, _⟩ | ⟨_, failed⟩
        · cases impossible
        · rw [after] at now
          cases now
          rw [Delivery.flush_status, failed, delivering, if_neg (by decide)] at settled
          exact absurd settled not_settled_failed
    | requeued _ _ _ _ after pending =>
      rw [after] at now
      cases now
      rw [pending] at settled
      exact absurd settled not_settled_pending
    | inserted absent => exact absurd found (by simp [absent])

/-- While pops are kept, an endpoint that no worker is busy with has no settled
delivery in its list. -/
theorem settled_popped {shardOf : Nat → Nat} {e : Endpoint}
    (run : Run (World.step env) (PopsKept env endpointId) (initial shardOf) x)
    (endpoint : x.store.db.endpoint endpointId = some e) (ordered : e.ordering = .ordered)
    (quiet : ∀ w h, x.Handles w h → h.fields.endpointId ≠ endpointId) :
    ∀ id ∈ x.store.ordered endpointId, ∀ row, x.store.db.delivery id = some row →
      ¬ (row.status = .delivered ∨ row.status = .dead) := by
  intro id listed row found settled
  have inv : Consistent env x := consistent_run run
  have clean : Clean x endpointId := run.invariant_under (I := Consistent env)
    (J := fun x => Clean x endpointId)
    (consistent_initial env shardOf)
    ⟨List.nodup_nil, fun _ _ lingers => absurd lingers.listed List.not_mem_nil⟩
    (fun inv _ next => inv.step (step_change next))
    (fun inv clean kept next => clean.step inv kept (step_change next))
  have ordering : x.core.orderings endpointId = some .ordered := by
    rw [Store.core_orderings, endpoint, Option.map_some, ordered]
  obtain ⟨w, h, handles, pops⟩ := clean.popped id ordering ⟨listed, row, found, settled⟩
  have sound := inv.sessions w h handles
  refine quiet w h handles ?_
  have copies : ∀ {d : Delivery} {e : Endpoint}, Copies x.core h.fields d e →
    e.id = endpointId →
      h.fields.endpointId = endpointId := by
    intro d e copies same
    exact (congrArg Fields.endpointId copies.fields).symm.trans (copies.key.symm.trans same)
  generalize h.pc.session = q at sound pops
  cases q with
  | refreshing => exact copies sound pops.2
  | recording => exact copies sound.1 pops.2.1
  | popping => exact copies sound.1 pops.2
  | _ => exact pops.elim

/-! A delivery that is popped, and one whose worker crashes before the pop -/

/-- The second delivery waits in the list while the first one is delivered. -/
def popped : List Label :=
  ingested queueShop 10 11 ++ ingest 1 queueShop 12 13 ++ [.read 0, .take 0] ++
    works 0 23 ⟨7, answered, 1⟩

def popsKept (x : World) : Label → Bool
  | .raise _ | .crash _ => false
  | .serve r _ =>
    match (x.requests r).map (Request.job headerless.settings.streamShards) with
    | some (.enqueueing _ (.rpush endpointId id :: _)) =>
      decide (id ∉ x.store.ordered endpointId) &&
        (x.store.db.delivery id).all (fun row => decide (¬ row.status.Settled))
    | _ => true
  | _ => true

theorem popsKept_sound (checked : popsKept x l = true) : PopsKept headerless endpointId x l where
  alive := by
    rintro w h id (rfl | rfl) <;> cases checked
  pushes := by
    rintro r ids q source id rest rfl running job
    simp only [popsKept, running, Option.map_some, job, Bool.and_eq_true,
      decide_eq_true_eq] at checked
    refine ⟨checked.1, fun row found => ?_⟩
    simpa [found] using checked.2

theorem settled_popped_first : ∃ (x : World) (row : Delivery),
    Run (World.step headerless) (PopsKept headerless 1) (initial (fun _ => 3)) x ∧
      13 ∈ x.store.ordered 1 ∧ x.store.db.delivery 13 = some row ∧
      ¬ (row.status = .delivered ∨ row.status = .dead) := by
  have evaluates : (exec (World.step headerless) popsKept popped
      (initial (fun _ => 3))).elim false (fun x =>
        resting 1 x && decide (13 ∈ x.store.ordered 1 ∧ (x.store.db.delivery 13).isSome ∧
          x.store.db.endpoint 1 = some queueShop)) = true := by
    decide +kernel
  obtain ⟨x, executed, passes⟩ := reached evaluates
  obtain ⟨rests, state⟩ := Bool.and_eq_true_iff.mp passes
  obtain ⟨listed, present, endpoint⟩ := of_decide_eq_true state
  obtain ⟨row, found⟩ := Option.isSome_iff_exists.mp present
  have sound : ∀ {x l}, Untouched 1 2 x → Within 1 2 l = true → popsKept x l = true →
      PopsKept headerless 1 x l := fun _ _ => popsKept_sound
  have run := schedule_run (untouched_initial 1 2 _) (by decide) sound executed
  have quiet : ∀ w h, x.Handles w h → h.fields.endpointId ≠ 1 :=
    fun w h handles => absurd handles (resting_sound run.2 rests w h)
  exact ⟨x, row, run.1, listed, found,
    settled_popped run.1 endpoint rfl quiet 13 listed row found⟩

/-- Worker 0 crashes right after it commits the success; worker 1 claims the
entry a hundred seconds later and finds the row settled. -/
def crashedBeforePop : List Label :=
  ingested queueShop 10 11 ++ [.read 0, .take 0] ++ works 0 16 ⟨7, answered, 1⟩ ++
    [.crash 0, .tick 100, .claim 1 [0], .take 1] ++ works 1 3 ⟨8, answered, 1⟩

/-- Nothing is in flight or scheduled, and the delivered delivery is still at
the head of the list. -/
theorem settled_not_popped : ∃ (x : World) (row : Delivery),
    Run (World.step headerless) ClaimsReleased (initial (fun _ => 3)) x ∧
      x.store.db.endpoint 1 = some queueShop ∧ (∀ w h, ¬ x.Handles w h) ∧
      (∀ n i f, (x.store.queues.streams n).entries[i]? = some f → f.endpointId = 1 →
        ¬ (x.store.queues.streams n).Unacked i) ∧
      (∀ m, ¬ x.store.queues.retries.Mem m) ∧ x.store.peekHead 1 = some 11 ∧
      x.store.db.delivery 11 = some row ∧ row.status = .delivered := by
  have evaluates : (exec (World.step headerless) (releasedClaims 2) crashedBeforePop
      (initial (fun _ => 3))).elim false (fun x =>
        resting 2 x && decide (x.store.db.endpoint 1 = some queueShop ∧
          (x.store.queues.streams 3).pending = [] ∧
          (x.store.queues.streams 3).lastDelivered = (x.store.queues.streams 3).entries.length ∧
          x.store.queues.retries.entries = [] ∧ x.store.peekHead 1 = some 11 ∧
          (x.store.db.delivery 11).map Delivery.status = some .delivered)) = true := by
    decide +kernel
  obtain ⟨x, executed, passes⟩ := reached evaluates
  obtain ⟨rests, state⟩ := Bool.and_eq_true_iff.mp passes
  obtain ⟨endpoint, noPending, allRead, noRetries, head, status⟩ := of_decide_eq_true state
  obtain ⟨row, found, delivered⟩ := Option.map_eq_some_iff.mp status
  have sound : ∀ {x l}, Untouched 2 1 x → Within 2 1 l = true →
    releasedClaims 2 x l = true →
      ClaimsReleased x l := fun untouched _ => releasedClaims_sound untouched
  have run := schedule_run (untouched_initial 2 1 _) (by decide) sound executed
  refine ⟨x, row, run.1, endpoint, resting_sound run.2 rests, ?_, ?_, head, found, delivered⟩
  · intro n i f entry same
    -- all entries of the endpoint are on its shard, which is drained
    have shard := ((consistent_run run.1).core.entries n f (List.mem_of_getElem? entry)).2
    rw [same] at shard
    have three : shardFor headerless.settings.streamShards 1 = 3 := by decide +kernel
    rw [three] at shard
    subst shard
    exact StreamLog.not_unacked_of_drained noPending allRead
  · intro m present
    unfold ZSet.Mem at present
    rw [noRetries] at present
    exact List.not_mem_nil present

end World

end Relay
