import Relay.Pipeline.Rows
import Relay.Pipeline.Schedule

/-!
# Is `delivered` final?

A session writes the columns of its own copy by primary key, so a session that
loaded a row before another one delivered it may still overwrite the status.
Where no such session is open at the commit of a success, the status is final.
-/

namespace Relay

open Enqueue RetryQueue Worker Api Transition

/-- The delivery whose row an open session may still write. -/
def Worker.Session.writes : Session → Option Uuid
  | .loaded d | .queueing d _ | .gated d _ | .sending d _ | .receiving d _
  | .committing d _ _ _ => some d.id
  | _ => none

/-- A replay that has selected the row and not committed yet. -/
def Api.Job.Selects (id : Uuid) : Job → Prop
  | .selected rows => id ∈ rows.map Delivery.id
  | _ => False

namespace World

variable {env : Env} {l : Label} {x y : World} {id : Uuid}

/-- When a success is committed, no other session may still write the row. -/
def DeliversAlone (env : Env) (x : World) (l : Label) : Prop :=
  ∀ w c h d e outcome delay, l = .work w c → x.Handles w h →
    h.pc.session = .committing d e outcome delay → outcome.status = .delivered →
    (∀ w' h', x.Handles w' h' → h'.pc.session.writes = some d.id → w' = w) ∧
      ∀ r q, x.requests r = some q → ¬ (q.job env.settings.streamShards).Selects d.id

/-- No session is open that may write this row. -/
structure Closed (env : Env) (x : World) (id : Uuid) : Prop where
  workers : ∀ w h, x.Handles w h → h.pc.session.writes ≠ some id
  requests : ∀ r q, x.requests r = some q → ¬ (q.job env.settings.streamShards).Selects id

/-- Rows that are delivered are out of reach of all open sessions. -/
def DeliveredClosed (env : Env) (x : World) : Prop :=
  ∀ id row, x.core.delivery id = some row → row.status = .delivered → Closed env x id

/-- A session comes to write a row only by loading it unsettled. -/
theorem Move.writes {clock : ℚ} {shard messageId : Nat} {i : Uuid} {s : Store} {q q' : Session}
    {c : Core} (move : Move env clock shard messageId id s q c q') (writes : q'.writes = some i) :
    q.writes = some i ∨
      (c = s.core ∧ ∃ row, s.core.delivery i = some row ∧ ¬ row.status.Settled) := by
  cases move with
  | @load d row fresh =>
    have key : d.id = id := Db.delivery_id row
    cases writes
    exact Or.inr ⟨rfl, d, key ▸ row, fresh⟩
  | stay | queue | gate | pass | commitDelivering | send | receive => exact Or.inl writes
  | _ => cases writes

theorem Closed.step (inv : Consistent env x) (closed : Closed env x id)
    (change : Change env x y l) {row : Delivery} (found : y.core.delivery id = some row)
    (delivered : row.status = .delivered) : Closed env y id where
  workers := by
    intro w h handles writes
    cases change.arises handles with
    | same old _ => exact closed.workers w h old writes
    | begun _ _ begun =>
      subst begun
      cases writes
    | raised _ _ session _ =>
      rw [session] at writes
      cases writes
    | moved _ handled _ move _ =>
      rcases Move.writes move writes with before | ⟨same, r, loaded, fresh⟩
      · exact closed.workers w _ handled before
      · rw [same, loaded] at found
        cases found
        rw [delivered] at fresh
        exact fresh settled_delivered
  requests := by
    intro r q running selects
    cases change.serves running with
    | same old _ => exact closed.requests r q old selects
    | arrived _ _ idle =>
      rw [idle] at selects
      exact selects
    | failed _ _ ended =>
      rw [ended] at selects
      exact selects
    | moved _ old move =>
      have before := closed.requests r _ old
      generalize Request.job _ _ = j at move before
      generalize core : y.core = c at move
      generalize Request.job _ q = j' at move selects
      cases move with
      | stay => exact before selects
      | select dead =>
        obtain ⟨d, listed, key⟩ := List.mem_map.mp selects
        have same : x.core.delivery d.id = some d := inv.allocated.delivery (dead d listed).1
        rw [core, ← key] at found
        have status := (dead d listed).2
        rw [Option.some.inj (same.symm.trans found), delivered] at status
        cases status
      | _ => exact selects

theorem flush_delivered {loaded current row : Delivery}
    (delivered : (loaded.flush current row).status = .delivered) :
    row.status = .delivered ∨ current.status = .delivered := by
  rw [Delivery.flush_status] at delivered
  split at delivered
  · exact Or.inl delivered
  · exact Or.inr delivered

/-- Deliveries that are committed alone stay out of reach. -/
theorem DeliveredClosed.step (inv : Consistent env x) (closed : DeliveredClosed env x)
    (alone : DeliversAlone env x l) (change : Change env x y l) : DeliveredClosed env y := by
  intro id row found delivered
  cases change.row inv id with
  | same same =>
    exact (closed id row (same ▸ found) delivered).step inv change found delivered
  | @delivering w c h h' d old e label handles session key before now _ _ _ =>
    rw [now] at found
    cases found
    rcases flush_delivered delivered with already | impossible
    · exact absurd (by rw [session, ← key]; rfl)
        ((closed id old before already).workers w h handles)
    · cases impossible
  | @outcome w c h h' d old outcome e delay label handles session key before now goes next _ =>
    rw [now] at found
    cases found
    rcases flush_delivered delivered with already | success
    · exact absurd (by rw [session, ← key]; rfl)
        ((closed id old before already).workers w h handles)
    · have others := alone w c h d e outcome delay label handles session success
      subst label
      refine ⟨fun w' h'' handles' writes => ?_, fun r q running => ?_⟩
      · cases change.arises handles' with
        | same untouched elsewhere =>
          have mine := others.1 w' h'' untouched (key ▸ writes)
          exact elsewhere c (mine ▸ rfl)
        | begun label => cases label
        | raised label => cases label
        | moved label _ _ _ _ =>
          -- the session that commits the success writes no more
          cases label
          have mine : h'' = h' := Option.some.inj (handles'.symm.trans goes)
          rw [mine] at writes
          rcases next with ⟨_, done⟩ | ⟨_, _, done⟩ <;> (rw [done] at writes; cases writes)
      · cases change.serves running with
        | same old _ => exact key ▸ others.2 r q old
        | arrived label | moved label | failed label => cases label
  | requeued _ _ _ _ now pending =>
    rw [now] at found
    cases found
    rw [pending] at delivered
    cases delivered
  | inserted _ now pending =>
    rw [now] at found
    cases found
    rw [pending] at delivered
    cases delivered

theorem deliveredClosed_run {shardOf : Nat → Nat}
    (run : Run (World.step env) (DeliversAlone env) (initial shardOf) x) : DeliveredClosed env x :=
  run.invariant_under (I := Consistent env) (consistent_initial env shardOf)
    (fun _ _ found => by cases found) (fun inv _ next => inv.step (step_change next))
    (fun inv closed alone next => closed.step inv alone (step_change next))

/-- With no session open that may write it, a delivered row stays delivered. -/
theorem Closed.stays (inv : Consistent env x) (closed : Closed env x id)
    (change : Change env x y l) {row : Delivery} (found : x.core.delivery id = some row)
    (delivered : row.status = .delivered) :
    ∃ row', y.core.delivery id = some row' ∧ row'.status = .delivered := by
  cases change.row inv id with
  | same same => exact ⟨row, same ▸ found, delivered⟩
  | @delivering w _ h _ _ _ _ _ handles session key =>
    exact absurd (by rw [session, ← key]; rfl) (closed.workers w h handles)
  | @outcome w _ h _ _ _ _ _ _ _ handles session key =>
    exact absurd (by rw [session, ← key]; rfl) (closed.workers w h handles)
  | @requeued r _ q _ rows _ _ _ _ running job listed =>
    refine absurd ?_ (closed.requests r q running)
    rw [job]
    obtain ⟨d, member, key⟩ := listed
    exact key ▸ List.mem_map_of_mem member
  | inserted absent =>
    rw [absent] at found
    cases found

/-- Where successes are committed alone, `delivered` is final. -/
theorem delivered_final {shardOf : Nat → Nat} {row : Delivery}
    (first : Run (World.step env) (DeliversAlone env) (initial shardOf) x)
    (later : Run (World.step env) (DeliversAlone env) x y)
    (found : x.store.db.delivery id = some row) (delivered : row.status = .delivered) :
    ∃ row', y.store.db.delivery id = some row' ∧ row'.status = .delivered := by
  induction later with
  | refl => exact ⟨row, found, delivered⟩
  | tail before _ next ih =>
    obtain ⟨row', found', delivered'⟩ := ih
    have run := first.trans before
    have closed := deliveredClosed_run run id row' found' delivered'
    exact closed.stays (consistent_run run) (step_change next) found' delivered'

/-! A worker on its own, and two interleaved replays -/

def statusOf (x : World) (id : Uuid) : Option DeliveryStatus :=
  (x.store.db.delivery id).map Delivery.status

/-- The first request is no replay. -/
def ingestsOnly (x : World) (_ : Label) : Bool :=
  match x.requests 0 with
  | some (.replay _) | some (.approve _) => false
  | _ => true

theorem deliversAlone_of_single (untouched : Untouched 1 1 x) (ingests : ingestsOnly x l = true) :
    DeliversAlone env x l := by
  intro w c h d e outcome delay _ handles _ _
  refine ⟨fun w' h' handles' _ => ?_, fun r q running selects => ?_⟩
  · have first := untouched.handles handles
    have second := untouched.handles handles'
    omega
  · have zero : r = 0 := by
      have := untouched.running running
      omega
    subst zero
    unfold ingestsOnly at ingests
    rw [running] at ingests
    cases q with
    | ingest q =>
      cases pc : q.pc <;> simp [Request.job, Ingest.job, pc, Job.Selects] at selects
    | replay q => cases ingests
    | approve q => cases ingests

/-- One worker delivers at once; `delivered` survives the rest of its handling. -/
theorem delivered_final_single : ∃ x y row,
    Run (World.step headerless) (DeliversAlone headerless) (initial (fun _ => 3)) x ∧
      Run (World.step headerless) (DeliversAlone headerless) x y ∧
      x.store.db.delivery 11 = some row ∧ row.status = .delivered ∧
      ∃ row', y.store.db.delivery 11 = some row' ∧ row'.status = .delivered := by
  have evaluates : (exec (World.step headerless) ingestsOnly
      (ingested shop 10 11 ++ [.read 0, .take 0] ++ works 0 14 ⟨7, answered, 1⟩)
      (initial (fun _ => 3))).elim false (fun x => decide (statusOf x 11 = some .delivered) &&
        (exec (World.step headerless) ingestsOnly (works 0 5 ⟨7, answered, 1⟩) x).elim false
          (fun _ => true)) = true := by
    decide +kernel
  obtain ⟨x, first, passes⟩ := reached evaluates
  obtain ⟨delivered, rest⟩ := Bool.and_eq_true_iff.mp passes
  obtain ⟨y, second, _⟩ := reached rest
  obtain ⟨row, found, status⟩ := Option.map_eq_some_iff.mp (of_decide_eq_true delivered)
  have sound : ∀ {x l}, Untouched 1 1 x → Within 1 1 l = true → ingestsOnly x l = true →
      DeliversAlone headerless x l := fun untouched _ => deliversAlone_of_single untouched
  have start := schedule_run (untouched_initial 1 1 _) (by decide) sound first
  have later := schedule_run start.2 (by decide) sound second
  exact ⟨x, y, row, start.1, later.1, found, status,
    delivered_final start.1 later.1 found status⟩

/-- Three rejected attempts make the delivery dead, two replays that both
selected it append two entries, and worker 1 has loaded the row when worker 0
commits its success. -/
def twoReplays : List Label :=
  ingested shop 10 11 ++
    [.read 0, .take 0] ++ works 0 20 ⟨7, rejected, 1⟩ ++
    [.tick 100, .schedule 100 500, .read 0, .take 0] ++ works 0 20 ⟨7, rejected, 1⟩ ++
    [.tick 200, .schedule 200 500, .read 0, .take 0] ++ works 0 19 ⟨7, rejected, 1⟩ ++
    [.arrive 1 (.replay 2 ⟨1, none⟩), .arrive 2 (.replay 2 ⟨1, none⟩)] ++
    serves 1 3 ++ serves 2 8 ++ serves 1 5 ++
    [.read 0, .take 0, .read 1, .take 1] ++ works 1 10 ⟨8, answered, 1⟩ ++
    works 0 14 ⟨7, answered, 1⟩

/-- Worker 1 then writes `delivering` over the status. -/
theorem delivered_overwritten : ∃ x y : World,
    Run (World.step headerless) (fun _ _ => True) (initial (fun _ => 3)) x ∧
      Run (World.step headerless) (fun _ _ => True) x y ∧
      statusOf x 11 = some .delivered ∧ statusOf y 11 = some .delivering := by
  have evaluates : (exec (World.step headerless) (fun _ _ => true) twoReplays
      (initial (fun _ => 3))).elim false (fun x => decide (statusOf x 11 = some .delivered) &&
        (exec (World.step headerless) (fun _ _ => true) (works 1 1 ⟨8, answered, 1⟩) x).elim
          false
          (fun y => decide (statusOf y 11 = some .delivering))) = true := by
    decide +kernel
  obtain ⟨x, first, passes⟩ := reached evaluates
  obtain ⟨delivered, rest⟩ := Bool.and_eq_true_iff.mp passes
  obtain ⟨y, second, overwritten⟩ := reached rest
  exact ⟨x, y, free_run first, free_run second, of_decide_eq_true delivered,
    of_decide_eq_true overwritten⟩

end World

end Relay
