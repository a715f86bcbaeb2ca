import Relay.Pipeline.FanOut
import Relay.Pipeline.Schedule

/-!
# Does a 202 mean that the event is enqueued?

The rows are committed before the loop that appends the entries, and a later
request with the same key is accepted on the row alone. Nothing comes back for
rows whose loop was cut short; where every loop runs to its end, all rows of an
accepted event have been appended.
-/

namespace Relay

open Enqueue RetryQueue Worker Api Transition

/-- An ingestion appended the entry, after the push if the endpoint is ordered. -/
structure Core.Appended (streamShards : Nat) (c : Core) (f : Fields) : Prop where
  entry : f ∈ (c.queues.streams (shardFor streamShards f.endpointId)).entries
  logged : ∃ recent older, c.log = recent ++ .xadd .ingest f :: older ∧
    (c.orderings f.endpointId = some .ordered → .rpush f.endpointId f.deliveryId ∈ older)

theorem Core.Appended.mono {streamShards : Nat} {c c' : Core} {f : Fields}
    (old : c.Appended streamShards f) (ext : c.Extends c')
    (known : ∃ o, c.orderings f.endpointId = some o) : c'.Appended streamShards f where
  entry := (ext.entries _).subset old.entry
  logged := by
    obtain ⟨recent, older, log, pushed⟩ := old.logged
    obtain ⟨more, log'⟩ := ext.log
    obtain ⟨o, ordering⟩ := known
    refine ⟨more ++ recent, older, ?_, fun ordered => pushed ?_⟩
    · rw [← log', log, List.append_assoc]
    · rw [← ordered, ordering, ext.orderings ordering]

/-- A request of the tenant with the key. -/
def Api.Ingest.Keyed (tenantId : Uuid) (key : String) (q : Ingest) : Prop :=
  q.tenantId = tenantId ∧ q.body.idempotencyKey = some key

def Event.Keyed (tenantId : Uuid) (key : String) (e : Event) : Prop :=
  e.tenantId = tenantId ∧ e.idempotencyKey = some key

def Api.Ingest.Finished (q : Ingest) : Prop :=
  match q.pc with
  | .accepted _ | .failed _ => True
  | _ => False

theorem Api.Ingest.EventOf.keyed {c : Core} {q : Ingest} {id tenantId : Uuid} {key : String}
    {event : Event} (ofRequest : q.EventOf c id) (found : c.event id = some event)
    (keyed : event.Keyed tenantId key) : q.Keyed tenantId key := by
  obtain ⟨event', found', tenant, same⟩ := ofRequest
  rw [found] at found'
  cases found'
  exact ⟨tenant.symm.trans keyed.1, same.symm.trans keyed.2⟩

namespace World

variable {env : Env} {l : Label} {x y : World} {tenantId : Uuid} {key : String}

/-- No request with the key fails between its commit and the end of its loop. -/
def LoopsComplete (tenantId : Uuid) (key : String) (x : World) (l : Label) : Prop :=
  ∀ r q, l = .fail r → x.requests r = some (.ingest q) → q.Keyed tenantId key → q.left = []

/-- Rows of events with the key are appended, or a request is about to. -/
def Promised (env : Env) (tenantId : Uuid) (key : String) (x : World) : Prop :=
  ∀ f ∈ x.core.listing, ∀ event, x.core.event f.eventId = some event →
    event.Keyed tenantId key → (∃ r, Command.xadd f ∈ x.left r) ∨
      x.core.Appended env.settings.streamShards f

/-- An XADD that is next in a loop finds the delivery pushed. -/
theorem Consistent.appends_pushed (inv : Consistent env x) {r : Nat} {q : Ingest} {id : Uuid}
    {f : Fields} {rest : List Command} (running : x.requests r = some (.ingest q))
    (pc : q.pc = .enqueue id (.xadd f :: rest)) : x.core.Known f := by
  have sound := inv.jobs r _ running
  simp only [Request.job, Ingest.job, pc] at sound
  exact sound.1

theorem Promised.step (promised : Promised env tenantId key x) (tracked : Tracked x)
    (inv : Consistent env x) (complete : LoopsComplete tenantId key x l)
    (change : Change env x y l) (appends : Appends env x y l) :
    Promised env tenantId key y := by
  intro f listed event found keyed
  -- a row that was there before: its event is the same, and what is appended stays so
  have old : f ∈ x.core.listing → (∃ r, Command.xadd f ∈ x.left r) ∨
      y.core.Appended env.settings.streamShards f := by
    intro before
    obtain ⟨row, inTable, fields⟩ := List.mem_map.mp before
    obtain ⟨⟨e, present⟩, ordering⟩ := inv.core.rows row inTable
    have eventId : row.eventId = f.eventId := congrArg Fields.eventId fields
    have endpointId : row.endpointId = f.endpointId := congrArg Fields.endpointId fields
    rw [eventId] at present
    have same := (change.extends.events present).symm.trans found
    cases same
    exact (promised f before event present keyed).imp_right
      (·.mono change.extends (endpointId ▸ ordering))
  cases appends with
  | none listing events log only left =>
    rcases old (listing ▸ listed) with ⟨r, promise⟩ | appended
    · rcases left.kept r f promise with kept | failed
      · exact Or.inl ⟨r, kept⟩
      · obtain ⟨_, q, running, ofRequest, commands, pc, member⟩ := tracked.left promise
        have present : x.core.event f.eventId = some event := by
          simpa only [Core.event, events] using found
        have none_left := complete r q failed running (ofRequest.keyed present keyed)
        simp only [Ingest.left, pc] at none_left
        exact absurd (none_left ▸ member) List.not_mem_nil
    · exact Or.inr appended
  | @append r q id g rest running pc goes others core =>
    have before : f ∈ x.core.listing := by
      rw [core] at listed
      exact listed
    rcases old before with ⟨r', promise⟩ | appended
    · by_cases mine : r' = r
      · subst mine
        rw [left_of_ingest running] at promise
        simp only [Ingest.left, pc] at promise
        rcases List.mem_cons.mp promise with same | later
        · cases same
          refine Or.inr ⟨?_, [], x.core.log, congrArg Core.log core, fun ordered => ?_⟩
          · rw [core]
            simp [Core.enqueueDelivery, Queues.xadd_streams]
          · rw [core] at ordered
            exact (inv.appends_pushed running pc).pushed_of_ordered ordered
        · refine Or.inl ⟨r', ?_⟩
          rw [left_of_ingest goes]
          exact later
      · refine Or.inl ⟨r', ?_⟩
        simp only [World.left, others r' mine]
        exact promise
    · exact Or.inr appended
  | @commit r q event' endpoints deliveries running pc goes others core =>
    rw [core] at listed
    simp only [Core.listing, Core.commitEvent, List.map_append] at listed
    rcases List.mem_append.mp listed with before | new
    · rcases old before with ⟨r', promise⟩ | appended
      · have ne : r' ≠ r := by
          rintro rfl
          rw [left_of_ingest running] at promise
          simp only [Ingest.left, pc] at promise
          exact List.not_mem_nil promise
        refine Or.inl ⟨r', ?_⟩
        simp only [World.left, others r' ne]
        exact promise
      · exact Or.inr appended
    · obtain ⟨d, member, rfl⟩ := List.mem_map.mp new
      refine Or.inl ⟨r, ?_⟩
      rw [left_of_ingest goes]
      exact Ingest.mem_commands.mpr ⟨d, member, rfl⟩

theorem tracked_run {guard : World → Label → Prop} {shardOf : Nat → Nat}
    (run : Run (World.step env) guard (initial shardOf) x) : Tracked x :=
  run.invariant_under (I := Consistent env) (J := Tracked) (consistent_initial env shardOf)
    (fun _ _ running => by cases running) (fun inv _ next => inv.step (step_change next))
    (fun inv tracked _ next => tracked.step inv next)

theorem promised_run {shardOf : Nat → Nat}
    (run : Run (World.step env) (LoopsComplete tenantId key) (initial shardOf) x) :
    Promised env tenantId key x := by
  refine run.invariant_under (I := fun x => Consistent env x ∧ Tracked x)
    (J := Promised env tenantId key) ⟨consistent_initial env shardOf, ?_⟩ ?_ ?_ ?_
  · exact fun _ _ running => by cases running
  · exact fun _ listed => absurd listed List.not_mem_nil
  · exact fun inv _ next => ⟨inv.1.step (step_change next), inv.2.step inv.1 next⟩
  · exact fun inv promised complete next =>
      promised.step inv.2 inv.1 complete (step_change next) (step_appends next)

/-- Where loops run to their end: once a request with the key was accepted and
none is running, every delivery of the event has been appended. -/
theorem accepted_enqueued {shardOf : Nat → Nat} {r : Nat} {q : Ingest} {id : Uuid}
    (run : Run (World.step env) (LoopsComplete tenantId key) (initial shardOf) x)
    (request : x.requests r = some (.ingest q)) (keyed : q.Keyed tenantId key)
    (accepted : q.pc = .accepted id)
    (idle : ∀ r q, x.requests r = some (.ingest q) → q.Keyed tenantId key → q.Finished) :
    ∀ d ∈ x.store.db.deliveries, d.eventId = id →
      x.core.Appended env.settings.streamShards d.fields := by
  intro d listed same
  have tracked : Tracked x := tracked_run run
  have tracks := tracked r q request
  unfold Ingest.Tracks at tracks
  simp only [accepted] at tracks
  obtain ⟨event, found, tenant, eventKey⟩ := tracks
  have mine : event.Keyed tenantId key := ⟨tenant.trans keyed.1, eventKey.trans keyed.2⟩
  have row : d.fields ∈ x.core.listing := List.mem_map_of_mem listed
  have ofRow : x.core.event d.fields.eventId = some event := by
    change x.core.event d.eventId = some event
    rw [same]
    exact found
  rcases promised_run run d.fields row event ofRow mine with ⟨r', promise⟩ | appended
  · obtain ⟨_, q', running, ofRequest, commands, pc, _⟩ := tracked.left promise
    have finished := idle r' q' running (ofRequest.keyed ofRow mine)
    simp only [Ingest.Finished, pc] at finished
  · exact appended

/-! A repeated request, after a loop that completes and after one that does not -/

def keyedEvent : EventCreate := ⟨"order.created", "payload", some "key"⟩

/-- Lookup, endpoint query and commit of the first request. -/
def committed (e : Endpoint) : List Label :=
  [.createTenant { id := 2 }, .createEndpoint e, .arrive 0 (.ingest 2 keyedEvent), .serve 0 [],
    .serve 0 [10, 11], .serve 0 []]

/-- The second request is accepted by its lookup. -/
def repeated : List Label := [.arrive 1 (.ingest 2 keyedEvent), .serve 1 []]

def acceptedWith (id : Uuid) : Option Request → Bool
  | some (.ingest q) => decide (q = ⟨2, keyedEvent, .accepted id⟩)
  | _ => false

theorem acceptedWith_sound {id : Uuid} {o : Option Request} (checked : acceptedWith id o = true) :
    o = some (.ingest ⟨2, keyedEvent, .accepted id⟩) := by
  unfold acceptedWith at checked
  split at checked
  · rw [of_decide_eq_true checked]
  · cases checked

def finished : Option Request → Bool
  | some (.ingest q) =>
    match q.pc with
    | .accepted _ | .failed _ => true
    | _ => false
  | _ => true

theorem finished_sound {o : Option Request} {q : Ingest} (checked : finished o = true)
    (running : o = some (.ingest q)) : q.Finished := by
  subst running
  unfold Ingest.Finished
  cases pc : q.pc <;> simp [finished, pc] at checked ⊢

def unfailed (_ : World) : Label → Bool
  | .fail _ => false
  | _ => true

theorem accepted_enqueued_repeated : ∃ x : World,
    Run (World.step headerless) (LoopsComplete 2 "key") (initial (fun _ => 3)) x ∧
      (∃ d ∈ x.store.db.deliveries, d.eventId = 10) ∧
      ∀ d ∈ x.store.db.deliveries, d.eventId = 10 →
        x.core.Appended headerless.settings.streamShards d.fields := by
  have evaluates : (exec (World.step headerless) unfailed
      (committed queueShop ++ serves 0 3 ++ repeated) (initial (fun _ => 3))).elim false
      (fun x => acceptedWith 10 (x.requests 0) && acceptedWith 10 (x.requests 1) &&
        decide (∃ d ∈ x.store.db.deliveries, d.eventId = 10)) = true := by
    decide +kernel
  obtain ⟨x, executed, passes⟩ := reached evaluates
  simp only [Bool.and_eq_true, decide_eq_true_eq] at passes
  obtain ⟨⟨first, second⟩, row⟩ := passes
  have sound : ∀ {x l}, Untouched 0 2 x → Within 0 2 l = true → unfailed x l = true →
      LoopsComplete 2 "key" x l := by
    rintro x l _ _ checked r q rfl
    cases checked
  have run := schedule_run (untouched_initial 0 2 _) (by decide) sound executed
  have idle : ∀ r q, x.requests r = some (.ingest q) → q.Keyed 2 "key" → q.Finished := by
    intro r q running _
    have inside := run.2.running running
    match r, inside with
    | 0, _ =>
      rw [acceptedWith_sound first] at running
      cases running
      trivial
    | 1, _ =>
      rw [acceptedWith_sound second] at running
      cases running
      trivial
  exact ⟨x, run.1, row,
    accepted_enqueued run.1 (acceptedWith_sound second) ⟨rfl, rfl⟩ rfl idle⟩

/-- The first request fails at its first Redis call. The second one is accepted,
nothing is running, and the delivery of the event was never appended. -/
theorem accepted_not_enqueued : ∃ (x : World) (d : Delivery),
    Run (World.step headerless) (fun _ _ => True) (initial (fun _ => 3)) x ∧
      x.requests 1 = some (.ingest ⟨2, keyedEvent, .accepted 10⟩) ∧
      (∀ r q, x.requests r = some (.ingest q) → q.Finished) ∧
      x.store.db.delivery 11 = some d ∧ d.eventId = 10 ∧
      ∀ source f, f.deliveryId = 11 → LogEntry.xadd source f ∉ x.store.log := by
  have evaluates : (exec (World.step headerless) (fun _ _ => true)
      (committed shop ++ [.fail 0] ++ repeated) (initial (fun _ => 3))).elim false
      (fun x => finished (x.requests 0) && acceptedWith 10 (x.requests 1) &&
        decide ((x.store.db.delivery 11).map Delivery.eventId = some 10 ∧ x.store.log = [])) =
      true := by
    decide +kernel
  obtain ⟨x, executed, passes⟩ := reached evaluates
  simp only [Bool.and_eq_true, decide_eq_true_eq] at passes
  obtain ⟨⟨first, second⟩, row, log⟩ := passes
  obtain ⟨d, found, same⟩ := Option.map_eq_some_iff.mp row
  have sound : ∀ {x l}, Untouched 0 2 x → Within 0 2 l = true →
    (fun _ _ => true) x l = true →
      (fun (_ : World) (_ : Label) => True) x l := fun _ _ _ => trivial
  have run := schedule_run (untouched_initial 0 2 _) (by decide) sound executed
  refine ⟨x, d, run.1, acceptedWith_sound second, fun r q running => ?_, found, same, ?_⟩
  · have inside := run.2.running running
    match r, inside with
    | 0, _ => exact finished_sound first running
    | 1, _ =>
      rw [acceptedWith_sound second] at running
      cases running
      trivial
  · intro source f _ logged
    rw [log] at logged
    exact List.not_mem_nil logged

end World

end Relay
