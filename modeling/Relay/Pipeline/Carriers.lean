import Relay.Pipeline.History

/-!
# What carries a delivery

A delivery travels as a stream entry or as a member of the retry set. Across a
step an entry stays where it is; a member stays, becomes a new entry, or is
removed by a replay that has its own entry to append.
-/

namespace Relay

open Enqueue RetryQueue Worker Api

/-- The handling goes on to the acknowledgement whatever becomes of the row. -/
def Worker.Session.Discharged : Session → Prop
  | .refreshing _ _ | .recording _ _ | .popping _ _ | .leaving true => True
  | _ => False

namespace World

variable {env : Env} {l : Label} {x y : World}

/-- Entry `i` of the stream of shard `n`. -/
def Entry (x : World) (n i : Nat) (f : Fields) : Prop :=
  (x.core.queues.streams n).entries[i]? = some f

def Unacked (x : World) (n i : Nat) : Prop := (x.core.queues.streams n).Unacked i

def Retrying (x : World) (m : Member) : Prop := x.core.queues.retries.Mem m

/-- The delivery has been XADDed. -/
def Added (x : World) (id : Uuid) : Prop := ∃ n i f, x.Entry n i f ∧ f.deliveryId = id

theorem Handles.entry (inv : Consistent env x) {w : Nat} {h : Handling} (handles : x.Handles w h) :
    x.Entry (x.shard w) h.messageId h.fields := inv.held w _ handles.mem_held

theorem Handles.unacked (excl : Exclusive x) {w : Nat} {h : Handling} (handles : x.Handles w h) :
    x.Unacked (x.shard w) h.messageId := Or.inr (excl.pending w _ handles.holds)

theorem Entry.unique {n i : Nat} {f g : Fields} (first : x.Entry n i f) (second : x.Entry n i g) :
    f = g := Option.some.inj (first.symm.trans second)

/-- A step appends entries that nobody has read. -/
theorem Change.new_unread (change : Change env x y l) {n i : Nat} {f : Fields}
    (entry : y.Entry n i f) (new : ∀ f, ¬ x.Entry n i f) :
    (y.core.queues.streams n).Unread i := by
  have inside : i < (y.core.queues.streams n).entries.length :=
    (List.getElem?_eq_some_iff.mp entry).1
  have beyond : (x.core.queues.streams n).entries.length ≤ i := by
    by_contra short
    exact new _ (List.getElem?_eq_getElem (Nat.lt_of_not_le short))
  have older := (x.core.queues.streams n).delivered_le
  have appended : (y.core.queues.streams n).entries ≠ (x.core.queues.streams n).entries := by
    intro same
    rw [same] at inside
    omega
  cases change.grows n with
  | same same => exact absurd (congrArg StreamLog.entries same) appended
  | added last _ => exact ⟨by omega, inside⟩
  | read _ _ _ now => exact absurd (now ▸ StreamLog.xreadgroup_entries _ _ _) appended
  | claim _ _ now => exact absurd (now ▸ StreamLog.xclaim_entries _ _ _ _) appended
  | ack _ now => exact absurd (now ▸ StreamLog.xack_entries _ _) appended

/-- Nobody handles an entry that nobody has read. -/
theorem Exclusive.unread (excl : Exclusive x) {n i : Nat}
    (unread : (x.core.queues.streams n).Unread i) {w : Nat} {h : Handling}
    (handles : x.Handles w h) (shard : x.shard w = n) : h.messageId ≠ i := by
  rintro rfl
  have below := (excl.pending w _ handles.holds).lt
  have same : x.streamOf w = x.core.queues.streams n := congrArg x.core.queues.streams shard
  rw [same] at below
  exact Nat.not_lt_of_le unread.1 below

/-- An entry has one handler. -/
theorem Exclusive.handler (excl : Exclusive x) {w w' : Nat} {h h' : Handling}
    (handles : x.Handles w h) (handles' : x.Handles w' h') (shard : x.shard w' = x.shard w)
    (entry : h'.messageId = h.messageId) : w' = w ∧ h' = h := by
  have same : w' = w := excl.apart w' w _ shard handles'.holds (entry ▸ handles.holds)
  subst same
  exact ⟨rfl, Option.some.inj (handles'.symm.trans handles)⟩

/-- What becomes of a member of the retry set. -/
inductive Leaves (env : Env) (x y : World) (l : Label) (m : Member) : Prop
  | kept (present : y.Retrying m)
  | moved {now : ℚ} {limit i : Nat} (label : l = .schedule now limit)
      (entry : y.Entry m.shard i m.fields) (new : ∀ f, ¬ x.Entry m.shard i f)
  | removed {r : Nat} {ids : List Uuid} {q q' : Request} {source : Source} {rest : List Command}
      (label : l = .serve r ids) (running : x.requests r = some q)
      (job : q.job env.settings.streamShards = .enqueueing source (.zrem m :: rest))
      (goes : y.requests r = some q')
      (next : q'.job env.settings.streamShards = .enqueueing source rest)

theorem Change.leaves (change : Change env x y l) {m : Member} (present : x.Retrying m) :
    Leaves env x y l m := by
  have quiet : y.core.queues.retries = x.core.queues.retries → Leaves env x y l m := by
    intro same
    exact .kept (by unfold Retrying; rwa [same])
  cases change with
  | admin _ _ _ _ core | arrive _ core | read _ _ _ core | claim _ _ _ _ _ core
  | take _ _ _ core | raise _ _ core | drop _ _ core | fail _ _ core =>
    exact quiet (congrArg (fun c => c.queues.retries) core)
  | @work w c h pc _ _ _ move _ _ =>
    have grows : ∀ {m' : Member} {dueAt : ℚ}, y.core = x.core.scheduleRetry m' dueAt →
        Leaves env x y (.work w c) m := by
      intro m' dueAt core
      refine .kept ?_
      unfold Retrying
      rw [core]
      exact ZSet.mem_zadd.mpr (Or.inl present)
    generalize h.pc.session = q at move
    generalize core : y.core = c' at move
    generalize pc.session = q' at move
    cases move with
    | deferWaiting | deferGated | schedule => exact grows core
    | _ => exact quiet (congrArg (fun c => c.queues.retries) core)
  | @schedule now limit _ core _ _ =>
    have moved := @Queues.moveDueToStreams_moved _ now limit _ present
    rcases moved with still | ⟨i, beyond, entry⟩
    · exact .kept (by unfold Retrying; rw [core]; exact still)
    · refine .moved (i := i) rfl ?_ (fun f old => ?_)
      · unfold Entry
        rw [core]
        exact entry
      · exact Nat.not_lt_of_le beyond (List.getElem?_eq_some_iff.mp old).1
  | @serve r ids q q' _ running move _ requests =>
    have goes : y.requests r = some q' := by rw [requests, Function.update_self]
    generalize job : Request.job _ q = j, core : y.core = c, next : Request.job _ q' = j' at move
    cases move with
    | requeue => exact quiet (by rw [core, streams_commitRequeued])
    | @exec source command rest =>
      cases command with
      | zrem m' =>
        by_cases same : m = m'
        · subst same
          exact .removed rfl running job goes next
        · refine .kept ?_
          unfold Retrying
          rw [core]
          exact ZSet.mem_zrem.mpr ⟨present, same⟩
      | _ => exact quiet (congrArg (fun c => c.queues.retries) core)
    | _ => exact quiet (congrArg (fun c => c.queues.retries) core)

/-- What becomes of a request. -/
inductive Proceeds (env : Env) (x y : World) (l : Label) (r : Nat) (q : Request) : Prop
  | kept (running : y.requests r = some q)
  | moved {ids : List Uuid} {q' : Request} (label : l = .serve r ids)
      (goes : y.requests r = some q')
      (move : JobMove env.settings.streamShards x.store (q.job env.settings.streamShards) y.core
        (q'.job env.settings.streamShards))
  | failed {q' : Request} (label : l = .fail r) (goes : y.requests r = some q')
      (ended : q'.job env.settings.streamShards = .ended)

theorem Change.proceeds (change : Change env x y l) {r : Nat} {q : Request}
    (running : x.requests r = some q) : Proceeds env x y l r q := by
  have others : ∀ {r₀ : Nat} {q' : Request}, r ≠ r₀ →
      y.requests = Function.update x.requests r₀ (some q') → y.requests r = some q := by
    intro r₀ q' ne requests
    rw [requests, Function.update_of_ne ne]
    exact running
  cases change with
  | admin _ _ _ _ _ _ requests | read _ _ _ _ _ requests | claim _ _ _ _ _ _ _ requests
  | take _ _ _ _ _ requests | work _ _ _ _ _ requests | raise _ _ _ _ requests
  | drop _ _ _ _ _ _ requests | schedule _ _ _ requests => exact .kept (requests ▸ running)
  | @arrive r₀ _ _ _ _ free requests =>
    by_cases mine : r = r₀
    · rw [mine, free] at running
      cases running
    · exact .kept (others mine requests)
  | @serve r₀ _ old new _ found move _ requests =>
    by_cases mine : r = r₀
    · subst mine
      rw [running] at found
      cases found
      exact .moved rfl (by rw [requests, Function.update_self]) move
    · exact .kept (others mine requests)
  | @fail r₀ old new _ found _ ended _ requests =>
    by_cases mine : r = r₀
    · subst mine
      exact .failed rfl (by rw [requests, Function.update_self]) ended
    · exact .kept (others mine requests)

/-- The entry that an XADD appends. -/
theorem entry_enqueueDelivery {streamShards : Nat} {source : Source} {f : Fields}
    (core : y.core = x.core.enqueueDelivery streamShards source f) :
    ∃ i, y.Entry (shardFor streamShards f.endpointId) i f ∧
      ∀ g, ¬ x.Entry (shardFor streamShards f.endpointId) i g := by
  refine ⟨_, ?_, fun g old => Nat.lt_irrefl _ (List.getElem?_eq_some_iff.mp old).1⟩
  unfold Entry
  rw [core]
  simp [Core.enqueueDelivery, Queues.xadd_streams]

end World

end Relay
