import Relay.Pipeline.Change

/-!
# Entries in the hands of workers

When entries are claimed only from workers that no longer hold them, every
entry is held by at most one worker, once, and is pending as long as it is held.
-/

namespace Relay.World

open Enqueue RetryQueue Worker Api

variable {env : Env} {l : Label} {x y : World}

def Holds (x : World) (w id : Nat) : Prop := id ∈ (x.held w).map Prod.fst

/-- XAUTOCLAIM takes no entry that a live worker of the shard still holds. -/
def ClaimsReleased (x : World) (l : Label) : Prop :=
  ∀ w ids, l = .claim w ids → ∀ id ∈ ids, ∀ w', x.shard w' = x.shard w →
    ¬ x.Holds w' id

theorem Handles.holds {w : Nat} {h : Handling} (handles : x.Handles w h) :
    x.Holds w h.messageId := by
  unfold Handles at handles
  simp [Holds, held, Consumer.held, handles]

theorem Idle.held_nil {w : Nat} (idle : x.Idle w) : x.held w = [] := by
  obtain ⟨_, todo, current⟩ := idle
  simp [held, Consumer.held, todo, Option.isNone_iff_eq_none.mp current]

theorem Change.shard (change : Change env x y l) (w : Nat) : y.shard w = x.shard w := by
  have update : ∀ {w₀ : Nat} {c : Consumer}, c.shard = x.shard w₀ →
      y.workers = Function.update x.workers w₀ c → y.shard w = x.shard w := by
    intro w₀ c same workers
    by_cases mine : w = w₀
    · subst mine
      simpa [World.shard, workers] using same
    · simp [World.shard, workers, mine]
  cases change with
  | admin _ _ _ _ _ workers _ | arrive _ _ workers _ _ | schedule _ _ workers _
  | serve _ _ _ workers _ | fail _ _ _ _ workers _ => simp [World.shard, workers]
  | read _ _ _ _ workers _ | claim _ _ _ _ _ _ workers _ | take _ _ _ _ workers _ =>
    exact update (by rfl) workers
  | work _ _ _ _ workers _ | raise _ _ _ workers _ => exact update (goto_shard _ _ _) workers
  | drop _ _ _ _ shard workers _ => exact update shard workers

/-- When the worker obtained the batch that it holds. -/
def batchAt (x : World) (w : Nat) : ℚ := (x.workers w).batchAt

/-- What a worker holds after a step. -/
inductive Hands (x y : World) (l : Label) (w : Nat) : Prop
  | fewer (sub : (y.held w).Sublist (x.held w))
      (batch : y.held w ≠ [] → y.batchAt w = x.batchAt w)
  | read {f : Fields} (label : l = .read w) (idle : x.Idle w)
      (next : (x.streamOf w).entries[(x.streamOf w).lastDelivered]? = some f)
      (now : y.held w = [((x.streamOf w).lastDelivered, f)]) (batch : y.batchAt w = x.clock)
  | claim {ids : List Nat} (label : l = .claim w ids) (idle : x.Idle w)
      (distinct : ids.Nodup)
      (stale : ∀ id ∈ ids, (x.streamOf w).Stale (reclaimMinIdleMs / 1000) x.clock id)
      (now : y.held w = ids.filterMap
        (fun id => ((x.streamOf w).entries[id]?).map (fun f => (id, f))))
      (batch : y.batchAt w = x.clock)

theorem held_update_ne {w w' : Nat} {c : Consumer} (ne : w' ≠ w)
    (workers : y.workers = Function.update x.workers w c) : y.held w' = x.held w' := by
  simp [held, workers, ne]

theorem held_update_self {w : Nat} {c : Consumer}
    (workers : y.workers = Function.update x.workers w c) : y.held w = c.held := by
  simp [held, workers]

theorem goto_held {c : Consumer} {h : Handling} {pc : Pc} (handles : c.current = some h) :
    (Consumer.goto c h pc).held.Sublist c.held := by
  cases pc
  all_goals
    simp only [Consumer.goto, Consumer.held, handles]
    simp

theorem Change.hands (change : Change env x y l) (w : Nat) : Hands x y l w := by
  have others : ∀ {w₀ : Nat} {c : Consumer}, w ≠ w₀ →
      y.workers = Function.update x.workers w₀ c → Hands x y l w := by
    intro w₀ c ne workers
    refine .fewer (held_update_ne ne workers ▸ List.Sublist.refl _) (fun _ => ?_)
    simp [batchAt, workers, ne]
  cases change with
  | admin _ _ _ _ _ workers _ | arrive _ _ workers _ _ | schedule _ _ workers _
  | serve _ _ _ workers _ | fail _ _ _ _ workers _ =>
    refine .fewer ?_ (fun _ => ?_)
    · simp [held, workers]
    · simp [batchAt, workers]
  | @read w₀ f _ idle next _ workers _ =>
    by_cases mine : w = w₀
    · subst mine
      have free := Option.isNone_iff_eq_none.mp idle.2.2
      refine .read rfl idle next ?_ (by simp [batchAt, workers])
      rw [held_update_self workers]
      simp [Consumer.held, free]
    · exact others mine workers
  | @claim w₀ ids _ idle distinct _ stale _ workers _ =>
    by_cases mine : w = w₀
    · subst mine
      have free := Option.isNone_iff_eq_none.mp idle.2.2
      refine .claim rfl idle distinct stale ?_ (by simp [batchAt, workers])
      rw [held_update_self workers]
      simp [Consumer.held, free]
    · exact others mine workers
  | @take w₀ id f rest _ todo free _ workers _ =>
    by_cases mine : w = w₀
    · subst mine
      refine .fewer ?_ (fun _ => by simp [batchAt, workers])
      rw [held_update_self workers]
      simp [held, Consumer.held, todo, free]
    · exact others mine workers
  | @work w₀ _ _ _ _ handles _ _ workers _ | @raise w₀ _ _ handles _ workers _ =>
    by_cases mine : w = w₀
    · subst mine
      refine .fewer (held_update_self workers ▸ goto_held handles) (fun _ => ?_)
      simp [batchAt, workers]
    · exact others mine workers
  | @drop _ w₀ _ _ _ _ empty _ workers _ =>
    by_cases mine : w = w₀
    · subst mine
      have none_held : y.held w = [] := (held_update_self workers).trans empty
      exact .fewer (none_held ▸ List.nil_sublist _) (fun some_held => absurd none_held some_held)
    · exact others mine workers

/-- A newly held entry was read or claimed just now. -/
theorem Change.holds (change : Change env x y l) {w id : Nat} (holds : y.Holds w id) :
    x.Holds w id ∨ (l = .read w ∧ id = (x.streamOf w).lastDelivered ∧
        id < (x.streamOf w).entries.length) ∨
      ∃ ids, l = .claim w ids ∧ id ∈ ids ∧
        (x.streamOf w).Stale (reclaimMinIdleMs / 1000) x.clock id := by
  unfold Holds at holds ⊢
  cases change.hands w with
  | fewer sub _ => exact Or.inl ((sub.map Prod.fst).subset holds)
  | read label _ next now _ =>
    refine Or.inr (Or.inl ?_)
    have same : id = (x.streamOf w).lastDelivered := by simpa [now] using holds
    have bound := (List.getElem?_eq_some_iff.mp next).1
    exact ⟨label, same, same ▸ bound⟩
  | @claim ids label _ _ stale now _ =>
    refine Or.inr (Or.inr ⟨ids, label, ?_⟩)
    rw [now] at holds
    obtain ⟨e, listed, rfl⟩ := List.mem_map.mp holds
    obtain ⟨a, ha, found⟩ := List.mem_filterMap.mp listed
    obtain ⟨f, _, same⟩ := Option.map_eq_some_iff.mp found
    subst same
    exact ⟨ha, stale a ha⟩

/-! Pending lists and unacknowledged entries -/

/-- The step acknowledges this entry, and its handling ends with it. -/
structure Acks (x y : World) (l : Label) (n id : Nat) : Prop where
  acker : ∃ w c h, l = .work w c ∧ x.Handles w h ∧ x.shard w = n ∧ h.messageId = id ∧
    h.pc.session = .leaving true ∧ y.held w = (x.workers w).todo ∧ ∀ h', ¬ y.Handles w h'

/-- How the log of one shard can change. -/
inductive Grows (x y : World) (l : Label) (n : Nat) : Prop
  | same (same : y.core.queues.streams n = x.core.queues.streams n)
  | added (last : (y.core.queues.streams n).lastDelivered =
        (x.core.queues.streams n).lastDelivered)
      (pending : (y.core.queues.streams n).pending = (x.core.queues.streams n).pending)
  | read {w : Nat} (label : l = .read w) (shard : x.shard w = n)
      (unread : (x.streamOf w).lastDelivered < (x.streamOf w).entries.length)
      (now : y.core.queues.streams n = (x.core.queues.streams n).xreadgroup w x.clock)
  | claim {w : Nat} {ids : List Nat} (label : l = .claim w ids) (shard : x.shard w = n)
      (now : y.core.queues.streams n = (x.core.queues.streams n).xclaim w x.clock ids)
  | ack {id : Nat} (acks : Acks x y l n id)
      (now : y.core.queues.streams n = (x.core.queues.streams n).xack id)

theorem streams_onStream (c : Core) (shard n : Nat) (f : StreamLog Fields → StreamLog Fields) :
    (c.onStream shard f).queues.streams n =
      if n = shard then f (c.queues.streams n) else c.queues.streams n := by
  by_cases same : n = shard
  · subst same
    simp [Core.onStream]
  · simp [Core.onStream, same]

theorem Core.added_xadd (q : Queues) (shard : Nat) (f : Fields) (n : Nat) :
    ((q.xadd shard f).streams n).lastDelivered = (q.streams n).lastDelivered ∧
      ((q.xadd shard f).streams n).pending = (q.streams n).pending := by
  by_cases same : n = shard
  · subst same
    simp [Queues.xadd, StreamLog.xadd]
  · simp [Queues.xadd, same]

theorem Core.added_moveDueToStreams (q : Queues) (now : ℚ) (limit n : Nat) :
    ((q.moveDueToStreams now limit).streams n).lastDelivered = (q.streams n).lastDelivered ∧
      ((q.moveDueToStreams now limit).streams n).pending = (q.streams n).pending := by
  apply Queues.moveDueToStreams_induction
    (P := fun q' => (q'.streams n).lastDelivered = (q.streams n).lastDelivered ∧
      (q'.streams n).pending = (q.streams n).pending)
  · exact ⟨rfl, rfl⟩
  · intro q' m kept _ _
    have step := Core.added_xadd { q' with retries := q'.retries.zrem m } m.shard m.fields n
    exact ⟨step.1.trans kept.1, step.2.trans kept.2⟩

theorem streams_commitRequeued (c : Core) (rows : List Delivery) :
    (c.commitRequeued rows).queues = c.queues := by
  unfold Core.commitRequeued
  induction rows generalizing c with
  | nil => rfl
  | cons row rest ih => exact ih (c.commitDelivery .requeued row (requeued row))

theorem Change.grows (change : Change env x y l) (n : Nat) : Grows x y l n := by
  cases change with
  | admin _ _ _ _ core _ _ => exact .same (by rw [core])
  | arrive _ core | take _ _ _ core | raise _ _ core | drop _ _ core | fail _ _ core =>
    exact .same (by rw [core])
  | @read w f _ _ next core _ _ =>
    by_cases shard : n = x.shard w
    · refine .read rfl shard.symm (List.getElem?_eq_some_iff.mp next).1 ?_
      rw [core, streams_onStream, if_pos shard]
    · exact .same (by rw [core, streams_onStream, if_neg shard])
  | @claim w ids _ _ _ _ _ core _ _ =>
    by_cases shard : n = x.shard w
    · refine .claim rfl shard.symm ?_
      rw [core, streams_onStream, if_pos shard]
    · exact .same (by rw [core, streams_onStream, if_neg shard])
  | @work w c h pc _ handles step move workers _ =>
    generalize before : h.pc.session = q at move
    generalize after : y.core = c' at move
    generalize finished : pc.session = q' at move
    cases move with
    | ack =>
      have done : pc = .finished := Pc.session_finished.mp finished
      subst done
      by_cases shard : n = x.shard w
      · have released : y.held w = (x.workers w).todo := held_update_self workers
        have ended : ∀ h', ¬ y.Handles w h' := fun h' now =>
          (goto_current.mp ((handles_update_self workers).mp now)).1 rfl
        have acks : Acks x y (.work w c) n h.messageId :=
          ⟨w, c, h, rfl, handles, shard.symm, rfl, before, released, ended⟩
        refine .ack acks ?_
        rw [after, streams_onStream, if_pos shard]
      · refine .same ?_
        rw [after, streams_onStream, if_neg shard]
    | _ => exact .same (congrArg (fun c => c.queues.streams n) after)
  | @schedule now limit _ core _ _ =>
    have added := Core.added_moveDueToStreams x.core.queues now limit n
    exact .added (by rw [core]; exact added.1) (by rw [core]; exact added.2)
  | @serve _ _ q q' _ _ move _ _ =>
    generalize Request.job _ q = j, after : y.core = c', Request.job _ q' = j' at move
    cases move with
    | requeue =>
      refine .same ?_
      rw [after, streams_commitRequeued]
    | @exec source command rest =>
      cases command with
      | xadd f =>
        have added := Core.added_xadd x.core.queues
          (shardFor env.settings.streamShards f.endpointId) f n
        exact .added (by rw [after]; exact added.1) (by rw [after]; exact added.2)
      | _ => exact .same (congrArg (fun c => c.queues.streams n) after)
    | _ => exact .same (congrArg (fun c => c.queues.streams n) after)

/-- Pending entries stay pending until they are acknowledged. -/
theorem Change.isPending (change : Change env x y l) {n id : Nat}
    (pending : (x.core.queues.streams n).IsPending id) :
    (y.core.queues.streams n).IsPending id ∨ Acks x y l n id := by
  cases change.grows n with
  | same same => exact Or.inl (same ▸ pending)
  | added _ same =>
    left
    unfold StreamLog.IsPending at pending ⊢
    rwa [same]
  | read _ shard unread now =>
    subst shard
    exact Or.inl (now ▸ (StreamLog.isPending_xreadgroup unread _ _ _).mpr (Or.inl pending))
  | claim _ _ now => exact Or.inl (now ▸ (StreamLog.isPending_xclaim _ _ _ _ _).mpr pending)
  | @ack acked acks now =>
    by_cases mine : id = acked
    · exact Or.inr (mine ▸ acks)
    · exact Or.inl (now ▸ (StreamLog.isPending_xack _ _ _).mpr ⟨pending, mine⟩)

/-- Unacknowledged entries stay so until they are acknowledged. -/
theorem Change.unacked (change : Change env x y l) {n id : Nat}
    (unacked : (x.core.queues.streams n).Unacked id) :
    (y.core.queues.streams n).Unacked id ∨ Acks x y l n id := by
  rcases unacked with unread | pending
  · cases change.grows n with
    | same same => exact Or.inl (same ▸ Or.inl unread)
    | added last _ =>
      refine Or.inl (Or.inl ⟨last ▸ unread.1, ?_⟩)
      exact Nat.lt_of_lt_of_le unread.2 (change.extends.entries n).length_le
    | read _ _ _ now =>
      exact Or.inl (now ▸ (StreamLog.unacked_xreadgroup _ _ _ _).mpr (Or.inl unread))
    | claim _ _ now =>
      exact Or.inl (now ▸ (StreamLog.unacked_xclaim _ _ _ _ _).mpr (Or.inl unread))
    | ack _ now => exact Or.inl (now ▸ Or.inl unread)
  · rcases change.isPending pending with still | acks
    · exact Or.inl (Or.inr still)
    · exact Or.inr acks

/-! The invariant -/

theorem map_fst_lookups {A B : Type} (f : A → Option B) (keys : List A) :
    (keys.filterMap (fun a => (f a).map (fun b => (a, b)))).map Prod.fst =
      keys.filter (fun a => (f a).isSome) := by
  induction keys with
  | nil => rfl
  | cons a rest ih => cases found : f a <;> simp [found, ih]

theorem Change.read_pending {w : Nat} (change : Change env x y (.read w)) :
    (y.core.queues.streams (x.shard w)).IsPending (x.streamOf w).lastDelivered := by
  cases change with
  | admin label => exact label.elim
  | read _ _ next core _ _ =>
    rw [core, streams_onStream, if_pos rfl]
    have unread := (List.getElem?_eq_some_iff.mp next).1
    exact (StreamLog.isPending_xreadgroup unread _ _ _).mpr (Or.inr rfl)
  | drop label => rcases label with same | same <;> cases same

structure Exclusive (x : World) : Prop where
  once : ∀ w, ((x.held w).map Prod.fst).Nodup
  apart : ∀ w w' id, x.shard w = x.shard w' → x.Holds w id → x.Holds w' id → w = w'
  pending : ∀ w id, x.Holds w id → (x.streamOf w).IsPending id

theorem exclusive_initial (shardOf : Nat → Nat) : Exclusive (initial shardOf) where
  once := fun w => List.nodup_nil
  apart := by
    intro w w' id _ holds _
    simp [Holds, held, Consumer.held, initial] at holds
  pending := by
    intro w id holds
    simp [Holds, held, Consumer.held, initial] at holds

theorem Change.streamOf (change : Change env x y l) (w : Nat) :
    y.streamOf w = y.core.queues.streams (x.shard w) :=
  congrArg y.core.queues.streams (change.shard w)

/-- An acknowledged entry leaves the hands of its worker. -/
theorem Exclusive.released (inv : Exclusive x) {n w id : Nat} (acks : Acks x y l n id)
    (shard : x.shard w = n) (change : Change env x y l) : ¬ y.Holds w id := by
  intro holds
  obtain ⟨w₀, c, h, rfl, handles, shard₀, rfl, _, released, _⟩ := acks.acker
  rcases change.holds holds with old | ⟨label, _⟩ | ⟨ids, label, _⟩
  · have mine : w = w₀ := inv.apart w w₀ _ (shard.trans shard₀.symm) old handles.holds
    subst mine
    unfold Holds at holds
    have once := inv.once w
    rw [released] at holds
    unfold Handles at handles
    simp only [held, Consumer.held, handles, Option.map_some, Option.toList_some,
      List.cons_append, List.nil_append, List.map_cons, List.nodup_cons] at once
    exact once.1 holds
  · cases label
  · cases label

/-- Only the reader of an entry, or its claimer, comes to hold it. -/
theorem Exclusive.step (inv : Exclusive x) (released : ClaimsReleased x l)
    (change : Change env x y l) : Exclusive y where
  once := by
    intro w
    cases change.hands w with
    | fewer sub _ => exact (inv.once w).sublist (sub.map Prod.fst)
    | read _ _ _ now _ => simp [now]
    | @claim ids _ _ distinct _ now _ =>
      rw [now]
      refine distinct.sublist ?_
      rw [map_fst_lookups]
      exact List.filter_sublist
  apart := by
    -- a reader or claimer is alone: the entry was unread, or released
    have newcomer : ∀ w w' id, x.shard w = x.shard w' → ¬ x.Holds w id → y.Holds w id →
        x.Holds w' id → False := by
      intro w w' id same absent holds held'
      rcases change.holds holds with old | ⟨_, fresh, _⟩ | ⟨ids, label, listed, _⟩
      · exact absent old
      · have bound := (inv.pending w' id held').lt
        have stream : x.streamOf w' = x.streamOf w :=
          congrArg x.core.queues.streams same.symm
        rw [stream, fresh] at bound
        exact Nat.lt_irrefl _ bound
      · exact released w ids label id listed w' same.symm held'
    intro w w' id same holds holds'
    rw [change.shard w, change.shard w'] at same
    by_cases old : x.Holds w id
    · by_cases old' : x.Holds w' id
      · exact inv.apart w w' id same old old'
      · exact (newcomer w' w id same.symm old' holds' old).elim
    · by_cases old' : x.Holds w' id
      · exact (newcomer w w' id same old holds old').elim
      · -- both are new, so both are the worker of the label
        rcases change.holds holds with held | ⟨label, _⟩ | ⟨ids, label, _⟩
        · exact absurd held old
        · rcases change.holds holds' with held | ⟨label', _⟩ | ⟨ids', label', _⟩
          · exact absurd held old'
          · rw [label] at label'
            cases label'
            rfl
          · rw [label] at label'
            cases label'
        · rcases change.holds holds' with held | ⟨label', _⟩ | ⟨ids', label', _⟩
          · exact absurd held old'
          · rw [label] at label'
            cases label'
          · rw [label] at label'
            cases label'
            rfl
  pending := by
    intro w id holds
    rw [change.streamOf w]
    have kept : (x.streamOf w).IsPending id →
        (y.core.queues.streams (x.shard w)).IsPending id := by
      intro pending
      rcases change.isPending pending with still | acks
      · exact still
      · exact absurd holds (inv.released acks rfl change)
    rcases change.holds holds with old | ⟨label, fresh, _⟩ | ⟨ids, _, _, stale⟩
    · exact kept (inv.pending w id old)
    · subst label fresh
      exact change.read_pending
    · exact kept stale.isPending

end Relay.World
