import Relay.Pipeline.Carriers
import Mathlib.Logic.Relation
import Mathlib.Order.Filter.AtTopBot.Basic

/-!
# One worker on its own

What a live worker can bring about while nothing else moves but the clock and the
scheduler. It drops what it holds, it gets hold of any entry of its shard that
is not acknowledged, and it carries out a handling whose awaits all answer.
-/

namespace Relay

open Enqueue RetryQueue Worker Transition

/-- Three exceptions end any handling. -/
theorem Worker.Pc.onRaise_ends (pc : Pc) : pc.onRaise.onRaise.onRaise = .finished := by
  have unlocked : ∀ v b, (Pc.unlock v b).onRaise.onRaise = .finished := by
    intro v b
    unfold Pc.unlock
    split <;> rfl
  cases pc with
  | allowRequest | getState | disable | loadTenant | takeToken | loadTenantAgain | acquireSlot
  | deferGated => exact unlocked _ _
  | _ => rfl

/-- Some answer of the surroundings leads from the one to the other. -/
def Worker.Answers (env : Env) (clock : ℚ) (shard messageId : Nat) (id : Uuid)
    (before after : Store × Pc) : Prop :=
  ∃ c, before.2.step env clock c shard messageId id before.1 = some after

namespace World

/-- Only this worker, the scheduler and the clock move, and the worker lives. -/
def Alone (w : Nat) (_ : World) : Label → Prop
  | .tick _ | .schedule _ _ => True
  | .read v | .claim v _ | .take v | .work v _ | .raise v => v = w
  | _ => False

/-- What worker `w` can bring about without handling anything: of the store,
only the queues change. -/
structure Brings (env : Env) (w : Nat) (x y : World) : Prop where
  path : Run (World.step env) (Alone w) x y
  store : y.store = { x.store with queues := y.store.queues }
  shard : y.shard w = x.shard w
  alive : (y.workers w).crashed = false

variable {env : Env} {w : Nat} {x y z : World}

namespace Brings

theorem refl (alive : (x.workers w).crashed = false) : Brings env w x x :=
  ⟨.refl, rfl, rfl, alive⟩

theorem trans (first : Brings env w x y) (second : Brings env w y z) : Brings env w x z where
  path := first.path.trans second.path
  store := by rw [second.store, first.store]
  shard := second.shard.trans first.shard
  alive := second.alive

end Brings

theorem setWorker_self (x : World) (w : Nat) (c : Consumer) : (x.setWorker w c).workers w = c :=
  Function.update_self _ _ _

/-- The worker after a step of its own. -/
theorem brings_setWorker {l : Label} {c : Consumer} (own : Alone w x l)
    (next : World.step env l x = some (x.setWorker w c))
    (shard : c.shard = (x.workers w).shard) (alive : c.crashed = false) :
    Brings env w x (x.setWorker w c) where
  path := .tail .refl own next
  store := rfl
  shard := (congrArg Consumer.shard (setWorker_self x w c)).trans shard
  alive := (congrArg Consumer.crashed (setWorker_self x w c)).trans alive

variable (env) in
/-- By exceptions the worker gets rid of its handling. -/
theorem drops_handling (n : Nat) {x : World} {h : Handling}
    (alive : (x.workers w).crashed = false)
    (handles : x.Handles w h) (ends : Pc.onRaise^[n] h.pc = .finished) :
    ∃ y, Brings env w x y ∧ y.store = x.store ∧ (y.workers w).current = none ∧
      (y.workers w).todo.length ≤ (x.workers w).todo.length := by
  unfold Handles at handles
  have own : Alone w x (.raise w) := rfl
  by_cases acks : h.pc = .ack
  · have next : World.step env (.raise w) x =
        some (x.setWorker w { x.workers w with todo := [], current := none }) := by
      simp [World.step, stepRaise, alive, handles, acks]
    refine ⟨_, brings_setWorker own next rfl alive, rfl, ?_, ?_⟩
    · rw [setWorker_self]
    · rw [setWorker_self]
      exact Nat.zero_le _
  have next : World.step env (.raise w) x =
      some (x.setWorker w (Consumer.goto (x.workers w) h h.pc.onRaise)) := by
    unfold World.step stepRaise
    simp only [alive, handles, Bool.false_eq_true, if_false]
  have first := brings_setWorker own next (goto_shard _ _ _) ((goto_crashed _ _ _).trans alive)
  by_cases last : h.pc.onRaise = .finished
  · refine ⟨_, first, rfl, ?_, ?_⟩
    · rw [setWorker_self, last]
      rfl
    · rw [setWorker_self, goto_todo]
  cases n with
  | zero =>
    have finished : h.pc = .finished := ends
    rw [finished] at last
    exact absurd rfl last
  | succ n =>
    have current : (x.setWorker w (Consumer.goto (x.workers w) h h.pc.onRaise)).Handles w
        { h with pc := h.pc.onRaise } := by
      unfold Handles
      rw [setWorker_self]
      exact goto_current.mpr ⟨last, rfl⟩
    rw [Function.iterate_succ_apply] at ends
    obtain ⟨y, rest, store, none, shorter⟩ := drops_handling n first.alive current ends
    refine ⟨y, first.trans rest, store, none, ?_⟩
    rw [setWorker_self, goto_todo] at shorter
    exact shorter

variable (env) in
/-- The first entry of the batch goes to `handle_message`. -/
theorem takes_entry {id : Nat} {f : Fields} {rest : List (Nat × Fields)}
    (alive : (x.workers w).crashed = false) (free : (x.workers w).current = none)
    (batch : (x.workers w).todo = (id, f) :: rest) :
    ∃ y, Brings env w x y ∧ y.store = x.store ∧ y.clock = x.clock ∧
      y.Handles w ⟨id, f, x.clock, .loadDelivery x.clock⟩ ∧ (y.workers w).todo = rest := by
  have own : Alone w x (.take w) := rfl
  have next : World.step env (.take w) x = some (x.setWorker w { x.workers w with
      todo := rest, current := some ⟨id, f, x.clock, .loadDelivery x.clock⟩ }) := by
    simp [World.step, stepBegin, alive, free, batch]
  refine ⟨_, brings_setWorker own next rfl alive, rfl, rfl, ?_, ?_⟩
  · unfold Handles
    rw [setWorker_self]
  · rw [setWorker_self]

variable (env) in
/-- The worker can be done with all that it holds. -/
theorem idles (n : Nat) {x : World} (alive : (x.workers w).crashed = false)
    (short : (x.workers w).todo.length ≤ n) :
    ∃ y, Brings env w x y ∧ y.store = x.store ∧ y.Idle w := by
  have dropped : ∃ y, Brings env w x y ∧ y.store = x.store ∧ (y.workers w).current = none ∧
      (y.workers w).todo.length ≤ n := by
    cases handles : (x.workers w).current with
    | none => exact ⟨x, .refl alive, rfl, handles, short⟩
    | some h =>
      obtain ⟨y, brings, store, free, shorter⟩ :=
        drops_handling env 3 alive handles h.pc.onRaise_ends
      exact ⟨y, brings, store, free, le_trans shorter short⟩
  obtain ⟨y, brings, store, free, shorter⟩ := dropped
  cases batch : (y.workers w).todo with
  | nil => exact ⟨y, brings, store, brings.alive, batch, by rw [free]; rfl⟩
  | cons entry rest =>
    rw [batch, List.length_cons] at shorter
    cases n with
    | zero => exact absurd shorter (Nat.not_succ_le_zero _)
    | succ n =>
      obtain ⟨y', takes, store', _, _, left⟩ := takes_entry env brings.alive free batch
      obtain ⟨y'', rests, store'', idle⟩ :=
        idles n takes.alive (left ▸ Nat.le_of_succ_le_succ shorter)
      exact ⟨y'', (brings.trans takes).trans rests, store''.trans (store'.trans store), idle⟩

/-! Getting hold of an entry -/

variable (env) in
/-- What the worker's stream keeps while it is read. -/
theorem reads_next (idle : x.Idle w)
    (unread : (x.streamOf w).lastDelivered < (x.streamOf w).entries.length) :
    ∃ y, Brings env w x y ∧ y.streamOf w = (x.streamOf w).xreadgroup w x.clock ∧
      y.Idle w := by
  have own : Alone w x (.read w) := rfl
  have next : World.step env (.read w) x = some ((x.withStore (x.store.onStream
      (x.workers w).shard (fun log => log.xreadgroup w x.clock))).setWorker w
      { x.workers w with
        batchAt := x.clock
        todo := [((x.streamOf w).lastDelivered,
          (x.streamOf w).entries[(x.streamOf w).lastDelivered])] }) := by
    simp only [World.step, stepRead, if_pos idle, List.getElem?_eq_getElem unread]
  generalize reached : (x.withStore _).setWorker w _ = y at next
  have worker : (y.workers w).shard = x.shard w ∧ (y.workers w).crashed = false ∧
      (y.workers w).todo.length ≤ 1 := by
    rw [← reached, setWorker_self]
    exact ⟨rfl, idle.1, Nat.le_refl _⟩
  have first : Brings env w x y :=
    ⟨.tail .refl own next, reached ▸ rfl, worker.1, worker.2.1⟩
  have log : y.streamOf w = (x.streamOf w).xreadgroup w x.clock := by
    have stream : y.store.queues.streams (x.shard w) = (x.streamOf w).xreadgroup w x.clock := by
      rw [← reached]
      exact Function.update_self _ _ _
    unfold streamOf
    rw [worker.1]
    exact stream
  obtain ⟨z, rests, store, idle'⟩ := idles env 1 first.alive worker.2.2
  refine ⟨z, first.trans rests, ?_, idle'⟩
  unfold streamOf
  rw [store, show (z.workers w).shard = (y.workers w).shard from rests.shard]
  exact log

variable (env) in
/-- Every entry can be made pending. -/
theorem reads_upTo (n : Nat) {x : World} {i : Nat} {f : Fields} (idle : x.Idle w)
    (entry : (x.streamOf w).entries[i]? = some f) (unacked : (x.streamOf w).Unacked i)
    (near : i < (x.streamOf w).lastDelivered + n) :
    ∃ y, Brings env w x y ∧ y.Idle w ∧ (y.streamOf w).entries[i]? = some f ∧
      (y.streamOf w).IsPending i := by
  rcases unacked with unread | pending
  · cases n with
    | zero => exact absurd unread.1 (Nat.not_le_of_lt near)
    | succ n =>
      have more := lt_of_le_of_lt unread.1 unread.2
      obtain ⟨y, reads, log, idle'⟩ := reads_next env idle more
      have still : (y.streamOf w).Unacked i := by
        rw [log, StreamLog.unacked_xreadgroup]
        exact Or.inl unread
      have further : (y.streamOf w).lastDelivered = (x.streamOf w).lastDelivered + 1 := by
        rw [log]
        simp [StreamLog.xreadgroup, more]
      obtain ⟨z, rest, found⟩ := reads_upTo n idle' (i := i) (f := f)
        (by rw [log, StreamLog.xreadgroup_entries]; exact entry) still (by omega)
      exact ⟨z, reads.trans rest, found⟩
  · exact ⟨x, .refl idle.1, idle, entry, pending⟩

variable (env) in
/-- The scheduler turns a member into an entry, however late it is due. -/
theorem schedules {m : Member} (alive : (x.workers w).crashed = false)
    (retrying : x.Retrying m) :
    ∃ y i, Brings env w x y ∧ y.Entry m.shard i m.fields ∧ y.Unacked m.shard i := by
  obtain ⟨due, listed⟩ := ZSet.mem_iff.mp retrying
  let limit := (x.store.queues.retries.upTo due).length
  have next : World.step env (.schedule due limit) x =
      some (x.withStore (x.store.moveDueToStreams due limit)) := rfl
  have change := step_change next
  have own : Alone w x (.schedule due limit) := trivial
  have first : Brings env w x (x.withStore (x.store.moveDueToStreams due limit)) :=
    ⟨.tail .refl own next, rfl, rfl, alive⟩
  have moves := Queues.moves x.store.queues due limit
  have taken : (m, due) ∈ x.store.queues.retries.lowestUpTo memberLe due limit := by
    unfold ZSet.lowestUpTo
    rw [List.take_of_length_le (by rw [List.length_insertionSort]), List.mem_insertionSort,
      ZSet.upTo, List.mem_filter]
    exact ⟨listed, by simp⟩
  have gone : ¬ (x.store.queues.moveDueToStreams due limit).retries.Mem m := by
    intro still
    obtain ⟨score, left⟩ := ZSet.mem_iff.mp still
    rw [moves.others, List.mem_filter] at left
    have absent := of_decide_eq_true left.2
    exact absent (List.mem_map.mpr ⟨_, taken, rfl⟩)
  have left := @Queues.moveDueToStreams_moved _ due limit _ retrying
  obtain ⟨i, beyond, entry⟩ := left.resolve_left gone
  have new : ∀ f, ¬ x.Entry m.shard i f := fun f old =>
    Nat.not_lt_of_le beyond (List.getElem?_eq_some_iff.mp old).1
  exact ⟨_, i, first, entry, Or.inl (change.new_unread entry new)⟩

/-- What may stand for a delivery in the queues. -/
inductive CarriedBy (x : World) (n : Nat) (f : Fields) : Prop
  | entry {i : Nat} (entry : x.Entry n i f) (unacked : x.Unacked n i)
  | member {m : Member} (retrying : x.Retrying m) (shard : m.shard = n) (fields : m.fields = f)

variable (env) in
/-- Whatever stands for a delivery, the worker of the shard has it pending. -/
theorem CarriedBy.pending {f : Fields} (carried : x.CarriedBy (x.shard w) f)
    (alive : (x.workers w).crashed = false) :
    ∃ y i, Brings env w x y ∧ y.Idle w ∧ (y.streamOf w).entries[i]? = some f ∧
      (y.streamOf w).IsPending i := by
  have listed : ∃ y i, Brings env w x y ∧ y.Entry (x.shard w) i f ∧
      y.Unacked (x.shard w) i := by
    cases carried with
    | @entry i entry unacked => exact ⟨x, i, .refl alive, entry, unacked⟩
    | member retrying shard fields =>
      obtain ⟨y, i, brings, entry, unacked⟩ := schedules env alive retrying
      exact ⟨y, i, brings, fields ▸ shard ▸ entry, shard ▸ unacked⟩
  obtain ⟨y, i, brings, entry, unacked⟩ := listed
  obtain ⟨z, rests, store, idle⟩ :=
    idles env _ brings.alive (Nat.le_refl (y.workers w).todo.length)
  have stream : z.streamOf w = y.core.queues.streams (x.shard w) := by
    unfold streamOf
    rw [store, show (z.workers w).shard = x.shard w from rests.shard.trans brings.shard]
    rfl
  obtain ⟨v, reads, idle', found, pending⟩ := reads_upTo env (i + 1) idle
    (i := i) (f := f) (stream ▸ entry) (stream ▸ unacked) (by omega)
  exact ⟨v, i, (brings.trans rests).trans reads, idle', found, pending⟩

end World

end Relay
