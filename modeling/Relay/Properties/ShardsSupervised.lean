import Relay.Delivery.Shards
import Relay.Lib.Transition
import Mathlib.Data.List.Nodup

/-!
# One consumer per shard

While the supervisor waits, its dictionary has one task for every shard, and a
task that is not in it has ended. Hence a shard never has two consumers in a
process, every round of the supervisor leaves it with one, and none outlives
the supervisor.
-/

namespace Relay.Shards

open Transition

namespace Supervisor

variable {s s' : Supervisor} {n : Nat} {entry : Nat × Nat}

/-- Task `i` consumes the shard, or has yet to begin to. -/
def Consumes (s : Supervisor) (i shard : Nat) : Prop :=
  ∃ t, s.created[i]? = some t ∧ t.shard = shard ∧ ¬ t.Ended

/-- The dictionary knows the tasks that have not ended, each shard once. -/
structure Kept (s : Supervisor) : Prop where
  numbers : (s.tasks.map Prod.fst).Nodup
  shards : (s.tasks.map Prod.snd).Nodup
  known : ∀ e ∈ s.tasks, ∃ t, s.created[e.1]? = some t ∧ t.shard = e.2
  listed : ∀ i shard, s.Consumes i shard → (i, shard) ∈ s.tasks

/-- One task for every shard. -/
def Covers (n : Nat) (s : Supervisor) : Prop := (s.tasks.map Prod.snd).Perm (List.range n)

theorem isDone_spawn {task shard : Nat} (old : s.IsDone task) : (s.spawn shard).IsDone task := by
  obtain ⟨t, found, ended⟩ := old
  refine ⟨t, ?_, ended⟩
  rw [spawn, List.getElem?_append_left (List.getElem?_eq_some_iff.mp found).1]
  exact found

theorem consumes_spawn {i shard new : Nat} (consumes : (s.spawn new).Consumes i shard) :
    s.Consumes i shard ∨ (i = s.created.length ∧ shard = new) := by
  obtain ⟨t, found, same, running⟩ := consumes
  rcases Nat.lt_or_ge i s.created.length with old | beyond
  · rw [spawn, List.getElem?_append_left old] at found
    exact Or.inl ⟨t, found, same, running⟩
  · rw [spawn, List.getElem?_append_right beyond, List.getElem?_singleton] at found
    split at found
    · cases found
      exact Or.inr ⟨by omega, same.symm⟩
    · cases found

theorem Kept.below (kept : s.Kept) (listed : entry ∈ s.tasks) : entry.1 < s.created.length := by
  obtain ⟨t, found, _⟩ := kept.known entry listed
  exact (List.getElem?_eq_some_iff.mp found).1

/-- A new task for a shard that has none. -/
theorem Kept.spawn {shard : Nat} (kept : s.Kept) (free : shard ∉ s.tasks.map Prod.snd) :
    (s.spawn shard).Kept where
  numbers := by
    simp only [Supervisor.spawn, List.map_append, List.map_cons, List.map_nil]
    refine List.nodup_append.mpr ⟨kept.numbers, List.nodup_singleton _, ?_⟩
    intro a old b new
    obtain ⟨e, listed, rfl⟩ := List.mem_map.mp old
    rw [List.mem_singleton.mp new]
    exact Nat.ne_of_lt (kept.below listed)
  shards := by
    simp only [Supervisor.spawn, List.map_append, List.map_cons, List.map_nil]
    refine List.nodup_append.mpr ⟨kept.shards, List.nodup_singleton _, ?_⟩
    rintro a old b new rfl
    exact free (List.mem_singleton.mp new ▸ old)
  known := by
    intro e listed
    rcases List.mem_append.mp listed with old | new
    · obtain ⟨t, found, same⟩ := kept.known e old
      refine ⟨t, ?_, same⟩
      rw [Supervisor.spawn, List.getElem?_append_left (kept.below old)]
      exact found
    · rw [List.mem_singleton.mp new]
      exact ⟨ShardTask.create shard s.clock, by simp [Supervisor.spawn], rfl⟩
  listed := by
    intro i shard' consumes
    refine List.mem_append.mpr ?_
    rcases consumes_spawn consumes with old | ⟨rfl, rfl⟩
    · exact Or.inl (kept.listed i shard' old)
    · exact Or.inr List.mem_cons_self

/-- A task that has ended may leave the dictionary. -/
theorem Kept.pop (kept : s.Kept) (done : s.IsDone entry.1) :
    Kept { s with tasks := s.tasks.filter (fun e => e ≠ entry) } where
  numbers := kept.numbers.sublist (List.filter_sublist.map _)
  shards := kept.shards.sublist (List.filter_sublist.map _)
  known := fun e listed => kept.known e (List.mem_of_mem_filter listed)
  listed := by
    rintro i shard ⟨t, found, same, running⟩
    refine List.mem_filter.mpr ⟨kept.listed i shard ⟨t, found, same, running⟩, ?_⟩
    have other : (i, shard) ≠ entry := by
      rintro rfl
      obtain ⟨t', found', ended⟩ := done
      exact running (Option.some.inj (found.symm.trans found') ▸ ended)
    exact decide_eq_true other

theorem Kept.popped_free (kept : s.Kept) (listed : entry ∈ s.tasks) :
    entry.2 ∉ (s.tasks.filter (fun e => e ≠ entry)).map Prod.snd := by
  intro again
  obtain ⟨e, inFilter, same⟩ := List.mem_map.mp again
  obtain ⟨there, other⟩ := List.mem_filter.mp inFilter
  exact of_decide_eq_true other (List.inj_on_of_nodup_map kept.shards there listed same)

theorem perm_popped (distinct : s.tasks.Nodup) (listed : entry ∈ s.tasks) :
    s.tasks.Perm (entry :: s.tasks.filter (fun e => e ≠ entry)) := by
  have erased : s.tasks.erase entry = s.tasks.filter (fun e => e ≠ entry) := by
    rw [distinct.erase_eq_filter]
    exact List.filter_congr (fun e _ => by rw [Bool.eq_iff_iff, bne_iff_ne, decide_eq_true_iff])
  exact erased ▸ List.perm_cons_erase listed

theorem Kept.distinct (kept : s.Kept) : s.tasks.Nodup := List.Nodup.of_map _ kept.numbers

/-- What the loop over `done` leaves: of the listed tasks only those still to come have ended. -/
structure Restarting (n : Nat) (done : List (Nat × Nat)) (s : Supervisor) : Prop where
  kept : s.Kept
  covers : s.stop = false → s.Covers n
  todo : ∀ e ∈ done, e ∈ s.tasks ∧ s.IsDone e.1
  rest : ∀ e ∈ s.tasks, s.IsDone e.1 → e ∈ done

theorem Restarting.restart {rest : List (Nat × Nat)} (now : Restarting n (entry :: rest) s)
    (distinct : (entry :: rest).Nodup) : Restarting n rest (s.restart entry) := by
  obtain ⟨listed, done⟩ := now.todo entry List.mem_cons_self
  have popped := now.kept.pop done
  have free := now.kept.popped_free listed
  have others : ∀ e ∈ rest, e ≠ entry := by
    rintro e inRest rfl
    exact (List.nodup_cons.mp distinct).1 inRest
  have left : ∀ e ∈ rest, e ∈ s.tasks.filter (fun e => e ≠ entry) ∧ s.IsDone e.1 := by
    intro e inRest
    obtain ⟨there, ended⟩ := now.todo e (List.mem_cons_of_mem _ inRest)
    exact ⟨List.mem_filter.mpr ⟨there, decide_eq_true (others e inRest)⟩, ended⟩
  have ended : ∀ e ∈ s.tasks.filter (fun e => e ≠ entry), s.IsDone e.1 → e ∈ rest := by
    intro e inFilter isDone
    obtain ⟨there, other⟩ := List.mem_filter.mp inFilter
    exact (List.mem_cons.mp (now.rest e there isDone)).resolve_left (of_decide_eq_true other)
  unfold Supervisor.restart
  simp only
  split
  · rename_i stopped
    refine ⟨popped, fun running => ?_, left, ended⟩
    exact absurd (stopped.symm.trans running) Bool.noConfusion
  · rename_i running
    refine ⟨popped.spawn free, fun _ => ?_, fun e inRest => ?_, fun e there isDone => ?_⟩
    · have moved : ((s.tasks.filter (fun e => e ≠ entry)).map Prod.snd ++ [entry.2]).Perm
          (s.tasks.map Prod.snd) :=
        (List.perm_append_singleton _ _).trans ((perm_popped now.kept.distinct listed).map _).symm
      have before := now.covers (Bool.eq_false_iff.mpr running)
      unfold Covers
      simp only [spawn, List.map_append, List.map_cons, List.map_nil]
      exact moved.trans before
    · exact ⟨List.mem_append_left _ (left e inRest).1, isDone_spawn (left e inRest).2⟩
    · rcases List.mem_append.mp there with old | new
      · obtain ⟨t, found, atEnd⟩ := isDone
        rw [spawn, List.getElem?_append_left (popped.below old)] at found
        exact ended e old ⟨t, found, atEnd⟩
      · obtain ⟨t, found, atEnd⟩ := isDone
        rw [List.mem_singleton.mp new] at found
        simp only [spawn, List.getElem?_concat_length] at found
        cases found
        exact (show False from atEnd).elim

theorem Restarting.foldl {done : List (Nat × Nat)} (now : Restarting n done s)
    (distinct : done.Nodup) : Restarting n [] (done.foldl Supervisor.restart s) := by
  induction done generalizing s with
  | nil => exact now
  | cons entry rest ih => exact ih (now.restart distinct) (List.nodup_cons.mp distinct).2

/-- The invariant of the supervisor. -/
structure Sound (n : Nat) (s : Supervisor) : Prop where
  kept : s.Kept
  covers : s.await = .wait → s.Covers n
  atEnd : ∀ outcome, s.await = .ended outcome → ∀ e ∈ s.tasks, s.IsDone e.1

theorem Kept.again (kept : s.Kept) : s.again.Kept := by
  unfold Supervisor.again
  split <;> exact ⟨kept.numbers, kept.shards, kept.known, kept.listed⟩

theorem sound_again (kept : s.Kept) (covers : s.stop = false → s.Covers n) : s.again.Sound n where
  kept := kept.again
  covers := by
    unfold Supervisor.again
    split
    · exact nofun
    · rename_i running
      exact fun _ => covers (Bool.eq_false_iff.mpr running)
  atEnd := by
    unfold Supervisor.again
    split <;> exact nofun

theorem sound_start (n : Nat) (clock : ℚ) (stop : Bool) :
    (superviseShards n clock stop).Sound n := by
  have spawned : ∀ (shards : List Nat) (s : Supervisor), s.Kept → shards.Nodup →
      (∀ shard ∈ shards, shard ∉ s.tasks.map Prod.snd) →
      (shards.foldl spawn s).Kept ∧
        (shards.foldl spawn s).tasks.map Prod.snd = s.tasks.map Prod.snd ++ shards := by
    intro shards
    induction shards with
    | nil => exact fun s kept _ _ => ⟨kept, (List.append_nil _).symm⟩
    | cons shard rest ih =>
      intro s kept distinct free
      obtain ⟨new, distinct⟩ := List.nodup_cons.mp distinct
      have tasks : (s.spawn shard).tasks.map Prod.snd = s.tasks.map Prod.snd ++ [shard] := by
        simp [spawn]
      obtain ⟨kept', all⟩ := ih (s.spawn shard) (kept.spawn (free shard List.mem_cons_self))
        distinct (fun other inRest listed => by
          rw [tasks] at listed
          rcases List.mem_append.mp listed with old | same
          · exact free other (List.mem_cons_of_mem _ inRest) old
          · exact new (List.mem_singleton.mp same ▸ inRest))
      refine ⟨kept', ?_⟩
      rw [List.foldl_cons, all, tasks, List.append_assoc]
      rfl
  have empty : Kept { clock := clock, stop := stop, since := clock } :=
    ⟨List.nodup_nil, List.nodup_nil, fun _ listed => absurd listed List.not_mem_nil,
      fun _ _ ⟨_, found, _⟩ => by cases found⟩
  obtain ⟨kept, all⟩ := spawned (List.range n) _ empty List.nodup_range
    (fun _ _ => List.not_mem_nil)
  exact sound_again kept (fun _ => by rw [Covers, all]; exact List.Perm.refl _)

/-- A task that ended has no step. -/
theorem ended_stays {t t' : ShardTask} {stop : Bool} {time : ℚ} {e : Ending}
    (next : t.step stop time e = some t') : ¬ t.Ended := by
  intro ended
  unfold ShardTask.Ended at ended
  split at ended
  · rename_i outcome atEnd
    unfold ShardTask.step at next
    rw [atEnd] at next
    cases next
  · exact ended

theorem round_shard (t : ShardTask) (stop : Bool) (time : ℚ) :
    (t.round stop time).shard = t.shard := by
  unfold ShardTask.round
  split
  · rfl
  · split <;> rfl

theorem step_shard {t t' : ShardTask} {stop : Bool} {time : ℚ} {e : Ending}
    (next : t.step stop time e = some t') : t'.shard = t.shard := by
  have handled : ∀ (t : ShardTask) messages, (t.handle stop time messages).shard = t.shard := by
    intro t messages
    cases messages with
    | nil => exact round_shard t stop time
    | cons => rfl
  have excepted : ∀ e, (t.except time e).shard = t.shard := fun e => by cases e <;> rfl
  unfold ShardTask.step at next
  split at next <;> cases next
  all_goals first
    | rfl
    | exact round_shard _ _ _
    | exact handled _ _
    | exact excepted _

section Run

variable {task : Nat} {t t' : ShardTask} {stop : Bool} {time : ℚ} {e : Ending}

/-- After a step of a task the others are as they were. -/
theorem set_cases {i : Nat} {u : ShardTask} (found : s.created[task]? = some t)
    (now : (s.created.set task t')[i]? = some u) :
    (i = task ∧ u = t') ∨ (i ≠ task ∧ s.created[i]? = some u) := by
  by_cases same : i = task
  · subst same
    rw [List.getElem?_set_self (List.getElem?_eq_some_iff.mp found).1] at now
    exact Or.inl ⟨rfl, (Option.some.inj now).symm⟩
  · rw [List.getElem?_set_ne (Ne.symm same)] at now
    exact Or.inr ⟨same, now⟩

theorem consumes_run {i shard : Nat} (found : s.created[task]? = some t)
    (next : t.step stop time e = some t')
    (consumes : Consumes { s with created := s.created.set task t' } i shard) :
    s.Consumes i shard := by
  obtain ⟨u, now, same, running⟩ := consumes
  rcases set_cases found now with ⟨rfl, rfl⟩ | ⟨_, old⟩
  · exact ⟨t, found, (step_shard next).symm.trans same, ended_stays next⟩
  · exact ⟨u, old, same, running⟩

theorem isDone_run {i : Nat} (found : s.created[task]? = some t)
    (next : t.step stop time e = some t') (done : s.IsDone i) :
    IsDone { s with created := s.created.set task t' } i := by
  obtain ⟨u, old, ended⟩ := done
  have other : task ≠ i := by
    rintro rfl
    exact ended_stays next (Option.some.inj (found.symm.trans old) ▸ ended)
  exact ⟨u, (List.getElem?_set_ne other).trans old, ended⟩

theorem Kept.run (kept : s.Kept) (found : s.created[task]? = some t)
    (next : t.step stop time e = some t') :
    Kept { s with created := s.created.set task t' } where
  numbers := kept.numbers
  shards := kept.shards
  known := by
    intro entry listed
    obtain ⟨u, old, same⟩ := kept.known entry listed
    by_cases own : task = entry.1
    · subst own
      cases found.symm.trans old
      refine ⟨t', ?_, (step_shard next).trans same⟩
      exact List.getElem?_set_self (List.getElem?_eq_some_iff.mp found).1
    · exact ⟨u, (List.getElem?_set_ne own).trans old, same⟩
  listed := fun i shard consumes => kept.listed i shard (consumes_run found next consumes)

end Run

/-- What a wake-up leads to. -/
theorem Sound.restarting {done : List (Nat × Nat)} (sound : s.Sound n) (waits : s.await = .wait)
    (found : done.Perm (s.tasks.filter (fun e => s.IsDone e.1))) :
    Restarting n [] (done.foldl Supervisor.restart s) := by
  have distinct : done.Nodup := found.nodup_iff.mpr (sound.kept.distinct.filter _)
  refine Restarting.foldl
    ⟨sound.kept, fun _ => sound.covers waits, fun e listed => ?_, ?_⟩ distinct
  · obtain ⟨there, ended⟩ := List.mem_filter.mp (found.mem_iff.mp listed)
    exact ⟨there, of_decide_eq_true ended⟩
  · exact fun e there ended =>
      found.mem_iff.mpr (List.mem_filter.mpr ⟨there, decide_eq_true ended⟩)

theorem Sound.step {l : Label} (sound : s.Sound n) (next : Supervisor.step l s = some s') :
    s'.Sound n := by
  have kept := sound.kept
  have same : ∀ {clock stop await since}, (await = .wait → s.Covers n) →
      (∀ outcome, await = .ended outcome → ∀ e ∈ s.tasks, s.IsDone e.1) →
      Sound n { s with clock := clock, stop := stop, await := await, since := since } :=
    fun covers atEnd =>
      ⟨⟨kept.numbers, kept.shards, kept.known, kept.listed⟩, covers, atEnd⟩
  cases l with
  | tick time =>
    simp only [Supervisor.step] at next
    split at next <;> cases next
    exact same sound.covers sound.atEnd
  | stop =>
    cases next
    exact same sound.covers sound.atEnd
  | run task e =>
    simp only [Supervisor.step] at next
    split at next
    · cases next
    · rename_i t found
      split at next
      · cases next
      · split at next <;> cases next
        rename_i t' moved
        exact ⟨kept.run found moved, sound.covers, fun outcome ended entry listed =>
          isDone_run found moved (sound.atEnd outcome ended entry listed)⟩
  | wake done =>
    simp only [Supervisor.step] at next
    split at next
    · rename_i waits
      split at next
      · cases next
        exact same nofun nofun
      · split at next <;> cases next
        rename_i woken
        have restarted := sound.restarting waits woken.1
        exact sound_again restarted.kept restarted.covers
    · cases next
  | cancel =>
    simp only [Supervisor.step] at next
    split at next <;> cases next
    exact same nofun nofun
  | gathered =>
    simp only [Supervisor.step] at next
    split at next
    · split at next <;> cases next
      rename_i all
      exact same nofun (fun _ _ e listed => of_decide_eq_true (List.all_eq_true.mp all e listed))
    · cases next

/-- While the supervisor waits, its dictionary has every shard once; a shard never
has two consumers; a wake-up after which it waits again leaves every shard with
one; and when it has ended, none is left. -/
theorem shards_supervised {clock : ℚ} {stop : Bool}
    (run : Run Supervisor.step (fun _ _ => True) (superviseShards n clock stop) s) :
    (s.await = .wait → (s.tasks.map Prod.snd).Perm (List.range n)) ∧
      (∀ i j shard, s.Consumes i shard → s.Consumes j shard → i = j) ∧
      (∀ done s', Supervisor.step (.wake done) s = some s' → s'.await = .wait →
        ∀ shard < n, ∃ i, s'.Consumes i shard) ∧
      ∀ outcome, s.await = .ended outcome → ∀ i shard, ¬ s.Consumes i shard := by
  have sound : s.Sound n := run.invariant (I := Sound n) (sound_start n clock stop)
    (fun sound _ next => sound.step next)
  refine ⟨sound.covers, ?alone, ?restarted, ?atEnd⟩
  case alone =>
    intro i j shard first second
    have same := List.inj_on_of_nodup_map sound.kept.shards (sound.kept.listed i shard first)
      (sound.kept.listed j shard second) rfl
    exact congrArg Prod.fst same
  case restarted =>
    intro done s' next waits shard below
    simp only [Supervisor.step] at next
    split at next
    · rename_i waiting
      split at next
      · cases next
        cases waits
      · split at next <;> cases next
        rename_i woken
        have restarted := sound.restarting waiting woken.1
        have running : (done.foldl Supervisor.restart s).stop = false := by
          unfold Supervisor.again at waits
          split at waits
          · cases waits
          · rename_i running
            exact Bool.eq_false_iff.mpr running
        have covered := (restarted.covers running).mem_iff.mpr (List.mem_range.mpr below)
        obtain ⟨⟨i, _⟩, listed, rfl⟩ := List.mem_map.mp covered
        obtain ⟨t, found, same⟩ := restarted.kept.known _ listed
        have alive : ¬ t.Ended := fun ended =>
          List.not_mem_nil (restarted.rest _ listed ⟨t, found, ended⟩)
        refine ⟨i, t, ?_, same, alive⟩
        unfold Supervisor.again
        split <;> exact found
    · cases next
  case atEnd =>
    rintro outcome ended i shard ⟨t, found, same, running⟩
    obtain ⟨t', found', done⟩ :=
      sound.atEnd outcome ended _ (sound.kept.listed i shard ⟨t, found, same, running⟩)
    exact running (Option.some.inj (found.symm.trans found') ▸ done)

/-- Of two tasks the first dies of an unforeseen exception. -/
theorem shards_supervised_restarted : ∃ s,
    Run Supervisor.step (fun _ _ => True) (superviseShards 2 0 false) s ∧
      s.tasks = [(1, 1), (2, 0)] ∧ (s.tasks.map Prod.snd).Perm (List.range 2) := by
  have evaluates : (exec Supervisor.step (fun _ _ => true)
      [.run 0 (.answers []), .run 0 .exception, .wake [(0, 0)]] (superviseShards 2 0 false)).elim
        false (fun s => decide (s.tasks = [(1, 1), (2, 0)] ∧ s.await = .wait)) = true := by
    decide +kernel
  obtain ⟨s, executed, passes⟩ := reached evaluates
  obtain ⟨tasks, waits⟩ := of_decide_eq_true passes
  have run : Run Supervisor.step (fun _ _ => True) (superviseShards 2 0 false) s :=
    run_of_exec (fun _ _ _ => trivial) executed
  exact ⟨s, run, tasks, (shards_supervised run).1 waits⟩

end Supervisor

end Relay.Shards
