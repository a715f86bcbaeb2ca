import Relay.Pipeline.History

/-!
# Ordered lists and history

How a step changes the lists of ordered endpoints together with the history:
attempts, pushes and pops each have one origin, everything else only logs
commits and appended entries.
-/

namespace Relay

open Enqueue RetryQueue Worker Api

/-- The deliveries pushed onto the list of an endpoint, oldest push first. -/
def pushes (endpointId : Uuid) (log : List LogEntry) : List Uuid :=
  (log.filterMap (fun l =>
    match l with
    | .rpush e d => if e = endpointId then some d else none
    | _ => none)).reverse

/-- Some commit left the row of the delivery settled. -/
def settledIn (log : List LogEntry) (id : Uuid) : Bool :=
  log.any (fun l =>
    match l with
    | .committed _ row => decide (row.id = id ∧ row.status.Settled)
    | _ => false)

theorem pushes_append (endpointId : Uuid) (more log : List LogEntry) :
    pushes endpointId (more ++ log) = pushes endpointId log ++ pushes endpointId more := by
  simp [pushes]

theorem mem_pushes {endpointId id : Uuid} {log : List LogEntry} :
    id ∈ pushes endpointId log ↔ LogEntry.rpush endpointId id ∈ log := by
  simp only [pushes, List.mem_reverse, List.mem_filterMap]
  constructor
  · rintro ⟨l, logged, same⟩
    split at same
    · split at same
      · rename_i key
        cases same
        exact key ▸ logged
      · cases same
    · cases same
  · exact fun logged => ⟨_, logged, by simp⟩

theorem settledIn_iff {log : List LogEntry} {id : Uuid} :
    settledIn log id = true ↔
      ∃ stage row, LogEntry.committed stage row ∈ log ∧ row.id = id ∧
        row.status.Settled := by
  simp only [settledIn, List.any_eq_true]
  constructor
  · rintro ⟨l, logged, holds⟩
    split at holds
    · obtain ⟨key, settled⟩ := of_decide_eq_true holds
      exact ⟨_, _, logged, key, settled⟩
    · cases holds
  · rintro ⟨stage, row, logged, key, settled⟩
    exact ⟨_, logged, by simp [key, settled]⟩

theorem settledIn_mono {more log : List LogEntry} {id : Uuid} (old : settledIn log id = true) :
    settledIn (more ++ log) id = true := by
  simp only [settledIn, List.any_append, Bool.or_eq_true]
  exact Or.inr old

/-- Neither a push nor an attempt. -/
def LogEntry.Quiet : LogEntry → Prop
  | .rpush _ _ | .attempt _ _ => False
  | _ => True

theorem pushes_quiet {endpointId : Uuid} {more : List LogEntry} (quiet : ∀ l ∈ more, l.Quiet) :
    pushes endpointId more = [] := by
  rw [List.eq_nil_iff_forall_not_mem]
  exact fun id listed => quiet _ (mem_pushes.mp listed)

namespace World

variable {env : Env} {l : Label} {x y : World}

inductive Logs (env : Env) (x y : World) (l : Label) : Prop
  | quiet {more : List LogEntry} (ordered : y.core.ordered = x.core.ordered)
      (log : y.core.log = more ++ x.core.log) (only : ∀ entry ∈ more, entry.Quiet)
  | attempt {w : Nat} {c : Choice} {h : Handling} {d : Delivery} {e : Endpoint}
      (label : l = .work w c) (handles : x.Handles w h) (session : h.pc.session = .sending d e)
      (ordered : y.core.ordered = x.core.ordered)
      (log : y.core.log = .attempt d.id x.clock :: x.core.log)
  | push {r : Nat} {ids : List Uuid} {q : Request} {source : Source} {rest : List Command}
      {endpointId id : Uuid} (label : l = .serve r ids) (running : x.requests r = some q)
      (job : q.job env.settings.streamShards = .enqueueing source (.rpush endpointId id :: rest))
      (ordered : y.core.ordered =
        Function.update x.core.ordered endpointId (x.core.ordered endpointId ++ [id]))
      (log : y.core.log = .rpush endpointId id :: x.core.log)
  | pop {w : Nat} {c : Choice} {h : Handling} {d : Delivery} {e : Endpoint}
      (label : l = .work w c) (handles : x.Handles w h) (session : h.pc.session = .popping d e)
      (ordered : y.core.ordered =
        Function.update x.core.ordered e.id ((x.core.ordered e.id).erase d.id))
      (log : y.core.log = x.core.log)

theorem log_commitDelivery (c : Core) (stage : Stage) (loaded current : Delivery) :
    ∃ more, (c.commitDelivery stage loaded current).log = more ++ c.log ∧
      ∀ entry ∈ more, entry.Quiet := by
  refine ⟨_, rfl, fun entry listed => ?_⟩
  obtain ⟨row, _, rfl⟩ := Option.map_eq_some_iff.mp (Option.mem_toList.mp listed)
  trivial

theorem log_commitRequeued (c : Core) (rows : List Delivery) :
    (c.commitRequeued rows).ordered = c.ordered ∧
      ∃ more, (c.commitRequeued rows).log = more ++ c.log ∧
        ∀ entry ∈ more, entry.Quiet := by
  unfold Core.commitRequeued
  induction rows generalizing c with
  | nil => exact ⟨rfl, [], rfl, fun _ h => absurd h List.not_mem_nil⟩
  | cons row rest ih =>
    obtain ⟨ordered, more, log, quiet⟩ := ih (c.commitDelivery .requeued row (requeued row))
    obtain ⟨first, log', quiet'⟩ := log_commitDelivery c .requeued row (requeued row)
    refine ⟨ordered, more ++ first, ?_, fun entry listed => ?_⟩
    · rw [List.foldl_cons, log, log', List.append_assoc]
    · exact (List.mem_append.mp listed).elim (quiet entry) (quiet' entry)

theorem Change.logs (change : Change env x y l) : Logs env x y l := by
  have silent : y.core.ordered = x.core.ordered → y.core.log = x.core.log → Logs env x y l :=
    fun ordered log =>
      .quiet ordered (log.trans (List.nil_append _).symm) (fun _ h => absurd h List.not_mem_nil)
  cases change with
  | admin _ _ _ _ core | arrive _ core | read _ _ _ core | claim _ _ _ _ _ core
  | take _ _ _ core | raise _ _ core | drop _ _ core | schedule _ core | fail _ _ core =>
    exact silent (congrArg Core.ordered core :) (congrArg Core.log core :)
  | @work w c h pc _ handles _ move _ _ =>
    generalize session : h.pc.session = q at move
    generalize core : y.core = c' at move
    generalize pc.session = q' at move
    have commits : ∀ {stage : Stage} {loaded current : Delivery},
        y.core = x.core.commitDelivery stage loaded current →
        Logs env x y (.work w c) := by
      intro stage loaded current same
      obtain ⟨more, log, quiet⟩ := log_commitDelivery x.core stage loaded current
      exact .quiet (by rw [same]; rfl) (by rw [same, log]) quiet
    cases move with
    | commitDelivering | commitFailed | commitSettled => exact commits core
    | send =>
      exact .attempt rfl handles session (congrArg Core.ordered core :) (congrArg Core.log core :)
    | pop =>
      exact .pop rfl handles session (congrArg Core.ordered core :) (congrArg Core.log core :)
    | _ => exact silent (congrArg Core.ordered core :) (congrArg Core.log core :)
  | @serve r ids q q' _ running move _ _ =>
    generalize job : Request.job _ q = j, core : y.core = c, Request.job _ q' = j' at move
    cases move with
    | requeue =>
      obtain ⟨ordered, more, log, quiet⟩ := log_commitRequeued x.core _
      exact .quiet (by rw [core]; exact ordered) (by rw [core]; exact log) quiet
    | @exec source command rest =>
      cases command with
      | zrem => exact silent (congrArg Core.ordered core :) (congrArg Core.log core :)
      | rpush =>
        exact .push rfl running job (congrArg Core.ordered core :) (congrArg Core.log core :)
      | xadd f =>
        have log : y.core.log = [.xadd source f] ++ x.core.log := (congrArg Core.log core :)
        refine .quiet (congrArg Core.ordered core :) log (fun entry listed => ?_)
        rw [List.mem_singleton.mp listed]
        trivial
    | _ => exact silent (congrArg Core.ordered core :) (congrArg Core.log core :)

end World

end Relay
