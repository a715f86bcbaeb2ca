import Relay.Pipeline.Lists
import Relay.Pipeline.Tenancy
import Mathlib.Data.Finset.Card

/-!
# Workers on their way to an attempt

An attempt at a delivery of an endpoint is made by a worker that is about to
send. So while none sets out anew, the attempts still to come are no more than
the workers under way.
-/

namespace Relay.World

open Enqueue RetryQueue Worker Api

variable {env : Env} {l : Label} {x y : World} {endpointId : Uuid}

/-- The entry records an attempt at a delivery of the endpoint. -/
def attemptTo (x : World) (endpointId : Uuid) : LogEntry → Bool
  | .attempt id _ => decide ((x.core.delivery id).map Delivery.endpointId = some endpointId)
  | _ => false

def attemptsTo (x : World) (endpointId : Uuid) : Nat :=
  x.core.log.countP (x.attemptTo endpointId)

/-- The entry records an attempt at one of these deliveries. -/
def attemptIn (mine : Uuid → Bool) : LogEntry → Bool
  | .attempt id _ => mine id
  | _ => false

theorem countP_quiet {mine : Uuid → Bool} {more : List LogEntry}
    (quiet : ∀ entry ∈ more, entry.Quiet) : more.countP (attemptIn mine) = 0 := by
  refine List.countP_eq_zero.mpr (fun entry listed => ?_)
  have none := quiet entry listed
  cases entry with
  | attempt => exact none.elim
  | _ => exact Bool.false_ne_true

/-- Deliveries that have rows count as before; a step adds an attempt at one of them
only by a worker that sends. -/
theorem Change.attemptsIn {before after : Uuid → Bool} (inv : Consistent env x)
    (change : Change env x y l)
    (stable : ∀ id d, x.core.delivery id = some d → after id = before id) :
    y.core.log.countP (attemptIn after) = x.core.log.countP (attemptIn before) ∨
      ∃ w c h d e, l = .work w c ∧ x.Handles w h ∧ h.pc.session = .sending d e ∧
        after d.id = true ∧
        y.core.log.countP (attemptIn after) = x.core.log.countP (attemptIn before) + 1 := by
  have kept : x.core.log.countP (attemptIn after) = x.core.log.countP (attemptIn before) := by
    refine List.countP_congr (fun entry listed => ?_)
    cases entry with
    | attempt id time =>
      obtain ⟨f, rfl, known⟩ := inv.core.attempted id ⟨time, listed⟩
      obtain ⟨r, found, _⟩ := known.row
      exact Bool.eq_iff_iff.mp (stable _ r found)
    | _ => rfl
  have prefixed : ∀ {more : List LogEntry}, y.core.log = more ++ x.core.log →
      (∀ entry ∈ more, entry.Quiet) →
      y.core.log.countP (attemptIn after) = x.core.log.countP (attemptIn before) := by
    intro more log quiet
    rw [log, List.countP_append, kept, countP_quiet quiet, Nat.zero_add]
  cases change.logs with
  | quiet _ log only => exact Or.inl (prefixed log only)
  | pop _ _ _ _ log =>
    have same : y.core.log = [] ++ x.core.log := log
    exact Or.inl (prefixed same (fun _ h => absurd h List.not_mem_nil))
  | push _ _ _ _ log =>
    left
    rw [log, List.countP_cons, kept]
    rfl
  | @attempt w c h d e label handles sends _ log =>
    have count : y.core.log.countP (attemptIn after) = x.core.log.countP (attemptIn before) +
        if after d.id = true then 1 else 0 := by
      rw [log, List.countP_cons, kept]
      rfl
    by_cases mine : after d.id = true
    · rw [if_pos mine] at count
      exact Or.inr ⟨w, c, h, d, e, label, handles, sends, mine, count⟩
    · rw [if_neg mine] at count
      exact Or.inl count

theorem attemptsTo_eq (x : World) (endpointId : Uuid) : x.attemptsTo endpointId =
    x.core.log.countP (attemptIn fun id =>
      decide ((x.core.delivery id).map Delivery.endpointId = some endpointId)) := by
  refine List.countP_congr (fun entry _ => ?_)
  cases entry <;> rfl

/-- The worker is about to send for the endpoint. -/
def Sends (x : World) (endpointId : Uuid) (w : Nat) : Prop :=
  ∃ h d e, x.Handles w h ∧ h.pc.session = .sending d e ∧ e.id = endpointId

/-- A worker that sends has a copy of the delivery's row and of the endpoint's. -/
theorem Handles.sends_to (inv : Consistent env x) (change : Change env x y l) {w : Nat}
    {h : Handling} {d : Delivery} {e : Endpoint} (handles : x.Handles w h)
    (sends : h.pc.session = .sending d e) :
    (y.core.delivery d.id).map Delivery.endpointId = some e.id := by
  have sound := inv.sessions w h handles
  rw [sends] at sound
  obtain ⟨r, found, _, same⟩ := (inv.known handles).row
  obtain ⟨r', found', _, same'⟩ := change.extends.rows found
  have own : d.id = h.fields.deliveryId := congrArg Fields.deliveryId sound.1.fields
  have there : d.endpointId = h.fields.endpointId := congrArg Fields.endpointId sound.1.fields
  rw [own, found', Option.map_some, same', same, ← there, sound.1.key]

/-- A step attempts a delivery of the endpoint only by a worker that sends. -/
theorem Change.attempts (inv : Consistent env x) (change : Change env x y l)
    (endpointId : Uuid) :
    y.attemptsTo endpointId = x.attemptsTo endpointId ∨
      ∃ w c, l = .work w c ∧ x.Sends endpointId w ∧
        y.attemptsTo endpointId = x.attemptsTo endpointId + 1 := by
  rw [attemptsTo_eq, attemptsTo_eq]
  have stable : ∀ id d, x.core.delivery id = some d →
      decide ((y.core.delivery id).map Delivery.endpointId = some endpointId) =
        decide ((x.core.delivery id).map Delivery.endpointId = some endpointId) := by
    intro id d found
    obtain ⟨d', found', _, endpoint⟩ := change.extends.rows found
    rw [found, found', Option.map_some, Option.map_some, endpoint]
  rcases change.attemptsIn inv stable with same |
    ⟨w, c, h, d, e, label, handles, sends, mine, one⟩
  · exact Or.inl same
  · have there := handles.sends_to inv change sends
    refine Or.inr ⟨w, c, label, ⟨h, d, e, handles, sends, ?_⟩, one⟩
    exact Option.some.inj (there.symm.trans (of_decide_eq_true mine))

/-- Who sends is past it after the step. -/
theorem not_handles_sent (change : Change env x y l) {w : Nat} {c : Choice} {h h' : Handling}
    {d : Delivery} {e : Endpoint} (label : l = .work w c) (handles : x.Handles w h)
    (sends : h.pc.session = .sending d e) (after : y.Handles w h') :
    h'.pc.session = .receiving d e := by
  cases change.arises after with
  | same _ other => exact absurd label (other c)
  | begun taken => exact nomatch label.symm.trans taken
  | raised raised => exact nomatch label.symm.trans raised
  | @moved _ old _ handled step _ _ =>
    cases handles.symm.trans handled
    cases pc : h.pc with
    | send v slot =>
      rw [pc] at step sends
      rw [← (Prod.mk.inj (Option.some.inj step)).2]
      cases sends
      rfl
    | _ =>
      rw [pc] at sends
      cases sends

/-- The attempts made and the workers under way are at most so many. -/
def Limited (way : World → Nat → Prop) (made : World → Nat) (bound : Nat) (x : World) :
    Prop :=
  ∃ ws : Finset Nat, (∀ w, way x w → w ∈ ws) ∧ made x + ws.card ≤ bound

section Limited

variable {way : World → Nat → Prop} {made : World → Nat} {bound : Nat}

/-- No one sets out, and who attempts arrives. -/
theorem Limited.step (limited : Limited way made bound x) (before : ∀ w, way y w → way x w)
    (moves : made y = made x ∨ ∃ w, way x w ∧ ¬ way y w ∧ made y = made x + 1) :
    Limited way made bound y := by
  obtain ⟨ws, covers, within⟩ := limited
  rcases moves with same | ⟨w, mine, left, one⟩
  · exact ⟨ws, fun w on => covers w (before w on), same ▸ within⟩
  · have card := Finset.card_erase_add_one (covers w mine)
    refine ⟨ws.erase w,
      fun w' on => Finset.mem_erase.mpr ⟨?_, covers w' (before w' on)⟩, ?_⟩
    · rintro rfl
      exact left on
    · omega

theorem Limited.step_attempts
    (limited : Limited way (fun x => x.attemptsTo endpointId) bound x) (inv : Consistent env x)
    (change : Change env x y l) (before : ∀ w, way y w → way x w)
    (sends : ∀ w c, l = .work w c → x.Sends endpointId w → way x w ∧ ¬ way y w) :
    Limited way (fun x => x.attemptsTo endpointId) bound y := by
  refine limited.step before ?_
  rcases change.attempts inv endpointId with same | ⟨w, c, label, sending, one⟩
  · exact Or.inl same
  · obtain ⟨mine, left⟩ := sends w c label sending
    exact Or.inr ⟨w, mine, left, one⟩

/-- One worker sets out. -/
theorem Limited.sets_out (limited : Limited way made bound x) {w : Nat}
    (before : ∀ w', w' ≠ w → way y w' → way x w') (same : made y = made x) :
    Limited way made (bound + 1) y := by
  obtain ⟨ws, covers, within⟩ := limited
  refine ⟨insert w ws, fun w' on => Finset.mem_insert.mpr ?_, ?_⟩
  · by_cases mine : w' = w
    · exact Or.inl mine
    · exact Or.inr (covers w' (before w' mine on))
  · have card := Finset.card_insert_le w ws
    omega

theorem Limited.attempts_le (limited : Limited way made bound x) : made x ≤ bound := by
  obtain ⟨_, _, within⟩ := limited
  exact le_trans (Nat.le_add_right _ _) within

end Limited

end Relay.World
