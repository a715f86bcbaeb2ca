import Relay.Agent.Listener
import Relay.Lib.Transition

/-!
# What the listener hears

It handles a message at most once and in the order of publication, and within a
subscription all but those that its connection lost.
-/

namespace Relay.Agent.Listening

open Transition

namespace Listener

variable {c d : Listener} {published : Nat} {e : Ending}

/-- The positions handled since the subscription began. -/
def heard (c : Listener) : List Nat := c.handled.filter (c.since ≤ ·)

structure Sound (published : Nat) (c : Listener) : Prop where
  order : c.handled.Pairwise (· > ·)
  below : ∀ k ∈ c.handled, k < c.next
  next : c.next ≤ published
  since : c.since ≤ c.next
  count : c.since + c.heard.length + c.lost = c.next

/-- Control moves on. -/
theorem Sound.goto (sound : c.Sound published) (pc : Pc) : Sound published { c with pc := pc } :=
  ⟨sound.order, sound.below, sound.next, sound.since, sound.count⟩

theorem Sound.round (sound : c.Sound published) : c.round.Sound published := by
  unfold Listener.round
  split <;> exact sound.goto _

theorem Sound.listen (sound : c.Sound published) : c.listen.Sound published := by
  unfold Listener.listen
  split <;> exact sound.goto _

theorem Sound.except (sound : c.Sound published) (e : Ending) : (c.except e).Sound published := by
  cases e with
  | unavailable => exact ⟨sound.order, sound.below, sound.next, sound.since, sound.count⟩
  | _ => exact sound.goto _

/-- A subscription starts with nothing heard. -/
theorem Sound.subscribed (sound : c.Sound published) :
    Sound published { c with
      next := published, since := published, lost := 0,
      delay := reconnect.base, failures := 0 } := by
  have before : ∀ k ∈ c.handled, k < published := fun k listed =>
    lt_of_lt_of_le (sound.below k listed) sound.next
  have nothing : c.handled.filter (published ≤ ·) = [] :=
    List.filter_eq_nil_iff.mpr (fun k listed => by simpa using before k listed)
  refine ⟨sound.order, before, le_refl _, le_refl _, ?_⟩
  show published + (c.handled.filter (published ≤ ·)).length + 0 = published
  rw [nothing]
  rfl

/-- A message follows those before it. -/
theorem Sound.message (sound : c.Sound published) {lost : Nat}
    (there : c.next + lost < published) :
    Sound published { c with
      pc := .handleBreakerEvent (c.next + lost), next := c.next + lost + 1,
      lost := c.lost + lost, handled := (c.next + lost) :: c.handled } := by
  obtain ⟨order, below, _, since, count⟩ := sound
  have earlier : ∀ k ∈ c.handled, k < c.next + lost := fun k listed =>
    Nat.lt_add_right lost (below k listed)
  refine ⟨List.pairwise_cons.mpr ⟨earlier, order⟩, ?_, there, ?_, ?_⟩
  · intro k listed
    rcases List.mem_cons.mp listed with rfl | listed
    · exact Nat.lt_succ_self _
    · exact Nat.lt_succ_of_lt (earlier k listed)
  · show c.since ≤ c.next + lost + 1
    omega
  · have heard : ((c.next + lost) :: c.handled).filter (c.since ≤ ·)
        = (c.next + lost) :: c.heard :=
      List.filter_cons_of_pos (by simpa using Nat.le_add_right_of_le since)
    show c.since + (((c.next + lost) :: c.handled).filter (c.since ≤ ·)).length + (c.lost + lost)
      = c.next + lost + 1
    rw [heard, List.length_cons]
    omega

theorem Sound.step (sound : c.Sound published) (next : c.step published e = some d) :
    d.Sound published := by
  cases await : c.pc with
  | subscribe =>
    cases e <;> simp only [Listener.step, await] at next <;> cases next
    · exact sound.subscribed.listen
    all_goals exact sound.except _
  | getMessage =>
    cases e <;> simp only [Listener.step, await] at next
    case message lost =>
      split at next <;> cases next
      rename_i there
      exact sound.message there
    all_goals cases next
    · exact sound.listen
    all_goals exact sound.except _
  | handleBreakerEvent position =>
    cases e <;> simp only [Listener.step, await] at next <;> cases next
    · exact sound.listen
    all_goals exact sound.except _
  | sleep =>
    cases e <;> simp only [Listener.step, await] at next <;> cases next
    · exact ⟨sound.order, sound.below, sound.next, sound.since, sound.count⟩
    · exact sound.goto _
  | aclose raising =>
    cases e <;> simp only [Listener.step, await] at next <;> cases next
    case aclose.cancelled.refl => exact sound.goto _
    all_goals
      split
      · exact sound.goto _
      · exact sound.round
  | close =>
    cases e <;> simp only [Listener.step, await] at next <;> cases next
    all_goals exact sound.goto _
  | ended =>
    cases e <;> simp only [Listener.step, await] at next <;> cases next

/-- The delay fits the outages that were caught since the last answered subscription. -/
def Paced (c : Listener) : Prop :=
  match c.pc with
  | .sleep => reconnect.Waits c.delay c.failures
  | .aclose true | .close | .ended => True
  | _ => reconnect.Ready c.delay c.failures

theorem paced_round (ready : reconnect.Ready c.delay c.failures) : c.round.Paced := by
  unfold Listener.round
  split
  · trivial
  · exact ready

theorem paced_listen (ready : reconnect.Ready c.delay c.failures) : c.listen.Paced := by
  unfold Listener.listen
  split <;> exact ready

/-- An outage is counted when it is caught, before the loop sleeps. -/
theorem paced_except (ready : reconnect.Ready c.delay c.failures) (e : Ending) :
    (c.except e).Paced := by
  cases e with
  | unavailable => exact ready.fails
  | _ => trivial

theorem Paced.step (paced : c.Paced) (next : c.step published e = some d) : d.Paced := by
  unfold Paced at paced
  cases await : c.pc with
  | subscribe =>
    rw [await] at paced
    cases e <;> simp only [Listener.step, await] at next <;> cases next
    · exact paced_listen Backoff.ready_base
    all_goals exact paced_except paced _
  | getMessage =>
    rw [await] at paced
    cases e <;> simp only [Listener.step, await] at next
    case message lost =>
      split at next <;> cases next
      exact paced
    all_goals cases next
    · exact paced_listen paced
    all_goals exact paced_except paced _
  | handleBreakerEvent position =>
    rw [await] at paced
    cases e <;> simp only [Listener.step, await] at next <;> cases next
    · exact paced_listen paced
    all_goals exact paced_except paced _
  | sleep =>
    rw [await] at paced
    cases e <;> simp only [Listener.step, await] at next <;> cases next
    · exact paced.passes
    · trivial
  | aclose raising =>
    cases raising with
    | true => cases e <;> simp only [Listener.step, await] at next <;> cases next <;> trivial
    | false =>
      rw [await] at paced
      cases e <;> simp only [Listener.step, await] at next <;> cases next
      case aclose.false.cancelled.refl => trivial
      all_goals exact paced_round paced
  | close => cases e <;> simp only [Listener.step, await] at next <;> cases next <;> trivial
  | ended => cases e <;> simp only [Listener.step, await] at next <;> cases next

/-- No call of the loop has failed with anything but an outage. -/
structure Unharmed (c : Listener) : Prop where
  raising : c.pc ≠ .aclose true
  stops : c.pc = .close ∨ c.pc = .ended → c.stop = true

theorem unharmed_round (c : Listener) : c.round.Unharmed := by
  unfold Listener.round
  split
  · rename_i stopped
    exact ⟨nofun, fun _ => stopped⟩
  · exact ⟨nofun, nofun⟩

theorem unharmed_listen (c : Listener) : c.listen.Unharmed := by
  unfold Listener.listen
  split <;> exact ⟨nofun, nofun⟩

/-- The call was not ended by an exception other than an outage. -/
def Ending.Expected : Ending → Prop
  | .exception | .cancelled => False
  | _ => True

instance : DecidablePred Ending.Expected := fun e => by
  cases e <;> unfold Ending.Expected <;> infer_instance

theorem Unharmed.step (unharmed : c.Unharmed) (expected : Ending.Expected e)
    (next : c.step published e = some d) : d.Unharmed := by
  obtain ⟨raising, stops⟩ := unharmed
  cases await : c.pc with
  | subscribe =>
    cases e <;> simp only [Listener.step, await] at next <;> cases next
    · exact unharmed_listen _
    · exact ⟨nofun, nofun⟩
    all_goals exact expected.elim
  | getMessage =>
    cases e <;> simp only [Listener.step, await] at next
    case message lost =>
      split at next <;> cases next
      exact ⟨nofun, nofun⟩
    all_goals cases next
    · exact unharmed_listen _
    · exact ⟨nofun, nofun⟩
    all_goals exact expected.elim
  | handleBreakerEvent position =>
    cases e <;> simp only [Listener.step, await] at next <;> cases next
    · exact unharmed_listen _
    · exact ⟨nofun, nofun⟩
    all_goals exact expected.elim
  | sleep =>
    cases e <;> simp only [Listener.step, await] at next <;> cases next
    · exact ⟨nofun, nofun⟩
    · exact expected.elim
  | aclose again =>
    cases again with
    | true => exact absurd await raising
    | false =>
      cases e <;> simp only [Listener.step, await] at next <;> cases next
      case aclose.false.cancelled.refl => exact expected.elim
      all_goals exact unharmed_round c
  | close =>
    have stopped := stops (Or.inl await)
    cases e <;> simp only [Listener.step, await] at next <;> cases next
    all_goals exact ⟨nofun, fun _ => stopped⟩
  | ended =>
    cases e <;> simp only [Listener.step, await] at next <;> cases next

end Listener

namespace Channel

variable {M : Type} {x y : Channel M} {l : Label M} {published : List M}

def Sound (x : Channel M) : Prop := x.listener.Sound x.published.length

theorem Sound.step (sound : x.Sound) (next : Channel.step l x = some y) : y.Sound := by
  cases l with
  | publish message =>
    cases next
    obtain ⟨order, below, le, since, count⟩ := sound
    refine ⟨order, below, ?_, since, count⟩
    rw [List.length_append]
    exact Nat.le_add_right_of_le le
  | stop =>
    cases next
    exact ⟨sound.order, sound.below, sound.next, sound.since, sound.count⟩
  | run e =>
    obtain ⟨d, awaited, rfl⟩ := Option.map_eq_some_iff.mp next
    exact Listener.Sound.step sound awaited

/-- Increasing positions pick a sublist. -/
theorem sublist_of_increasing {positions : List Nat} (increasing : positions.Pairwise (· < ·))
    (inside : ∀ k ∈ positions, k < published.length) :
    (positions.filterMap (fun k => published[k]?)).Sublist published := by
  have picked : positions.filterMap (fun k => published[k]?)
      = (positions.pmap Fin.mk inside).map (fun k => published[k]) := by
    clear increasing
    induction positions with
    | nil => rfl
    | cons k rest ih =>
      have there := List.getElem?_eq_getElem (inside k List.mem_cons_self)
      rw [List.filterMap_cons_some there,
        ih (fun k' listed => inside k' (List.mem_cons_of_mem _ listed))]
      rfl
  rw [picked]
  exact List.map_getElem_sublist (increasing.pmap inside (fun _ _ _ _ less => less))

theorem received_sublist (sound : x.Sound) : x.received.Sublist x.published := by
  refine sublist_of_increasing (List.pairwise_reverse.mpr sound.order) (fun k listed => ?_)
  exact lt_of_lt_of_le (sound.below k (List.mem_reverse.mp listed)) sound.next

theorem paced_step (paced : x.listener.Paced) (next : Channel.step l x = some y) :
    y.listener.Paced := by
  cases l with
  | publish message =>
    cases next
    exact paced
  | stop =>
    cases next
    exact paced
  | run e =>
    obtain ⟨d, awaited, rfl⟩ := Option.map_eq_some_iff.mp next
    exact Listener.Paced.step paced awaited

/-- The step has no exception but for outages. -/
def Calm : Label M → Prop
  | .run e => Listener.Ending.Expected e
  | _ => True

theorem unharmed_step (unharmed : x.listener.Unharmed) (calm : Calm l)
    (next : Channel.step l x = some y) : y.listener.Unharmed := by
  cases l with
  | publish message =>
    cases next
    exact unharmed
  | stop =>
    cases next
    exact ⟨unharmed.raising, fun _ => rfl⟩
  | run e =>
    obtain ⟨d, awaited, rfl⟩ := Option.map_eq_some_iff.mp next
    exact Listener.Unharmed.step unharmed calm awaited

/-- No message is handled twice, and what was handled keeps the order of
publication. Of those published since the subscription began, up to the next one,
all were handled but for those that the connection lost. At the first outage since
the last answered subscription it waits a second, at each further one twice as
long, 15 seconds at most. Without exceptions other than outages the listener ends
only when it is told to stop. -/
theorem listener_order {guard : Channel M → Label M → Prop}
    (run : Run Channel.step guard (initial published) x) :
    x.listener.handled.Nodup ∧ x.received.Sublist x.published ∧
      x.listener.since + x.listener.heard.length + x.listener.lost = x.listener.next ∧
      x.listener.next ≤ x.published.length ∧
      (x.listener.pc = .sleep → 0 < x.listener.failures ∧
        x.listener.delay = min (1 * 2 ^ (x.listener.failures - 1)) 15) ∧
      ((∀ y l, guard y l → Calm l) → x.listener.pc = .ended → x.listener.stop = true) := by
  have start : Sound (initial published) :=
    ⟨List.Pairwise.nil, nofun, Nat.zero_le _, le_refl _, rfl⟩
  have sound : x.Sound := run.invariant (I := Sound) start (fun sound _ next => sound.step next)
  have distinct : x.listener.handled.Nodup := sound.order.imp (fun less => Nat.ne_of_gt less)
  refine ⟨distinct, received_sublist sound, sound.count, sound.next, fun asleep => ?_,
    fun calm ended => ?_⟩
  · have paced : x.listener.Paced := run.invariant (I := fun x => x.listener.Paced)
      Backoff.ready_base (fun paced _ next => paced_step paced next)
    unfold Listener.Paced at paced
    rw [asleep] at paced
    exact paced
  have unharmed : x.listener.Unharmed :=
    run.invariant (I := fun x => x.listener.Unharmed) ⟨nofun, nofun⟩
      (fun unharmed admitted next => unharmed_step unharmed (calm _ _ admitted) next)
  exact unharmed.stops (Or.inr ended)

instance (l : Label M) : Decidable (Calm l) := by
  cases l <;> unfold Calm <;> infer_instance

/-- An outage costs the listener the messages published until it has subscribed again. -/
theorem listener_order_outage : ∃ x : Channel Char,
    Run Channel.step (fun _ l => Calm l) (initial ['a']) x ∧ x.received = ['b', 'd'] ∧
      x.published = ['a', 'b', 'c', 'd'] ∧ x.received.Sublist x.published := by
  have evaluates : (exec Channel.step (fun _ l => decide (Calm l))
      [.run .answers, .publish 'b', .run (.message 0), .run .unavailable, .publish 'c',
        .run .answers, .run .answers, .run .answers, .publish 'd', .run (.message 0)]
      (initial ['a'])).elim false (fun x =>
        decide (x.received = ['b', 'd'] ∧ x.published = ['a', 'b', 'c', 'd'])) = true := by
    decide +kernel
  obtain ⟨x, executed, passes⟩ := reached evaluates
  obtain ⟨received, published⟩ := of_decide_eq_true passes
  have run : Run Channel.step (fun _ l => Calm l) (initial ['a']) x :=
    run_of_exec (fun _ _ admitted => of_decide_eq_true admitted) executed
  exact ⟨x, run, received, published, (listener_order run).2.1⟩

end Channel

end Relay.Agent.Listening
