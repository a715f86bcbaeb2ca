import Relay.Delivery.RateLimit
import Relay.Lib.Transition
import Mathlib.Data.List.Perm.Subperm
import Mathlib.Tactic.Linarith

/-!
# The in-flight cap is exact

Slots are members of a sorted set that age out, so a holder that dies costs its
slot for a minute and not forever. A slot is young while it may still be swept
only by a release; the set holds every young slot, and nothing that was not
granted.
-/

namespace Relay.RateLimit

open Transition

/-- The slots of a tenant, and the tokens that were granted and not released,
each with the time it was acquired with. -/
structure Capped where
  slots : Option (Expiring (ZSet Uuid))
  clock : ℚ
  outstanding : List (Uuid × ℚ)

namespace Capped

inductive Label where
  | tick (time : ℚ)
  | acquireSlot (now : ℚ) (token : Uuid)
  | releaseSlot (token : Uuid)

def initial (clock : ℚ) : Capped := ⟨none, clock, []⟩

/-- Time does not go back, and a token is drawn that no one holds. -/
def step (cap : Nat) : Label → Capped → Option Capped
  | .tick time, x => if x.clock ≤ time then some { x with clock := time } else none
  | .acquireSlot now token, x =>
    if token ∈ x.outstanding.map Prod.fst then none
    else
      let answer := RateLimit.acquireSlot x.slots x.clock cap now token
      some { x with
        slots := answer.1
        outstanding := if answer.2 then (token, now) :: x.outstanding else x.outstanding }
  | .releaseSlot token, x =>
    some { x with
      slots := RateLimit.releaseSlot x.slots token
      outstanding := x.outstanding.filter (fun e => e.1 ≠ token) }

/-- Granted, unreleased, and acquired less than a minute ago. -/
def young (x : Capped) : List (Uuid × ℚ) :=
  x.outstanding.filter (fun e => x.clock < e.2 + slotTtlSeconds)

/-- No acquire passes a time ahead of the true time. -/
def NotAhead (x : Capped) : Label → Prop
  | .acquireSlot now _ => now ≤ x.clock
  | _ => True

instance (x : Capped) (l : Label) : Decidable (x.NotAhead l) :=
  match l with
  | .acquireSlot now _ => inferInstanceAs (Decidable (now ≤ x.clock))
  | .tick _ | .releaseSlot _ => isTrue trivial

/-- The entry of a granted token. -/
def entry (e : Uuid × ℚ) : Uuid × ℚ := (e.1, e.2 + slotTtlSeconds)

structure Tallied (cap : Nat) (x : Capped) : Prop where
  distinct : (x.outstanding.map Prod.fst).Nodup
  past : ∀ e ∈ x.outstanding, e.2 ≤ x.clock
  kept : ∀ e ∈ x.outstanding, ∃ k ∈ x.slots, e.2 + slotTtlSeconds ≤ k.deadline
  listed : ∀ e ∈ x.young, ∀ k ∈ x.slots, entry e ∈ k.value.entries
  granted : ∀ k ∈ x.slots, ∀ f ∈ k.value.entries, ∃ e ∈ x.outstanding, entry e = f
  capped : ∀ k ∈ x.slots, k.value.card ≤ cap

variable {cap : Nat} {x y : Capped} {l : Label}

theorem tallied_initial (cap : Nat) (clock : ℚ) : Tallied cap (initial clock) where
  distinct := List.nodup_nil
  past := fun _ h => absurd h List.not_mem_nil
  kept := fun _ h => absurd h List.not_mem_nil
  listed := fun _ h => absurd h List.not_mem_nil
  granted := fun _ h => by cases h
  capped := fun _ h => by cases h

theorem mem_young {e : Uuid × ℚ} :
    e ∈ x.young ↔ e ∈ x.outstanding ∧ x.clock < e.2 + slotTtlSeconds := by
  simp [young]

theorem Tallied.tick (inv : Tallied cap x) {time : ℚ} (later : x.clock ≤ time) :
    Tallied cap { x with clock := time } where
  distinct := inv.distinct
  past := fun e listed => le_trans (inv.past e listed) later
  kept := inv.kept
  listed := by
    intro e listed
    obtain ⟨outstanding, young⟩ := mem_young.mp listed
    exact inv.listed e (mem_young.mpr ⟨outstanding, lt_of_le_of_lt later young⟩)
  granted := inv.granted
  capped := inv.capped

theorem Tallied.release (inv : Tallied cap x) (token : Uuid) :
    Tallied cap { x with
      slots := RateLimit.releaseSlot x.slots token
      outstanding := x.outstanding.filter (fun e => e.1 ≠ token) } where
  distinct := inv.distinct.sublist (List.filter_sublist.map Prod.fst)
  past := fun e listed => inv.past e (List.mem_of_mem_filter listed)
  kept := by
    intro e listed
    obtain ⟨k, slots, bound⟩ := inv.kept e (List.mem_of_mem_filter listed)
    exact ⟨_, Option.mem_map_of_mem _ slots, bound⟩
  listed := by
    rintro e listed k' held
    obtain ⟨k, slots, rfl⟩ := Option.mem_map.mp held
    obtain ⟨outstanding, young⟩ := mem_young.mp listed
    obtain ⟨old, ne⟩ := List.mem_filter.mp outstanding
    refine ZSet.mem_entries_zrem.mpr ⟨inv.listed e (mem_young.mpr ⟨old, young⟩) k slots, ?_⟩
    simpa [entry] using ne
  granted := by
    rintro k' held f listed
    obtain ⟨k, slots, rfl⟩ := Option.mem_map.mp held
    obtain ⟨old, ne⟩ := ZSet.mem_entries_zrem.mp listed
    obtain ⟨e, outstanding, rfl⟩ := inv.granted k slots f old
    exact ⟨e, List.mem_filter.mpr ⟨outstanding, by simpa [entry] using ne⟩, rfl⟩
  capped := by
    rintro k' held
    obtain ⟨k, slots, rfl⟩ := Option.mem_map.mp held
    exact le_trans (List.length_filter_le _ _) (inv.capped k slots)

/-- What the script counts after sweeping. -/
def held (x : Capped) (now : ℚ) : ZSet Uuid :=
  ((Expiring.live x.clock x.slots).getD ZSet.empty).zremUpTo now

theorem mem_held {now : ℚ} {f : Uuid × ℚ} : f ∈ (x.held now).entries ↔
    (∃ k ∈ x.slots, x.clock ≤ k.deadline ∧ f ∈ k.value.entries) ∧ now < f.2 := by
  unfold held
  cases slots : x.slots with
  | none => simp [ZSet.zremUpTo, ZSet.keep, ZSet.empty]
  | some k =>
    by_cases live : x.clock ≤ k.deadline
    · simp [ZSet.zremUpTo, ZSet.keep, Expiring.live_some live, live]
    · simp [ZSet.zremUpTo, ZSet.keep, Expiring.live, not_le.mp live, live, ZSet.empty]

theorem Tallied.held_granted (inv : Tallied cap x) {now : ℚ} {f : Uuid × ℚ}
    (listed : f ∈ (x.held now).entries) : ∃ e ∈ x.outstanding, entry e = f := by
  obtain ⟨⟨k, slots, _, found⟩, _⟩ := mem_held.mp listed
  exact inv.granted k slots f found

/-- A sweep that is not ahead of the time spares the young slots. -/
theorem Tallied.young_held (inv : Tallied cap x) {now : ℚ} (early : now ≤ x.clock)
    {e : Uuid × ℚ} (listed : e ∈ x.young) : entry e ∈ (x.held now).entries := by
  obtain ⟨outstanding, young⟩ := mem_young.mp listed
  obtain ⟨k, slots, bound⟩ := inv.kept e outstanding
  have live : x.clock ≤ k.deadline := le_trans (le_of_lt young) bound
  exact mem_held.mpr
    ⟨⟨k, slots, live, inv.listed e listed k slots⟩, lt_of_le_of_lt early young⟩

theorem nodup_entries {l : List (Uuid × ℚ)} (distinct : (l.map Prod.fst).Nodup) :
    (l.map entry).Nodup := by
  apply List.Nodup.of_map Prod.fst
  rw [List.map_map]
  exact distinct

theorem Tallied.nodup_young (inv : Tallied cap x) : (x.young.map entry).Nodup :=
  nodup_entries (inv.distinct.sublist (List.filter_sublist.map Prod.fst))

/-- The young slots are members of a set that is not over the cap. -/
theorem Tallied.young_le (inv : Tallied cap x) : x.young.length ≤ cap := by
  cases slots : x.slots with
  | none =>
    have empty : x.young = [] := by
      rw [List.eq_nil_iff_forall_not_mem]
      intro e listed
      obtain ⟨k, held, _⟩ := inv.kept e (mem_young.mp listed).1
      rw [slots] at held
      cases held
    simp [empty]
  | some k =>
    have inside : x.young.map entry ⊆ k.value.entries := by
      intro f listed
      obtain ⟨e, young, rfl⟩ := List.mem_map.mp listed
      exact inv.listed e young k slots
    have fewer := (List.subperm_of_subset inv.nodup_young inside).length_le
    rw [List.length_map] at fewer
    exact le_trans fewer (inv.capped k slots)

/-- A punctual sweep leaves the young slots and no others. -/
theorem Tallied.held_card (inv : Tallied cap x) : (x.held x.clock).card = x.young.length := by
  have distinct : (x.held x.clock).entries.Nodup := List.Nodup.of_map _ (x.held x.clock).nodup
  have same : (x.held x.clock).entries.Perm (x.young.map entry) := by
    refine (List.perm_ext_iff_of_nodup distinct inv.nodup_young).mpr (fun f => ?_)
    constructor
    · intro listed
      obtain ⟨e, outstanding, rfl⟩ := inv.held_granted listed
      exact List.mem_map_of_mem (mem_young.mpr ⟨outstanding, (mem_held.mp listed).2⟩)
    · intro listed
      obtain ⟨e, young, rfl⟩ := List.mem_map.mp listed
      exact inv.young_held (le_refl _) young
  rw [ZSet.card, same.length_eq, List.length_map]

theorem acquireSlot_eq (x : Capped) (now : ℚ) (token : Uuid) :
    RateLimit.acquireSlot x.slots x.clock cap now token =
      if cap ≤ (x.held now).card then
        (x.slots.map (fun k => ⟨x.held now, k.deadline⟩), false)
      else (some ⟨(x.held now).zadd token (now + slotTtlSeconds),
        x.clock + slotTtlSeconds * 2⟩, true) := rfl

theorem Tallied.refuse (inv : Tallied cap x) {now : ℚ} (early : now ≤ x.clock) :
    Tallied cap { x with slots := x.slots.map (fun k => ⟨x.held now, k.deadline⟩) } where
  distinct := inv.distinct
  past := inv.past
  kept := by
    intro e listed
    obtain ⟨k, slots, bound⟩ := inv.kept e listed
    exact ⟨_, Option.mem_map_of_mem _ slots, bound⟩
  listed := by
    rintro e listed k' held
    obtain ⟨k, _, rfl⟩ := Option.mem_map.mp held
    exact inv.young_held early listed
  granted := by
    rintro k' held f listed
    obtain ⟨k, _, rfl⟩ := Option.mem_map.mp held
    exact inv.held_granted listed
  capped := by
    rintro k' held
    obtain ⟨k, slots, rfl⟩ := Option.mem_map.mp held
    have distinct : (x.held now).entries.Nodup := List.Nodup.of_map _ (x.held now).nodup
    have inside : (x.held now).entries ⊆ k.value.entries := by
      intro f listed
      obtain ⟨⟨k', slots', _, found⟩, _⟩ := mem_held.mp listed
      cases Option.mem_unique slots slots'
      exact found
    exact le_trans (List.subperm_of_subset distinct inside).length_le (inv.capped k slots)

theorem Tallied.grant (inv : Tallied cap x) {now : ℚ} {token : Uuid} (early : now ≤ x.clock)
    (fresh : token ∉ x.outstanding.map Prod.fst) (room : ¬ cap ≤ (x.held now).card) :
    Tallied cap { x with
      slots := some ⟨(x.held now).zadd token (now + slotTtlSeconds),
        x.clock + slotTtlSeconds * 2⟩
      outstanding := (token, now) :: x.outstanding } where
  distinct := List.nodup_cons.mpr ⟨fresh, inv.distinct⟩
  past := by
    intro e listed
    rcases List.mem_cons.mp listed with rfl | old
    · exact early
    · exact inv.past e old
  kept := by
    intro e listed
    have past : e.2 ≤ x.clock := by
      rcases List.mem_cons.mp listed with rfl | old
      · exact early
      · exact inv.past e old
    refine ⟨_, rfl, ?_⟩
    simp only [slotTtlSeconds]
    linarith
  listed := by
    rintro e listed k ⟨⟩
    obtain ⟨outstanding, young⟩ := mem_young.mp listed
    refine ZSet.mem_entries_zadd.mpr ?_
    rcases List.mem_cons.mp outstanding with rfl | old
    · exact Or.inr rfl
    · have ne : e.1 ≠ token := fun same => fresh (same ▸ List.mem_map_of_mem old)
      exact Or.inl ⟨inv.young_held early (mem_young.mpr ⟨old, young⟩), ne⟩
  granted := by
    rintro k ⟨⟩ f listed
    rcases ZSet.mem_entries_zadd.mp listed with ⟨old, _⟩ | rfl
    · obtain ⟨e, outstanding, same⟩ := inv.held_granted old
      exact ⟨e, List.mem_cons_of_mem _ outstanding, same⟩
    · exact ⟨(token, now), List.mem_cons_self, rfl⟩
  capped := by
    rintro k ⟨⟩
    have fewer : ((x.held now).zrem token).card ≤ (x.held now).card := List.length_filter_le _ _
    have card : ((x.held now).zadd token (now + slotTtlSeconds)).card =
        ((x.held now).zrem token).card + 1 := by
      simp [ZSet.card, ZSet.zadd]
    change ((x.held now).zadd token (now + slotTtlSeconds)).card ≤ cap
    omega

theorem Tallied.step (inv : Tallied cap x) (early : x.NotAhead l)
    (next : Capped.step cap l x = some y) : Tallied cap y := by
  cases l with
  | tick time =>
    simp only [Capped.step] at next
    split at next
    · rename_i later
      cases next
      exact inv.tick later
    · cases next
  | releaseSlot token =>
    cases next
    exact inv.release token
  | acquireSlot now token =>
    simp only [Capped.step, acquireSlot_eq] at next
    split at next
    · cases next
    · rename_i fresh
      by_cases full : cap ≤ (x.held now).card
      · simp only [if_pos full] at next
        cases next
        exact inv.refuse early
      · simp only [if_neg full] at next
        cases next
        exact inv.grant early fresh full

/-- Never more than `cap` young slots, though some clocks lag; and whoever
passes the true time is granted a slot exactly when there are fewer. -/
theorem inflight_capped {start : ℚ} (run : Run (step cap) NotAhead (initial start) x) :
    x.young.length ≤ cap ∧ ∀ token,
      (RateLimit.acquireSlot x.slots x.clock cap x.clock token).2 = true ↔
        x.young.length < cap := by
  have inv : Tallied cap x := run.invariant (tallied_initial cap start)
    (fun inv early next => inv.step early next)
  refine ⟨inv.young_le, fun token => ?_⟩
  rw [acquireSlot_eq, inv.held_card]
  by_cases full : cap ≤ x.young.length
  · simp [full, not_lt.mpr full]
  · simp [full, not_le.mp full]

/-- The first of two holders dies, the second is still at work after 65 s. -/
theorem inflight_capped_two : ∃ x : Capped, Run (step 2) NotAhead (initial 0) x ∧
    x.outstanding = [(2, 10), (1, 0)] ∧ x.clock = 65 ∧ x.young.length ≤ 2 ∧ ∀ token,
      (RateLimit.acquireSlot x.slots x.clock 2 x.clock token).2 = true ↔
        x.young.length < 2 := by
  have evaluates : (exec (step 2) (fun x l => decide (x.NotAhead l))
      [.acquireSlot 0 1, .tick 11, .acquireSlot 10 2, .acquireSlot 11 3, .releaseSlot 3, .tick 65]
      (initial 0)).elim false
      (fun x => decide (x.outstanding = [(2, 10), (1, 0)] ∧ x.clock = 65)) = true := by
    decide +kernel
  obtain ⟨x, executed, passes⟩ := reached evaluates
  obtain ⟨outstanding, clock⟩ := of_decide_eq_true passes
  have run := run_of_exec (fun _ _ => of_decide_eq_true) executed
  exact ⟨x, run, outstanding, clock, inflight_capped run⟩

end Capped

end Relay.RateLimit
