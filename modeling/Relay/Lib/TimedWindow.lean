import Relay.Lib.Expiring
import Relay.Lib.ZSet
import Mathlib.Tactic.Linarith

/-!
# A sliding window in a sorted set

Events are members scored by their time. Every use first removes what has left
the window, and the key lives at least as long as the window after the last
addition. Then the set holds, whenever it is read, exactly the recent events of
the whole history.
-/

universe u

namespace TimedWindow

variable {A : Type u}

/-- What a read at `t` finds of the last `w` seconds. -/
def recent (w : ℚ) (stored : Option (Expiring (ZSet A))) (t : ℚ) : ZSet A :=
  ((Expiring.live t stored).getD ZSet.empty).zremUpTo (t - w)

/-- From the latest use on, reads find the recent part of the history. -/
def Keeps (w : ℚ) (stored : Option (Expiring (ZSet A))) (history : List (A × ℚ))
    (latest : Option ℚ) : Prop :=
  ∀ t, (∀ l ∈ latest, l ≤ t) →
    (recent w stored t).entries = history.filter (fun e => t - w < e.2)

variable {w ttl t : ℚ} {stored : Option (Expiring (ZSet A))} {history : List (A × ℚ)}
  {latest : Option ℚ}

theorem recent_live {z : ZSet A} {deadline : ℚ} (live : t ≤ deadline) :
    recent w (some ⟨z, deadline⟩) t = z.zremUpTo (t - w) := by
  rw [recent, Expiring.live_some live, Option.getD_some]

theorem recent_gone {z : ZSet A} {deadline : ℚ} (gone : deadline < t) :
    recent w (some ⟨z, deadline⟩) t = ZSet.empty := by
  rw [recent, show Expiring.live t (some (⟨z, deadline⟩ : Expiring (ZSet A))) = none from
    if_pos gone]
  rfl

theorem keeps_none : Keeps w (none : Option (Expiring (ZSet A))) [] latest := fun _ _ => rfl

theorem Keeps.later (keeps : Keeps w stored history latest) (after : ∀ l ∈ latest, l ≤ t) :
    Keeps w stored history (some t) :=
  fun t' passed => keeps t' (fun l known => le_trans (after l known) (passed t rfl))

/-- A later window is cut out of an earlier one. -/
theorem filter_recent {s : ℚ} (later : s ≤ t) (l : List (A × ℚ)) :
    (l.filter (fun e => s - w < e.2)).filter (fun e => t - w < e.2) =
      l.filter (fun e => t - w < e.2) := by
  rw [List.filter_filter]
  apply List.filter_congr
  intro e _
  by_cases inside : t - w < e.2
  · have earlier : s - w < e.2 := by linarith
    simp [inside, earlier]
  · simp [inside]

/-- ZREMRANGEBYSCORE without an addition leaves the key's time to live alone. -/
theorem Keeps.trim (keeps : Keeps w stored history latest) (after : ∀ l ∈ latest, l ≤ t) :
    Keeps w (stored.map (fun k => ⟨recent w stored t, k.deadline⟩)) history (some t) := by
  intro t' passed
  have later : t ≤ t' := passed t rfl
  rw [← keeps t' (fun l known => le_trans (after l known) later)]
  cases stored with
  | none => rfl
  | some k =>
    rw [Option.map_some]
    by_cases live : t' ≤ k.deadline
    · rw [recent_live live, recent_live (le_trans later live), recent_live live]
      exact filter_recent later k.value.entries
    · rw [recent_gone (not_le.mp live), recent_gone (not_le.mp live)]

/-- What a new member at the time of the read joins. -/
theorem Keeps.entries_zadd [DecidableEq A] {m : A} (keeps : Keeps w stored history latest)
    (after : ∀ l ∈ latest, l ≤ t) (new : m ∉ history.map Prod.fst) :
    ((recent w stored t).zadd m t).entries =
      history.filter (fun e => t - w < e.2) ++ [(m, t)] := by
  have found := keeps t after
  have absent : ¬ (recent w stored t).Mem m := by
    unfold ZSet.Mem
    rw [found]
    exact fun listed => new ((List.filter_sublist.map Prod.fst).subset listed)
  show ((recent w stored t).zrem m).entries ++ [(m, t)] = _
  rw [ZSet.zrem_of_not_mem absent, found]

theorem Keeps.add [DecidableEq A] {m : A} (keeps : Keeps w stored history latest)
    (after : ∀ l ∈ latest, l ≤ t)
    (past : ∀ e ∈ history, e.2 ≤ t) (new : m ∉ history.map Prod.fst) (long : w ≤ ttl) :
    Keeps w (some ⟨(recent w stored t).zadd m t, t + ttl⟩) (history ++ [(m, t)]) (some t) := by
  intro t' passed
  have later : t ≤ t' := passed t rfl
  by_cases live : t' ≤ t + ttl
  · rw [recent_live live]
    show ((recent w stored t).zadd m t).entries.filter (fun e => t' - w < e.2) = _
    rw [keeps.entries_zadd after new, List.filter_append, List.filter_append, filter_recent later]
  · rw [recent_gone (not_le.mp live)]
    symm
    refine List.filter_eq_nil_iff.mpr (fun e listed inside => ?_)
    have young : t' - w < e.2 := of_decide_eq_true inside
    have old : e.2 ≤ t := by
      rcases List.mem_append.mp listed with earlier | last
      · exact past e earlier
      · rw [List.mem_singleton.mp last]
    linarith [not_le.mp live]

end TimedWindow
