import Relay.Properties.AgentFrame
import Relay.Lib.Summary
import Mathlib.Data.List.GetD

/-!
# The history that the agent is shown is that of the endpoint

What `query_attempts` returns is a summary of exactly the endpoint's attempts in the
window: every count, the percentiles, the first and the last failure.
-/

namespace Relay.Agent

open Effects Summary Worker

variable {env : Surroundings} {rows : List (ℚ × DeliveryAttempt)}

/-- The class that an attempt is counted under. -/
def errorKey (a : DeliveryAttempt) : String := orText a.errorClass "success"

def statusKey (a : DeliveryAttempt) : String :=
  match a.httpStatus with
  | none => "none"
  | some 0 => "none"
  | some n => toString n

def failuresIn (rows : List (ℚ × DeliveryAttempt)) : List (ℚ × DeliveryAttempt) :=
  rows.filter (fun r => isFailure r.2)

def latenciesIn (rows : List (ℚ × DeliveryAttempt)) : List Nat :=
  rows.map (fun r => r.2.latencyMs)

/-- A table of counts, as a dictionary. -/
def table (counts : List (String × Nat)) : Json :=
  .obj (counts.map (fun c => (c.1, Json.ofNat c.2)))

/-- The first of these rows in some order, or none. -/
def Extreme (le : ℚ → ℚ → Prop) (rows : List (ℚ × DeliveryAttempt)) :
    Option (ℚ × DeliveryAttempt) → Prop
  | none => rows = []
  | some r => r ∈ rows ∧ ∀ r' ∈ rows, le r.1 r'.1

/-- A table under this field counts the rows by this key, each row once. -/
def Counted (fields : List (String × Json)) (name : String) (key : DeliveryAttempt → String)
    (rows : List (ℚ × DeliveryAttempt)) : Prop :=
  ∃ counts, lookup fields name = some (table counts) ∧
    Tallies counts (rows.map (fun r => key r.2)) ∧ (counts.map Prod.snd).sum = rows.length

/-- The fields describe these attempts. -/
structure Describes (env : Surroundings) (rows : List (ℚ × DeliveryAttempt))
    (fields : List (String × Json)) : Prop where
  total : lookup fields "total_attempts" = some (Json.ofNat rows.length)
  failed : lookup fields "failed_attempts" = some (Json.ofNat (failuresIn rows).length)
  rate : ∃ q, lookup fields "failure_rate" = some (.num q) ∧
    |q - (failuresIn rows).length / rows.length| ≤ 1 / 2000
  classes : Counted fields "counts_by_error_class" errorKey rows
  statuses : Counted fields "counts_by_http_status" statusKey rows
  latency : ∃ p50 p95 most : Nat, ∃ mean : ℚ,
    lookup fields "latency_ms" = some (.obj [("p50", Json.ofNat p50), ("p95", Json.ofNat p95),
      ("max", Json.ofNat most), ("mean", .num mean)]) ∧
    Quantile (latenciesIn rows) 1 2 p50 ∧ Quantile (latenciesIn rows) 95 100 p95 ∧
    most ∈ latenciesIn rows ∧ (∀ ms ∈ latenciesIn rows, ms ≤ most) ∧
    |mean - (latenciesIn rows).sum / rows.length| ≤ 1 / 20
  first : ∃ r, lookup fields "first_failed_at" =
    some (Json.optional (fun f => .str (env.isoformat f.1)) r) ∧
      Extreme (· ≤ ·) (failuresIn rows) r
  last : ∃ r, lookup fields "last_failed_at" =
    some (Json.optional (fun f => .str (env.isoformat f.1)) r) ∧
      Extreme (· ≥ ·) (failuresIn rows) r
  snippets : ∃ texts : List String, lookup fields "sample_response_snippets" =
    some (.arr (texts.map .str)) ∧ texts.length ≤ snippetSamples ∧
    ∀ text ∈ texts, text.toList.length ≤ 200 ∧ ∃ r ∈ failuresIn rows, ∃ body,
      r.2.responseSnippet = some body ∧ text.toList <+: body.toList

/-! Counts -/

theorem any_key {counts : List (String × Nat)} {key : String} :
    counts.any (fun c => decide (c.1 = key)) = true ↔ key ∈ counts.map Prod.fst := by
  rw [List.any_eq_true, List.mem_map]
  constructor
  · rintro ⟨c, listed, same⟩
    exact ⟨c, listed, of_decide_eq_true same⟩
  · rintro ⟨c, listed, same⟩
    exact ⟨c, listed, decide_eq_true same⟩

theorem tallies_increment {counts : List (String × Nat)} {keys : List String} (key : String)
    (tallies : Tallies counts keys) : Tallies (increment counts key) (keys ++ [key]) := by
  unfold increment
  by_cases present : key ∈ counts.map Prod.fst
  · rw [if_pos (any_key.mpr present)]
    exact tallies.again present
  · rw [if_neg (fun there => present (any_key.mp there))]
    exact tallies.first present

theorem tallies_foldl {counts : List (String × Nat)} {seen : List String} (keys : List String)
    (tallies : Tallies counts seen) : Tallies (keys.foldl increment counts) (seen ++ keys) := by
  induction keys generalizing counts seen with
  | nil => rwa [List.append_nil]
  | cons key rest ih =>
    have next := ih (tallies_increment key tallies)
    rwa [List.append_assoc] at next

theorem counted_countBy {fields : List (String × Json)} {name : String}
    (key : DeliveryAttempt → String)
    (found : lookup fields name = some (countBy (rows.map (fun r => key r.2)))) :
    Counted fields name key rows := by
  have tallies : Tallies ((rows.map (fun r => key r.2)).foldl increment [])
      (rows.map (fun r => key r.2)) := tallies_foldl _ Tallies.nil
  exact ⟨_, found, tallies, tallies.sum.trans (List.length_map _)⟩

/-! Numbers -/

theorem abs_round_sub_le (places : Nat) (q : ℚ) :
    |round places q - q| ≤ 1 / (2 * 10 ^ places) := by
  have unit : (0 : ℚ) < 10 ^ places := by positivity
  have low : (⌊q * 10 ^ places⌋ : ℚ) ≤ q * 10 ^ places := Int.floor_le _
  have high : q * 10 ^ places < ⌊q * 10 ^ places⌋ + 1 := Int.lt_floor_add_one _
  -- the nearest integer is at most a half away
  have half : ∀ n : Int, |(n : ℚ) - q * 10 ^ places| ≤ 1 / 2 →
      |n / 10 ^ places - q| ≤ 1 / (2 * 10 ^ places) := by
    intro n near
    have scaled : (n : ℚ) / 10 ^ places - q = (n - q * 10 ^ places) / 10 ^ places := by
      field_simp
    rw [scaled, abs_div, abs_of_pos unit, ← div_div]
    gcongr
  unfold round
  refine half _ (abs_le.mpr ?_)
  split
  · constructor <;> linarith
  · split
    · push_cast
      constructor <;> linarith
    · split
      · constructor <;> linarith
      · push_cast
        constructor <;> linarith

/-! Fields -/

theorem head_extreme {failures : List (ℚ × DeliveryAttempt)}
    (ordered : failures.Pairwise (fun a b => a.1 ≤ b.1)) :
    Extreme (· ≤ ·) failures failures.head? := by
  cases failures with
  | nil => rfl
  | cons r rest =>
    refine ⟨List.mem_cons_self, fun r' listed => ?_⟩
    rcases List.mem_cons.mp listed with rfl | later
    · exact le_refl r'.1
    · exact List.rel_of_pairwise_cons ordered later

theorem getLast_extreme {failures : List (ℚ × DeliveryAttempt)}
    (ordered : failures.Pairwise (fun a b => a.1 ≤ b.1)) :
    Extreme (· ≥ ·) failures failures.getLast? := by
  have reversed : failures.reverse.Pairwise (fun a b => b.1 ≤ a.1) :=
    List.pairwise_reverse.mpr ordered
  rw [← List.head?_reverse]
  cases last : failures.reverse with
  | nil => exact List.reverse_eq_nil_iff.mp last
  | cons r rest =>
    rw [last] at reversed
    have members : ∀ r', r' ∈ failures ↔ r' ∈ r :: rest := fun r' => by
      rw [← last, List.mem_reverse]
    refine ⟨(members r).mpr List.mem_cons_self, fun r' listed => ?_⟩
    rcases List.mem_cons.mp ((members r').mp listed) with rfl | earlier
    · exact le_refl r'.1
    · exact List.rel_of_pairwise_cons reversed earlier

/-- The texts that `query_attempts` takes from failed attempts. -/
def sampled (rows : List (ℚ × DeliveryAttempt)) : List String :=
  ((rows.filterMap (fun r =>
    if isFailure r.2 then r.2.responseSnippet.filter (fun s => s ≠ "") else none)).take
      snippetSamples).map (fun s => String.ofList (s.toList.take 200))

theorem sampled_sound {text : String} (listed : text ∈ sampled rows) :
    text.toList.length ≤ 200 ∧ ∃ r ∈ failuresIn rows, ∃ body,
      r.2.responseSnippet = some body ∧ text.toList <+: body.toList := by
  obtain ⟨body, taken, rfl⟩ := List.mem_map.mp listed
  obtain ⟨r, row, chosen⟩ := List.mem_filterMap.mp (List.mem_of_mem_take taken)
  by_cases failed : isFailure r.2 = true
  · rw [if_pos failed] at chosen
    have stored := (Option.filter_eq_some_iff.mp chosen).1
    refine ⟨?_, r, List.mem_filter.mpr ⟨row, failed⟩, body, stored, ?_⟩
    · simp
    · simpa using List.take_prefix 200 body.toList
  · rw [if_neg failed] at chosen
    cases chosen

/-- Percentiles are taken from the sorted latencies. -/
theorem latency_quantiles (some : rows ≠ []) :
    let ordered := (latenciesIn rows).insertionSort (· ≤ ·)
    Quantile (latenciesIn rows) 1 2 (ordered.getD (ordered.length / 2) 0) ∧
      Quantile (latenciesIn rows) 95 100
        (ordered.getD (min (ordered.length - 1) (ordered.length * 95 / 100)) 0) ∧
      ordered.getD (ordered.length - 1) 0 ∈ latenciesIn rows ∧
      ∀ ms ∈ latenciesIn rows, ms ≤ ordered.getD (ordered.length - 1) 0 := by
  intro ordered
  have perm : ordered.Perm (latenciesIn rows) := List.perm_insertionSort _ _
  have sorted : ordered.Pairwise (· ≤ ·) := List.pairwise_insertionSort _ _
  have positive : 0 < ordered.length := by
    rw [perm.length_eq, latenciesIn, List.length_map]
    exact List.length_pos_iff.mpr some
  have last : ordered.length - 1 < ordered.length := by omega
  have half : ordered.length / 2 < ordered.length := by omega
  have most : min (ordered.length - 1) (ordered.length * 95 / 100) < ordered.length := by omega
  rw [List.getD_eq_getElem _ _ half, List.getD_eq_getElem _ _ most, List.getD_eq_getElem _ _ last]
  exact ⟨quantile_getElem perm sorted half (by omega) (by omega),
    quantile_getElem perm sorted most (by omega) (by omega),
    perm.mem_iff.mp (List.getElem_mem last), fun ms listed =>
      getElem_last perm sorted last listed⟩

theorem summary_describes (some : rows ≠ [])
    (ordered : rows.Pairwise (fun a b => a.1 ≤ b.1)) : Describes env rows (summary env rows) := by
  have failing : (failuresIn rows).Pairwise (fun a b => a.1 ≤ b.1) :=
    ordered.sublist List.filter_sublist
  obtain ⟨half, most, occurs, upTo⟩ := latency_quantiles some
  unfold summary
  rw [if_neg some]
  refine {
    total := rfl
    failed := rfl
    rate := ⟨_, rfl, (abs_round_sub_le 3 _).trans (by norm_num)⟩
    classes := counted_countBy errorKey rfl
    statuses := counted_countBy statusKey rfl
    latency := ⟨_, _, _, _, rfl, half, most, occurs, upTo, ?_⟩
    first := ⟨_, rfl, head_extreme failing⟩
    last := ⟨_, rfl, getLast_extreme failing⟩
    snippets := ⟨sampled rows, ?_, by simp [sampled], fun _ => sampled_sound⟩ }
  · have rounded := abs_round_sub_le 1 (((latenciesIn rows).sum : ℚ) / (latenciesIn rows).length)
    have length : (latenciesIn rows).length = rows.length := List.length_map _
    rw [← length]
    exact rounded.trans (by norm_num)
  · rw [sampled, List.map_map]
    rfl

/-! The call -/

theorem execute_ok {α : Type} {query : Db → α} {p : Progress} {a : α}
    (ran : outcome (execute env query) p = .ok a) : a = query p.store.db := by
  obtain ⟨n, first, rest, _⟩ := bind_ok ran
  have stayed : final await p = { p with awaits := p.awaits + 1 } := rfl
  rw [stayed, outcome_get_bind] at rest
  split at rest
  · cases rest
  · cases rest
  · cases fault : env.fault n with
    | none =>
      rw [fault] at rest
      cases rest
      rfl
    | before e | after e | refused e =>
      rw [fault] at rest
      cases rest

/-- The numbered attempt is one of the endpoint, begun at `since` or later. -/
def InWindow (env : Surroundings) (endpointId : Uuid) (since : ℚ) (db : Db)
    (r : DeliveryAttempt × Nat) : Prop :=
  since ≤ env.startedAt r.2 ∧ ∃ d ∈ db.delivery r.1.deliveryId, d.endpointId = endpointId

instance (env : Surroundings) (endpointId : Uuid) (since : ℚ) (db : Db) :
    DecidablePred (InWindow env endpointId since db) :=
  fun _ => inferInstanceAs (Decidable (_ ∧ _))

theorem attemptsSince_perm (endpointId : Uuid) (since : ℚ) (db : Db) :
    (attemptsSince env endpointId since db).Perm
      ((db.attempts.zipIdx.filter (fun r => InWindow env endpointId since db r)).map
        (fun r => (env.startedAt r.2, r.1))) := by
  refine (List.perm_insertionSort _ _).trans (List.Perm.of_eq ?_)
  rw [List.filter_map]
  refine congrArg (List.map _) (List.filter_congr (fun r _ => ?_))
  refine decide_eq_decide.mpr (and_congr_right fun _ => ?_)
  rw [Option.any_eq_true]
  exact exists_congr fun d => and_congr_right fun _ => decide_eq_true_iff

theorem attemptsSince_ordered (endpointId : Uuid) (since : ℚ) (db : Db) :
    (attemptsSince env endpointId since db).Pairwise (fun a b => a.1 ≤ b.1) := by
  have total : Std.Total (fun a b : ℚ × DeliveryAttempt => a.1 ≤ b.1) :=
    ⟨fun a b => le_total a.1 b.1⟩
  have trans : IsTrans (ℚ × DeliveryAttempt) (fun a b => a.1 ≤ b.1) :=
    ⟨fun _ _ _ first second => le_trans first second⟩
  exact List.pairwise_insertionSort _ _

/-- Whenever the tool returns, its window is in range, and what it returns is a summary of
the attempts of the endpoint that began in it. -/
theorem attempts_described {endpointId : Uuid} {minutes : Int} {p : Progress}
    {fields : List (String × Json)}
    (ran : outcome (queryAttempts env endpointId minutes) p = .ok fields) :
    ∃ since, minutesBefore (env.clock p.awaits) minutes = .ok since ∧
      ∃ rows : List (ℚ × DeliveryAttempt),
        rows.Perm ((p.store.db.attempts.zipIdx.filter
          (fun r => InWindow env endpointId since p.store.db r)).map
            (fun r => (env.startedAt r.2, r.1))) ∧
        (rows = [] → lookup fields "total_attempts" = some (Json.ofNat 0)) ∧
        (rows ≠ [] → Describes env rows fields) := by
  unfold queryAttempts at ran
  rw [outcome_get_bind] at ran
  split at ran
  · cases ran
  · rename_i since inRange
    obtain ⟨rows, selected, returned, _⟩ := bind_ok ran
    obtain rfl := execute_ok selected
    cases returned
    refine ⟨since, inRange, attemptsSince env endpointId since p.store.db,
      attemptsSince_perm endpointId since _, fun none => ?_, fun some => ?_⟩
    · rw [none]
      rfl
    · exact summary_describes some (attemptsSince_ordered endpointId since p.store.db)

/-! A failure, a success, and an attempt at another endpoint -/

def attempted : Store :=
  { brokenEndpoint with
    db := {
      deliveries := [⟨30, 10, 1, .delivered, 2, none⟩, ⟨31, 10, 4, .failed, 1, some 9⟩]
      attempts := [⟨30, 1, 50, some 500, some "http_5xx", some "oops"⟩,
        ⟨31, 1, 90, none, some "timeout", none⟩, ⟨30, 2, 20, some 200, none, none⟩] } }

theorem attempts_described_twice : ∃ fields,
    outcome (queryAttempts pausing 1 60) { store := attempted } = .ok fields ∧
      lookup fields "total_attempts" = some (Json.ofNat 2) := by
  have inRange : minutesBefore (pausing.clock 0) 60 = .ok (0 - (60 : Int) * 60) :=
    if_pos (by decide +kernel)
  have ran : outcome (queryAttempts pausing 1 60) { store := attempted } =
      .ok (summary pausing (attemptsSince pausing 1 (0 - (60 : Int) * 60) attempted.db)) := by
    unfold queryAttempts
    rw [outcome_get_bind]
    simp only [inRange]
    rfl
  obtain ⟨since, found, rows, perm, _, describes⟩ := attempts_described ran
  cases Except.ok.inj (inRange.symm.trans found)
  have two : rows.length = 2 := by
    rw [perm.length_eq]
    decide +kernel
  have some : rows ≠ [] := List.ne_nil_of_length_pos (by omega)
  exact ⟨_, ran, two ▸ (describes some).total⟩

end Relay.Agent
