import Relay.Delivery.Reclaim
import Relay.Pipeline.Holding

/-!
# What a reclaim pass covers

A pass always ends. It also ends at an answer without messages, so an entry that
was stale is left out where a call finds a hundred fresh entries in front of it.
-/

namespace Relay.Reclaim

open StreamLog Transition Enqueue Worker

variable {course : Course} {consumer : Nat} {log : StreamLog Fields} {p q : Pass}

/-- Every entry that was stale when the pass started was passed on, once. -/
def Covers (course : Course) (log : StreamLog Fields) (y : Pass) : Prop :=
  ∀ id fields, log.Stale minIdle (course.clock 0) id → log.entries[id]? = some fields →
    y.handled.filter (fun call => call.1 = id) = [(id, fields)]

/-- No entry that was stale when the pass started lies behind the entries that the
call at hand examines, when all these are fresh. -/
def Reaches (course : Course) (log : StreamLog Fields) (p : Pass) : Prop :=
  ∀ cursor, p.pc = .claim cursor →
    (∀ e ∈ (p.log.fromId (cursor.getD 0)).take (attemptsFor reclaimCount),
      ¬ Waited minIdle (course.clock p.awaited) e) →
    ∀ e ∈ (p.log.fromId (cursor.getD 0)).drop (attemptsFor reclaimCount),
      ¬ log.Stale minIdle (course.clock 0) e.id

/-- The account of a pass that has gone through the entries below a bound, or
through all of them. -/
structure Tally (course : Course) (log : StreamLog Fields) (bound : Option Nat) (p : Pass) :
    Prop where
  distinct : (p.handled.map Prod.fst).Nodup
  passed : ∀ m ∈ p.handled, log.entries[m.1]? = some m.2
  below : ∀ b, bound = some b → ∀ m ∈ p.handled, m.1 < b
  seen : ∀ id, log.Stale minIdle (course.clock 0) id →
    id ∈ p.handled.map Prod.fst ∨ ∃ b, bound = some b ∧ b ≤ id
  keeps : ∀ b, bound = some b → Keeps b log p.log

theorem tally_start (course : Course) (log : StreamLog Fields) :
    Tally course log (some 0) (start log) where
  distinct := List.nodup_nil
  passed _ listed := nomatch listed
  below _ _ _ listed := nomatch listed
  seen id _ := Or.inr ⟨0, rfl, Nat.zero_le id⟩
  keeps b _ := Keeps.refl b log

theorem filter_key {calls : List (Nat × Fields)} {id : Nat} {fields : Fields}
    (distinct : (calls.map Prod.fst).Nodup) (listed : (id, fields) ∈ calls) :
    calls.filter (fun call => call.1 = id) = [(id, fields)] := by
  induction calls with
  | nil => exact nomatch listed
  | cons call rest ih =>
    obtain ⟨new, later⟩ := List.nodup_cons.mp distinct
    rcases List.mem_cons.mp listed with rfl | listed
    · rw [List.filter_cons_of_pos (by simp), List.filter_eq_nil_iff.mpr]
      intro other member
      have known := List.mem_map_of_mem (f := Prod.fst) member
      simpa using fun same : other.1 = id => new (same ▸ known)
    · have other : call.1 ≠ id := fun same => new (same ▸ List.mem_map_of_mem listed)
      rw [List.filter_cons_of_neg (by simpa using other)]
      exact ih later listed

theorem Tally.covers_iff {bound : Option Nat} (tally : Tally course log bound p) :
    Covers course log p ↔
      ∀ id, log.Stale minIdle (course.clock 0) id → id ∈ p.handled.map Prod.fst := by
  constructor
  · intro covers id stale
    have appended := Nat.lt_of_lt_of_le stale.isPending.lt log.delivered_le
    have once := covers id _ stale (List.getElem?_eq_getElem appended)
    have listed := once ▸ List.mem_singleton_self _
    exact List.mem_map_of_mem (f := Prod.fst) (List.mem_of_mem_filter listed)
  · intro all id fields stale entry
    obtain ⟨m, listed, rfl⟩ := List.mem_map.mp (all id stale)
    have same : m.2 = fields := Option.some.inj ((tally.passed m listed).symm.trans entry)
    exact filter_key tally.distinct (same ▸ listed)

/-- The entries of a batch are passed on one after the other. -/
theorem leads_handled {P : Pass → Prop} (consumer : Nat) {cursor : Option Nat}
    {messages todo : List (Nat × Fields)}
    (holds : ∀ {q : Pass} {rest}, q.pc = .handle cursor messages rest → P q)
    (within : p.pc = .handle cursor messages todo) :
    ∃ q, Leads (next course consumer) P p q ∧ q.pc = .handle cursor messages [] ∧
      q.handled = p.handled ++ todo ∧
      ∀ b, (∀ m ∈ todo, m.1 < b) → Keeps b p.log q.log := by
  induction todo generalizing p with
  | nil =>
    exact ⟨p, .here p, within, (List.append_nil _).symm, fun b _ => Keeps.refl b p.log⟩
  | cons message todo ih =>
    obtain ⟨q, first, pc, log, handled⟩ :=
      (next_handle within : ∃ q, next course consumer p = some q ∧ _)
    obtain ⟨z, path, done, all, keeps⟩ := ih pc
    refine ⟨z, .step first (holds within) path, done, ?_, fun b below => ?_⟩
    · rw [all, handled, List.append_assoc, List.singleton_append]
    · have one : Keeps b p.log q.log :=
        log ▸ Keeps.handleMessage (below message List.mem_cons_self)
      exact one.trans (keeps b fun m listed => below m (List.mem_cons_of_mem _ listed))

/-- An entry that was stale at the start and has not been handled yet still is. -/
theorem Keeps.stale {b : Nat} {e : PendingEntry} (keeps : Keeps b log p.log)
    (course : Course) (high : b ≤ e.id) (listed : e ∈ log.pending)
    (waited : minIdle ≤ course.clock 0 - e.since) :
    e ∈ p.log.pending ∧ Waited minIdle (course.clock p.awaited) e := by
  have forward := course.forward (Nat.zero_le p.awaited)
  exact ⟨(keeps.pending e high).mpr listed, waited.trans (sub_le_sub_right forward _)⟩

/-- What a call claims adds to the account. -/
theorem Tally.after {cursor : Option Nat} {z : Pass}
    (tally : Tally course log (some (cursor.getD 0)) p)
    (handled : z.handled = p.handled ++ (claim course consumer p cursor).messages)
    (keeps : ∀ c, (∀ m ∈ (claim course consumer p cursor).messages, m.1 < c) →
      Keeps c (claim course consumer p cursor).log z.log) :
    Tally course log (claim course consumer p cursor).cursor z := by
  have claims := claim_claims course consumer p cursor
  generalize claim course consumer p cursor = reply at *
  have kept := tally.keeps _ rfl
  have lower := tally.below _ rfl
  constructor
  case distinct =>
    rw [handled, List.map_append]
    refine List.nodup_append.mpr ⟨tally.distinct, claims.distinct, ?_⟩
    rintro _ first _ second rfl
    obtain ⟨m, old, same⟩ := List.mem_map.mp first
    obtain ⟨m', new, same'⟩ := List.mem_map.mp second
    have high := (claims.sound m' new).1
    have low := lower m old
    omega
  case passed =>
    intro m listed
    rw [handled] at listed
    rcases List.mem_append.mp listed with old | new
    · exact tally.passed m old
    · obtain ⟨high, ⟨e, pending, same, _⟩, entry⟩ := claims.sound m new
      have known := (kept.pending e (same ▸ high)).mp pending
      have appended := Nat.lt_of_lt_of_le (log.pending_lt e known) log.delivered_le
      obtain ⟨later, longer⟩ := kept.entries
      rwa [← longer, List.getElem?_append_left (same ▸ appended)] at entry
  case below =>
    intro c next m listed
    obtain ⟨low, _, newer⟩ := claims.cursor c next
    rw [handled] at listed
    rcases List.mem_append.mp listed with old | new
    · exact Nat.lt_of_lt_of_le (lower m old) low
    · exact newer m new
  case seen =>
    intro id stale
    rw [handled, List.map_append]
    rcases tally.seen id stale with old | ⟨b, same, high⟩
    · exact Or.inl (List.mem_append_left _ old)
    · obtain rfl := Option.some.inj same
      obtain ⟨e, pending, rfl, waited⟩ := stale
      obtain ⟨still, waited⟩ := kept.stale course high pending waited
      exact (claims.complete e still high waited).imp_left (List.mem_append_right _)
  case keeps =>
    intro c next
    obtain ⟨low, _, newer⟩ := claims.cursor c next
    have claimed : Keeps c p.log reply.log := by
      rw [claims.log]
      refine Keeps.xclaim (fun id listed => ?_) _ _ _
      obtain ⟨m, new, rfl⟩ := List.mem_map.mp listed
      exact newer m new
    exact ((kept.mono low).trans claimed).trans (keeps c newer)

theorem Tally.congr {bound : Option Nat} {y z : Pass} (tally : Tally course log bound z)
    (handled : y.handled = z.handled) (same : y.log = z.log) : Tally course log bound y where
  distinct := handled ▸ tally.distinct
  passed := handled ▸ tally.passed
  below := handled ▸ tally.below
  seen := handled ▸ tally.seen
  keeps := same ▸ tally.keeps

/-- A call that claims something continues behind it, within the list. -/
theorem Tally.further {cursor : Option Nat} {c : Nat}
    (tally : Tally course log (some (cursor.getD 0)) p)
    (claimed : (claim course consumer p cursor).messages ≠ [])
    (ahead : (claim course consumer p cursor).cursor = some c) :
    cursor.getD 0 < c ∧ c < log.lastDelivered := by
  have claims := claim_claims course consumer p cursor
  obtain ⟨m, listed⟩ := List.exists_mem_of_ne_nil _ claimed
  obtain ⟨low, pending, newer⟩ := claims.cursor c ahead
  obtain ⟨e, still, rfl⟩ := List.mem_map.mp pending
  have known := ((tally.keeps _ rfl).pending e low).mp still
  exact ⟨Nat.lt_of_le_of_lt (claims.sound m listed).1 (newer m listed), log.pending_lt e known⟩

/-- At an empty answer the pass has covered the stale entries if and only if none
lies behind those that were examined. -/
theorem Tally.reaches_iff {cursor : Option Nat} (at_call : p.pc = .claim cursor)
    (tally : Tally course log (some (cursor.getD 0)) p)
    (empty : (claim course consumer p cursor).messages = []) :
    Covers course log p ↔ Reaches course log p := by
  have fresh := (StreamLog.xautoclaim_empty (by decide)).mp empty
  have kept := tally.keeps _ rfl
  rw [tally.covers_iff]
  constructor
  · intro all cursor' same _ e behind stale
    cases at_call.symm.trans same
    obtain ⟨m, handled, same⟩ := List.mem_map.mp (all e.id stale)
    have low := tally.below _ rfl m handled
    have high := (mem_fromId.mp (List.mem_of_mem_drop behind)).2
    omega
  · intro reaches id stale
    rcases tally.seen id stale with old | ⟨b, same, high⟩
    · exact old
    · obtain rfl := Option.some.inj same
      obtain ⟨e, pending, rfl, waited⟩ := stale
      obtain ⟨still, idle⟩ := kept.stale course high pending waited
      have listed := mem_fromId.mpr ⟨still, high⟩
      rw [← List.take_append_drop (attemptsFor reclaimCount) (p.log.fromId _)] at listed
      rcases List.mem_append.mp listed with examined | behind
      · exact absurd idle (fresh e examined)
      · exact absurd ⟨e, pending, rfl, waited⟩ (reaches cursor at_call fresh e behind)

theorem Covers.congr {y z : Pass} (same : y.handled = z.handled) :
    Covers course log y ↔ Covers course log z := by
  unfold Covers
  rw [same]

theorem reaches_elsewhere (elsewhere : ∀ cursor, p.pc ≠ .claim cursor) : Reaches course log p :=
  fun cursor at_call => absurd at_call (elsewhere cursor)

/-- From the head of the loop on. Each round claims an entry and goes on behind it,
so what is left of the list gets shorter. -/
theorem Tally.ends {cursor : Option Nat} (at_call : p.pc = .claim cursor)
    (tally : Tally course log (some (cursor.getD 0)) p) :
    ∃ y, Ends (next course consumer) p y ∧
      (Covers course log y ↔ Always (next course consumer) (Reaches course log) p) := by
  induction left_eq : log.lastDelivered - cursor.getD 0 using Nat.strong_induction_on
    generalizing p cursor with
  | _ left ih =>
    obtain ⟨q, first, within, answered, before⟩ :
      ∃ q, next course consumer p = some q ∧ _ := next_claim at_call
    obtain ⟨z, path, test, handled, keeps⟩ :=
      leads_handled consumer (P := Reaches course log)
        (fun pc => reaches_elsewhere fun _ => pc ▸ nofun) within
    rw [before] at handled
    rw [answered] at keeps
    have after := tally.after handled keeps
    obtain ⟨y, last, pc, same_log, counted⟩ : ∃ y, next course consumer z = some y ∧ _ :=
      next_test test
    have ends : ∀ u, Ends (next course consumer) y u → Ends (next course consumer) p u :=
      fun u rest => .step first (path.ends (.step last rest))
    have always : Always (next course consumer) (Reaches course log) p ↔
        Reaches course log p ∧ Always (next course consumer) (Reaches course log) y := by
      have idle : Reaches course log z := reaches_elsewhere fun _ => test ▸ nofun
      rw [always_step first, path.always, always_step last, and_iff_right idle]
    by_cases empty : (claim course consumer p cursor).messages = []
    · have done : y.pc = .returned := pc.trans (if_pos (Or.inr empty))
      have same : y.handled = p.handled := by
        rw [counted, handled, empty, List.append_nil]
      refine ⟨y, ends y (.here (next_returned done)), ?_⟩
      rw [always, always_stop (next_returned done),
        and_iff_left (reaches_elsewhere fun _ => done ▸ nofun), Covers.congr same]
      exact tally.reaches_iff at_call empty
    · have reaches : Reaches course log p := by
        intro cursor' same fresh
        cases at_call.symm.trans same
        exact absurd (xautoclaim_empty (by decide) |>.mpr fresh) empty
      cases ahead : (claim course consumer p cursor).cursor with
      | none =>
        have done : y.pc = .returned := pc.trans (if_pos (Or.inl ahead))
        refine ⟨y, ends y (.here (next_returned done)), ?_⟩
        rw [always, always_stop (next_returned done), and_iff_right reaches, Covers.congr counted,
          after.covers_iff, iff_true_right (reaches_elsewhere fun _ => done ▸ nofun)]
        intro id stale
        rcases after.seen id stale with old | ⟨b, bound, _⟩
        · exact old
        · exact nomatch ahead.symm.trans bound
      | some c =>
        have again : y.pc = .claim (some c) := by
          rw [pc, ahead, if_neg (by simp [empty])]
        have further := tally.further empty ahead
        have shorter : log.lastDelivered - c < left := by
          rw [← left_eq]
          exact Nat.sub_lt_sub_left (further.1.trans further.2) further.1
        have account : Tally course log (some ((some c).getD 0)) y :=
          (ahead ▸ after).congr counted same_log
        obtain ⟨u, rest, covers⟩ := ih _ shorter again account rfl
        exact ⟨u, ends u rest, by rw [covers, always, and_iff_right reaches]⟩

/-- A pass ends, and covers the stale entries if and only if none of its calls finds
only fresh entries in front of one. -/
theorem reclaim_covers (course : Course) (consumer : Nat) (log : StreamLog Fields) :
    ∃ y, Ends (next course consumer) (start log) y ∧
      (Covers course log y ↔
        Always (next course consumer) (Reaches course log) (start log)) :=
  Tally.ends rfl (tally_start course log)

theorem length_handleMessage (course : Course) (p : Pass) (id : Nat) :
    (handleMessage course p id).pending.length ≤ p.log.pending.length := by
  have added : ∀ fs : List Fields, (fs.foldl StreamLog.xadd p.log).pending = p.log.pending := by
    intro fs
    generalize p.log = log
    induction fs generalizing log with
    | nil => rfl
    | cons f rest ih => exact ih (log.xadd f)
  unfold handleMessage
  split
  · rw [← added (course.added p.awaited)]
    exact List.length_filter_le _ _
  · rw [added]

theorem few_next {limit : Nat} (few : p.log.pending.length ≤ limit)
    (step : next course consumer p = some q) : q.log.pending.length ≤ limit := by
  cases pc : p.pc with
  | claim cursor =>
    obtain ⟨q', first, _, log, _⟩ : ∃ q', next course consumer p = some q' ∧ _ :=
      next_claim pc
    cases Option.some.inj (first.symm.trans step)
    rw [log, (claim_claims course consumer p cursor).log]
    exact (List.length_map _).trans_le few
  | handle cursor messages todo =>
    cases todo with
    | cons message todo =>
      obtain ⟨q', first, _, log, _⟩ : ∃ q', next course consumer p = some q' ∧ _ :=
        next_handle pc
      cases Option.some.inj (first.symm.trans step)
      exact log ▸ (length_handleMessage course p message.1).trans few
    | nil =>
      obtain ⟨q', first, _, log, _⟩ : ∃ q', next course consumer p = some q' ∧ _ :=
        next_test pc
      cases Option.some.inj (first.symm.trans step)
      exact log ▸ few
  | returned => exact nomatch (next_returned pc).symm.trans step

/-- While no more entries are pending than one call examines, every stale one is covered. -/
theorem few_covered (course : Course) (consumer : Nat)
    (few : log.pending.length ≤ attemptsFor reclaimCount) :
    ∃ y, Ends (next course consumer) (start log) y ∧ Covers course log y := by
  obtain ⟨y, ends, covers⟩ : ∃ y, Ends (next course consumer) (start log) y ∧ _ :=
    Tally.ends rfl (tally_start course log)
  refine ⟨y, ends, covers.mpr ?_⟩
  have short : (start log).log.pending.length ≤ attemptsFor reclaimCount := few
  refine always_of_invariant (I := fun p => p.log.pending.length ≤ attemptsFor reclaimCount)
    short few_next fun {p} few cursor _ _ e behind => ?_
  have length : (p.log.fromId (cursor.getD 0)).length ≤ p.log.pending.length := by
    rw [fromId, List.length_insertionSort]
    exact List.length_filter_le _ _
  rw [List.drop_eq_nil_of_le (length.trans few)] at behind
  exact absurd behind List.not_mem_nil

/-- No time passes, and every entry is acknowledged. -/
def brief : Course where
  clock _ := 60
  forward := monotone_const
  acks _ := true
  added _ := []

/-- Read by a worker that crashed, and all but the last claimed since by another
one that crashed. -/
def crowded : StreamLog Fields :=
  let sent := (List.replicate 101 ⟨0, 0, 0⟩).foldl StreamLog.xadd StreamLog.empty
  let taken := (List.range 101).foldl (fun log _ => log.xreadgroup 1 0) sent
  taken.xclaim 2 60 (List.range 100)

/-- The first call examines the hundred, the pass ends, and the stale entry was not
passed on. -/
theorem stale_left_out :
    ¬ ∃ y, Ends (next brief 3) (start crowded) y ∧ Covers brief crowded y := by
  rintro ⟨y, ends, covers⟩
  have stale : crowded.Stale minIdle (brief.clock 0) 100 := by decide +kernel
  have entry : crowded.entries[100]? = some ⟨0, 0, 0⟩ := by decide +kernel
  have stops : (next brief 3 (drive (next brief 3) 2 (start crowded))).isNone = true := by
    decide +kernel
  have none : (drive (next brief 3) 2 (start crowded)).handled = [] := by decide +kernel
  have last := ends.unique ⟨⟨2, rfl⟩, Option.isNone_iff_eq_none.mp stops⟩
  have once := covers 100 _ stale entry
  rw [last, none] at once
  exact nomatch once

/-! The calls of a pass are steps of the pipeline -/

/-- What XAUTOCLAIM answers is one of the choices that a claim has there, and it is
the batch that the worker then has. -/
theorem claim_step (env : Env) {x : World} {w : Nat} {cursor : Option Nat} (idle : x.Idle w)
    (same : p.log = x.streamOf w) (now : course.clock p.awaited = x.clock) :
    ∃ y, World.step env (.claim w ((claim course w p cursor).messages.map Prod.fst))
      x = some y ∧
      y.streamOf w = (claim course w p cursor).log ∧
      (y.workers w).todo = (claim course w p cursor).messages := by
  have claims := claim_claims course w p cursor
  have batch : p.log.entriesAt ((claim course w p cursor).messages.map Prod.fst) =
    (claim course w p cursor).messages := p.log.entriesAt_messages _ _ _ _ _
  generalize claim course w p cursor = reply at *
  rw [same, now] at claims
  rw [same] at batch
  have allowed : x.Idle w ∧ (reply.messages.map Prod.fst).Nodup ∧
      (reply.messages.map Prod.fst).length ≤ reclaimCount ∧
      ∀ id ∈ reply.messages.map Prod.fst,
        (x.streamOf w).Stale (reclaimMinIdleMs / 1000) x.clock id := by
    refine ⟨idle, claims.distinct, ?_, fun id listed => ?_⟩
    · rw [List.length_map]
      exact claims.few
    · obtain ⟨m, answered, rfl⟩ := List.mem_map.mp listed
      exact (claims.sound m answered).2.1
  refine ⟨_, if_pos allowed, ?_, ?_⟩
  · rw [claims.log]
    simp [World.streamOf, World.setWorker, World.withStore, Store.onStream]
  · simp only [World.setWorker, Function.update_self]
    exact batch

/-- A step of `handle_message` leaves the pending lists alone or acknowledges the entry
that it was passed. -/
theorem work_pending {env : Env} {x y : World} {w : Nat} {c : Choice} {h : Handling}
    (change : World.Change env x y (.work w c)) (handles : x.Handles w h) (n : Nat) :
    (y.core.queues.streams n).pending = (x.core.queues.streams n).pending ∨
      y.core.queues.streams n = (x.core.queues.streams n).xack h.messageId := by
  cases change.grows n with
  | same same => exact Or.inl (congrArg StreamLog.pending same)
  | added _ pending => exact Or.inl pending
  | read label => exact nomatch label
  | claim label => exact nomatch label
  | ack acks now =>
    obtain ⟨w', c', h', label, handles', _, id, _⟩ := acks.acker
    cases label
    cases Option.some.inj (handles.symm.trans handles')
    exact Or.inr (id ▸ now)

end Relay.Reclaim
