import Mathlib.Data.List.Sort
import Relay.Lib.StreamLog

/-!
# XAUTOCLAIM

The pending list is read in the order of the ids, from a given id on. A call
examines at most ten entries for each one it may claim, claims those that were
idle long enough, and answers with the id to continue from, or with none when
the list is exhausted. It may claim nothing and still answer with an id.
-/

universe u

structure AutoClaimReply (F : Type u) where
  log : StreamLog F
  cursor : Option Nat
  messages : List (Nat × F)

namespace StreamLog

variable {F : Type u} {s : StreamLog F} {start consumer count : Nat} {minIdle now : ℚ}

def Waited (minIdle now : ℚ) (p : PendingEntry) : Prop := minIdle ≤ now - p.since

instance (minIdle now : ℚ) (p : PendingEntry) : Decidable (Waited minIdle now p) :=
  inferInstanceAs (Decidable (_ ≤ _))

/-- The pending entries from an id on. -/
def fromId (s : StreamLog F) (start : Nat) : List PendingEntry :=
  (s.pending.filter (fun p => start ≤ p.id)).insertionSort (fun p q => p.id ≤ q.id)

/-- What is claimed and what is left unexamined, with so many attempts and at
most so many claims. -/
def scan (minIdle now : ℚ) : Nat → Nat → List PendingEntry →
    List PendingEntry × List PendingEntry
  | 0, _, rest => ([], rest)
  | _ + 1, 0, rest => ([], rest)
  | _ + 1, _ + 1, [] => ([], [])
  | attempts + 1, count + 1, p :: rest =>
    if Waited minIdle now p then
      let after := scan minIdle now attempts count rest
      (p :: after.1, after.2)
    else scan minIdle now attempts (count + 1) rest

def attemptsFor (count : Nat) : Nat := 10 * count

/-- The entries with these ids and what was appended under them. -/
def entriesAt (s : StreamLog F) (ids : List Nat) : List (Nat × F) :=
  ids.filterMap (fun id => (s.entries[id]?).map (fun f => (id, f)))

def answer (s : StreamLog F) (consumer : Nat) (now : ℚ)
    (scanned : List PendingEntry × List PendingEntry) : AutoClaimReply F where
  log := s.xclaim consumer now (scanned.1.map PendingEntry.id)
  cursor := scanned.2.head?.map PendingEntry.id
  messages := s.entriesAt (scanned.1.map PendingEntry.id)

def xautoclaim (s : StreamLog F) (consumer : Nat) (minIdle now : ℚ) (start count : Nat) :
    AutoClaimReply F :=
  s.answer consumer now (scan minIdle now (attemptsFor count) count (s.fromId start))

/-! The entries in order -/

theorem mem_fromId {p : PendingEntry} :
    p ∈ s.fromId start ↔ p ∈ s.pending ∧ start ≤ p.id := by
  simp only [fromId, List.mem_insertionSort, List.mem_filter, decide_eq_true_eq]

theorem fromId_ordered (s : StreamLog F) (start : Nat) :
    (s.fromId start).Pairwise (fun p q => p.id < q.id) := by
  have total : Std.Total (fun p q : PendingEntry => p.id ≤ q.id) :=
    ⟨fun p q => Nat.le_total p.id q.id⟩
  have trans : IsTrans PendingEntry (fun p q => p.id ≤ q.id) :=
    ⟨fun _ _ _ first second => Nat.le_trans first second⟩
  have sorted : (s.fromId start).Pairwise (fun p q => p.id ≤ q.id) :=
    List.pairwise_insertionSort _ _
  have same : ((s.fromId start).map PendingEntry.id).Nodup := by
    rw [fromId, ((List.perm_insertionSort _ _).map PendingEntry.id).nodup_iff]
    exact s.pending_nodup.sublist (List.filter_sublist.map _)
  exact sorted.imp₂ (fun _ _ => Nat.lt_of_le_of_ne) (List.pairwise_map.mp same)

theorem mem_entriesAt {ids : List Nat} {m : Nat × F} :
    m ∈ s.entriesAt ids ↔ m.1 ∈ ids ∧ s.entries[m.1]? = some m.2 := by
  simp only [entriesAt, List.mem_filterMap, Option.map_eq_some_iff]
  constructor
  · rintro ⟨id, listed, f, entry, rfl⟩
    exact ⟨listed, entry⟩
  · rintro ⟨listed, entry⟩
    exact ⟨m.1, listed, m.2, entry, rfl⟩

theorem ids_entriesAt {ids : List Nat} (appended : ∀ id ∈ ids, id < s.entries.length) :
    (s.entriesAt ids).map Prod.fst = ids := by
  induction ids with
  | nil => rfl
  | cons id rest ih =>
    have entry := List.getElem?_eq_getElem (appended id List.mem_cons_self)
    have later := ih (fun id' listed => appended id' (List.mem_cons_of_mem _ listed))
    simp only [entriesAt] at later
    simp only [entriesAt, List.filterMap_cons, entry, Option.map_some, List.map_cons, later]

/-! What a scan examines, claims and leaves -/

theorem scan_split (minIdle now : ℚ) (attempts count : Nat) (entries : List PendingEntry) :
    ∃ examined, entries = examined ++ (scan minIdle now attempts count entries).2 ∧
      (scan minIdle now attempts count entries).1 = examined.filter (Waited minIdle now) ∧
      (scan minIdle now attempts count entries).1.length ≤ count := by
  fun_induction scan minIdle now attempts count entries with
  | case1 | case2 => exact ⟨[], rfl, rfl, Nat.zero_le _⟩
  | case3 => exact ⟨[], rfl, rfl, Nat.zero_le _⟩
  | case4 attempts count p rest waited after ih =>
    obtain ⟨examined, split, claimed, few⟩ := ih
    refine ⟨p :: examined, congrArg (p :: ·) split, ?_, Nat.succ_le_succ few⟩
    rw [List.filter_cons_of_pos (by simpa using waited), ← claimed]
  | case5 attempts count p rest fresh ih =>
    obtain ⟨examined, split, claimed, few⟩ := ih
    refine ⟨p :: examined, congrArg (p :: ·) split, ?_, few⟩
    rw [List.filter_cons_of_neg (by simpa using fresh), ← claimed]

/-- A scan that finds nothing goes through all its attempts. -/
theorem scan_fresh {attempts count : Nat} {entries : List PendingEntry} (some_left : 0 < count)
    (fresh : ∀ p ∈ entries.take attempts, ¬ Waited minIdle now p) :
    scan minIdle now attempts count entries = ([], entries.drop attempts) := by
  fun_induction scan minIdle now attempts count entries with
  | case1 => rfl
  | case2 => exact absurd some_left (Nat.lt_irrefl 0)
  | case3 => rfl
  | case4 attempts count p rest waited => exact absurd waited (fresh p (by simp))
  | case5 attempts count p rest _ ih =>
    exact ih some_left (fun q listed => fresh q (List.mem_cons_of_mem _ listed))

theorem scan_claims {attempts count : Nat} {entries : List PendingEntry} (some_left : 0 < count)
    {p : PendingEntry} (listed : p ∈ entries.take attempts) (waited : Waited minIdle now p) :
    (scan minIdle now attempts count entries).1 ≠ [] := by
  fun_induction scan minIdle now attempts count entries with
  | case1 => exact nomatch listed
  | case2 => exact absurd some_left (Nat.lt_irrefl 0)
  | case3 => exact nomatch listed
  | case4 => exact List.cons_ne_nil _ _
  | case5 attempts count q rest fresh ih =>
    rcases List.mem_cons.mp listed with rfl | later
    · exact absurd waited fresh
    · exact ih some_left later

/-! What a call does -/

theorem scan_listed {attempts : Nat} {p : PendingEntry}
    (member : p ∈ (scan minIdle now attempts count (s.fromId start)).1) :
    p ∈ s.pending ∧ start ≤ p.id ∧ Waited minIdle now p := by
  obtain ⟨examined, split, claimed, _⟩ := scan_split minIdle now attempts count (s.fromId start)
  have found := List.mem_filter.mp (claimed ▸ member)
  have known := mem_fromId.mp (split ▸ List.mem_append_left _ found.1)
  exact ⟨known.1, known.2, by simpa using found.2⟩

theorem messages_xautoclaim (s : StreamLog F) (consumer : Nat) (minIdle now : ℚ)
    (start count : Nat) :
    (s.xautoclaim consumer minIdle now start count).messages.map Prod.fst =
      (scan minIdle now (attemptsFor count) count (s.fromId start)).1.map PendingEntry.id := by
  refine ids_entriesAt fun id member => ?_
  obtain ⟨p, found, rfl⟩ := List.mem_map.mp member
  exact Nat.lt_of_lt_of_le (s.pending_lt p (scan_listed found).1) s.delivered_le

theorem entriesAt_messages (s : StreamLog F) (consumer : Nat) (minIdle now : ℚ)
    (start count : Nat) :
    s.entriesAt ((s.xautoclaim consumer minIdle now start count).messages.map Prod.fst) =
      (s.xautoclaim consumer minIdle now start count).messages := by
  rw [messages_xautoclaim]
  rfl

/-- A call answers without messages where all the entries it examines are fresh. -/
theorem xautoclaim_empty (positive : 0 < count) :
    (s.xautoclaim consumer minIdle now start count).messages = [] ↔
      ∀ p ∈ (s.fromId start).take (attemptsFor count), ¬ Waited minIdle now p := by
  have ids := s.messages_xautoclaim consumer minIdle now start count
  rw [← List.map_eq_nil_iff, ids, List.map_eq_nil_iff]
  constructor
  · exact fun none p examined waited => scan_claims positive examined waited none
  · exact fun fresh => congrArg Prod.fst (scan_fresh positive fresh)

/-- All that one call does, with the entries from `start` on. -/
structure AutoClaims (s : StreamLog F) (consumer : Nat) (minIdle now : ℚ) (start count : Nat)
    (reply : AutoClaimReply F) : Prop where
  log : reply.log = s.xclaim consumer now (reply.messages.map Prod.fst)
  distinct : (reply.messages.map Prod.fst).Nodup
  few : reply.messages.length ≤ count
  sound : ∀ m ∈ reply.messages,
    start ≤ m.1 ∧ s.Stale minIdle now m.1 ∧ s.entries[m.1]? = some m.2
  cursor : ∀ c, reply.cursor = some c →
    start ≤ c ∧ s.IsPending c ∧ ∀ m ∈ reply.messages, m.1 < c
  complete : ∀ p ∈ s.pending, start ≤ p.id → Waited minIdle now p →
    p.id ∈ reply.messages.map Prod.fst ∨ ∃ c, reply.cursor = some c ∧ c ≤ p.id

theorem xautoclaim_claims (s : StreamLog F) (consumer : Nat) (minIdle now : ℚ)
    (start count : Nat) :
    s.AutoClaims consumer minIdle now start count
      (s.xautoclaim consumer minIdle now start count) := by
  have ids := s.messages_xautoclaim consumer minIdle now start count
  obtain ⟨examined, split, claimed, few⟩ :=
    scan_split minIdle now (attemptsFor count) count (s.fromId start)
  have ordered := s.fromId_ordered start
  rw [split, List.pairwise_append] at ordered
  obtain ⟨front, back, across⟩ := ordered
  constructor
  case log => rw [ids]; rfl
  case distinct =>
    rw [ids, claimed]
    exact (List.pairwise_map.mpr (front.imp Nat.ne_of_lt)).sublist (List.filter_sublist.map _)
  case few =>
    have length := congrArg List.length ids
    simp only [List.length_map] at length
    exact length.trans_le few
  case sound =>
    intro m member
    obtain ⟨named, entry⟩ := mem_entriesAt.mp member
    obtain ⟨p, found, same⟩ := List.mem_map.mp named
    obtain ⟨pending, low, waited⟩ := scan_listed found
    exact ⟨same ▸ low, ⟨p, pending, same, waited⟩, entry⟩
  case cursor =>
    intro c next
    obtain ⟨q, head, rfl⟩ := Option.map_eq_some_iff.mp next
    have left := List.mem_of_head? head
    have member : q ∈ s.fromId start := by
      rw [split]
      exact List.mem_append_right _ left
    have known := mem_fromId.mp member
    refine ⟨known.2, List.mem_map_of_mem known.1, fun m message => ?_⟩
    obtain ⟨p, found, same⟩ := List.mem_map.mp (mem_entriesAt.mp message).1
    exact same ▸ across p (List.mem_of_mem_filter (claimed ▸ found)) q left
  case complete =>
    intro p pending low waited
    have member := mem_fromId.mpr ⟨pending, low⟩
    rw [split] at member
    rcases List.mem_append.mp member with seen | left
    · refine Or.inl ?_
      rw [ids, claimed]
      exact List.mem_map_of_mem (List.mem_filter.mpr ⟨seen, by simpa using waited⟩)
    · refine Or.inr ?_
      unfold xautoclaim answer
      cases rest : (scan minIdle now (attemptsFor count) count (s.fromId start)).2 with
      | nil => exact nomatch rest ▸ left
      | cons q tail =>
        refine ⟨q.id, rfl, ?_⟩
        rw [rest] at left back
        rcases List.mem_cons.mp left with rfl | later
        · exact Nat.le_refl _
        · exact Nat.le_of_lt (List.rel_of_pairwise_cons back later)

end StreamLog
