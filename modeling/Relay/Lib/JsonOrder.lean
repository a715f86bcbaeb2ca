import Relay.Lib.JsonReading

/-!
# The order of fields

Objects are equal as dicts when they agree up to the order of fields, at every
depth. Sorting the keys picks one value of each class, so the sorted texts of two
values are the same exactly when the values are equal as dicts.
-/

namespace JsonText

namespace Value

variable {F : Type}

/-- Equality of values in which the order of fields does not count. -/
inductive Same : Value F → Value F → Prop
  | refl (v : Value F) : Same v v
  | arr {vs ws : List (Value F)} (length : vs.length = ws.length)
      (each : ∀ i (hi : i < vs.length) (hi' : i < ws.length), Same vs[i] ws[i]) :
      Same (.arr vs) (.arr ws)
  | obj {fs gs : List (String × Value F)}
      (keys : ∀ k, k ∈ fs.map Prod.fst ↔ k ∈ gs.map Prod.fst)
      (values : ∀ k v w, (k, v) ∈ fs → (k, w) ∈ gs → Same v w) : Same (.obj fs) (.obj gs)

theorem Same.symm {v w : Value F} (same : Same v w) : Same w v := by
  induction same with
  | refl v => exact .refl v
  | arr length _ ih => exact .arr length.symm (fun i hi hi' => ih i hi' hi)
  | obj keys _ ih => exact .obj (fun k => (keys k).symm) (fun k v w hv hw => ih k w v hw hv)

theorem same_field {fs gs : List (String × Value F)}
    (keys : ∀ k, k ∈ fs.map Prod.fst ↔ k ∈ gs.map Prod.fst) {k : String} {v : Value F}
    (listed : (k, v) ∈ fs) : ∃ w, (k, w) ∈ gs := by
  obtain ⟨⟨k', w⟩, there, rfl⟩ :=
    List.mem_map.mp ((keys k).mp (List.mem_map_of_mem (f := Prod.fst) listed))
  exact ⟨w, there⟩

theorem Same.trans {u v w : Value F} (first : Same u v) (second : Same v w) : Same u w := by
  induction first generalizing w with
  | refl => exact second
  | @arr us vs length each ih =>
    cases second with
    | refl => exact .arr length each
    | @arr _ ws length' each' =>
      exact .arr (length.trans length')
        (fun i hi hi' => ih i hi (length ▸ hi) (each' i (length ▸ hi) hi'))
  | @obj fs gs keys values ih =>
    cases second with
    | refl => exact .obj keys values
    | @obj _ hs keys' values' =>
      refine .obj (fun k => (keys k).trans (keys' k)) (fun k v w hv hw => ?_)
      obtain ⟨u, hu⟩ := same_field keys hv
      exact ih k v u hv hu (values' k u w hu hw)

/-! Sorting -/

theorem sortItems_eq (vs : List (Value F)) : sortItems vs = vs.map sortKeys := by
  induction vs with
  | nil => rfl
  | cons v vs ih => rw [sortItems, ih, List.map_cons]

theorem sortFields_eq (fs : List (String × Value F)) :
    sortFields fs = fs.map (fun f => (f.1, f.2.sortKeys)) := by
  induction fs with
  | nil => rfl
  | cons f fs ih => rw [sortFields, ih, List.map_cons]

theorem perm_byKey (fs : List (String × Value F)) : (byKey fs).Perm fs :=
  List.perm_insertionSort _ fs

theorem keys_byKey (fs : List (String × Value F)) :
    ((byKey fs).map Prod.fst).Perm (fs.map Prod.fst) := (perm_byKey fs).map _

theorem keys_sortFields (fs : List (String × Value F)) :
    (sortFields fs).map Prod.fst = fs.map Prod.fst := by
  rw [sortFields_eq, List.map_map]
  rfl

theorem pairwise_byKey (fs : List (String × Value F)) :
    (byKey fs).Pairwise (fun a b => a.1 ≤ b.1) := by
  have total : Std.Total (fun a b : String × Value F => a.1 ≤ b.1) :=
    ⟨fun a b => le_total a.1 b.1⟩
  have trans : IsTrans (String × Value F) (fun a b => a.1 ≤ b.1) :=
    ⟨fun a b c h h' => le_trans h h'⟩
  exact List.pairwise_insertionSort _ fs

theorem fieldsWellFormed_iff {format : FloatText F} {maxDigits : Nat}
    {fs : List (String × Value F)} :
    FieldsWellFormed format maxDigits fs ↔ ∀ f ∈ fs, f.2.WellFormed format maxDigits := by
  induction fs with
  | nil => exact ⟨fun _ _ h => absurd h List.not_mem_nil, fun _ => trivial⟩
  | cons f fs ih => rw [FieldsWellFormed, ih, List.forall_mem_cons]

theorem itemsWellFormed_iff {format : FloatText F} {maxDigits : Nat} {vs : List (Value F)} :
    ItemsWellFormed format maxDigits vs ↔ ∀ v ∈ vs, v.WellFormed format maxDigits := by
  induction vs with
  | nil => exact ⟨fun _ _ h => absurd h List.not_mem_nil, fun _ => trivial⟩
  | cons v vs ih => rw [ItemsWellFormed, ih, List.forall_mem_cons]

/-- Induction over the values inside a value. -/
theorem induct {P : Value F → Prop} (arr : ∀ vs, (∀ v ∈ vs, P v) → P (.arr vs))
    (obj : ∀ fs : List (String × Value F), (∀ f ∈ fs, P f.2) → P (.obj fs))
    (leaf : ∀ v, (∀ vs, v ≠ .arr vs) → (∀ fs, v ≠ .obj fs) → P v) : ∀ v, P v
  | .arr vs => arr vs (fun v h => by
      have smaller := List.sizeOf_lt_of_mem h
      exact induct arr obj leaf v)
  | .obj fs => obj fs (fun f h => by
      have smaller := List.sizeOf_lt_of_mem h
      have smaller' : sizeOf f.2 < sizeOf f := by
        cases f
        simp only [Prod.mk.sizeOf_spec]
        omega
      exact induct arr obj leaf f.2)
  | .null => leaf _ (fun _ h => by cases h) (fun _ h => by cases h)
  | .bool _ => leaf _ (fun _ h => by cases h) (fun _ h => by cases h)
  | .int _ => leaf _ (fun _ h => by cases h) (fun _ h => by cases h)
  | .float _ => leaf _ (fun _ h => by cases h) (fun _ h => by cases h)
  | .constant _ => leaf _ (fun _ h => by cases h) (fun _ h => by cases h)
  | .str _ => leaf _ (fun _ h => by cases h) (fun _ h => by cases h)
termination_by v => sizeOf v
decreasing_by all_goals (simp_wf; omega)

theorem itemsDistinct_iff {vs : List (Value F)} :
    ItemsDistinct vs ↔ ∀ v ∈ vs, v.Distinct := by
  induction vs with
  | nil => exact ⟨fun _ _ h => absurd h List.not_mem_nil, fun _ => trivial⟩
  | cons v vs ih => rw [ItemsDistinct, ih, List.forall_mem_cons]

theorem fieldsDistinct_iff {fs : List (String × Value F)} :
    FieldsDistinct fs ↔ ∀ f ∈ fs, f.2.Distinct := by
  induction fs with
  | nil => exact ⟨fun _ _ h => absurd h List.not_mem_nil, fun _ => trivial⟩
  | cons f fs ih => rw [FieldsDistinct, ih, List.forall_mem_cons]

theorem intsOfItems_eq (vs : List (Value F)) : intsOfItems vs = vs.flatMap ints := by
  induction vs with
  | nil => rfl
  | cons v vs ih => rw [intsOfItems, ih, List.flatMap_cons]

theorem intsOfFields_eq (fs : List (String × Value F)) :
    intsOfFields fs = fs.flatMap (fun f => f.2.ints) := by
  induction fs with
  | nil => rfl
  | cons f fs ih => rw [intsOfFields, ih, List.flatMap_cons]

/-- Well-formed are the values with distinct keys and short integers, if no float
is lost. -/
theorem wellFormed_iff {format : FloatText F} {maxDigits : Nat}
    (readable : ∀ x, format.Readable x) (v : Value F) :
    v.WellFormed format maxDigits ↔ v.Distinct ∧
      ∀ n ∈ v.ints, n.natAbs < 10 ^ maxDigits := by
  induction v using induct with
  | arr vs ih =>
    rw [WellFormed, itemsWellFormed_iff, Distinct, itemsDistinct_iff, ints, intsOfItems_eq]
    simp only [List.mem_flatMap]
    constructor
    · intro formed
      refine ⟨fun v h => ((ih v h).mp (formed v h)).1, ?_⟩
      rintro n ⟨v, h, inside⟩
      exact ((ih v h).mp (formed v h)).2 n inside
    · rintro ⟨distinct, short⟩ v h
      exact (ih v h).mpr ⟨distinct v h, fun n inside => short n ⟨v, h, inside⟩⟩
  | obj fs ih =>
    rw [WellFormed, fieldsWellFormed_iff, Distinct, fieldsDistinct_iff, ints, intsOfFields_eq,
      and_assoc, and_congr_right_iff]
    simp only [List.mem_flatMap]
    intro _
    constructor
    · intro formed
      refine ⟨fun f h => ((ih f h).mp (formed f h)).1, ?_⟩
      rintro n ⟨f, h, inside⟩
      exact ((ih f h).mp (formed f h)).2 n inside
    · rintro ⟨distinct, short⟩ f h
      exact (ih f h).mpr ⟨distinct f h, fun n inside => short n ⟨f, h, inside⟩⟩
  | leaf v items fields =>
    cases v with
    | arr vs => exact absurd rfl (items vs)
    | obj fs => exact absurd rfl (fields fs)
    | int n => simp [WellFormed, Distinct, ints]
    | float x => simp [WellFormed, Distinct, ints, readable x]
    | _ => simp [WellFormed, Distinct, ints]

theorem sortKeys_leaf {v : Value F} (items : ∀ vs, v ≠ .arr vs)
    (fields : ∀ fs, v ≠ .obj fs) : v.sortKeys = v := by
  cases v with
  | arr vs => exact absurd rfl (items vs)
  | obj fs => exact absurd rfl (fields fs)
  | _ => rfl

theorem sortKeys_wellFormed {format : FloatText F} {maxDigits : Nat} (v : Value F)
    (formed : v.WellFormed format maxDigits) : v.sortKeys.WellFormed format maxDigits := by
  induction v using induct with
  | arr vs ih =>
    rw [sortKeys, WellFormed, itemsWellFormed_iff, sortItems_eq]
    have each := itemsWellFormed_iff.mp formed
    intro w listed
    obtain ⟨v, there, rfl⟩ := List.mem_map.mp listed
    exact ih v there (each v there)
  | obj fs ih =>
    obtain ⟨distinct, each⟩ := formed
    rw [fieldsWellFormed_iff] at each
    rw [sortKeys, WellFormed, fieldsWellFormed_iff]
    refine ⟨(keys_byKey _).nodup_iff.mpr (keys_sortFields fs ▸ distinct), fun g listed => ?_⟩
    have there := (perm_byKey _).mem_iff.mp listed
    rw [sortFields_eq] at there
    obtain ⟨f, here, rfl⟩ := List.mem_map.mp there
    exact ih f here (each f here)
  | leaf v items fields =>
    rw [sortKeys_leaf items fields]
    exact formed

theorem value_unique {fs : List (String × Value F)} (distinct : (fs.map Prod.fst).Nodup)
    {k : String} {v w : Value F} (hv : (k, v) ∈ fs) (hw : (k, w) ∈ fs) : v = w := by
  have same : ((k, v) : String × Value F) = (k, w) := List.inj_on_of_nodup_map distinct hv hw rfl
  exact congrArg Prod.snd same

/-- Sorting changes nothing but the order of fields. -/
theorem same_sortKeys {format : FloatText F} {maxDigits : Nat} (v : Value F)
    (formed : v.WellFormed format maxDigits) : Same v v.sortKeys := by
  induction v using induct with
  | arr vs ih =>
    have each := itemsWellFormed_iff.mp formed
    rw [sortKeys, sortItems_eq]
    refine .arr (List.length_map _).symm (fun i hi hi' => ?_)
    rw [List.getElem_map]
    exact ih _ (List.getElem_mem hi) (each _ (List.getElem_mem hi))
  | obj fs ih =>
    obtain ⟨distinct, each⟩ := formed
    rw [fieldsWellFormed_iff] at each
    rw [sortKeys]
    refine .obj (fun k => ?_) (fun k v w hv hw => ?_)
    · rw [(keys_byKey _).mem_iff, keys_sortFields]
    · have there := (perm_byKey _).mem_iff.mp hw
      rw [sortFields_eq] at there
      obtain ⟨⟨k', u⟩, here, same⟩ := List.mem_map.mp there
      cases same
      cases value_unique distinct hv here
      exact ih _ here (each _ here)
  | leaf v items fields =>
    rw [sortKeys_leaf items fields]
    exact .refl v

/-- Fields in order, with distinct keys, are determined by which fields there are. -/
theorem byKey_unique {fs gs : List (String × Value F)} (distinct : (fs.map Prod.fst).Nodup)
    (perm : fs.Perm gs) : byKey fs = byKey gs := by
  have sorted : (byKey fs).Perm (byKey gs) :=
    (perm_byKey fs).trans (perm.trans (perm_byKey gs).symm)
  refine sorted.eq_of_pairwise (fun a b ha hb low high => ?_) (pairwise_byKey fs)
    (pairwise_byKey gs)
  have here := (perm_byKey fs).mem_iff.mp ha
  have there := perm.mem_iff.mpr ((perm_byKey gs).mem_iff.mp hb)
  exact List.inj_on_of_nodup_map distinct here there (le_antisymm low high)

/-- Values that are equal as dicts are sorted to one value. -/
theorem Same.sortKeys_eq {format : FloatText F} {maxDigits : Nat} {v w : Value F} (same : Same v w)
    (formed : v.WellFormed format maxDigits) (formed' : w.WellFormed format maxDigits) :
    v.sortKeys = w.sortKeys := by
  induction same with
  | refl => rfl
  | @arr vs ws length _ ih =>
    have each := itemsWellFormed_iff.mp formed
    have each' := itemsWellFormed_iff.mp formed'
    rw [sortKeys, sortKeys, sortItems_eq, sortItems_eq]
    refine congrArg Value.arr (List.ext_getElem (by simpa using length) (fun i hi hi' => ?_))
    rw [List.getElem_map, List.getElem_map]
    rw [List.length_map] at hi hi'
    exact ih i hi hi' (each _ (List.getElem_mem hi)) (each' _ (List.getElem_mem hi'))
  | @obj fs gs keys _ ih =>
    obtain ⟨distinct, each⟩ := formed
    obtain ⟨distinct', each'⟩ := formed'
    rw [fieldsWellFormed_iff] at each each'
    rw [sortKeys, sortKeys]
    have nodup : (sortFields fs).Nodup := .of_map Prod.fst (keys_sortFields fs ▸ distinct)
    have nodup' : (sortFields gs).Nodup := .of_map Prod.fst (keys_sortFields gs ▸ distinct')
    refine congrArg Value.obj (byKey_unique (keys_sortFields fs ▸ distinct)
      ((List.perm_ext_iff_of_nodup nodup nodup').mpr (fun h => ?_)))
    rw [sortFields_eq, sortFields_eq, List.mem_map, List.mem_map]
    constructor
    · rintro ⟨⟨k, v⟩, here, rfl⟩
      obtain ⟨w, there⟩ := same_field keys here
      refine ⟨(k, w), there, ?_⟩
      rw [ih k v w here there (each _ here) (each' _ there)]
    · rintro ⟨⟨k, w⟩, there, rfl⟩
      obtain ⟨v, here⟩ := same_field (fun k => (keys k).symm) there
      refine ⟨(k, v), here, ?_⟩
      rw [ih k v w here there (each _ here) (each' _ there)]

/-! Sorted texts -/

variable {format : FloatText F} {sep : Separators} {maxDigits : Nat}

/-- What is dumped is read as the value, its fields sorted if they were. -/
theorem loads_dumps (positive : 0 < maxDigits) (sort : Bool) {v : Value F}
    (formed : v.WellFormed format maxDigits) :
    loads format maxDigits (v.dumps format sep sort) = .ok (if sort then v.sortKeys else v) := by
  cases sort with
  | false => exact loads_text positive formed
  | true => exact loads_text positive (sortKeys_wellFormed v formed)

theorem dumps_sorted_iff (positive : 0 < maxDigits) {v w : Value F}
    (formed : v.WellFormed format maxDigits) (formed' : w.WellFormed format maxDigits) :
    v.dumps format sep true = w.dumps format sep true ↔ Same v w := by
  constructor
  · intro texts
    have read : loads format maxDigits (v.dumps format sep true) = .ok v.sortKeys :=
      loads_dumps positive true formed
    have read' : loads format maxDigits (w.dumps format sep true) = .ok w.sortKeys :=
      loads_dumps positive true formed'
    rw [texts, read'] at read
    have sorted : w.sortKeys = v.sortKeys := Except.ok.inj read
    exact (same_sortKeys v formed).trans (sorted ▸ (same_sortKeys w formed').symm)
  · intro same
    rw [dumps, dumps, if_pos rfl, if_pos rfl, same.sortKeys_eq formed formed']

end Value

end JsonText
