import Relay.Lib.JsonText

/-!
# The reader comes to an end

Every part that is read leaves less of the text, so the bound on the recursion
that `loads` gives is never reached.
-/

namespace JsonText

variable {F : Type} {rest : List Char}

theorem push_ok {A : Type} {a : A} {r : Except ReadError (List A × List Char)} {bs : List A}
    (pushed : push a r = .ok (bs, rest)) : ∃ as, r = .ok (as, rest) := by
  cases r with
  | error e => cases pushed
  | ok p =>
    cases pushed
    exact ⟨p.1, rfl⟩

theorem map_ok {A B : Type} {f : A → B} {r : Except ReadError (A × List Char)} {b : B}
    (mapped : r.map (fun p => (f p.1, p.2)) = .ok (b, rest)) : ∃ a, r = .ok (a, rest) := by
  cases r with
  | error e => cases mapped
  | ok p =>
    cases mapped
    exact ⟨p.1, rfl⟩

theorem length_skip_le (cs : List Char) : (skip cs).length ≤ cs.length :=
  (List.dropWhile_suffix _).length_le

theorem length_tail_skip_le (cs : List Char) : (skip (skip cs).tail).length ≤ cs.length := by
  have tail := length_skip_le (skip cs).tail
  have whole := length_skip_le cs
  rw [List.length_tail] at tail
  omega

theorem codePoints_shorter {cs : List Char} {ns : List Nat}
    (read : codePoints cs = .ok (ns, rest)) : rest.length < cs.length := by
  fun_induction codePoints cs generalizing ns with
  | case1 | case3 | case6 | case7 | case8 | case9 => cases read
  | case2 more =>
    cases read
    exact Nat.lt_succ_self _
  | case4 | case5 | case10 =>
    rename_i shorter
    obtain ⟨ms, inner⟩ := push_ok read
    have fewer := shorter inner
    simp only [List.length_cons]
    omega

theorem string_shorter {cs : List Char} {s : String} (read : string cs = .ok (s, rest)) :
    rest.length < cs.length := by
  unfold string at read
  split at read
  · cases read
  · rename_i points
    split at read
    · cases read
    · cases read
      exact codePoints_shorter points

theorem natural_shorter {cs w : List Char} (read : natural cs = some (w, rest)) :
    rest.length < cs.length := by
  cases cs with
  | nil => cases read
  | cons c more =>
    have dropped := (List.dropWhile_suffix (l := more) Char.isDigit).length_le
    simp only [natural] at read
    split at read
    · cases read
      exact Nat.lt_succ_self _
    · split at read
      · cases read
        exact Nat.lt_succ_of_le dropped
      · cases read

theorem whole_shorter {cs w : List Char} (read : whole cs = some (w, rest)) :
    rest.length < cs.length := by
  cases cs with
  | nil => cases read
  | cons c more =>
    simp only [whole] at read
    split at read
    · obtain ⟨p, inner, same⟩ := Option.map_eq_some_iff.mp read
      cases same
      exact Nat.lt_succ_of_lt (natural_shorter inner)
    · exact natural_shorter read

theorem length_fraction_le (cs : List Char) : (fraction cs).2.length ≤ cs.length := by
  cases cs with
  | nil => exact Nat.le_refl _
  | cons c more =>
    have dropped := (List.dropWhile_suffix (l := more) Char.isDigit).length_le
    simp only [fraction]
    split
    · exact Nat.le_succ_of_le dropped
    · exact Nat.le_refl _

theorem length_sign_le (cs : List Char) : (sign cs).2.length ≤ cs.length := by
  cases cs with
  | nil => exact Nat.le_refl _
  | cons c more =>
    simp only [sign]
    split
    · exact Nat.le_succ _
    · exact Nat.le_refl _

theorem length_exponent_le (cs : List Char) : (exponent cs).2.length ≤ cs.length := by
  cases cs with
  | nil => exact Nat.le_refl _
  | cons c more =>
    have dropped := (List.dropWhile_suffix (l := (sign more).2) Char.isDigit).length_le
    have signed := length_sign_le more
    simp only [exponent]
    split
    · exact Nat.le_succ_of_le (dropped.trans signed)
    · exact Nat.le_refl _

theorem number_shorter {format : FloatText F} {maxDigits : Nat} {cs : List Char} {v : Value F}
    (read : number format maxDigits cs = .ok (v, rest)) : rest.length < cs.length := by
  unfold number at read
  split at read
  · cases read
  · rename_i w more wholes
    have shorter := whole_shorter wholes
    have behind := (length_exponent_le (fraction more).2).trans (length_fraction_le more)
    simp only at read
    split at read
    · split at read
      · cases read
      · cases read
        omega
    · split at read <;>
      · cases read
        omega

theorem number_ne_exhausted {format : FloatText F} {maxDigits : Nat} {cs : List Char} :
    number format maxDigits cs ≠ .error .exhausted := by
  unfold number
  intro failed
  split at failed
  · cases failed
  · simp only at failed
    split at failed
    · split at failed <;> cases failed
    · split at failed <;> cases failed

theorem isPrefixOf_shorter {xs cs : List Char} (nonempty : xs ≠ [])
    (found : xs.isPrefixOf? cs = some rest) : rest.length < cs.length := by
  have whole : ∀ {xs cs : List Char}, xs.isPrefixOf? cs = some rest →
      cs.length = xs.length + rest.length := by
    intro xs
    induction xs with
    | nil =>
      intro cs found
      cases found
      simp
    | cons x xs ih =>
      intro cs found
      cases cs with
      | nil => cases found
      | cons c cs =>
        simp only [List.isPrefixOf?] at found
        split at found
        · have inner := ih found
          simp only [List.length_cons]
          omega
        · cases found
  have lengths := whole found
  have positive := List.length_pos_iff.mpr nonempty
  omega

theorem scalar_shorter {format : FloatText F} {maxDigits : Nat} {cs : List Char} {v : Value F}
    (read : scalar format maxDigits cs = .ok (v, rest)) : rest.length < cs.length := by
  unfold scalar at read
  split at read
  · rename_i found literal
    cases read
    obtain ⟨p, listed, taken⟩ := List.exists_of_findSome?_eq_some literal
    obtain ⟨more, cut, same⟩ := Option.map_eq_some_iff.mp taken
    cases same
    refine isPrefixOf_shorter ?_ cut
    simp only [literals, List.mem_cons, List.not_mem_nil, or_false] at listed
    rcases listed with rfl | rfl | rfl | rfl | rfl | rfl <;> exact List.cons_ne_nil _ _
  · exact number_shorter read

theorem scalar_ne_exhausted {format : FloatText F} {maxDigits : Nat} {cs : List Char} :
    scalar format maxDigits cs ≠ .error .exhausted := by
  unfold scalar
  split
  · intro failed
    cases failed
  · exact number_ne_exhausted

theorem codePoints_ne_exhausted (cs : List Char) : codePoints cs ≠ .error .exhausted := by
  fun_induction codePoints cs with
  | case1 | case2 | case3 | case6 | case7 | case8 | case9 =>
    intro failed
    cases failed
  | case4 | case5 | case10 =>
    rename_i kept
    intro failed
    revert failed kept
    cases codePoints _ with
    | error e =>
      intro kept failed
      cases failed
      exact kept rfl
    | ok p =>
      intro _ failed
      cases failed

theorem string_ne_exhausted (cs : List Char) : string cs ≠ .error .exhausted := by
  unfold string
  intro failed
  split at failed
  · rename_i e points
    cases failed
    exact codePoints_ne_exhausted cs points
  · split at failed <;> cases failed

/-! Values, items and fields -/

section

variable {format : FloatText F} {maxDigits : Nat}

/-- What each of the three readers leaves, for one bound on the recursion. -/
structure Shorter (format : FloatText F) (maxDigits fuel : Nat) : Prop where
  value : ∀ {cs rest v}, value format maxDigits fuel cs = .ok (v, rest) →
    rest.length < cs.length
  items : ∀ {cs rest vs}, items format maxDigits fuel cs = .ok (vs, rest) →
    rest.length < cs.length
  fields : ∀ {cs rest fs}, fields format maxDigits fuel cs = .ok (fs, rest) →
    rest.length < cs.length

theorem length_tail_skip (cs : List Char) : (skip cs).tail.length ≤ cs.length := by
  have whole := length_skip_le cs
  rw [List.length_tail]
  omega

theorem Shorter.value_succ {fuel : Nat} (shorter : Shorter format maxDigits fuel)
    {cs : List Char} {v : Value F}
    (read : JsonText.value format maxDigits (fuel + 1) cs = .ok (v, rest)) :
    rest.length < cs.length := by
  cases cs with
  | nil => cases read
  | cons c more =>
    have skipped := length_skip_le more
    have tail := length_tail_skip more
    simp only [JsonText.value] at read
    rw [List.length_cons]
    split at read
    · obtain ⟨s, inner⟩ := map_ok read
      exact Nat.lt_succ_of_lt (string_shorter inner)
    · split at read
      · split at read
        · cases read
          omega
        · obtain ⟨vs, inner⟩ := map_ok read
          have fewer := shorter.items inner
          omega
      · split at read
        · split at read
          · cases read
            omega
          · obtain ⟨fs, inner⟩ := map_ok (f := fun fs => Value.obj (toDict fs)) read
            have fewer := shorter.fields inner
            omega
        · exact scalar_shorter read

theorem Shorter.items_succ {fuel : Nat} (shorter : Shorter format maxDigits fuel)
    {cs : List Char} {vs : List (Value F)}
    (read : JsonText.items format maxDigits (fuel + 1) cs = .ok (vs, rest)) :
    rest.length < cs.length := by
  simp only [JsonText.items] at read
  split at read
  · cases read
  · rename_i v more first
    have fewer := shorter.value first
    have tail := length_tail_skip more
    have after := length_tail_skip_le more
    split at read
    · cases read
      omega
    · split at read
      · obtain ⟨ws, inner⟩ := push_ok read
        have later := shorter.items inner
        omega
      · cases read

theorem Shorter.fields_succ {fuel : Nat} (shorter : Shorter format maxDigits fuel)
    {cs : List Char} {fs : List (String × Value F)}
    (read : JsonText.fields format maxDigits (fuel + 1) cs = .ok (fs, rest)) :
    rest.length < cs.length := by
  simp only [JsonText.fields] at read
  split at read
  · cases read
  · split at read
    · cases read
    · rename_i k more key
      have named := string_shorter key
      have colon := length_tail_skip_le more
      rw [List.length_tail] at named
      split at read
      · cases read
      · split at read
        · cases read
        · rename_i v behind first
          have fewer := shorter.value first
          have tail := length_tail_skip behind
          have after := length_tail_skip_le behind
          split at read
          · cases read
            omega
          · split at read
            · obtain ⟨gs, inner⟩ := push_ok read
              have later := shorter.fields inner
              omega
            · cases read

theorem shorter (format : FloatText F) (maxDigits fuel : Nat) :
    Shorter format maxDigits fuel := by
  induction fuel with
  | zero =>
    refine ⟨fun read => ?_, fun read => ?_, fun read => ?_⟩
    · simp only [value] at read
      cases read
    · simp only [items] at read
      cases read
    · simp only [fields] at read
      cases read
  | succ fuel ih => exact ⟨ih.value_succ, ih.items_succ, ih.fields_succ⟩

/-- No reader gives up on a text that is short enough for the bound. -/
structure Suffices (format : FloatText F) (maxDigits fuel : Nat) : Prop where
  value : ∀ {cs}, 2 * cs.length < fuel → value format maxDigits fuel cs ≠ .error .exhausted
  items : ∀ {cs}, 2 * cs.length + 1 < fuel →
    items format maxDigits fuel cs ≠ .error .exhausted
  fields : ∀ {cs}, 2 * cs.length + 1 < fuel →
    fields format maxDigits fuel cs ≠ .error .exhausted

theorem map_ne_exhausted {A B : Type} {f : A → B} {r : Except ReadError A}
    (kept : r ≠ .error .exhausted) : r.map f ≠ .error .exhausted := by
  cases r with
  | error e =>
    intro failed
    cases failed
    exact kept rfl
  | ok a =>
    intro failed
    cases failed

theorem Suffices.value_succ {fuel : Nat} (suffices_ : Suffices format maxDigits fuel)
    {cs : List Char} (enough : 2 * cs.length < fuel + 1) :
    JsonText.value format maxDigits (fuel + 1) cs ≠ .error .exhausted := by
  cases cs with
  | nil =>
    simp only [JsonText.value]
    exact fun failed => by cases failed
  | cons c more =>
    have skipped := length_skip_le more
    rw [List.length_cons] at enough
    simp only [JsonText.value]
    split
    · exact map_ne_exhausted (string_ne_exhausted more)
    · split
      · split
        · exact fun failed => by cases failed
        · exact map_ne_exhausted (suffices_.items (by omega))
      · split
        · split
          · exact fun failed => by cases failed
          · exact map_ne_exhausted (suffices_.fields (by omega))
        · exact scalar_ne_exhausted

theorem Suffices.items_succ {fuel : Nat} (suffices_ : Suffices format maxDigits fuel)
    {cs : List Char} (enough : 2 * cs.length + 1 < fuel + 1) :
    JsonText.items format maxDigits (fuel + 1) cs ≠ .error .exhausted := by
  intro failed
  simp only [JsonText.items] at failed
  split at failed
  · rename_i e first
    cases failed
    exact suffices_.value (by omega) first
  · rename_i v more first
    have fewer := (shorter format maxDigits fuel).value first
    have after := length_tail_skip_le more
    split at failed
    · cases failed
    · split at failed
      · exact map_ne_exhausted (suffices_.items (by omega)) failed
      · cases failed

theorem Suffices.fields_succ {fuel : Nat} (suffices_ : Suffices format maxDigits fuel)
    {cs : List Char} (enough : 2 * cs.length + 1 < fuel + 1) :
    JsonText.fields format maxDigits (fuel + 1) cs ≠ .error .exhausted := by
  intro failed
  simp only [JsonText.fields] at failed
  split at failed
  · cases failed
  · split at failed
    · rename_i e key
      cases failed
      exact string_ne_exhausted _ key
    · rename_i k more key
      have named := string_shorter key
      have colon := length_tail_skip_le more
      rw [List.length_tail] at named
      split at failed
      · cases failed
      · split at failed
        · rename_i e first
          cases failed
          exact suffices_.value (by omega) first
        · rename_i v behind first
          have fewer := (shorter format maxDigits fuel).value first
          have after := length_tail_skip_le behind
          split at failed
          · cases failed
          · split at failed
            · exact map_ne_exhausted (suffices_.fields (by omega)) failed
            · cases failed

theorem bound_suffices (format : FloatText F) (maxDigits fuel : Nat) :
    Suffices format maxDigits fuel := by
  induction fuel with
  | zero =>
    refine ⟨fun enough => ?_, fun enough => ?_, fun enough => ?_⟩ <;> omega
  | succ fuel ih => exact ⟨ih.value_succ, ih.items_succ, ih.fields_succ⟩

/-- A text is read or refused for what it is. -/
theorem loads_ne_exhausted (format : FloatText F) (maxDigits : Nat) (cs : List Char) :
    loads format maxDigits cs ≠ .error .exhausted := by
  intro failed
  have skipped := length_skip_le cs
  unfold loads at failed
  split at failed
  · rename_i e first
    cases failed
    exact (bound_suffices format maxDigits _).value (by omega) first
  · split at failed <;> cases failed

end

end JsonText
