import LuaLink.Proofs.Path

/-! Dots in the last name of a path.  Joining and bringing to normal form leave the last name as it is,
and a name without its extension has at most one dot less. -/

namespace LuaLink.Path

variable {path cwd a b name : Text}

/-- How many dots the last name of a path has. -/
def dots (path : Text) : Nat := ((names path).getLast?.getD []).count (.scalar '.')

theorem dots_eq {last : Text} (ended : (names path).getLast? = some last) :
    dots path = last.count (.scalar '.') := by
  rw [dots, ended]
  rfl

theorem dots_congr (same : names a = names b) : dots a = dots b := by
  rw [dots, dots, same]

theorem dots_pathFrom {front : Text} (leads : IsLead front) {ns : List Text}
    (plain : ∀ other ∈ name :: ns, Plain other) :
    dots (pathFrom front (name :: ns)) = name.count (.scalar '.') := by
  apply dots_eq
  rw [names_pathFrom leads plain, List.reverse_cons, List.getLast?_concat]

theorem dots_le_count (path : Text) : dots path ≤ path.count (.scalar '.') := by
  cases ended : (names path).getLast? with
  | none =>
    rw [dots, ended]
    exact Nat.zero_le _
  | some last =>
    have member := List.mem_of_getLast? ended
    rw [names, Text.split_eq_splitOn] at member
    rw [dots_eq ended]
    exact (sublist_of_mem_splitOn (List.mem_filter.mp member).1).count_le _

theorem getLast?_names_join (a : Text) (some : names b ≠ []) :
    (names (join a b)).getLast? = (names b).getLast? := by
  cases absolute : isAbsolute b with
  | true => rw [names_join_absolute absolute]
  | false =>
    rw [names_join_relative absolute, List.getLast?_append, List.getLast?_eq_some_getLast some]
    rfl

theorem dots_join (a : Text) (some : names b ≠ []) : dots (join a b) = dots b := by
  rw [dots, dots, getLast?_names_join a some]

theorem dots_append (a : Text) (some : names b ≠ []) : dots (a ++ separator :: b) = dots b := by
  rw [dots, dots, names_append, List.getLast?_append, List.getLast?_eq_some_getLast some]
  rfl

/-- The absolute normal form has the same last name, if it stands for an entry. -/
theorem getLast?_names_absolute (absolute : isAbsolute cwd = true) {last : Text}
    (ended : (names path).getLast? = some last) (plain : Plain last) :
    (names (Path.absolute cwd path)).getLast? = some last := by
  have whole : ∃ seen, Path.absolute cwd path = normalize seen ∧ isAbsolute seen = true ∧
      (names seen).getLast? = some last := by
    rw [Path.absolute]
    split
    · exact ⟨path, rfl, by assumption, ended⟩
    · have some : names path ≠ [] := by
        intro none
        rw [none] at ended
        cases ended
      exact ⟨_, rfl, isAbsolute_join absolute, (getLast?_names_join cwd some).trans ended⟩
  obtain ⟨seen, same, absolute, ended⟩ := whole
  obtain ⟨front, split⟩ := List.getLast?_eq_some_iff.mp ended
  have taken : step true (front.foldl (step true) []) last = last :: front.foldl (step true) [] := by
    rw [step.eq_def, if_neg plain.notHere, if_pos plain.notAbove]
  rw [same, names_normalize_absolute absolute, left, split, List.foldl_append, List.foldl_cons, taken,
    List.foldl_nil, List.reverse_cons, List.getLast?_concat]

/-- Without its extension a name has at most one dot less. -/
theorem count_dot_le_stem (name : Text) :
    name.count (.scalar '.') ≤ (stem name).count (.scalar '.') + 1 := by
  have most : name.count (.scalar '.') ≤
      ((name.reverse.dropWhile fun c => !isDot c).reverse.dropLast).count (.scalar '.') + 1 := by
    have extension : ((name.reverse.takeWhile fun c => !isDot c).count (.scalar '.')) = 0 := by
      rw [List.count_eq_zero]
      intro dot
      have other := List.all_eq_true.mp (List.all_takeWhile (l := name.reverse)) _ dot
      simp [isDot] at other
    have parted : name.count (.scalar '.') =
        ((name.reverse.dropWhile fun c => !isDot c).reverse).count (.scalar '.') := by
      have whole : name.reverse.takeWhile (fun c => !isDot c) ++
          name.reverse.dropWhile (fun c => !isDot c) = name.reverse := List.takeWhile_append_dropWhile
      rw [List.count_reverse, ← List.count_reverse (l := name), ← whole, List.count_append, extension,
        Nat.zero_add, whole]
    rw [parted]
    generalize (name.reverse.dropWhile fun c => !isDot c).reverse = front
    by_cases empty : front = []
    · subst empty
      exact Nat.zero_le _
    · have last : [front.getLast empty].count (.scalar '.') ≤ 1 := List.count_le_length
      have parted := List.dropLast_concat_getLast empty
      calc front.count (.scalar '.')
        _ = (front.dropLast ++ [front.getLast empty]).count (.scalar '.') := by rw [parted]
        _ ≤ front.dropLast.count (.scalar '.') + 1 := by
          rw [List.count_append]
          omega
  unfold stem
  split
  · exact Nat.le_succ _
  · split
    · exact Nat.le_succ _
    · exact most

/-- A name without its extension, with an ending instead, stands for an entry. -/
theorem plain_stem (plain : Plain name) {ending : Text} (free : separator ∉ ending)
    (long : 2 < ending.length) : Plain (stem name ++ ending) := by
  have inside : stem name ⊆ name := by
    unfold stem
    split
    · exact List.Subset.refl _
    · split
      · exact List.Subset.refl _
      · intro c member
        have kept := List.mem_reverse.mp ((List.dropLast_sublist _).subset member)
        exact List.mem_reverse.mp ((List.dropWhile_sublist _).subset kept)
  have length : 2 < (stem name ++ ending).length := by
    rw [List.length_append]
    omega
  constructor
  · rintro none
    rw [none] at length
    cases length
  · intro member
    rcases List.mem_append.mp member with member | member
    · exact plain.free (inside member)
    · exact free member
  · intro same
    rw [same] at length
    exact absurd length (by decide)
  · intro same
    rw [same] at length
    exact absurd length (by decide)

end LuaLink.Path
