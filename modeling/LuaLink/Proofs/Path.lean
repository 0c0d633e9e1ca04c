import LuaLink.Proofs.Text.Split
import LuaLink.Workspace.Canonical

/-! Absolute paths as names.  A path is known by its names, joining puts names together, and the path of
plain names is in normal form, so that taking it apart gives the names again. -/

namespace LuaLink

open Workspace (pathOf)

namespace Path

variable {a b c path : Text} {name : Text} {ns : List Text}

/-- A name that stands for an entry: not empty, without separator, and none of the two names that lead
elsewhere. -/
structure Plain (name : Text) : Prop where
  some : name ≠ []
  free : separator ∉ name
  notHere : name ≠ Text.ofString "."
  notAbove : name ≠ Text.ofString ".."

instance (name : Text) : Decidable (Plain name) :=
  decidable_of_iff
    (name ≠ [] ∧ separator ∉ name ∧ name ≠ Text.ofString "." ∧ name ≠ Text.ofString "..")
    ⟨fun ⟨names, free, notHere, notAbove⟩ => ⟨names, free, notHere, notAbove⟩,
      fun plain => ⟨plain.some, plain.free, plain.notHere, plain.notAbove⟩⟩

theorem isAbsolute_cons {c : CodePoint} : isAbsolute (c :: path) = true ↔ c = separator := by
  rw [show isAbsolute (c :: path) = List.isPrefixOf [separator] (c :: path) from rfl,
    List.isPrefixOf_iff_prefix, List.cons_prefix_cons]
  exact ⟨fun both => both.1.symm, fun same => ⟨same.symm, List.nil_prefix⟩⟩

theorem exists_of_isAbsolute (absolute : isAbsolute path = true) : ∃ rest, path = separator :: rest := by
  cases path with
  | nil => cases absolute
  | cons c rest => exact ⟨rest, by rw [isAbsolute_cons.mp absolute]⟩

/-! ### Names -/

theorem names_append (a b : Text) : names (a ++ separator :: b) = names a ++ names b := by
  simp only [names, Text.split_eq_splitOn, List.splitOn_append_cons_self, List.filter_append]

theorem names_separator (path : Text) : names (separator :: path) = names path :=
  names_append [] path

theorem names_free (free : separator ∉ name) (some : name ≠ []) : names name = [name] := by
  simp [names, Text.split_eq_splitOn, List.splitOn_eq_singleton free, some]

theorem free_of_mem_names (member : name ∈ names path) : separator ∉ name := by
  rw [names, Text.split_eq_splitOn] at member
  exact free_of_mem_splitOn (List.mem_filter.mp member).1

theorem ne_nil_of_mem_names (member : name ∈ names path) : name ≠ [] := by
  simpa using (List.mem_filter.mp member).2

theorem names_intercalate (some : ∀ name ∈ ns, name ≠ []) (free : ∀ name ∈ ns, separator ∉ name) :
    names ([separator].intercalate ns) = ns := by
  rw [names, Text.split_eq_splitOn]
  by_cases empty : ns = []
  · subst empty
    rfl
  · rw [List.splitOn_intercalate _ free empty, List.filter_eq_self]
    exact fun name member => by simpa using some name member

theorem names_join_relative (relative : isAbsolute b = false) : names (join a b) = names a ++ names b := by
  rw [join, if_neg (by simp [relative])]
  split
  · rename_i open_
    rcases (Bool.or_eq_true ..).mp open_ with empty | ended
    · obtain rfl := List.isEmpty_iff.mp empty
      rfl
    · obtain ⟨front, rfl⟩ := List.isSuffixOf_iff_suffix.mp ended
      have whole : names (front ++ Text.ofString "/" ++ b) = names front ++ names b := by
        rw [List.append_assoc]
        exact names_append front b
      have first : names (front ++ Text.ofString "/") = names front := by
        rw [show front ++ Text.ofString "/" = front ++ separator :: [] from rfl, names_append]
        exact List.append_nil _
      rw [whole, first]
  · exact names_append a b

theorem names_join_absolute (absolute : isAbsolute b = true) : names (join a b) = names b := by
  rw [join, if_pos absolute]

theorem isAbsolute_join (absolute : isAbsolute a = true) : isAbsolute (join a b) = true := by
  rw [join]
  split
  · assumption
  · obtain ⟨rest, rfl⟩ := List.isPrefixOf_iff_prefix.mp absolute
    split <;> exact List.isPrefixOf_iff_prefix.mpr ⟨_, by rw [List.append_assoc]⟩

/-! ### The path of names -/

theorem plain_reverse (plain : ∀ name ∈ ns, Plain name) : ∀ name ∈ ns.reverse, Plain name :=
  fun name member => plain name (List.mem_reverse.mp member)

/-- What an absolute path in normal form starts with: one separator, or two. -/
def IsLead (front : Text) : Prop := front = [separator] ∨ front = [separator, separator]

/-- The path of names behind such a front, the last one first. -/
def pathFrom (front : Text) (ns : List Text) : Text := front ++ [separator].intercalate ns.reverse

theorem pathOf_eq (ns : List Text) : pathOf ns = separator :: [separator].intercalate ns.reverse := by
  rw [pathOf, Text.join_eq_intercalate]
  rfl

theorem pathOf_eq_pathFrom (ns : List Text) : pathOf ns = pathFrom [separator] ns := pathOf_eq ns

section

variable {front : Text} (leads : IsLead front)

include leads

theorem IsLead.names_append (rest : Text) : names (front ++ rest) = names rest := by
  rcases leads with rfl | rfl
  · exact names_separator rest
  · exact (names_separator _).trans (names_separator rest)

theorem isAbsolute_pathFrom (ns : List Text) : isAbsolute (pathFrom front ns) = true := by
  rcases leads with rfl | rfl <;> rfl

theorem names_pathFrom (plain : ∀ name ∈ ns, Plain name) : names (pathFrom front ns) = ns.reverse := by
  rw [pathFrom, leads.names_append]
  exact names_intercalate (fun name member => (plain_reverse plain name member).some)
    fun name member => (plain_reverse plain name member).free

end

theorem pathFrom_cons (front name : Text) (ns : List Text) : pathFrom front (name :: ns) =
    (if ns = [] then front else pathFrom front ns ++ [separator]) ++ name := by
  rw [pathFrom, List.reverse_cons]
  split
  · rename_i top
    subst top
    simp
  · rename_i some
    rw [intercalate_concat fun none => some (List.reverse_eq_nil_iff.mp none), pathFrom]
    simp only [List.append_assoc]

theorem isAbsolute_pathOf (ns : List Text) : isAbsolute (pathOf ns) = true := rfl

theorem names_pathOf (plain : ∀ name ∈ ns, Plain name) : names (pathOf ns) = ns.reverse := by
  rw [pathOf_eq_pathFrom]
  exact names_pathFrom (.inl rfl) plain

theorem pathOf_injOn {ns ns' : List Text} (plain : ∀ name ∈ ns, Plain name)
    (plain' : ∀ name ∈ ns', Plain name) (same : pathOf ns = pathOf ns') : ns = ns' := by
  rw [← List.reverse_inj, ← names_pathOf plain, ← names_pathOf plain', same]

theorem pathOf_cons (name : Text) (ns : List Text) :
    pathOf (name :: ns) = (if ns = [] then [separator] else pathOf ns ++ [separator]) ++ name := by
  rw [pathOf_eq_pathFrom, pathOf_eq_pathFrom, pathFrom_cons]

/-! ### Normal form -/

theorem filter_plain (plain : ∀ name ∈ ns, Plain name) :
    ns.filter (· ≠ Text.ofString ".") = ns :=
  List.filter_eq_self.mpr fun name member => decide_eq_true (plain name member).notHere

/-- Without `..` the names that are kept are all but `.`. -/
theorem foldl_step {absolute : Bool} {kept names : List Text}
    (below : ∀ name ∈ names, name ≠ Text.ofString "..") :
    names.foldl (step absolute) kept =
      (names.filter (· ≠ Text.ofString ".")).reverse ++ kept := by
  induction names generalizing kept with
  | nil => rfl
  | cons name rest ih =>
    have here := below name List.mem_cons_self
    have later := fun kept => @ih kept fun other member => below other (List.mem_cons_of_mem _ member)
    rw [List.foldl_cons, later]
    unfold step
    by_cases same : name = Text.ofString "."
    · rw [if_pos same, List.filter_cons_of_neg (by simpa using same)]
    · rw [if_neg same, if_pos here, List.filter_cons_of_pos (by simpa using same), List.reverse_cons,
        List.append_assoc]
      rfl

theorem isLead_lead (absolute : isAbsolute path = true) : IsLead (lead path) := by
  unfold lead
  split
  · exact .inl rfl
  · split
    · exact .inr rfl
    · rw [if_pos (show path.startsWith (Text.ofString "/") = true from absolute)]
      exact .inl rfl

theorem lead_ne_nil (absolute : isAbsolute path = true) : lead path ≠ [] := by
  rcases isLead_lead absolute with one | two
  · simp [one]
  · simp [two]

theorem normalize_eq (absolute : isAbsolute path = true)
    (below : ∀ name ∈ names path, name ≠ Text.ofString "..") :
    normalize path = lead path ++
      [separator].intercalate ((names path).filter (· ≠ Text.ofString ".")) := by
  have some := lead_ne_nil absolute
  simp only [normalize]
  rw [foldl_step below, List.append_nil, List.reverse_reverse, Text.join_eq_intercalate, if_neg]
  · rfl
  · simp [some]

/-- An absolute path without `..`: no name takes back another one. -/
structure Straight (path : Text) : Prop where
  absolute : isAbsolute path = true
  below : ∀ name ∈ names path, name ≠ Text.ofString ".."

theorem names_normalize (straight : Straight path) :
    names (normalize path) = (names path).filter (· ≠ Text.ofString ".") := by
  rw [normalize_eq straight.absolute straight.below, (isLead_lead straight.absolute).names_append,
    names_intercalate]
  · exact fun name member => ne_nil_of_mem_names (List.mem_filter.mp member).1
  · exact fun name member => free_of_mem_names (List.mem_filter.mp member).1

/-- Above the root there is nothing, so an absolute path keeps plain names only. -/
theorem foldl_step_plain {kept names : List Text} (plain : ∀ name ∈ kept, Plain name)
    (some : ∀ name ∈ names, name ≠ []) (free : ∀ name ∈ names, separator ∉ name) :
    ∀ name ∈ names.foldl (step true) kept, Plain name := by
  induction names generalizing kept with
  | nil => exact plain
  | cons name rest ih =>
    refine ih ?_ (fun other member => some other (List.mem_cons_of_mem _ member))
      fun other member => free other (List.mem_cons_of_mem _ member)
    unfold step
    split
    · exact plain
    · rename_i notHere
      split
      · rename_i notAbove
        have here := Plain.mk (some name List.mem_cons_self) (free name List.mem_cons_self) notHere
          notAbove
        exact List.forall_mem_cons.mpr ⟨here, plain⟩
      · match kept with
        | [] => exact nofun
        | last :: others =>
          obtain ⟨here, others⟩ := List.forall_mem_cons.mp plain
          dsimp only
          rw [if_neg here.notAbove]
          exact others

/-- The names that are left of an absolute path, the last one first. -/
def left (path : Text) : List Text := (names path).foldl (step true) []

theorem plain_left (path : Text) : ∀ name ∈ left path, Plain name :=
  foldl_step_plain nofun (fun _ => ne_nil_of_mem_names) fun _ => free_of_mem_names

/-- No name comes up that was not there before. -/
theorem foldl_step_subset {absolute : Bool} {kept names : List Text} :
    names.foldl (step absolute) kept ⊆ kept ++ names := by
  induction names generalizing kept with
  | nil => exact List.subset_append_left kept []
  | cons name rest ih =>
    have first : step absolute kept name ⊆ kept ++ [name] := by
      unfold step
      split
      · exact List.subset_append_left _ _
      · have wider : name :: kept ⊆ kept ++ [name] := by simp
        split
        · exact wider
        · match kept with
          | [] =>
            dsimp only
            split <;> simp
          | last :: others =>
            dsimp only
            split
            · exact wider
            · exact fun other member => by simp [member]
    rw [List.foldl_cons, List.append_cons]
    exact List.Subset.trans ih (List.append_subset.mpr
      ⟨List.Subset.trans first (List.subset_append_left _ _), List.subset_append_right _ _⟩)

theorem left_subset (path : Text) : left path ⊆ names path := foldl_step_subset

theorem normalize_eq_pathFrom (absolute : isAbsolute path = true) :
    normalize path = pathFrom (lead path) (left path) := by
  have some := lead_ne_nil absolute
  simp only [normalize]
  rw [Text.join_eq_intercalate, absolute, if_neg]
  · rfl
  · simp [some]

theorem names_normalize_absolute (absolute : isAbsolute path = true) :
    names (normalize path) = (left path).reverse := by
  rw [normalize_eq_pathFrom absolute, names_pathFrom (isLead_lead absolute) (plain_left path)]

theorem straight_normalize (absolute : isAbsolute path = true) : Straight (normalize path) := by
  constructor
  · rw [normalize_eq_pathFrom absolute]
    exact isAbsolute_pathFrom (isLead_lead absolute) _
  · rw [names_normalize_absolute absolute]
    exact fun name member => (plain_reverse (plain_left path) name member).notAbove

theorem not_startsWith {first : CodePoint} (front : Text) (other : first ≠ separator) (rest more : Text) :
    (front ++ first :: rest).startsWith (front ++ separator :: more) = false := by
  rw [Bool.eq_false_iff, ne_eq, Text.startsWith, List.isPrefixOf_iff_prefix,
    List.prefix_append_right_inj, List.cons_prefix_cons]
  exact fun both => other both.1.symm

theorem IsLead.lead_append {front : Text} (leads : IsLead front) {first : CodePoint}
    (other : first ≠ separator) (rest : Text) : lead (front ++ first :: rest) = front := by
  have apart := not_startsWith front other rest
  unfold lead
  rcases leads with rfl | rfl
  · rw [show Text.startsWith _ (Text.ofString "///") = false from apart [separator],
      show Text.startsWith _ (Text.ofString "//") = false from apart []]
    rfl
  · rw [show Text.startsWith _ (Text.ofString "///") = false from apart []]
    rfl

theorem lead_cons {first : CodePoint} (other : first ≠ separator) (rest : Text) :
    lead (separator :: first :: rest) = [separator] :=
  IsLead.lead_append (.inl rfl) other rest

theorem exists_pathFrom_cons (front : Text) (plain : ∀ name ∈ ns, Plain name) (some : ns ≠ []) :
    ∃ c rest, c ≠ separator ∧ pathFrom front ns = front ++ c :: rest := by
  rw [pathFrom]
  cases order : ns.reverse with
  | nil => exact absurd (List.reverse_eq_nil_iff.mp order) some
  | cons name rest =>
    have first := plain_reverse plain name (order ▸ List.mem_cons_self)
    obtain ⟨c, tail, rfl⟩ := List.exists_cons_of_ne_nil first.some
    rw [List.intercalate_cons_cons_left]
    exact ⟨c, _, (List.ne_of_not_mem_cons first.free).symm, rfl⟩

theorem exists_pathOf (plain : ∀ name ∈ ns, Plain name) (some : ns ≠ []) :
    ∃ c rest, c ≠ separator ∧ pathOf ns = separator :: c :: rest := by
  rw [pathOf_eq_pathFrom]
  exact exists_pathFrom_cons [separator] plain some

theorem lead_pathFrom {front : Text} (leads : IsLead front) (plain : ∀ name ∈ ns, Plain name) :
    lead (pathFrom front ns) = front := by
  by_cases top : ns = []
  · subst top
    rcases leads with rfl | rfl <;> rfl
  · obtain ⟨c, rest, other, whole⟩ := exists_pathFrom_cons front plain top
    rw [whole]
    exact leads.lead_append other rest

theorem normalize_pathFrom {front : Text} (leads : IsLead front) (plain : ∀ name ∈ ns, Plain name) :
    normalize (pathFrom front ns) = pathFrom front ns := by
  have below : ∀ name ∈ names (pathFrom front ns), name ≠ Text.ofString ".." := by
    rw [names_pathFrom leads plain]
    exact fun name member => (plain_reverse plain name member).notAbove
  rw [normalize_eq (isAbsolute_pathFrom leads ns) below, names_pathFrom leads plain,
    lead_pathFrom leads plain, filter_plain (plain_reverse plain), pathFrom]

theorem normalize_pathOf (plain : ∀ name ∈ ns, Plain name) : normalize (pathOf ns) = pathOf ns := by
  rw [pathOf_eq_pathFrom]
  exact normalize_pathFrom (.inl rfl) plain

theorem absolute_eq {cwd : Text} (absolute : isAbsolute path = true) :
    Path.absolute cwd path = normalize path := by
  rw [Path.absolute, if_pos absolute]

/-- An absolute normal form is the path of plain names. -/
theorem exists_pathFrom {cwd : Text} (absolute : isAbsolute cwd = true) (path : Text) : ∃ front ns,
    IsLead front ∧ (∀ name ∈ ns, Plain name) ∧ Path.absolute cwd path = pathFrom front ns := by
  have seen : isAbsolute (if isAbsolute path then path else join cwd path) = true := by
    split
    · assumption
    · exact isAbsolute_join absolute
  exact ⟨_, _, isLead_lead seen, plain_left _, normalize_eq_pathFrom seen⟩

/-- The names that do not stay where they are. -/
def moving (names : List Text) : List Text :=
  names.filter fun name => !(name.isEmpty || name = Text.ofString ".")

theorem moving_split (path : Text) :
    moving (Text.split separator path) = (names path).filter (· ≠ Text.ofString ".") := by
  rw [moving, names, List.filter_filter]
  refine List.filter_congr fun name _ => ?_
  simp [Bool.and_comm]

/-- Bringing a path to its absolute normal form drops no name that moves. -/
theorem moving_absolute {cwd : Text} (straight : Straight path) :
    moving (Text.split separator (Path.absolute cwd path).tail) =
      moving (Text.split separator path) := by
  obtain ⟨rest, whole⟩ := exists_of_isAbsolute (straight_normalize straight.absolute).absolute
  have same : names rest = (names path).filter (· ≠ Text.ofString ".") := by
    rw [← names_separator, ← whole, names_normalize straight]
  rw [absolute_eq straight.absolute, whole, moving_split, moving_split, List.tail_cons, same,
    List.filter_filter]
  simp

/-! ### The directory around -/

theorem directory_append (free : separator ∉ name) (before : Text) :
    directory (before ++ separator :: name) =
      if before.all isSeparator then before ++ [separator]
      else (before.reverse.dropWhile isSeparator).reverse := by
  have stop : ∀ c ∈ name.reverse, (!isSeparator c) = true := by
    intro c member
    have other : c ≠ separator := fun same => free (same ▸ List.mem_reverse.mp member)
    simpa [isSeparator] using other
  have front : ((before ++ separator :: name).reverse.dropWhile fun c => !isSeparator c).reverse =
      before ++ [separator] := by
    rw [List.reverse_append, List.reverse_cons, List.append_assoc, List.dropWhile_append_of_pos stop]
    simp [isSeparator]
  simp only [directory]
  rw [front, List.all_append, List.reverse_append]
  simp [isSeparator]

theorem directory_pathFrom {front : Text} (leads : IsLead front) (plain : ∀ name ∈ ns, Plain name)
    (here : Plain name) : directory (pathFrom front (name :: ns)) = pathFrom front ns := by
  rw [pathFrom_cons]
  by_cases top : ns = []
  · subst top
    rw [if_pos rfl]
    rcases leads with rfl | rfl
    · exact directory_append here.free []
    · exact directory_append here.free [separator]
  · rw [if_neg top, List.append_assoc, List.singleton_append, directory_append here.free]
    -- What is around ends in a name, and so in no separator.
    obtain ⟨last, outer, rfl⟩ := List.exists_cons_of_ne_nil top
    have around := plain last List.mem_cons_self
    obtain ⟨before, whole⟩ : ∃ before, pathFrom front (last :: outer) = before ++ last :=
      ⟨_, pathFrom_cons front last outer⟩
    obtain ⟨c, tail, reversed⟩ :=
      List.exists_cons_of_ne_nil fun empty => around.some (List.reverse_eq_nil_iff.mp empty)
    have member : c ∈ last := List.mem_reverse.mp (reversed ▸ List.mem_cons_self)
    have other : isSeparator c = false := by
      have : c ≠ separator := fun same => around.free (same ▸ member)
      simpa [isSeparator] using this
    have some : ¬ (pathFrom front (last :: outer)).all isSeparator = true := by
      intro all
      rw [List.all_eq_true.mp all c (whole ▸ List.mem_append_right before member)] at other
      cases other
    have kept : (pathFrom front (last :: outer)).reverse.dropWhile isSeparator =
        (pathFrom front (last :: outer)).reverse := by
      rw [whole, List.reverse_append, reversed, List.cons_append,
        List.dropWhile_cons_of_neg (by simp [other])]
    rw [if_neg some, kept, List.reverse_reverse]

theorem directory_pathOf (plain : ∀ name ∈ ns, Plain name) (here : Plain name) :
    directory (pathOf (name :: ns)) = pathOf ns := by
  rw [pathOf_eq_pathFrom, pathOf_eq_pathFrom]
  exact directory_pathFrom (.inl rfl) plain here

theorem baseName_append (free : separator ∉ name) (before : Text) :
    baseName (before ++ separator :: name) = name := by
  have taken : ∀ c ∈ name.reverse, (!isSeparator c) = true := by
    intro c member
    have other : c ≠ separator := fun same => free (same ▸ List.mem_reverse.mp member)
    simpa [isSeparator] using other
  rw [baseName, List.reverse_append, List.reverse_cons, List.append_assoc,
    List.takeWhile_append_of_pos taken]
  simp [isSeparator]

theorem baseName_pathFrom {front : Text} (leads : IsLead front) (here : Plain name) (ns : List Text) :
    baseName (pathFrom front (name :: ns)) = name := by
  obtain ⟨before, whole⟩ : ∃ before, pathFrom front (name :: ns) = before ++ separator :: name := by
    rw [pathFrom_cons]
    split
    · rcases leads with rfl | rfl
      · exact ⟨[], rfl⟩
      · exact ⟨[separator], rfl⟩
    · exact ⟨pathFrom front ns, List.append_assoc ..⟩
  rw [whole, baseName_append here.free]

/-! ### Paths below a directory -/

/-- What a relative path is put behind, to be seen from a directory. -/
def opened (path : Text) : Text :=
  if path.isEmpty || path.endsWith "/" then path else path ++ [separator]

theorem join_eq (relative : isAbsolute b = false) : join a b = opened a ++ b := by
  rw [join, if_neg (by simp [relative]), opened]
  split
  · rfl
  · exact (List.append_cons ..)

theorem endsWith_iff : path.endsWith "/" = true ↔ path.getLast? = some separator := by
  rw [Text.endsWith, List.isSuffixOf_iff_suffix, List.getLast?_eq_some_iff]
  exact exists_congr fun _ => eq_comm

theorem endsWith_append (some : b ≠ []) (a : Text) : (a ++ b).endsWith "/" = b.endsWith "/" := by
  rw [Bool.eq_iff_iff, endsWith_iff, endsWith_iff, List.getLast?_append,
    List.getLast?_eq_some_getLast some]
  exact Iff.rfl

theorem endsWith_free (free : separator ∉ path) : path.endsWith "/" = false := by
  rw [Bool.eq_false_iff]
  exact fun ended => free (List.mem_of_getLast? (endsWith_iff.mp ended))

theorem opened_append (some : b ≠ []) (a : Text) : opened (a ++ b) = a ++ opened b := by
  rw [opened, opened, endsWith_append some, List.isEmpty_eq_false_iff.mpr some,
    List.isEmpty_eq_false_iff.mpr (List.append_ne_nil_of_right_ne_nil a some)]
  split
  · rfl
  · exact List.append_assoc ..

theorem opened_opened (path : Text) : opened (opened path) = opened path := by
  rw [opened.eq_def path]
  split
  · rename_i open_
    exact if_pos open_
  · rw [opened_append (List.cons_ne_nil _ _)]
    rfl

theorem opened_pathFrom {front : Text} (leads : IsLead front) (plain : ∀ name ∈ ns, Plain name) :
    opened (pathFrom front ns) = if ns = [] then front else pathFrom front ns ++ [separator] := by
  cases ns with
  | nil => rcases leads with rfl | rfl <;> rfl
  | cons name rest =>
    have here := plain name List.mem_cons_self
    have closed : opened name = name ++ [separator] := by
      rw [opened, endsWith_free here.free, List.isEmpty_eq_false_iff.mpr here.some]
      rfl
    rw [pathFrom_cons, opened_append here.some, closed, if_neg (List.cons_ne_nil name rest),
      List.append_assoc]

theorem opened_pathOf (plain : ∀ name ∈ ns, Plain name) :
    opened (pathOf ns) = if ns = [] then [separator] else pathOf ns ++ [separator] := by
  rw [pathOf_eq_pathFrom]
  exact opened_pathFrom (.inl rfl) plain

theorem Plain.relative (plain : Plain name) : isAbsolute name = false := by
  obtain ⟨c, rest, rfl⟩ := List.exists_cons_of_ne_nil plain.some
  rw [Bool.eq_false_iff, ne_eq, isAbsolute_cons]
  exact (List.ne_of_not_mem_cons plain.free).symm

theorem join_pathFrom {front : Text} (leads : IsLead front) (plain : ∀ name ∈ ns, Plain name)
    (here : Plain name) : join (pathFrom front ns) name = pathFrom front (name :: ns) := by
  rw [join_eq here.relative, opened_pathFrom leads plain, pathFrom_cons]

theorem pathOf_append {inner : List Text} (plain : ∀ name ∈ inner ++ ns, Plain name)
    (some : inner ≠ []) :
    pathOf (inner ++ ns) = opened (pathOf ns) ++ [separator].intercalate inner.reverse := by
  induction inner with
  | nil => exact absurd rfl some
  | cons name rest ih =>
    have around : ∀ name ∈ rest ++ ns, Plain name := fun other member =>
      plain other (List.mem_cons_of_mem name member)
    rw [List.cons_append, pathOf_cons, List.reverse_cons]
    by_cases last : rest = []
    · subst last
      rw [List.nil_append, ← opened_pathOf (show ∀ name ∈ ns, Plain name from around)]
      simp
    · rw [if_neg (by simp [last]), ih around last,
        intercalate_concat fun none => last (List.reverse_eq_nil_iff.mp none)]
      simp only [List.append_assoc]

theorem isAbsolute_append (some : a ≠ []) (b : Text) : isAbsolute (a ++ b) = isAbsolute a := by
  obtain ⟨c, rest, rfl⟩ := List.exists_cons_of_ne_nil some
  rw [Bool.eq_iff_iff, List.cons_append, isAbsolute_cons, isAbsolute_cons]

theorem relative_join (relativeA : isAbsolute a = false) (relativeB : isAbsolute b = false) :
    isAbsolute (join a b) = false := by
  rw [join_eq relativeB]
  by_cases empty : a = []
  · subst empty
    exact relativeB
  · have some : opened a ≠ [] := by
      rw [opened]
      split
      · exact empty
      · simp
    rw [isAbsolute_append some, opened]
    split
    · exact relativeA
    · rw [isAbsolute_append empty, relativeA]

/-- What is seen from a directory that is itself seen from another one is seen from that one. -/
theorem join_join (relativeB : isAbsolute b = false) (relativeC : isAbsolute c = false) :
    join (join a b) c = join a (join b c) := by
  rw [join_eq relativeB, join_eq relativeC, join_eq (relative_join relativeB relativeC),
    join_eq relativeC]
  by_cases empty : b = []
  · subst empty
    rw [List.append_nil, opened_opened]
    rfl
  · rw [opened_append empty, List.append_assoc]

/-- The names that are left of a relative path, the last one first. -/
def kept (path : Text) : List Text := (names path).foldl (step false) []

/-- A relative path that does not lead out of the directory where it starts. -/
structure Inside (path : Text) : Prop where
  relative : isAbsolute path = false
  below : Text.ofString ".." ∉ kept path

instance (path : Text) : Decidable (Inside path) :=
  decidable_of_iff (isAbsolute path = false ∧ Text.ofString ".." ∉ kept path)
    ⟨fun both => ⟨both.1, both.2⟩, fun inside => ⟨inside.relative, inside.below⟩⟩

/-- What led out of the directory is never taken back. -/
theorem above_mem_foldl {outer names : List Text} (above : Text.ofString ".." ∈ outer) :
    Text.ofString ".." ∈ names.foldl (step false) outer := by
  induction names generalizing outer with
  | nil => exact above
  | cons name rest ih =>
    refine ih ?_
    unfold step
    split
    · exact above
    · split
      · exact List.mem_cons_of_mem _ above
      · match outer with
        | last :: others =>
          dsimp only
          split
          · exact List.mem_cons_of_mem _ above
          · rename_i other
            exact (List.mem_cons.mp above).resolve_left fun same => other same.symm

theorem foldl_inside {base : List Text} {kept names : List Text}
    (below : Text.ofString ".." ∉ names.foldl (step false) kept) :
    names.foldl (step true) (kept ++ base) = names.foldl (step false) kept ++ base := by
  induction names generalizing kept with
  | nil => rfl
  | cons name rest ih =>
    rw [List.foldl_cons] at below
    have same : step true (kept ++ base) name = step false kept name ++ base := by
      have inside : Text.ofString ".." ∉ step false kept name := fun above =>
        below (above_mem_foldl above)
      unfold step at inside ⊢
      by_cases here : name = Text.ofString "."
      · rw [if_pos here, if_pos here]
      by_cases up : name ≠ Text.ofString ".."
      · rw [if_neg here, if_pos up, if_neg here, if_pos up]
        rfl
      rw [if_neg here, if_neg up] at inside
      rw [if_neg here, if_neg up, if_neg here, if_neg up]
      obtain rfl := Classical.not_not.mp up
      match kept with
      | [] => exact absurd List.mem_cons_self inside
      | last :: others =>
        dsimp only [List.cons_append] at inside ⊢
        by_cases same : last = Text.ofString ".."
        · rw [if_pos same] at inside
          exact absurd List.mem_cons_self inside
        · rw [if_neg same, if_neg same]
    rw [List.foldl_cons, List.foldl_cons, same, ih below]

/-- The names that are left are those of entries, unless they lead out. -/
theorem plain_kept (below : Text.ofString ".." ∉ kept path) : ∀ name ∈ kept path, Plain name := by
  have proper : ∀ outer : List Text, (∀ name ∈ outer, name ≠ [] ∧ separator ∉ name ∧
      name ≠ Text.ofString ".") → ∀ inner : List Text, (∀ name ∈ inner, name ≠ [] ∧ separator ∉ name) →
      ∀ name ∈ inner.foldl (step false) outer, name ≠ [] ∧ separator ∉ name ∧
        name ≠ Text.ofString "." := by
    intro outer proper inner
    induction inner generalizing outer with
    | nil => exact fun _ => proper
    | cons name rest ih =>
      intro all
      obtain ⟨⟨some, free⟩, later⟩ := List.forall_mem_cons.mp all
      refine ih _ ?_ later
      unfold step
      split
      · exact proper
      · rename_i notHere
        have wider := List.forall_mem_cons.mpr ⟨⟨some, free, notHere⟩, proper⟩
        split
        · exact wider
        · match outer with
          | [] => exact wider
          | last :: others =>
            dsimp only
            split
            · exact wider
            · exact fun other member => proper other (List.mem_cons_of_mem last member)
  intro name member
  obtain ⟨some, free, notHere⟩ := proper [] nofun (names path)
    (fun name member => ⟨ne_nil_of_mem_names member, free_of_mem_names member⟩) name member
  exact ⟨some, free, notHere, fun above => below (above ▸ member)⟩

theorem lead_join (plain : ∀ name ∈ ns, Plain name) (relative : isAbsolute b = false) :
    lead (join (pathOf ns) b) = [separator] := by
  rw [join_eq relative, opened_pathOf plain]
  by_cases top : ns = []
  · rw [if_pos top]
    cases b with
    | nil => rfl
    | cons c rest =>
      refine lead_cons (fun same => ?_) rest
      rw [isAbsolute_cons.mpr same] at relative
      cases relative
  · obtain ⟨c, rest, other, whole⟩ := exists_pathOf plain top
    rw [if_neg top, whole]
    exact lead_cons other _

/-- A path that stays inside a directory leads to the names that are left of it. -/
theorem absolute_join {cwd : Text} (plain : ∀ name ∈ ns, Plain name) (inside : Inside path) :
    Path.absolute cwd (join (pathOf ns) path) = pathOf (kept path ++ ns) := by
  have absolute : isAbsolute (join (pathOf ns) path) = true := isAbsolute_join (isAbsolute_pathOf ns)
  have around : ns.reverse.foldl (step true) [] = ns := by
    have below : ∀ name ∈ ns.reverse, name ≠ Text.ofString ".." := fun name member =>
      (plain_reverse plain name member).notAbove
    rw [foldl_step below, filter_plain (plain_reverse plain), List.reverse_reverse, List.append_nil]
  have left : (names (join (pathOf ns) path)).foldl (step true) [] = kept path ++ ns := by
    rw [names_join_relative inside.relative, names_pathOf plain, List.foldl_append, around]
    exact @foldl_inside ns [] _ inside.below
  rw [absolute_eq absolute, normalize, absolute, left, lead_join plain inside.relative, if_neg (by simp)]
  rfl

theorem kept_eq (below : ∀ name ∈ names path, name ≠ Text.ofString "..") :
    kept path = ((names path).filter (· ≠ Text.ofString ".")).reverse := by
  rw [kept, foldl_step below, List.append_nil]

end Path

end LuaLink
