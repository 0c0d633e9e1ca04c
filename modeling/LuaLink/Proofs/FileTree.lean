import LuaLink.Proofs.Text.Split

/-! Following a path through a tree.  `Goes` says where names lead from a place, by the height to which
links lead through links; what a walk finds is where its names lead.  Where names lead does not depend on
how it is found out, and names that lead nowhere else do not matter. -/

namespace LuaLink

/-- The bytes of the absolute path of a place. -/
def Place.bytes (place : Place) : Bytes :=
  FileTree.slash :: [FileTree.slash].intercalate place.reverse

namespace FileTree

variable {tree : FileTree} {last : Bool} {links m n : Nat} {place around final middle : Place}
  {name : Name} {names rest more : List Name} {target : Bytes}

/-- A name that an entry can be looked up by. -/
structure Plain (name : Name) : Prop where
  some : name ≠ []
  free : slash ∉ name
  notHere : name ≠ here
  notAbove : name ≠ above
  short : name.length ≤ maxName

instance (name : Name) : Decidable (Plain name) :=
  decidable_of_iff
    (name ≠ [] ∧ slash ∉ name ∧ name ≠ here ∧ name ≠ above ∧ name.length ≤ maxName)
    ⟨fun ⟨names, free, notHere, notAbove, short⟩ => ⟨names, free, notHere, notAbove, short⟩,
      fun plain => ⟨plain.some, plain.free, plain.notHere, plain.notAbove, plain.short⟩⟩

theorem Plain.moves (plain : Plain name) : staysHere name = false := by
  simp [staysHere, plain.some, plain.notHere]

/-- A place with directories all the way, no link among them. -/
def Solid (tree : FileTree) : Place → Prop
  | [] => True
  | name :: around => Plain name ∧ tree.entry? (name :: around) = some .directory ∧ Solid tree around

theorem Solid.plain (solid : tree.Solid place) : ∀ name ∈ place, Plain name := by
  induction place with
  | nil => exact nofun
  | cons name around ih =>
    exact List.forall_mem_cons.mpr ⟨solid.1, ih solid.2.2⟩

theorem Solid.tail (solid : tree.Solid place) : tree.Solid place.tail := by
  cases place with
  | nil => exact solid
  | cons => exact solid.2.2

theorem Solid.entry (solid : tree.Solid place) : tree.entry? place = some .directory := by
  cases place with
  | nil => rfl
  | cons => exact solid.2.1

theorem mem_links (link : tree.entry? place = some (.link target)) :
    place ∈ tree.links := by
  cases place with
  | nil => cases link
  | cons name around =>
    obtain ⟨before, after, whole, -⟩ := List.lookup_eq_some_iff.mp link
    exact List.mem_filterMap.mpr ⟨(name :: around, .link target), by simp [whole], rfl⟩

/-! ### Walks -/

theorem walk_nil : tree.walk last links place [] = .ok (.found place .directory) := by
  rw [walk]

theorem walk_stay (idle : staysHere name = true) :
    tree.walk last links place (name :: rest) = tree.walk last links place rest := by
  rw [walk, if_pos idle]

theorem walk_above :
    tree.walk last links place (above :: rest) = tree.walk last links place.tail rest := by
  rw [walk, if_neg (by decide), if_pos rfl]

theorem walk_long (moves : ¬ staysHere name = true) (other : name ≠ above)
    (long : maxName < name.length) :
    tree.walk last links place (name :: rest) = .error .nameTooLong := by
  rw [walk, if_neg moves, if_neg other, if_pos long]

/-- A name that a walk looks up: it leads on, and is not too long. -/
structure Sought (name : Name) : Prop where
  moves : ¬ staysHere name = true
  other : name ≠ above
  short : ¬ maxName < name.length

theorem Plain.sought (plain : Plain name) : Sought name :=
  ⟨by simp [plain.moves], plain.notAbove, Nat.not_lt.mpr plain.short⟩

theorem Sought.plain (sought : Sought name) (free : slash ∉ name) : Plain name := by
  have moves := sought.moves
  simp only [staysHere, Bool.or_eq_true, List.isEmpty_iff, beq_iff_eq, not_or] at moves
  exact ⟨moves.1, free, moves.2, sought.other, Nat.le_of_not_lt sought.short⟩

theorem walk_free (sought : Sought name) (here : tree.entry? (name :: place) = none)
    (ended : rest.isEmpty = true) :
    tree.walk last links place (name :: rest) = .ok (.free place name) := by
  rw [walk, if_neg sought.moves, if_neg sought.other, if_neg sought.short, here]
  exact if_pos ended

theorem walk_missing (sought : Sought name) (here : tree.entry? (name :: place) = none)
    (more : ¬ rest.isEmpty = true) :
    tree.walk last links place (name :: rest) = .error .missing := by
  rw [walk, if_neg sought.moves, if_neg sought.other, if_neg sought.short, here]
  exact if_neg more

theorem walk_directory (sought : Sought name) (here : tree.entry? (name :: place) = some .directory) :
    tree.walk last links place (name :: rest) = tree.walk last links (name :: place) rest := by
  rw [walk, if_neg sought.moves, if_neg sought.other, if_neg sought.short, here]

theorem walk_file {content : Bytes} (sought : Sought name)
    (here : tree.entry? (name :: place) = some (.file content)) (ended : rest.isEmpty = true) :
    tree.walk last links place (name :: rest) = .ok (.found (name :: place) (.file content)) := by
  rw [walk, if_neg sought.moves, if_neg sought.other, if_neg sought.short, here]
  exact if_pos ended

theorem walk_notDirectory {content : Bytes} (sought : Sought name)
    (here : tree.entry? (name :: place) = some (.file content)) (more : ¬ rest.isEmpty = true) :
    tree.walk last links place (name :: rest) = .error .notDirectory := by
  rw [walk, if_neg sought.moves, if_neg sought.other, if_neg sought.short, here]
  exact if_neg more

theorem walk_link (sought : Sought name) (here : tree.entry? (name :: place) = some (.link target))
    (kept : (rest.isEmpty && !last) = true) :
    tree.walk last links place (name :: rest) = .ok (.found (name :: place) (.link target)) := by
  rw [walk, if_neg sought.moves, if_neg sought.other, if_neg sought.short, here]
  exact if_pos kept

theorem walk_tooManyLinks (sought : Sought name)
    (here : tree.entry? (name :: place) = some (.link target))
    (followed : ¬ (rest.isEmpty && !last) = true) :
    tree.walk last 0 place (name :: rest) = .error .tooManyLinks := by
  rw [walk, if_neg sought.moves, if_neg sought.other, if_neg sought.short, here]
  exact if_neg followed

/-- The directory from which the path that a link holds is followed. -/
def startOf (target : Bytes) (place : Place) : Place := if target.head? = some slash then [] else place

theorem walk_follow (sought : Sought name) (here : tree.entry? (name :: place) = some (.link target))
    (followed : ¬ (rest.isEmpty && !last) = true) :
    tree.walk last (links + 1) place (name :: rest) =
      tree.walk last links (startOf target place) (namesOf target ++ rest) := by
  rw [walk, if_neg sought.moves, if_neg sought.other, if_neg sought.short, here]
  exact if_neg followed

/-- The last name is not followed if it stands for a link. -/
theorem walk_last (plain : Plain name) : tree.walk false links place [name] =
    match tree.entry? (name :: place) with
    | none => .ok (.free place name)
    | some entry => .ok (.found (name :: place) entry) := by
  cases here : tree.entry? (name :: place) with
  | none => exact walk_free plain.sought here rfl
  | some entry =>
    cases entry with
    | directory => exact (walk_directory plain.sought here).trans walk_nil
    | file => exact walk_file plain.sought here rfl
    | link => exact walk_link plain.sought here rfl

/-- A walk passes through directories. -/
theorem walk_solid (solid : tree.Solid place) :
    tree.walk last links [] (place.reverse ++ rest) = tree.walk last links place rest := by
  induction place generalizing rest with
  | nil => rfl
  | cons name around ih =>
    rw [List.reverse_cons, List.append_assoc, ih solid.2.2]
    exact walk_directory solid.1.sought solid.2.1

/-- What a walk finds, any walk finds that does not run out of links. -/
theorem walk_or_tooManyLinks {landing : Landing} (found : tree.walk true links place names = .ok landing)
    (left : Nat) : tree.walk true left place names = .ok landing ∨
      tree.walk true left place names = .error .tooManyLinks := by
  fun_induction FileTree.walk tree true links place names generalizing left with
  | case1 => exact .inl (walk_nil.trans found)
  | case2 links place name rest idle ih =>
    rw [walk_stay idle]
    exact ih found left
  | case3 links place rest moves ih =>
    rw [walk_above]
    exact ih found left
  | case4 => cases found
  | case5 links place name rest moves other short none ended =>
    exact .inl ((walk_free ⟨moves, other, short⟩ none ended).trans found)
  | case6 => cases found
  | case7 links place name rest moves other short directory ih =>
    rw [walk_directory ⟨moves, other, short⟩ directory]
    exact ih found left
  | case8 links place name rest moves other short content file ended =>
    exact .inl ((walk_file ⟨moves, other, short⟩ file ended).trans found)
  | case9 => cases found
  | case10 links place name rest moves other short target link kept => simp at kept
  | case11 => cases found
  | case12 place name rest moves other short target link followed links start ih =>
    cases left with
    | zero => exact .inr (walk_tooManyLinks ⟨moves, other, short⟩ link followed)
    | succ left =>
      rw [walk_follow ⟨moves, other, short⟩ link followed]
      exact ih found left

theorem walk_idle {idle : List Name} (idles : ∀ name ∈ idle, staysHere name = true) :
    tree.walk last links place idle = .ok (.found place .directory) := by
  induction idle with
  | nil => exact walk_nil
  | cons name rest ih =>
    obtain ⟨here, later⟩ := List.forall_mem_cons.mp idles
    rw [walk_stay here, ih later]

/-- A walk that finds a directory goes on from there, with the links that are left.  At its end it may have
stayed where it was. -/
theorem walk_through {idle : List Name} (idles : ∀ name ∈ idle, staysHere name = true)
    (found : tree.walk true links place (names ++ idle) = .ok (.found final .directory)) :
    ∃ left, ∀ name rest, tree.walk true links place (names ++ name :: rest) =
      tree.walk true left final (name :: rest) := by
  fun_induction FileTree.walk tree true links place names with
  | case1 links place =>
    rw [List.nil_append, walk_idle idles] at found
    cases found
    exact ⟨links, fun _ _ => rfl⟩
  | case2 links place name rest stays ih =>
    simp only [List.cons_append, walk_stay stays] at found ⊢
    exact ih found
  | case3 links place rest moves ih =>
    simp only [List.cons_append, walk_above] at found ⊢
    exact ih found
  | case4 links place name rest moves other long =>
    rw [List.cons_append, walk_long moves other long] at found
    cases found
  | case5 links place name rest moves other short none ended =>
    obtain rfl := List.isEmpty_iff.mp ended
    rw [List.cons_append, List.nil_append] at found
    cases idle with
    | nil =>
      rw [walk_free ⟨moves, other, short⟩ none rfl] at found
      cases found
    | cons =>
      rw [walk_missing ⟨moves, other, short⟩ none (by simp)] at found
      cases found
  | case6 links place name rest moves other short none more =>
    rw [List.cons_append, walk_missing ⟨moves, other, short⟩ none (by simp_all)] at found
    cases found
  | case7 links place name rest moves other short directory ih =>
    simp only [List.cons_append, walk_directory ⟨moves, other, short⟩ directory] at found ⊢
    exact ih found
  | case8 links place name rest moves other short content file ended =>
    obtain rfl := List.isEmpty_iff.mp ended
    rw [List.cons_append, List.nil_append] at found
    cases idle with
    | nil =>
      rw [walk_file ⟨moves, other, short⟩ file rfl] at found
      cases found
    | cons =>
      rw [walk_notDirectory ⟨moves, other, short⟩ file (by simp)] at found
      cases found
  | case9 links place name rest moves other short content file more =>
    rw [List.cons_append, walk_notDirectory ⟨moves, other, short⟩ file (by simp_all)] at found
    cases found
  | case10 links place name rest moves other short target link kept => simp at kept
  | case11 place name rest moves other short target link followed =>
    rw [List.cons_append, walk_tooManyLinks ⟨moves, other, short⟩ link (by simp)] at found
    cases found
  | case12 place name rest moves other short target link followed links start ih =>
    have goes : ∀ rest, tree.walk true (links + 1) place (name :: rest) =
        tree.walk true links start (namesOf target ++ rest) := fun rest =>
      walk_follow ⟨moves, other, short⟩ link (by simp)
    simp only [List.cons_append, goes, ← List.append_assoc] at found ⊢
    exact ih found

/-! ### Trees without links -/

theorem not_link (linkless : tree.links = []) :
    tree.entry? place ≠ some (.link target) := by
  intro link
  have member := mem_links link
  rw [linkless] at member
  cases member

/-- The link to which a walk leads stands in the tree. -/
theorem link_of_walk :
    tree.walk last links place names = .ok (.found final (.link target)) →
      tree.entry? final = some (.link target) := by
  fun_induction FileTree.walk tree last links place names with
  | case1 => exact nofun
  | case2 links place name rest idle ih => exact ih
  | case3 links place rest moves ih => exact ih
  | case4 => exact nofun
  | case5 => exact nofun
  | case6 => exact nofun
  | case7 links place name rest moves other short here ih => exact ih
  | case8 => exact nofun
  | case9 => exact nofun
  | case10 links place name rest moves other short target here kept =>
    intro found
    cases found
    exact here
  | case11 => exact nofun
  | case12 place name rest moves other short target here followed links start ih => exact ih

/-! ### Where names lead -/

/-- Names lead from a place to another one.  The path that a link holds leads to its end by itself, and
through links to a lower height. -/
inductive Goes (tree : FileTree) : Nat → Place → List Name → Place → Prop
  | done {n : Nat} {place : Place} : Goes tree n place [] place
  | stay {n : Nat} {place final : Place} {name : Name} {rest : List Name}
      (idle : staysHere name = true) (later : Goes tree n place rest final) :
      Goes tree n place (name :: rest) final
  | up {n : Nat} {place final : Place} {rest : List Name} (later : Goes tree n place.tail rest final) :
      Goes tree n place (above :: rest) final
  | enter {n : Nat} {place final : Place} {name : Name} {rest : List Name} {entry : Entry}
      (plain : Plain name) (solid : tree.Solid place) (here : tree.entry? (name :: place) = some entry)
      (noLink : ∀ target, entry ≠ .link target) (later : Goes tree n (name :: place) rest final) :
      Goes tree n place (name :: rest) final
  | follow {m n : Nat} {place middle final : Place} {name : Name} {rest : List Name} {target : Bytes}
      (plain : Plain name) (solid : tree.Solid place)
      (here : tree.entry? (name :: place) = some (.link target)) (lower : m < n)
      (inside : Goes tree m (startOf target place) (pieces target) middle)
      (later : Goes tree n middle rest final) : Goes tree n place (name :: rest) final

namespace Goes

theorem mono (goes : tree.Goes m place names final) (le : m ≤ n) : tree.Goes n place names final := by
  induction goes with
  | done => exact .done
  | stay idle _ ih => exact .stay idle (ih le)
  | up _ ih => exact .up (ih le)
  | enter plain solid here noLink _ ih => exact .enter plain solid here noLink (ih le)
  | follow plain solid here lower inside _ _ ih =>
    exact .follow plain solid here (Nat.lt_of_lt_of_le lower le) inside (ih le)

theorem stay_inv (idle : staysHere name = true) (goes : tree.Goes n place (name :: rest) final) :
    tree.Goes n place rest final := by
  cases goes with
  | stay _ later => exact later
  | up => exact absurd idle (by decide)
  | enter plain => rw [plain.moves] at idle; cases idle
  | follow plain => rw [plain.moves] at idle; cases idle

theorem split (goes : tree.Goes n place (names ++ more) final) :
    ∃ middle, tree.Goes n place names middle ∧ tree.Goes n middle more final := by
  induction names generalizing place with
  | nil => exact ⟨place, .done, goes⟩
  | cons name rest ih =>
    rw [List.cons_append] at goes
    cases goes with
    | stay idle later =>
      obtain ⟨middle, first, second⟩ := ih later
      exact ⟨middle, .stay idle first, second⟩
    | up later =>
      obtain ⟨middle, first, second⟩ := ih later
      exact ⟨middle, .up first, second⟩
    | enter plain solid here noLink later =>
      obtain ⟨middle, first, second⟩ := ih later
      exact ⟨middle, .enter plain solid here noLink first, second⟩
    | follow plain solid here lower inside later =>
      obtain ⟨middle, first, second⟩ := ih later
      exact ⟨middle, .follow plain solid here lower inside first, second⟩

/-- Names lead to one place only. -/
theorem unique (first : tree.Goes n place names middle) (second : tree.Goes m place names final) :
    middle = final := by
  induction first generalizing m final with
  | done =>
    cases second
    rfl
  | stay idle _ ih => exact ih (second.stay_inv idle)
  | up _ ih =>
    cases second with
    | stay idle => exact absurd idle (by decide)
    | up later => exact ih later
    | enter plain => exact absurd rfl plain.notAbove
    | follow plain => exact absurd rfl plain.notAbove
  | enter plain _ here noLink _ ih =>
    cases second with
    | stay idle =>
      rw [plain.moves] at idle
      cases idle
    | up => exact absurd rfl plain.notAbove
    | enter _ _ _ _ later => exact ih later
    | follow _ _ link =>
      rw [here] at link
      exact absurd (Option.some.inj link) (noLink _)
  | follow plain _ here _ _ _ ihInside ih =>
    cases second with
    | stay idle =>
      rw [plain.moves] at idle
      cases idle
    | up => exact absurd rfl plain.notAbove
    | enter _ _ other noLink =>
      rw [here] at other
      exact absurd (Option.some.inj other).symm (noLink _)
    | follow _ _ link _ inside later =>
      rw [here] at link
      cases link
      obtain rfl := ihInside inside
      exact ih later

/-- What leads on alike leads on alike behind one more name. -/
theorem cons_congr (alike : ∀ place, tree.Goes n place rest final → tree.Goes n place more final)
    (goes : tree.Goes n place (name :: rest) final) : tree.Goes n place (name :: more) final := by
  cases goes with
  | stay idle later => exact .stay idle (alike _ later)
  | up later => exact .up (alike _ later)
  | enter plain solid here noLink later => exact .enter plain solid here noLink (alike _ later)
  | follow plain solid here lower inside later =>
    exact .follow plain solid here lower inside (alike _ later)

end Goes

/-- The names that do not stay where they are. -/
def moving (names : List Name) : List Name := names.filter fun name => !staysHere name

theorem moving_cons_stay (idle : staysHere name = true) : moving (name :: rest) = moving rest :=
  List.filter_cons_of_neg (by simp [idle])

theorem moving_cons (moves : staysHere name = false) : moving (name :: rest) = name :: moving rest :=
  List.filter_cons_of_pos (by simp [moves])

theorem goes_moving_iff : tree.Goes n place (moving names) final ↔ tree.Goes n place names final := by
  induction names generalizing place with
  | nil => exact Iff.rfl
  | cons name rest ih =>
    cases idle : staysHere name with
    | true =>
      rw [moving_cons_stay idle, ih]
      exact ⟨.stay idle, Goes.stay_inv idle⟩
    | false =>
      rw [moving_cons idle]
      exact ⟨Goes.cons_congr fun _ => ih.mp, Goes.cons_congr fun _ => ih.mpr⟩

theorem moving_filled (names : List Name) :
    moving (names.filter fun name => !name.isEmpty) = moving names := by
  rw [moving, moving, List.filter_filter]
  refine List.filter_congr fun name _ => ?_
  cases empty : name.isEmpty <;> simp [staysHere, empty]

theorem moving_namesOf (path : Bytes) : moving (namesOf path) = moving (pieces path) := by
  unfold namesOf
  dsimp only
  split
  · rw [moving, List.filter_append, ← moving, moving_filled]
    exact List.append_nil _
  · exact moving_filled _

theorem goes_namesOf_iff {path : Bytes} :
    tree.Goes n place (namesOf path) final ↔ tree.Goes n place (pieces path) final := by
  rw [← goes_moving_iff, moving_namesOf, goes_moving_iff]

theorem goes_filled_iff : tree.Goes n place (names.filter fun name => !name.isEmpty) final ↔
    tree.Goes n place names final := by
  rw [← goes_moving_iff, moving_filled, goes_moving_iff]

theorem free_of_mem_namesOf {path : Bytes} (member : name ∈ namesOf path) : slash ∉ name := by
  have free : ∀ name ∈ (pieces path).filter fun name => !name.isEmpty, slash ∉ name := by
    intro name member
    have member := (List.mem_filter.mp member).1
    rw [pieces_eq_splitOn] at member
    exact free_of_mem_splitOn member
  unfold namesOf at member
  dsimp only at member
  split at member
  · rcases List.mem_append.mp member with member | member
    · exact free name member
    · obtain rfl := List.mem_singleton.mp member
      exact List.not_mem_nil
  · exact free name member

/-! ### What a walk finds -/

/-- A regular file with directories all the way around it. -/
def Regular (tree : FileTree) : Place → Prop
  | [] => False
  | name :: around =>
    Plain name ∧ (∃ content, tree.entry? (name :: around) = some (.file content)) ∧ tree.Solid around

theorem Regular.plain (regular : tree.Regular place) : ∀ name ∈ place, Plain name := by
  cases place with
  | nil => exact regular.elim
  | cons => exact List.forall_mem_cons.mpr ⟨regular.1, regular.2.2.plain⟩

theorem Regular.not_solid (regular : tree.Regular place) : ¬ tree.Solid place := by
  intro solid
  cases place with
  | nil => exact regular
  | cons =>
    obtain ⟨-, ⟨content, file⟩, -⟩ := regular
    rw [solid.entry] at file
    cases file

theorem solid_tail (stands : tree.Solid place ∨ tree.Regular place) : tree.Solid place.tail := by
  rcases stands with solid | regular
  · exact solid.tail
  · cases place with
    | nil => exact regular.elim
    | cons => exact regular.2.2

theorem startOf_solid (solid : tree.Solid place) (target : Bytes) :
    tree.Solid (startOf target place) := by
  unfold startOf
  split
  · exact trivial
  · exact solid

theorem Goes.stands (goes : tree.Goes n place names final)
    (stands : tree.Solid place ∨ tree.Regular place) : tree.Solid final ∨ tree.Regular final := by
  induction goes with
  | done => exact stands
  | stay _ _ ih => exact ih stands
  | @up _ place _ _ _ ih =>
    exact ih (.inl (solid_tail stands))
  | @enter _ _ _ _ _ entry plain solid here noLink _ ih =>
    refine ih ?_
    match entry with
    | .directory => exact .inl ⟨plain, here, solid⟩
    | .file content => exact .inr ⟨plain, ⟨content, here⟩, solid⟩
    | .link target => exact absurd rfl (noLink target)
  | follow _ solid _ _ _ _ ihInside ih => exact ih (ihInside (.inl (startOf_solid solid _)))

/-- Where a walk through links ends, its names lead, and what it finds stands there. -/
theorem goes_of_walk {entry : Entry} (found : tree.walk true links place names = .ok (.found final entry))
    (solid : tree.Solid place) (free : ∀ name ∈ names, slash ∉ name) :
    (∃ n, tree.Goes n place names final) ∧ tree.entry? final = some entry := by
  fun_induction FileTree.walk tree true links place names with
  | case1 =>
    cases found
    exact ⟨⟨0, .done⟩, solid.entry⟩
  | case2 links place name rest idle ih =>
    obtain ⟨⟨n, goes⟩, here⟩ := ih found solid fun other member => free other (List.mem_cons_of_mem _ member)
    exact ⟨⟨n, .stay idle goes⟩, here⟩
  | case3 links place rest moves ih =>
    obtain ⟨⟨n, goes⟩, here⟩ := ih found solid.tail fun other member =>
      free other (List.mem_cons_of_mem _ member)
    exact ⟨⟨n, .up goes⟩, here⟩
  | case4 => cases found
  | case5 => cases found
  | case6 => cases found
  | case7 links place name rest moves other short directory ih =>
    have plain := Sought.plain ⟨moves, other, short⟩ (free name List.mem_cons_self)
    obtain ⟨⟨n, goes⟩, here⟩ := ih found ⟨plain, directory, solid⟩ fun other member =>
      free other (List.mem_cons_of_mem _ member)
    exact ⟨⟨n, .enter plain solid directory nofun goes⟩, here⟩
  | case8 links place name rest moves other short content file ended =>
    have plain := Sought.plain ⟨moves, other, short⟩ (free name List.mem_cons_self)
    cases found
    obtain rfl := List.isEmpty_iff.mp ended
    exact ⟨⟨0, .enter plain solid file nofun .done⟩, file⟩
  | case9 => cases found
  | case10 links place name rest moves other short target link kept => simp at kept
  | case11 => cases found
  | case12 place name rest moves other short target link followed links start ih =>
    have plain := Sought.plain ⟨moves, other, short⟩ (free name List.mem_cons_self)
    obtain ⟨⟨n, goes⟩, here⟩ := ih found (startOf_solid solid target) fun other member => by
      rcases List.mem_append.mp member with member | member
      · exact free_of_mem_namesOf member
      · exact free other (List.mem_cons_of_mem _ member)
    obtain ⟨middle, inside, later⟩ := goes.split
    exact ⟨⟨n + 1, .follow plain solid link (Nat.lt_succ_self n) (goes_namesOf_iff.mp inside)
      (later.mono (Nat.le_succ n))⟩, here⟩

/-- A file that a walk finds from the root is one with directories all the way around it. -/
theorem regular_of_walk {content : Bytes}
    (found : tree.walk true links [] names = .ok (.found final (.file content)))
    (free : ∀ name ∈ names, slash ∉ name) :
    (∃ n, tree.Goes n [] names final) ∧ tree.Regular final := by
  obtain ⟨⟨n, goes⟩, file⟩ := goes_of_walk found trivial free
  refine ⟨⟨n, goes⟩, (goes.stands (.inl trivial)).resolve_left fun solid => ?_⟩
  rw [solid.entry] at file
  cases file

/-- Going up at the end leads to no file. -/
theorem Regular.not_above (regular : tree.Regular final)
    (goes : tree.Goes n [] (names ++ [above]) final) : False := by
  obtain ⟨middle, first, second⟩ := goes.split
  have stands := first.stands (.inl trivial)
  cases second with
  | stay idle => exact absurd idle (by decide)
  | enter plain => exact plain.notAbove rfl
  | follow plain => exact plain.notAbove rfl
  | up later =>
    cases later
    exact regular.not_solid (solid_tail stands)

end FileTree

end LuaLink
