import LuaLink.Proofs.FileTree

/-! One file put into a tree.  A walk passes through directories only, so one that ends at another place
ends there as before, and a file is put at the same place again. -/

namespace LuaLink.FileTree

variable {tree tree' : FileTree} {last : Bool} {links : Nat} {place other start final : Place}
  {name : Name} {names rest : List Name} {node : Entry} {content : Bytes}

/-! ### Entries -/

theorem entry?_insert (inside : place ≠ []) :
    FileTree.entry? (tree.insert place node) place = some node := by
  cases place with
  | nil => exact absurd rfl inside
  | cons => exact List.lookup_cons_self

theorem entry?_insert_ne (apart : other ≠ place) :
    FileTree.entry? (tree.insert place node) other = tree.entry? other := by
  cases other with
  | nil => rfl
  | cons name around =>
    have kept : ∀ entries : List (Place × Entry),
        (entries.filter fun e => e.1 ≠ place).lookup (name :: around) = entries.lookup (name :: around) := by
      intro entries
      induction entries with
      | nil => rfl
      | cons e rest ih =>
        by_cases same : e.1 = place
        · rw [List.filter_cons_of_neg (by simpa using same), ih, List.lookup_cons,
            beq_eq_false_iff_ne.mpr (same ▸ apart)]
        · rw [List.filter_cons_of_pos (by simpa using same), List.lookup_cons, List.lookup_cons, ih]
    show List.lookup _ ((place, node) :: _) = List.lookup _ _
    rw [List.lookup_cons, beq_eq_false_iff_ne.mpr apart]
    exact kept tree.entries

theorem insert_insert (tree : FileTree) (place : Place) (node node' : Entry) :
    (tree.insert place node).insert place node' = tree.insert place node' := by
  unfold insert
  rw [List.filter_cons_of_neg (by simp), List.filter_filter]
  simp only [Bool.and_self]

theorem links_insert_file (linkless : tree.links = []) :
    (tree.insert place (.file content)).links = [] := by
  rw [FileTree.links, List.filterMap_eq_nil_iff] at linkless ⊢
  exact List.forall_mem_cons.mpr ⟨rfl, fun e member => linkless e (List.mem_filter.mp member).1⟩

theorem namesIn_cons (name : Name) (outer around : Place) (node : Entry)
    (entries : List (Place × Entry)) : namesIn ⟨(name :: outer, node) :: entries⟩ around =
      if outer = around then name :: namesIn ⟨entries⟩ around else namesIn ⟨entries⟩ around := by
  unfold namesIn
  rw [List.filterMap_cons]
  by_cases here : outer = around <;> simp [here]

/-- Putting in an entry changes no other name in a directory. -/
theorem namesIn_insert (tree : FileTree) (place around : Place) (node : Entry) :
    ((tree.insert place node).namesIn around).filter (fun name => name :: around ≠ place) =
      (tree.namesIn around).filter fun name => name :: around ≠ place := by
  have dropped : ∀ node (entries : List (Place × Entry)),
      (namesIn ⟨(place, node) :: entries⟩ around).filter (fun name => name :: around ≠ place) =
        (namesIn ⟨entries⟩ around).filter fun name => name :: around ≠ place := by
    intro node entries
    cases place with
    | nil => rfl
    | cons name outer =>
      rw [namesIn_cons]
      split
      · rename_i here
        rw [List.filter_cons_of_neg (by simp [here])]
      · rfl
  rw [insert, dropped]
  obtain ⟨entries⟩ := tree
  induction entries with
  | nil => rfl
  | cons e rest ih =>
    obtain ⟨other, kept⟩ := e
    by_cases changed : other = place
    · subst changed
      rw [List.filter_cons_of_neg (by simp), dropped]
      exact ih
    · rw [List.filter_cons_of_pos (by simpa using changed)]
      cases other with
      | nil => exact ih
      | cons name outer =>
        rw [namesIn_cons, namesIn_cons]
        split
        · rw [List.filter_cons, List.filter_cons, ih]
        · exact ih

/-! ### Places for files -/

/-- At a place there is a file or nothing at all. -/
def Leaf (tree : FileTree) (place : Place) : Prop :=
  ∀ node, tree.entry? place = some node → ∃ content, node = .file content

theorem writable_leaf (leaf : tree.Leaf (name :: start)) (moves : ¬ staysHere name = true)
    (up : ¬ name = above) (short : ¬ maxName < name.length) :
    tree.writable links start [name] = .ok (name :: start) := by
  rw [writable, if_neg moves, if_neg up, if_neg (by simp), if_neg short]
  cases here : tree.entry? (name :: start) with
  | none => rfl
  | some node =>
    obtain ⟨content, rfl⟩ := leaf node here
    rfl

/-! ### Trees that keep what stands in another one -/

/-- What stands in the first tree stands in the other one, but for a file at one place. -/
structure KeptBut (place : Place) (tree tree' : FileTree) : Prop where
  other : ∀ other node, other ≠ place → tree.entry? other = some node → tree'.entry? other = some node
  leaf : tree.Leaf place

theorem keptBut_insert (leaf : tree.Leaf place) (node : Entry) :
    KeptBut place tree (tree.insert place node) where
  other _ _ apart here := (entry?_insert_ne apart).trans here
  leaf := leaf

namespace KeptBut

/-- What is no file is kept. -/
theorem entry (kept : KeptBut place tree tree') (here : tree.entry? other = some node)
    (noFile : ∀ content, node ≠ .file content) : tree'.entry? other = some node := by
  refine kept.other other node ?_ here
  rintro rfl
  obtain ⟨content, file⟩ := kept.leaf node here
  exact noFile content file

theorem directory (kept : KeptBut place tree tree') (here : tree.entry? other = some .directory) :
    tree'.entry? other = some .directory :=
  kept.entry here (by simp)

theorem link {target : Bytes} (kept : KeptBut place tree tree')
    (here : tree.entry? other = some (.link target)) : tree'.entry? other = some (.link target) :=
  kept.entry here (by simp)

/-- A walk ends where it does in the other tree.  What it finds there is the same, or else a file. -/
theorem walk (kept : KeptBut place tree tree')
    (found : tree.walk last links start names = .ok (.found final node)) :
    tree'.walk last links start names = .ok (.found final node) ∨
      final = place ∧ ∀ content, tree'.entry? place = some (.file content) →
        tree'.walk last links start names = .ok (.found final (.file content)) := by
  -- Directories and links are the same in both trees, so only the file at the end may be another.
  fun_induction FileTree.walk tree last links start names with
  | case1 => exact .inl (walk_nil.trans found)
  | case2 links start name rest idle ih =>
    rw [walk_stay idle]
    exact ih found
  | case3 links start rest moves ih =>
    rw [walk_above]
    exact ih found
  | case4 => cases found
  | case5 => cases found
  | case6 => cases found
  | case7 links start name rest moves up short here ih =>
    rw [walk_directory ⟨moves, up, short⟩ (kept.directory here)]
    exact ih found
  | case8 links start name rest moves up short content here ended =>
    cases found
    by_cases changed : name :: start = place
    · exact .inr ⟨changed, fun content' here' =>
        walk_file ⟨moves, up, short⟩ (changed ▸ here') ended⟩
    · exact .inl (walk_file ⟨moves, up, short⟩ (kept.other _ _ changed here) ended)
  | case9 => cases found
  | case10 links start name rest moves up short target here last =>
    cases found
    exact .inl (walk_link ⟨moves, up, short⟩ (kept.link here) last)
  | case11 => cases found
  | case12 start name rest moves up short target here followed links start' ih =>
    rw [walk_follow ⟨moves, up, short⟩ (kept.link here) followed]
    exact ih found

end KeptBut

/-- A file is written where there is a file or nothing, and not to the root. -/
theorem leaf_of_writable (free : tree.writable links start names = .ok place) :
    tree.Leaf place ∧ place ≠ [] := by
  fun_induction FileTree.writable tree links start names with
  | case1 => cases free
  | case2 links start name rest idle ih => exact ih free
  | case3 links start rest moves ih => exact ih free
  | case4 => cases free
  | case5 => cases free
  | case6 links start name rest moves up more short here ended =>
    cases free
    refine ⟨fun node there => ?_, List.cons_ne_nil _ _⟩
    rw [here] at there
    cases there
  | case7 => cases free
  | case8 links start name rest moves up more short here ih => exact ih free
  | case9 links start name rest moves up more short content here ended =>
    cases free
    refine ⟨fun node there => ?_, List.cons_ne_nil _ _⟩
    rw [here] at there
    exact ⟨content, (Option.some.inj there).symm⟩
  | case10 => cases free
  | case11 => cases free
  | case12 start name rest moves up more short target here links start' ih => exact ih free

/-- The path to which a file was written leads to that file. -/
theorem walk_of_writable (kept : KeptBut place tree tree') (there : tree'.entry? place = some (.file content))
    (free : tree.writable links start names = .ok place) :
    tree'.walk true links start names = .ok (.found place (.file content)) := by
  fun_induction FileTree.writable tree links start names with
  | case1 => cases free
  | case2 links start name rest idle ih =>
    rw [walk_stay idle]
    exact ih free
  | case3 links start rest moves ih =>
    rw [walk_above]
    exact ih free
  | case4 => cases free
  | case5 => cases free
  | case6 links start name rest moves up more short here ended =>
    cases free
    exact walk_file ⟨moves, up, short⟩ there ended
  | case7 => cases free
  | case8 links start name rest moves up more short here ih =>
    rw [walk_directory ⟨moves, up, short⟩ (kept.directory here)]
    exact ih free
  | case9 links start name rest moves up more short content here ended =>
    cases free
    exact walk_file ⟨moves, up, short⟩ there ended
  | case10 => cases free
  | case11 => cases free
  | case12 start name rest moves up more short target here links start' ih =>
    rw [walk_follow ⟨moves, up, short⟩ (kept.link here) (by simp)]
    exact ih free

/-- Nothing stands under a name that a walk finds free. -/
theorem free_of_walk {around : Place} (free : tree.walk last links start names = .ok (.free around name)) :
    tree.entry? (name :: around) = none := by
  fun_induction FileTree.walk tree last links start names with
  | case1 => cases free
  | case2 links start other rest idle ih => exact ih free
  | case3 links start rest moves ih => exact ih free
  | case4 => cases free
  | case5 links start other rest moves up short here ended =>
    cases free
    exact here
  | case6 => cases free
  | case7 links start other rest moves up short here ih => exact ih free
  | case8 => cases free
  | case9 => cases free
  | case10 => cases free
  | case11 => cases free
  | case12 start other rest moves up short target here followed links start' ih => exact ih free

/-! ### Trees that are the same but for one file -/

/-- The trees differ at most at one place, and neither has more than a file there. -/
structure SameBut (place : Place) (tree tree' : FileTree) : Prop where
  other : ∀ other, other ≠ place → tree'.entry? other = tree.entry? other
  leaf : tree.Leaf place
  leaf' : tree'.Leaf place

theorem sameBut_insert (inside : place ≠ []) (leaf : tree.Leaf place) (content : Bytes) :
    SameBut place tree (tree.insert place (.file content)) where
  other _ := entry?_insert_ne
  leaf := leaf
  leaf' node here := by
    rw [entry?_insert inside] at here
    exact ⟨content, (Option.some.inj here).symm⟩

namespace SameBut

theorem symm (same : SameBut place tree tree') : SameBut place tree' tree :=
  ⟨fun other apart => (same.other other apart).symm, same.leaf', same.leaf⟩

theorem kept (same : SameBut place tree tree') : KeptBut place tree tree' :=
  ⟨fun other _ apart here => (same.other other apart).trans here, same.leaf⟩

theorem solid (same : SameBut place tree tree') (solid : tree.Solid other) : tree'.Solid other := by
  induction other with
  | nil => trivial
  | cons name around ih =>
    obtain ⟨plain, directory, outer⟩ := solid
    exact ⟨plain, same.kept.directory directory, ih outer⟩

/-- A file can be written to a place in both trees. -/
theorem writable (same : SameBut place tree tree')
    (free : tree.writable links start names = .ok place) :
    tree'.writable links start names = .ok place := by
  -- Whether a file or nothing is found at the end, one may be written there.
  fun_induction FileTree.writable tree links start names with
  | case1 => cases free
  | case2 links start name rest idle ih =>
    rw [FileTree.writable, if_pos idle]
    exact ih free
  | case3 links start rest moves ih =>
    rw [FileTree.writable, if_neg moves, if_pos rfl]
    exact ih free
  | case4 => cases free
  | case5 => cases free
  | case6 links start name rest moves up more short here ended =>
    cases free
    obtain rfl := List.isEmpty_iff.mp ended
    exact writable_leaf same.leaf' moves up short
  | case7 => cases free
  | case8 links start name rest moves up more short here ih =>
    rw [FileTree.writable, if_neg moves, if_neg up, if_neg more, if_neg short, same.kept.directory here]
    exact ih free
  | case9 links start name rest moves up more short content here ended =>
    cases free
    obtain rfl := List.isEmpty_iff.mp ended
    exact writable_leaf same.leaf' moves up short
  | case10 => cases free
  | case11 => cases free
  | case12 start name rest moves up more short target here links start' ih =>
    rw [FileTree.writable, if_neg moves, if_neg up, if_neg more, if_neg short, same.kept.link here]
    exact ih free

end SameBut

/-! ### The last name -/

/-- The last of the names is that of the entry at a place. -/
def EndAt (names : List Name) (place : Place) : Prop :=
  ∃ front name around, names = front ++ [name] ∧ place = name :: around ∧
    staysHere name = false ∧ name ≠ above

theorem endAt_single (moves : ¬ staysHere name = true) (up : ¬ name = above) (ended : rest.isEmpty = true) :
    EndAt (name :: rest) (name :: start) := by
  obtain rfl := List.isEmpty_iff.mp ended
  exact ⟨[], name, start, rfl, rfl, Bool.not_eq_true _ ▸ moves, up⟩

theorem EndAt.cons (ends : EndAt names place) (name : Name) : EndAt (name :: names) place := by
  obtain ⟨front, last, around, rfl, whole⟩ := ends
  exact ⟨name :: front, last, around, rfl, whole⟩

/-- Behind the last name there is no slash. -/
theorem EndAt.namesOf_eq {path : Bytes} (ends : EndAt (namesOf path) place) :
    namesOf path = (pieces path).filter fun name => !name.isEmpty := by
  obtain ⟨front, name, around, whole, rfl, moves, -⟩ := ends
  unfold namesOf at whole ⊢
  dsimp only at whole ⊢
  split at whole
  · obtain ⟨-, same⟩ := List.append_inj' whole rfl
    obtain rfl := List.singleton_inj.mp same
    cases moves
  · rename_i noSlash
    rw [if_neg noSlash]

/-- Without links a file is found under the last name. -/
theorem endAt_of_walk (linkless : tree.links = [])
    (found : tree.walk last links start names = .ok (.found final (.file content))) :
    EndAt names final := by
  fun_induction FileTree.walk tree last links start names with
  | case1 => cases found
  | case2 links start name rest idle ih => exact (ih found).cons name
  | case3 links start rest moves ih => exact (ih found).cons above
  | case4 => cases found
  | case5 => cases found
  | case6 => cases found
  | case7 links start name rest moves up short here ih => exact (ih found).cons name
  | case8 links start name rest moves up short content here ended =>
    cases found
    exact endAt_single moves up ended
  | case9 => cases found
  | case10 => cases found
  | case11 => cases found
  | case12 start name rest moves up short target here => exact absurd here (not_link linkless)

/-- Without links a file is written under the last name. -/
theorem endAt_of_writable (linkless : tree.links = [])
    (free : tree.writable links start names = .ok place) : EndAt names place := by
  fun_induction FileTree.writable tree links start names with
  | case1 => cases free
  | case2 links start name rest idle ih => exact (ih free).cons name
  | case3 links start rest moves ih => exact (ih free).cons above
  | case4 => cases free
  | case5 => cases free
  | case6 links start name rest moves up more short here ended =>
    cases free
    exact endAt_single moves up ended
  | case7 => cases free
  | case8 links start name rest moves up more short here ih => exact (ih free).cons name
  | case9 links start name rest moves up more short content here ended =>
    cases free
    exact endAt_single moves up ended
  | case10 => cases free
  | case11 start name rest moves up more short target here => exact absurd here (not_link linkless)
  | case12 start name rest moves up more short target here => exact absurd here (not_link linkless)

/-- Without links names that all move lead down to the place that they make up. -/
theorem final_of_walk (linkless : tree.links = [])
    (down : ∀ name ∈ names, staysHere name = false ∧ name ≠ above)
    (found : tree.walk last links start names = .ok (.found final node)) :
    final = names.reverse ++ start := by
  fun_induction FileTree.walk tree last links start names with
  | case1 =>
    cases found
    rfl
  | case2 links start name rest idle =>
    rw [(down name List.mem_cons_self).1] at idle
    cases idle
  | case3 => exact absurd rfl (down above List.mem_cons_self).2
  | case4 => cases found
  | case5 => cases found
  | case6 => cases found
  | case7 links start name rest moves up short here ih =>
    have later := ih (fun other member => down other (List.mem_cons_of_mem name member)) found
    rw [later, List.reverse_cons, List.append_assoc]
    rfl
  | case8 links start name rest moves up short content here ended =>
    cases found
    obtain rfl := List.isEmpty_iff.mp ended
    rfl
  | case9 => cases found
  | case10 links start name rest moves up short target here => exact absurd here (not_link linkless)
  | case11 => cases found
  | case12 start name rest moves up short target here => exact absurd here (not_link linkless)

end LuaLink.FileTree
