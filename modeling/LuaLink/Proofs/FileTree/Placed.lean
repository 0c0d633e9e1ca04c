import Mathlib.Data.List.Infix
import LuaLink.Proofs.FileTree
import LuaLink.Proofs.Graph.Access

/-! A tree put into a directory, and the walks in it. -/

namespace LuaLink

namespace FileTree

variable {tree : FileTree} {last : Bool} {links : Nat} {root place final : Place} {name : Name}
  {names : List Name}

/-- A tree put into a directory.  Around it there are no other entries than the directories that lead
there. -/
def placed (tree : FileTree) (root : Place) : FileTree where
  entries := root.tails.map (·, Entry.directory) ++ tree.entries.map fun e => (e.1 ++ root, e.2)

theorem lookup_directory {places : List Place} (member : place ∈ places) :
    (places.map (·, Entry.directory)).lookup place = some .directory := by
  induction places with
  | nil => cases member
  | cons first rest ih =>
    rw [List.map_cons, List.lookup_cons]
    by_cases same : place = first
    · subst same
      rw [beq_self_eq_true]
    · rw [beq_eq_false_iff_ne.mpr same]
      exact ih ((List.mem_cons.mp member).resolve_left same)

theorem entry?_around (around : place <:+ root) :
    FileTree.entry? (tree.placed root) place = some .directory := by
  cases place with
  | nil => rfl
  | cons name outer =>
    show List.lookup _ (_ ++ _) = _
    rw [List.lookup_append, lookup_directory ((List.mem_tails _ _).mpr around)]
    rfl

theorem entry?_placed (tree : FileTree) (root place : Place) :
    FileTree.entry? (tree.placed root) (place ++ root) = tree.entry? place := by
  cases place with
  | nil => exact entry?_around List.suffix_rfl
  | cons name outer =>
    have deeper : (root.tails.map (·, Entry.directory)).lookup (name :: outer ++ root) = none := by
      rw [List.lookup_eq_none_iff]
      intro around listed
      obtain ⟨place, tail, rfl⟩ := List.mem_map.mp listed
      rw [bne_iff_ne]
      rintro rfl
      have shorter := ((List.mem_tails _ _).mp tail).length_le
      rw [List.length_append, List.length_cons] at shorter
      omega
    show List.lookup _ (_ ++ _) = List.lookup _ _
    rw [List.lookup_append, deeper, Option.none_or]
    have apart : ∀ e ∈ tree.entries, e.1 ++ root = name :: outer ++ root → e.1 = name :: outer :=
      fun _ _ => List.append_cancel_right
    exact @lookup_rename _ _ _ _ _ _ _ (· ++ root) _ _ apart

theorem solid_placed (plain : ∀ name ∈ root, Plain name) : (tree.placed root).Solid root := by
  have all : ∀ place, place <:+ root → (tree.placed root).Solid place := by
    intro place around
    induction place with
    | nil => exact trivial
    | cons name outer ih =>
      exact ⟨plain name (around.subset List.mem_cons_self), entry?_around around,
        ih ((List.suffix_cons name outer).trans around)⟩
  exact all root List.suffix_rfl

theorem Solid.append (solid : tree.Solid place) (plain : ∀ name ∈ root, Plain name) :
    (tree.placed root).Solid (place ++ root) := by
  induction place with
  | nil => exact solid_placed plain
  | cons name outer ih =>
    obtain ⟨here, directory, around⟩ := solid
    exact ⟨here, (entry?_placed tree root (name :: outer)).trans directory, ih around⟩

theorem Regular.append (regular : tree.Regular place) (plain : ∀ name ∈ root, Plain name) :
    (tree.placed root).Regular (place ++ root) := by
  cases place with
  | nil => exact regular.elim
  | cons name outer =>
    obtain ⟨here, ⟨content, file⟩, around⟩ := regular
    exact ⟨here, ⟨content, (entry?_placed tree root (name :: outer)).trans file⟩, around.append plain⟩

theorem links_placed (linkless : tree.links = []) : (tree.placed root).links = [] := by
  rw [links, List.filterMap_eq_nil_iff] at linkless ⊢
  rintro ⟨place, entry⟩ listed
  rcases List.mem_append.mp listed with around | inside
  · obtain ⟨_, -, same⟩ := List.mem_map.mp around
    cases same
    rfl
  · obtain ⟨⟨inner, entry⟩, listed, same⟩ := List.mem_map.mp inside
    have none := linkless (inner, entry) listed
    cases same
    cases entry with
    | link => cases none
    | directory => rfl
    | file => rfl

/-- Where a path leads that is followed below a directory. -/
def Landing.below (root : Place) : Landing → Landing
  | .found place entry => .found (place ++ root) entry
  | .free directory name => .free (directory ++ root) name

/-- In a directory a path that does not go up leads to what it leads to in the tree. -/
theorem walk_placed (linkless : tree.links = []) (down : above ∉ names) (place : Place) :
    (tree.placed root).walk last links (place ++ root) names =
      (tree.walk last links place names).map (Landing.below root) := by
  induction names generalizing place with
  | nil =>
    rw [walk_nil, walk_nil]
    rfl
  | cons name rest ih =>
    have later := ih fun member => down (List.mem_cons_of_mem name member)
    have other : name ≠ above := fun same => down (same ▸ List.mem_cons_self)
    cases idle : staysHere name with
    | true => rw [walk_stay idle, walk_stay idle, later]
    | false =>
      have moves : ¬ staysHere name = true := by simp [idle]
      by_cases long : maxName < name.length
      · rw [walk_long moves other long, walk_long moves other long]
        rfl
      have sought : Sought name := ⟨moves, other, long⟩
      have here := entry?_placed tree root (name :: place)
      rw [List.cons_append] at here
      cases found : tree.entry? (name :: place) with
      | none =>
        rw [found] at here
        by_cases ended : rest.isEmpty = true
        · rw [walk_free sought here ended, walk_free sought found ended]
          rfl
        · rw [walk_missing sought here ended, walk_missing sought found ended]
          rfl
      | some entry =>
        rw [found] at here
        cases entry with
        | directory =>
          rw [walk_directory sought here, walk_directory sought found]
          exact later (name :: place)
        | file content =>
          by_cases ended : rest.isEmpty = true
          · rw [walk_file sought here ended, walk_file sought found ended]
            rfl
          · rw [walk_notDirectory sought here ended, walk_notDirectory sought found ended]
            rfl
        | link target => exact absurd found (not_link linkless)

end FileTree

end LuaLink
