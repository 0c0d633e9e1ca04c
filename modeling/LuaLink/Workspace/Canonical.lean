import LuaLink.Workspace

/-! Canonical paths: absolute, in normal form, and with every symbolic link along the way replaced by
where it leads.  Names behind which nothing stands are kept.  A link that leads back to itself cannot
be replaced; its path and what follows it stay as they are. -/

namespace LuaLink.Workspace

/-- The absolute path of names, the last one first. -/
def pathOf (names : List Text) : Text := "/" ++ Text.join "/" names.reverse

/-- Links, each with the names to which it leads, the last one first. -/
abbrev Replacements := List (Place × List Text)

/-- What replacing links came to: all of them were replaced, and `names` lead to the end, the last one
first; or one leads back to itself, and `path` is what could be said. -/
inductive Trail where
  | settled (names : List Text) (known : Replacements)
  | circular (path : Text)

/-- The link that a path leads to, if it leads to one. -/
def link? (ws : Workspace) (path : Text) : Except NameFault (Option (Place × Text)) :=
  match ws.locate false path with
  | .ok (.found place (.link target)) => .ok (some (place, Utf8.decodeName target))
  | .error (.name fault) => .error fault
  | _ => .ok none

theorem length_erase_lt_of_mem {place : Place} {links : List Place} (h : place ∈ links) :
    (links.erase place).length < links.length := by
  have positive := List.length_pos_of_mem h
  rw [List.length_erase_of_mem h]
  omega

/-- Takes in the names of a path one by one, from where `names` lead.  While a link is being replaced
it is not among the `links` that may be followed, so meeting it again shows that it is circular.  A link
that was replaced before is `known`, and is not followed again. -/
def settle (ws : Workspace) (links : List Place) (known : Replacements) (names : List Text) :
    List Text → Except NameFault Trail
  | [] => .ok (.settled names known)
  | name :: rest =>
    if name.isEmpty || name = Text.ofString "." then ws.settle links known names rest
    else if name = Text.ofString ".." then ws.settle links known names.tail rest
    else
      match ws.link? (pathOf (name :: names)) with
      | .error fault => .error fault
      | .ok none => ws.settle links known (name :: names) rest
      | .ok (some (place, target)) =>
        match known.lookup place with
        | some led => ws.settle links known led rest
        | none =>
          if _open : place ∈ links then
            let (start, way) := if Path.isAbsolute target then ([], target.tail) else (names, target)
            match ws.settle (links.erase place) known start (Text.split Path.separator way) with
            | .error fault => .error fault
            | .ok (.settled led known) => ws.settle links ((place, led) :: known) led rest
            | .ok (.circular path) => .ok (.circular (Path.join path (Text.join "/" rest)))
          else .ok (.circular (Path.join (pathOf (name :: names)) (Text.join "/" rest)))
termination_by pieces => (links.length, pieces.length)
decreasing_by
  · exact Prod.Lex.right _ (Nat.lt_add_one _)
  · exact Prod.Lex.right _ (Nat.lt_add_one _)
  · exact Prod.Lex.right _ (Nat.lt_add_one _)
  · exact Prod.Lex.right _ (Nat.lt_add_one _)
  · exact Prod.Lex.left _ _ (length_erase_lt_of_mem _open)
  · exact Prod.Lex.right _ (Nat.lt_add_one _)

def canonical (ws : Workspace) (path : Text) : Except NameFault Text := do
  match ← ws.settle ws.tree.links [] [] (Text.split Path.separator (ws.absolute path).tail) with
  | .settled names _ => return Path.normalize (pathOf names)
  | .circular path => return ws.absolute path

end LuaLink.Workspace
