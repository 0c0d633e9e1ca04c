import LuaLink.FileTree
import LuaLink.Text

/-! Texts and bytes in pieces between separators.  Both are taken apart as any list is. -/

namespace LuaLink

variable {α : Type} [DecidableEq α] {sep x : α} {xs piece : List α} {parts : List (List α)}

theorem exists_splitOn (sep : α) (xs : List α) : ∃ piece parts, xs.splitOn sep = piece :: parts :=
  List.exists_cons_of_ne_nil (List.splitOn_ne_nil sep xs)

theorem splitOn_cons_self (sep : α) (xs : List α) : (sep :: xs).splitOn sep = [] :: xs.splitOn sep := by
  rw [List.splitOn_cons_eq_if_modifyHead, if_pos (beq_self_eq_true sep)]

theorem splitOn_cons_ne (other : x ≠ sep) (rest : xs.splitOn sep = piece :: parts) :
    (x :: xs).splitOn sep = (x :: piece) :: parts := by
  rw [List.splitOn_cons_eq_if_modifyHead, if_neg (by simpa using other), rest, List.modifyHead_cons]

theorem splitOn_append_free {front : List α} (free : sep ∉ front)
    (rest : xs.splitOn sep = piece :: parts) :
    (front ++ xs).splitOn sep = (front ++ piece) :: parts := by
  induction front with
  | nil => exact rest
  | cons x front ih =>
    have later := ih (List.not_mem_of_not_mem_cons free)
    exact splitOn_cons_ne (List.ne_of_not_mem_cons free).symm later

theorem free_of_mem_splitOn (member : piece ∈ xs.splitOn sep) : sep ∉ piece := by
  induction xs generalizing piece with
  | nil =>
    obtain rfl := List.mem_singleton.mp member
    exact List.not_mem_nil
  | cons x xs ih =>
    by_cases same : x = sep
    · subst same
      rw [splitOn_cons_self] at member
      rcases List.mem_cons.mp member with rfl | member
      · exact List.not_mem_nil
      · exact ih member
    · obtain ⟨first, parts, found⟩ := exists_splitOn sep xs
      rw [splitOn_cons_ne same found] at member
      rw [found] at ih
      rcases List.mem_cons.mp member with rfl | member
      · exact List.not_mem_cons_of_ne_of_not_mem (Ne.symm same) (ih List.mem_cons_self)
      · exact ih (List.mem_cons_of_mem _ member)

theorem sublist_of_mem_splitOn (member : piece ∈ xs.splitOn sep) : piece.Sublist xs := by
  induction xs generalizing piece with
  | nil =>
    obtain rfl := List.mem_singleton.mp member
    exact List.nil_sublist _
  | cons x xs ih =>
    have wider := fun {other} found => List.Sublist.cons x (@ih other found)
    by_cases same : x = sep
    · subst same
      rw [splitOn_cons_self] at member
      rcases List.mem_cons.mp member with rfl | member
      · exact List.nil_sublist _
      · exact wider member
    · obtain ⟨first, parts, found⟩ := exists_splitOn sep xs
      rw [splitOn_cons_ne same found] at member
      rw [found] at ih wider
      rcases List.mem_cons.mp member with rfl | member
      · exact (ih List.mem_cons_self).cons_cons x
      · exact wider (List.mem_cons_of_mem _ member)

/-- The first piece is what the list starts with. -/
theorem prefix_of_splitOn (found : xs.splitOn sep = piece :: parts) : piece <+: xs := by
  have whole : [sep].intercalate (piece :: parts) = xs := found ▸ List.intercalate_splitOn sep
  cases parts with
  | nil => exact ⟨[], by simpa using whole⟩
  | cons => exact ⟨_, by rw [← whole, List.intercalate_cons_cons, List.append_assoc]⟩

theorem intercalate_concat {α : Type} {xs : List (List α)} (some : xs ≠ []) (sep x : List α) :
    sep.intercalate (xs ++ [x]) = sep.intercalate xs ++ sep ++ x := by
  induction xs with
  | nil => exact absurd rfl some
  | cons y rest ih =>
    by_cases last : rest = []
    · subst last
      simp
    · rw [List.cons_append, List.intercalate_cons_of_ne_nil (by simp), ih last,
        List.intercalate_cons_of_ne_nil last]
      simp only [List.append_assoc]

/-- The last piece stands behind all others, each with a separator in front. -/
theorem separated_cons {α : Type} (sep : α) (x : List α) (xs : List (List α)) :
    sep :: [sep].intercalate (x :: xs).reverse =
      (if xs = [] then [sep] else (sep :: [sep].intercalate xs.reverse) ++ [sep]) ++ x := by
  rw [List.reverse_cons]
  split
  · rename_i empty
    subst empty
    simp
  · rename_i some
    rw [intercalate_concat fun none => some (List.reverse_eq_nil_iff.mp none)]
    simp only [List.cons_append, List.append_assoc]

namespace Text

theorem split_eq_splitOn (sep : CodePoint) (t : Text) : split sep t = t.splitOn sep := by
  induction t with
  | nil => rfl
  | cons c rest ih =>
    rw [split, ih]
    by_cases same : c = sep
    · rw [if_pos same, same, splitOn_cons_self]
    · obtain ⟨piece, parts, found⟩ := exists_splitOn sep rest
      rw [if_neg same, splitOn_cons_ne same found, found]

theorem join_eq_intercalate (sep : Text) (parts : List Text) : join sep parts = sep.intercalate parts := by
  induction parts with
  | nil => rfl
  | cons piece rest ih =>
    cases rest with
    | nil => simp [join]
    | cons other rest =>
      show piece ++ sep ++ join sep (other :: rest) = _
      rw [ih, List.intercalate_cons_cons]

end Text

theorem FileTree.pieces_eq_splitOn (bytes : Bytes) : pieces bytes = bytes.splitOn slash := by
  induction bytes with
  | nil => rfl
  | cons b rest ih =>
    rw [pieces, ih]
    by_cases same : b = slash
    · rw [if_pos same, same, splitOn_cons_self]
    · obtain ⟨name, more, found⟩ := exists_splitOn slash rest
      rw [if_neg same, splitOn_cons_ne same found, found]

end LuaLink
