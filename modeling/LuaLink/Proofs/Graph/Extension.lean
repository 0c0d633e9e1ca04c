import LuaLink.Proofs.Graph.Reached

/-! Linkers that know more.  A linker `extends` another one if it gives the same answer wherever that one
does not fail in an excused way; then it builds the same graph from every entry, or fails in the same way,
unless that one fails in an excused way.  So the graph of a bundle can be built from the few texts and
paths that its modules ask for. -/

namespace LuaLink.Linker

/-- Every answer that `less` gives, `more` gives as well, but for failures that are excused. -/
structure Extends (excused : Failure → Prop) (more less : Linker) : Prop where
  source : ∀ path, Unless excused (less.source path) (more.source path)
  resolve : ∀ ref, Unless excused (less.resolve ref) (more.resolve ref)
  externals : more.externals = less.externals
  limit : more.limit = less.limit
  paths : more.paths = less.paths

namespace Extends

variable {excused : Failure → Prop} {more less : Linker} {g : Graph}

theorem fetch (ext : more.Extends excused less) (g : Graph) (path : Text) :
    more.fetch g path = less.fetch g path := by
  unfold Linker.fetch
  rw [ext.limit]

theorem enter (ext : more.Extends excused less) (g : Graph) (id : ModuleId) :
    Unless excused (less.enter g id) (more.enter g id) :=
  (ext.source _).bind fun _ _ => .refl _ _

theorem link (ext : more.Extends excused less) (g : Graph) (parent : ModuleId) (ref : ModuleRef) :
    Unless excused (less.link g parent ref) (more.link g parent ref) := by
  unfold Linker.link
  rw [ext.externals]
  split
  · exact .refl _ _
  · refine (ext.resolve ref).bind fun path _ => ?_
    rw [ext.fetch]
    exact .refl _ _

theorem step (ext : more.Extends excused less) (walk : Walk) :
    Unless excused (less.step walk) (more.step walk) := by
  obtain ⟨g, stack, paths⟩ := walk
  match stack with
  | [] => exact .refl _ _
  | ⟨id, []⟩ :: outer => exact .refl _ _
  | ⟨id, ref :: refs⟩ :: outer =>
    refine (ext.link g id ref).bind fun ⟨g, child⟩ _ => ?_
    cases child with
    | none => exact .refl _ _
    | some child =>
      dsimp only
      cases (g.moduleAt child).color with
      | white => exact (ext.enter g child).bind fun _ _ => .refl _ _
      | gray => exact .refl _ _
      | black => exact .refl _ _

theorem run (ext : more.Extends excused less) (walk : Walk) :
    Unless excused (less.run walk) (more.run walk) := by
  induction walk using run_induction less with
  | outside walk outside =>
    rw [run_outside outside, run_outside outside]
    exact .refl _ _
  | inside walk inside ih =>
    rw [run_inside inside, run_inside inside]
    exact (ext.step walk).bind ih

/-- What a linker builds, one that knows more builds as well, and it fails as that one does. -/
theorem build (ext : more.Extends excused less) (entry : Text) :
    Unless excused (less.build entry) (more.build entry) := by
  unfold Linker.build
  rw [ext.fetch, ext.paths]
  exact (Unless.refl _ _).bind fun _ _ => (ext.enter _ _).bind fun _ _ => ext.run _

end Extends

/-! ### Tables -/

/-- A linker that knows only the texts under some paths, and the files that some names in some files
lead to. -/
def within (linker : Linker) (texts : List (Text × Text)) (leads : List ((Text × Text) × Text)) :
    Linker :=
  { linker with
    source := fun path =>
      match texts.lookup path with
      | some text => .ok text
      | none => .error (.noEntryFile path)
    resolve := fun ref =>
      match leads.lookup (ref.target, ref.requiringFile) with
      | some path => .ok path
      | none => .error (.bundle (.unresolved ref.target ref.requiringFile [])) }

variable {linker : Linker} {texts : List (Text × Text)} {leads : List ((Text × Text) × Text)}

/-- A linker extends its tables if they say what it finds. -/
theorem extends_within (found : ∀ entry ∈ texts, linker.source entry.1 = .ok entry.2)
    (led : ∀ entry ∈ leads, ∀ line, linker.resolve ⟨entry.1.1, entry.1.2, line⟩ = .ok entry.2) :
    linker.Extends (fun _ => True) (linker.within texts leads) where
  source := by
    refine fun path => .of_ok fun text known => ?_
    simp only [within] at known
    split at known
    · rename_i listed
      cases known
      exact found _ (mem_of_lookup_eq_some listed)
    · cases known
  resolve := by
    refine fun ref => .of_ok fun path known => ?_
    simp only [within] at known
    split at known
    · rename_i listed
      cases known
      exact led _ (mem_of_lookup_eq_some listed) ref.line
    · cases known
  externals := rfl
  limit := rfl
  paths := rfl

end LuaLink.Linker
