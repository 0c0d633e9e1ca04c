import LuaLink.Bundle.Script
import LuaLink.Proofs.Text.Name

/-! The text of a bundle in one piece.  It exists when each module has a name to be loaded by. -/

namespace LuaLink.Script

/-- The line that loads a module with a name. -/
def loadLine (m : Module) : Text := "require(" ++ Lua.quote (m.aliases.headD []) ++ ")\n"

/-- The line that registers the entry, if it has names. -/
def enterLine (entry : Module) : Text :=
  if entry.aliases.isEmpty then [] else "__luapack_enter(" ++ Lua.nameList entry.aliases ++ ")\n"

/-- The block that registers the entry and loads all modules, if there is anything to do. -/
def loadBlock (entry : Module) (modules : List Module) : Text :=
  let all : Text := enterLine entry ++ modules.flatMap loadLine
  if all.isEmpty then [] else "\n-- load order\n" ++ all

/-- The text of a bundle whose modules have names. -/
def text (cwd : Text) (entry : Module) (modules : List Module) : Text :=
  let base := Path.directory entry.path
  let entryName := shownPath cwd entry.path base
  let definitions : Text := modules.flatMap fun m => "\n" ++ definition cwd base m
  let head : Text := firstLine entry.source ++ header entryName modules.length ++ loader ++ "\n"
  head ++ definitions ++ loadBlock entry modules ++
    ("\n-- entry: " ++ entryName ++ "\n" ++ Lua.withoutFirstLine entry.source)

variable {cwd : Text} {entry : Module} {modules : List Module}

theorem loadLine?_eq_some {m : Module} (named : m.aliases ≠ []) :
    loadLine? m = some (loadLine m) := by
  obtain ⟨name, others, same⟩ := List.exists_cons_of_ne_nil named
  simp [loadLine?, loadLine, same]

theorem mapM_loadLine?_eq_some (named : ∀ m ∈ modules, m.aliases ≠ []) :
    modules.mapM loadLine? = some (modules.map loadLine) := by
  induction modules with
  | nil => rfl
  | cons m rest ih =>
    rw [List.mapM_cons, loadLine?_eq_some (named m (by simp)),
      ih fun other member => named other (List.mem_cons_of_mem m member)]
    rfl

theorem mapM_loadLine?_eq_none {m : Module} (member : m ∈ modules) (nameless : m.aliases = []) :
    modules.mapM loadLine? = none := by
  induction modules with
  | nil => cases member
  | cons first rest ih =>
    rw [List.mapM_cons]
    rcases List.mem_cons.mp member with rfl | later
    · simp [loadLine?, nameless]
    · rw [ih later]
      cases loadLine? first <;> rfl

theorem text?_eq_some (named : ∀ m ∈ modules, m.aliases ≠ []) :
    text? cwd entry modules = some (text cwd entry modules) := by
  simp only [text?, loadLines?, mapM_loadLine?_eq_some named, Option.bind_eq_bind, Option.bind_some,
    Option.pure_def, text, loadBlock, enterLine, List.flatMap_def, List.append_assoc]

theorem text?_eq_none {m : Module} (member : m ∈ modules) (nameless : m.aliases = []) :
    text? cwd entry modules = none := by
  simp [text?, loadLines?, mapM_loadLine?_eq_none member nameless]

/-- There is a text exactly if each module has a name, and then it is the one above. -/
theorem text?_eq_some_iff {result : Text} : text? cwd entry modules = some result ↔
    (∀ m ∈ modules, m.aliases ≠ []) ∧ result = text cwd entry modules := by
  constructor
  · intro made
    have named : ∀ m ∈ modules, m.aliases ≠ [] := by
      intro m member nameless
      rw [text?_eq_none member nameless] at made
      cases made
    rw [text?_eq_some named] at made
    exact ⟨named, (Option.some.inj made).symm⟩
  · rintro ⟨named, rfl⟩
    exact text?_eq_some named

/-- No bundle is empty: it has a line that names its entry. -/
theorem text_ne_nil (cwd : Text) (entry : Module) (modules : List Module) : text cwd entry modules ≠ [] :=
  List.append_ne_nil_of_right_ne_nil _ (List.cons_ne_nil _ _)

/-! ### Surrogates -/

theorem isSurrogate_loader : ∀ c ∈ loader, Utf8.isSurrogate c = false := by
  have joined : ∀ lines : List String,
      ∀ c ∈ Text.join "\n" (lines.map Text.ofString), Utf8.isSurrogate c = false := by
    intro lines
    induction lines with
    | nil => exact nofun
    | cons line rest ih =>
      cases rest with
      | nil => exact Utf8.isSurrogate_ofString
      | cons other rest =>
        intro c member
        rcases List.mem_append.mp member with first | later
        · exact (List.mem_append.mp first).elim (Utf8.isSurrogate_ofString c) (Utf8.isSurrogate_ofString c)
        · exact ih c later
  exact joined loaderLines

/-- What stands before the loader. -/
def opening (cwd : Text) (entry : Module) (modules : List Module) : Text :=
  firstLine entry.source ++
    header (shownPath cwd entry.path (Path.directory entry.path)) modules.length

/-- What stands behind the loader. -/
def body (cwd : Text) (entry : Module) (modules : List Module) : Text :=
  let base := Path.directory entry.path
  let definitions : Text := modules.flatMap fun m => "\n" ++ definition cwd base m
  Text.ofString "\n" ++ definitions ++ loadBlock entry modules ++
    ("\n-- entry: " ++ shownPath cwd entry.path base ++ "\n" ++ Lua.withoutFirstLine entry.source)

/-- A bundle can be written unless there are surrogates before or behind the loader. -/
theorem exists_encode_text
    (scalars : ∀ c ∈ opening cwd entry modules ++ body cwd entry modules, Utf8.isSurrogate c = false) :
    ∃ bytes, Utf8.encode (text cwd entry modules) = .ok bytes := by
  have whole : text cwd entry modules =
      opening cwd entry modules ++ loader ++ body cwd entry modules := by
    simp only [text, opening, body, List.append_assoc]
  refine Utf8.exists_encode fun c member => ?_
  rw [whole] at member
  rcases List.mem_append.mp member with first | last
  · rcases List.mem_append.mp first with before | inside
    · exact scalars c (List.mem_append_left _ before)
    · exact isSurrogate_loader c inside
  · exact scalars c (List.mem_append_right _ last)

end LuaLink.Script
