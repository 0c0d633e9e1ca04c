import LuaLink.Graph
import LuaLink.SearchPath

/-! Building the graph of an entry file.  A walk goes through the references of the entry and, before
going on, through those of each module met for the first time.  A module is gray while the walk is
inside it, so a reference to a gray module closes a cycle and is deferred; a module that is left is
black and comes next in the order.  `run` makes one `step` after the other. -/

namespace LuaLink

/-- Where modules come from: the text of a file, the file that a reference asks for, the names that are
provided from outside, and the greatest number of modules.  References lead to no more than `paths`
different paths of files that can be read. -/
structure Linker where
  source : Text → Except Failure Text
  resolve : ModuleRef → Except Failure Text
  externals : List Text
  limit : Option Int
  paths : Nat

/-- A module the walk is inside of, and its references that are still to come. -/
structure Frame where
  id : ModuleId
  refs : List ModuleRef
  deriving DecidableEq

/-- A walk under way: the graph so far, the modules it is inside of, the innermost first, and how many
modules it may still enter. -/
structure Walk where
  graph : Graph
  stack : List Frame
  paths : Nat

namespace Linker

/-- The number of the member with a path, which becomes one if it is not. -/
def fetch (linker : Linker) (g : Graph) (path : Text) : Except Failure (Graph × ModuleId) :=
  match g.member? path, linker.limit.filter (· ≤ (g.members.length : Int)) with
  | some id, _ => .ok (g, id)
  | none, some limit => .error (.bundle (.tooManyModules limit path))
  | none, none => .ok ((g.add { path }).put g.modules.size, g.modules.size)

/-- Reads a module: it is gray, and its references are to come. -/
def enter (linker : Linker) (g : Graph) (id : ModuleId) : Except Failure (Graph × Frame) := do
  let path := g.path id
  let source ← linker.source path
  let found ← (Lua.requires source path).mapError .escape
  let g := g.update id fun m => { m with color := .gray, source }
  let warnings := g.warnings ++ found.dynamic.map .dynamicRequire
  return ({ g with warnings }, ⟨id, found.refs⟩)

/-- Finds the module that a reference of `parent` asks for, unless it is provided from outside, and
records its name and the edge. -/
def link (linker : Linker) (g : Graph) (parent : ModuleId) (ref : ModuleRef) :
    Except Failure (Graph × Option ModuleId) := do
  if linker.externals.contains (slashed ref.target) then return (g, none)
  let path ← linker.resolve ref
  let (g, child) ← linker.fetch g path
  return ((g.bind ref child).update parent (·.addChild child), some child)

/-- Takes the next reference of the innermost module, or leaves it if there is none. -/
def step (linker : Linker) (walk : Walk) : Except Failure Walk :=
  match walk.stack with
  | [] => .ok walk
  | ⟨id, []⟩ :: outer =>
    let g := walk.graph.update id fun m => { m with color := .black }
    .ok { walk with graph := { g with order := g.order ++ [id] }, stack := outer }
  | ⟨id, ref :: refs⟩ :: outer => do
    match ← linker.link walk.graph id ref with
    | (g, none) => return { walk with graph := g, stack := ⟨id, refs⟩ :: outer }
    | (g, some child) =>
      match (g.moduleAt child).color with
      | .white =>
        let (g, frame) ← linker.enter g child
        match walk.paths with
        | 0 => throw .tooManySpellings
        | paths + 1 => return ⟨g, frame :: ⟨id, refs⟩ :: outer, paths⟩
      | .gray =>
        return { walk with graph := g.update id (·.defer child), stack := ⟨id, refs⟩ :: outer }
      | .black => return { walk with graph := g, stack := ⟨id, refs⟩ :: outer }

end Linker

/-- What is left to do for the modules the walk is inside of: each reference and each leaving. -/
def Walk.pending (walk : Walk) : Nat :=
  walk.stack.foldr (fun frame rest => frame.refs.length + 1 + rest) 0

/-- Every step enters one of the modules that it may still enter, or leaves less to do. -/
theorem Linker.step_decreases {linker : Linker} {walk next : Walk} (inside : walk.stack ≠ [])
    (h : linker.step walk = .ok next) :
    next.paths < walk.paths ∨ next.paths = walk.paths ∧ next.pending < walk.pending := by
  obtain ⟨graph, stack, paths⟩ := walk
  match stack with
  | [] => exact absurd rfl inside
  | ⟨id, []⟩ :: outer =>
    simp only [Linker.step, Except.ok.injEq] at h
    subst h
    simp [Walk.pending]
  | ⟨id, ref :: refs⟩ :: outer =>
    simp only [Linker.step] at h
    cases hl : linker.link graph id ref with
    | error e => rw [hl] at h; simp [bind, Except.bind] at h
    | ok linked =>
      obtain ⟨g, child⟩ := linked
      rw [hl] at h
      cases child with
      | none =>
        simp only [bind, Except.bind, pure, Except.pure, Except.ok.injEq] at h
        subst h
        simp [Walk.pending]
      | some child =>
        cases hc : (g.moduleAt child).color with
        | white =>
          cases he : linker.enter g child with
          | error e => simp [bind, Except.bind, hc, he] at h
          | ok entered =>
            cases paths with
            | zero => simp [bind, Except.bind, hc, he, throw, throwThe, MonadExceptOf.throw] at h
            | succ paths =>
              simp only [bind, Except.bind, hc, he, pure, Except.pure, Except.ok.injEq] at h
              subst h
              simp
        | gray =>
          simp only [bind, Except.bind, hc, pure, Except.pure, Except.ok.injEq] at h
          subst h
          simp [Walk.pending]
        | black =>
          simp only [bind, Except.bind, hc, pure, Except.pure, Except.ok.injEq] at h
          subst h
          simp [Walk.pending]

namespace Linker

/-- Makes steps until the walk is outside of all modules. -/
def run (linker : Linker) (walk : Walk) : Except Failure Graph :=
  if _inside : walk.stack ≠ [] then
    match _stepped : linker.step walk with
    | .error failure => .error failure
    | .ok next => run linker next
  else .ok walk.graph
termination_by (walk.paths, walk.pending)
decreasing_by
  rcases step_decreases _inside _stepped with less | ⟨same, less⟩
  · exact Prod.Lex.left _ _ less
  · rw [same]
    exact Prod.Lex.right _ less

/-- The graph of the modules that are reached from an entry file with a canonical path. -/
def build (linker : Linker) (entry : Text) : Except Failure Graph := do
  let (g, id) ← linker.fetch {} entry
  let (g, frame) ← linker.enter { g with entry := some id } id
  linker.run ⟨g, [frame], linker.paths⟩

/-- In how many ways so many positions are filled, each with one of all code points or with none. -/
def fillings (positions : Nat) : Nat := NatPow.pow 0x110001 positions

/-- No more texts than this can be followed as paths. -/
def followable : Nat := fillings FileTree.maxPath

/-- The modules of a workspace. -/
def ofWorkspace (ws : Workspace) (search : SearchPath) (limit : Option Int) (externals : List Text) :
    Linker where
  source := ws.source
  resolve := search.resolve ws
  externals := externals.map slashed
  limit := limit
  paths := followable

def buildIn (ws : Workspace) (search : SearchPath) (limit : Option Int) (externals : List Text)
    (entry : Text) : Except Failure Graph := do
  let path ← (ws.canonical entry).mapError .name
  (ofWorkspace ws search limit externals).build path

end Linker

end LuaLink
