import Mathlib.Data.List.Chain
import LuaLink.Proofs.Graph.Members

/-! Cycles of a graph.  The modules that a walk is inside of lead from the outermost to the innermost one,
so an edge that is deferred closes a cycle.  The other edges go back in the order in which the modules
are finished, and so make no cycle.  Hence an edge is deferred exactly when there is a cycle at all. -/

namespace LuaLink

open Relation (ReflTransGen TransGen)

namespace Graph

/-- One module asks for another one. -/
def Edge (g : Graph) (id child : ModuleId) : Prop := child ∈ (g.moduleAt id).children

/-- An edge that is not deferred. -/
def Direct (g : Graph) (id child : ModuleId) : Prop :=
  g.Edge id child ∧ (id, child) ∉ g.deferredEdges

/-- The deferred edges stand for the cycles among the files that are reached from an entry: each of them
lies on a cycle, the edges that remain make none, and there are some if there is a cycle. -/
structure DefersCycles (linker : Linker) (entry : Text) (g : Graph) : Prop where
  cycle : ∀ edge ∈ g.deferredEdges, g.Edge edge.1 edge.2 ∧ ReflTransGen g.Edge edge.2 edge.1
  acyclic : ∀ id, ¬ TransGen g.Direct id id
  edges_eq_nil_iff : g.deferredEdges = [] ↔ ∀ id, ¬ TransGen g.Edge id id
  files_acyclic_iff : g.deferredEdges = [] ↔
    ∀ path, linker.Reaches entry path → ¬ TransGen linker.Leads path path

variable {g : Graph} {id child : ModuleId} {outer : List ModuleId}

theorem mem_deferredEdges :
    (id, child) ∈ g.deferredEdges ↔ id ∈ g.memberIds ∧ child ∈ (g.moduleAt id).deferred := by
  simp [deferredEdges, List.mem_flatMap]

theorem edge_linked {parent new : ModuleId} {ref : ModuleRef} (edge : g.Edge id child) :
    (g.linked parent ref new).Edge id child := by
  rw [Edge, children_linked]
  split
  · exact mem_withNew.mpr (.inl edge)
  · exact edge

theorem edge_linked_self {ref : ModuleRef} (known : id < g.modules.size) :
    (g.linked id ref child).Edge id child := by
  rw [Edge, children_linked, if_pos ⟨rfl, known⟩]
  exact mem_withNew.mpr (.inr rfl)

/-- Where each module leads to the one before it, all of them lead to the first one. -/
theorem reaches_of_isChain (chain : (id :: outer).IsChain fun inner outer => g.Edge outer inner)
    (member : child ∈ id :: outer) : ReflTransGen g.Edge child id := by
  have steps := chain.imp fun _ _ edge => ReflTransGen.single (r := g.Edge) edge
  rcases List.mem_cons.mp member with rfl | further
  · exact .refl
  · have : IsTrans ModuleId fun inner outer => ReflTransGen g.Edge outer inner :=
      ⟨fun _ _ _ first second => second.trans first⟩
    exact (List.pairwise_cons.mp steps.pairwise).1 child further

end Graph

/-! ### Walks -/

/-- Each module that the walk is inside of asks for the next one further in, and a module to which an
edge is deferred leads to where the edge starts. -/
structure Walk.Chained (walk : Walk) : Prop where
  chain : walk.inside.IsChain fun inner outer => walk.graph.Edge outer inner
  back : ∀ id, ∀ child ∈ (walk.graph.moduleAt id).deferred, ReflTransGen walk.graph.Edge child id

namespace Linker

variable {linker : Linker} {entry : Text} {taken : List Request} {walk next : Walk} {g : Graph}
  {id child : ModuleId} {paths : Nat}

theorem edge_of_turn {request : Option Request} (turn : linker.Turn walk request next)
    (edge : walk.graph.Edge id child) : next.graph.Edge id child := by
  cases turn with
  | leave =>
    rw [Graph.Edge, Graph.children_left]
    exact edge
  | pass => exact edge
  | @enter g parent ref refs outer paths path source found =>
    rw [Graph.Edge, Graph.children_entered]
    refine Graph.edge_linked ?_
    rw [Graph.Edge, Graph.children_extend]
    exact edge
  | @defer g parent target =>
    have children : ∀ m : Module, (m.defer target).children = m.children := fun _ => rfl
    rw [Graph.Edge, Graph.moduleAt_update_field Module.children children]
    exact Graph.edge_linked edge
  | share => exact Graph.edge_linked edge

theorem chained_of_turn {request : Option Request} (placed : walk.Placed) (chained : walk.Chained)
    (turn : linker.Turn walk request next) : next.Chained := by
  have grows : ∀ id child, walk.graph.Edge id child → next.graph.Edge id child :=
    fun _ _ => edge_of_turn turn
  have chain : walk.inside.IsChain fun inner outer => next.graph.Edge outer inner :=
    chained.chain.imp fun _ _ => grows _ _
  have back : ∀ id, ∀ child ∈ (walk.graph.moduleAt id).deferred, ReflTransGen next.graph.Edge child id :=
    fun id child deferred => .mono grows _ _ (chained.back id child deferred)
  cases turn with
  | leave => exact ⟨chain.tail, by simpa using back⟩
  | pass => exact ⟨chain, back⟩
  | @enter g id ref refs outer paths path source found =>
    have here : id < (g.extend path).modules.size := by
      rw [Graph.size_extend]
      exact Nat.lt_succ_of_lt (placed.lt_of_inside (by simp))
    refine ⟨chain.cons_cons ?_, by simpa using back⟩
    rw [Graph.Edge, Graph.children_entered]
    exact Graph.edge_linked_self here
  | @defer g id child ref refs outer paths path asked resolved known gray =>
    refine ⟨chain, fun other target deferred => ?_⟩
    rw [Graph.moduleAt_update] at deferred
    split at deferred
    · rename_i same
      obtain ⟨rfl, -⟩ := same
      rcases mem_withNew.mp deferred with before | rfl
      · exact back other target (by simpa using before)
      · -- The walk is inside of what is gray.
        have inside := placed.inside_of_gray (placed.indexed.member?_eq_some_iff.mp known).1 gray
        exact Graph.reaches_of_isChain chain inside
    · exact back other target (by simpa using deferred)
  | share => exact ⟨chain, by simpa using back⟩

theorem Reached.chained (reached : linker.Reached entry taken walk) : walk.Chained := by
  induction reached with
  | @start source found =>
    refine ⟨.singleton _, fun id child deferred => ?_⟩
    have blank : ((startGraph entry source found).moduleAt id).deferred = [] := by
      cases id <;> rfl
    rw [blank] at deferred
    cases deferred
  | turn reached turn ih => exact chained_of_turn reached.placed ih turn

/-! ### Graphs that are built -/

theorem Reached.known_of_edge (reached : linker.Reached entry taken walk)
    (edge : walk.graph.Edge id child) :
    id < walk.graph.modules.size ∧ child < walk.graph.modules.size := by
  refine ⟨?_, reached.sorted.known id child edge⟩
  by_contra outside
  rw [Graph.Edge, Graph.moduleAt_of_size_le (Nat.not_lt.mp outside)] at edge
  cases edge

/-- What is asked for without delay stands before the module that asks. -/
theorem Reached.idxOf_lt_of_direct (reached : linker.Reached entry taken ⟨g, [], paths⟩)
    (direct : g.Direct id child) : g.order.idxOf child < g.order.idxOf id := by
  obtain ⟨edge, direct⟩ := direct
  obtain ⟨known, -⟩ := reached.known_of_edge edge
  by_contra late
  have deferred := (reached.deferred_iff known edge).mpr late
  exact direct (Graph.mem_deferredEdges.mpr ⟨reached.placed.indexed.mem_memberIds.mpr known, deferred⟩)

theorem Reached.acyclic (reached : linker.Reached entry taken ⟨g, [], paths⟩) (id : ModuleId) :
    ¬ TransGen g.Direct id id := by
  have before : ∀ child, TransGen g.Direct id child → g.order.idxOf child < g.order.idxOf id := by
    intro child path
    induction path with
    | single direct => exact reached.idxOf_lt_of_direct direct
    | tail _ direct ih => exact Nat.lt_trans (reached.idxOf_lt_of_direct direct) ih
  exact fun cycle => Nat.lt_irrefl _ (before id cycle)

theorem Reached.cycle_of_deferred (reached : linker.Reached entry taken ⟨g, [], paths⟩)
    (deferred : (id, child) ∈ g.deferredEdges) : g.Edge id child ∧ ReflTransGen g.Edge child id := by
  obtain ⟨-, deferred⟩ := Graph.mem_deferredEdges.mp deferred
  exact ⟨reached.sorted.edges id child deferred, reached.chained.back id child deferred⟩

theorem Reached.edges_eq_nil_iff (reached : linker.Reached entry taken ⟨g, [], paths⟩) :
    g.deferredEdges = [] ↔ ∀ id, ¬ TransGen g.Edge id id := by
  constructor
  · intro none id cycle
    have direct : ∀ id child, g.Edge id child → g.Direct id child := fun id child edge =>
      ⟨edge, none ▸ List.not_mem_nil⟩
    exact reached.acyclic id (.mono direct _ _ cycle)
  · intro acyclic
    refine List.eq_nil_iff_forall_not_mem.mpr fun edge deferred => ?_
    obtain ⟨start, back⟩ := reached.cycle_of_deferred deferred
    exact acyclic edge.1 (.head' start back)

/-- The files lead to each other as the modules do. -/
theorem Reached.cycle_iff (reached : linker.Reached entry taken ⟨g, [], paths⟩)
    (known : id < g.modules.size) :
    TransGen linker.Leads (g.path id) (g.path id) ↔ TransGen g.Edge id id := by
  constructor
  · intro cycle
    have followed : ∀ path, TransGen linker.Leads (g.path id) path →
        ∃ child < g.modules.size, g.path child = path ∧ TransGen g.Edge id child := by
      intro path leads
      induction leads with
      | single leads =>
        obtain ⟨child, edge, named⟩ := (reached.leads_iff known).mp leads
        exact ⟨child, (reached.known_of_edge edge).2, named, .single edge⟩
      | tail _ leads ih =>
        obtain ⟨between, inside, rfl, way⟩ := ih
        obtain ⟨child, edge, named⟩ := (reached.leads_iff inside).mp leads
        exact ⟨child, (reached.known_of_edge edge).2, named, way.tail edge⟩
    obtain ⟨child, inside, named, way⟩ := followed _ cycle
    exact reached.placed.indexed.paths child inside id known named ▸ way
  · intro cycle
    exact cycle.lift g.path fun parent child edge =>
      (reached.leads_iff (reached.known_of_edge edge).1).mpr ⟨child, edge, rfl⟩

/-- Edges are deferred because of cycles, and for nothing else. -/
theorem defersCycles_of_build (built : linker.build entry = .ok g) : g.DefersCycles linker entry := by
  obtain ⟨taken, paths, reached⟩ := reached_of_build built
  refine ⟨fun edge => reached.cycle_of_deferred, reached.acyclic, reached.edges_eq_nil_iff, ?_⟩
  rw [reached.edges_eq_nil_iff]
  constructor
  · intro acyclic path reaches
    obtain ⟨id, known, rfl⟩ := reached.reaches_iff.mp reaches
    exact fun cycle => acyclic id ((reached.cycle_iff known).mp cycle)
  · intro acyclic id cycle
    obtain ⟨child, edge, -⟩ := TransGen.head'_iff.mp cycle
    obtain ⟨known, -⟩ := reached.known_of_edge edge
    exact acyclic (g.path id) (reached.reaches known) ((reached.cycle_iff known).mpr cycle)

/-- In the ring the edges of both other files to the entry are deferred, as it leads to them. -/
theorem defersCycles_ring : ∃ g, ring.build "m" = .ok g ∧ g.deferredEdges = [(1, 0), (2, 0)] ∧
    g.DefersCycles ring "m" := by
  obtain ⟨g, built, edges⟩ := @build_of_steps ring "m" 10
    (fun g => g.deferredEdges == [(1, 0), (2, 0)]) (by decide +kernel)
  exact ⟨g, built, eq_of_beq edges, defersCycles_of_build built⟩

end Linker

end LuaLink
