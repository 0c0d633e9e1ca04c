import LuaLink.Graph.Walk

/-! What the operations of a graph do to the module with a number, and to the lists of the graph.  In an
`Indexed` graph the members are all modules under paths of their own, so a path and a number say the
same. -/

namespace LuaLink

theorem mem_withNew {α : Type} [BEq α] [LawfulBEq α] {xs : List α} {x y : α} :
    y ∈ withNew xs x ↔ y ∈ xs ∨ y = x := by
  unfold withNew
  split
  · rename_i present
    have : x ∈ xs := by simpa using present
    constructor
    · exact Or.inl
    · rintro (old | rfl)
      · exact old
      · exact this
  · simp

theorem nodup_withNew {α : Type} [BEq α] [LawfulBEq α] {xs : List α} (x : α) (h : xs.Nodup) :
    (withNew xs x).Nodup := by
  unfold withNew
  split
  · exact h
  · rename_i absent
    have fresh : x ∉ xs := by simpa using absent
    refine List.nodup_append.mpr ⟨h, by simp, ?_⟩
    intro a old b last same
    rw [List.mem_singleton.mp last] at same
    exact fresh (same ▸ old)

theorem mem_of_lookup_eq_some {α β : Type} [BEq α] [LawfulBEq α] {xs : List (α × β)} {k : α} {v : β}
    (h : xs.lookup k = some v) : (k, v) ∈ xs := by
  obtain ⟨before, after, split, -⟩ := List.lookup_eq_some_iff.mp h
  simp [split]

/-- Pairs are looked up by renamed keys as by their keys, if no other key gets the same name. -/
theorem lookup_rename {α β γ : Type} [BEq α] [LawfulBEq α] [BEq β] [LawfulBEq β] {f : α → β}
    {xs : List (α × γ)} {key : α} (apart : ∀ x ∈ xs, f x.1 = f key → x.1 = key) :
    (xs.map fun x => (f x.1, x.2)).lookup (f key) = xs.lookup key := by
  induction xs with
  | nil => rfl
  | cons x rest ih =>
    obtain ⟨here, later⟩ := List.forall_mem_cons.mp apart
    have same : (f key == f x.1) = (key == x.1) := by
      rw [Bool.eq_iff_iff, beq_iff_eq, beq_iff_eq]
      exact ⟨fun equal => (here equal.symm).symm, congrArg f⟩
    rw [List.map_cons, List.lookup_cons, List.lookup_cons, same, ih later]

namespace Graph

variable {g : Graph} {id other : ModuleId} {change : Module → Module}

theorem moduleAt_update (g : Graph) (id other : ModuleId) (change : Module → Module) :
    (g.update id change).moduleAt other =
      if other = id ∧ id < g.modules.size then change (g.moduleAt other) else g.moduleAt other := by
  unfold update moduleAt
  simp only [Array.getD_eq_getD_getElem?, Array.getElem?_modify]
  by_cases same : id = other
  · subst same
    by_cases inside : id < g.modules.size
    · simp [inside]
    · simp [inside]
  · simp [same, Ne.symm same]

@[simp] theorem moduleAt_update_self (inside : id < g.modules.size) :
    (g.update id change).moduleAt id = change (g.moduleAt id) := by
  simp [moduleAt_update, inside]

@[simp] theorem size_update : (g.update id change).modules.size = g.modules.size := by
  simp [update]

@[simp] theorem members_update : (g.update id change).members = g.members := rfl

@[simp] theorem owners_update : (g.update id change).owners = g.owners := rfl

@[simp] theorem entry_update : (g.update id change).entry = g.entry := rfl

@[simp] theorem order_update : (g.update id change).order = g.order := rfl

@[simp] theorem warnings_update : (g.update id change).warnings = g.warnings := rfl

/-- A field that a change keeps is kept for every module. -/
theorem moduleAt_update_field {α : Type} (field : Module → α)
    (keeps : ∀ m, field (change m) = field m) :
    field ((g.update id change).moduleAt other) = field (g.moduleAt other) := by
  rw [moduleAt_update]
  split
  · exact keeps _
  · rfl

/-- The graph with one more module, a member under its path. -/
def extend (g : Graph) (path : Text) : Graph :=
  { g with
    modules := g.modules.push { path }
    members := g.members ++ [(path, g.modules.size)] }

theorem moduleAt_extend_lt (path : Text) (old : id < g.modules.size) :
    (g.extend path).moduleAt id = g.moduleAt id := by
  simp [moduleAt, extend, Array.getD_eq_getD_getElem?, Array.getElem?_push, Nat.ne_of_lt old]

@[simp] theorem moduleAt_extend_size (path : Text) :
    (g.extend path).moduleAt g.modules.size = { path } := by
  simp [moduleAt, extend, Array.getD_eq_getD_getElem?]

theorem path_extend_lt (path : Text) (old : id < g.modules.size) :
    (g.extend path).path id = g.path id := by
  simp [Graph.path, moduleAt_extend_lt path old]

@[simp] theorem path_extend_size (path : Text) : (g.extend path).path g.modules.size = path := by
  simp [Graph.path]

@[simp] theorem size_extend (path : Text) : (g.extend path).modules.size = g.modules.size + 1 := by
  simp [extend]

@[simp] theorem entry_extend (path : Text) : (g.extend path).entry = g.entry := rfl

@[simp] theorem order_extend (path : Text) : (g.extend path).order = g.order := rfl

theorem moduleAt_of_size_le (outside : g.modules.size ≤ id) : g.moduleAt id = default := by
  simp [moduleAt, Array.getD_eq_getD_getElem?, Array.getElem?_eq_none outside]

/-- A field of a new module is like that of a module that is not there, unless it shows the path. -/
theorem moduleAt_extend_field {α : Type} (field : Module → α) (path : Text)
    (blank : field { path } = field default) :
    field ((g.extend path).moduleAt other) = field (g.moduleAt other) := by
  rcases Nat.lt_trichotomy other g.modules.size with old | rfl | outside
  · rw [moduleAt_extend_lt path old]
  · rw [moduleAt_extend_size, moduleAt_of_size_le (Nat.le_refl _), blank]
  · rw [moduleAt_of_size_le (by rw [size_extend]; exact outside),
      moduleAt_of_size_le (Nat.le_of_lt outside)]

@[simp] theorem children_extend (path : Text) :
    ((g.extend path).moduleAt other).children = (g.moduleAt other).children :=
  moduleAt_extend_field Module.children path rfl

@[simp] theorem deferred_extend (path : Text) :
    ((g.extend path).moduleAt other).deferred = (g.moduleAt other).deferred :=
  moduleAt_extend_field Module.deferred path rfl

theorem put_add_eq_extend {path : Text} (absent : g.member? path = none) :
    (g.add { path }).put g.modules.size = g.extend path := by
  have named : (g.add { path }).path g.modules.size = path := by
    simp [Graph.path, moduleAt, add, Array.getD_eq_getD_getElem?]
  have unlisted : (g.members.any fun m => m.1 = path) = false := by
    rw [List.any_eq_false]
    intro m listed same
    have differ := List.lookup_eq_none_iff.mp absent m listed
    simp only [decide_eq_true_eq] at same
    simp [same] at differ
  unfold put
  rw [named]
  show (if g.members.any (fun m => m.1 = path) = true then _ else _) = _
  rw [unlisted]
  rfl

/-! ### Names -/

/-- The name leads to the module unless it led to one before. -/
theorem lookup_bind (ref : ModuleRef) (name : Text) : (g.bind ref id).owners.lookup name =
    if name = ref.target ∧ g.owners.lookup name = none then some id else g.owners.lookup name := by
  unfold bind
  split
  · rename_i free
    rw [owners_update, List.lookup_append]
    by_cases same : name = ref.target
    · subst same
      simp [free]
    · have other : [(ref.target, id)].lookup name = none := by simp [same]
      rw [other, Option.or_none, if_neg fun both => same both.1]
  · rename_i owner owned
    have kept : ∀ same : name = ref.target ∧ g.owners.lookup name = none, False := by
      rintro ⟨rfl, free⟩
      rw [owned] at free
      cases free
    rw [if_neg kept]
    split <;> rfl

theorem keys_bind (ref : ModuleRef) (nodup : (g.owners.map (·.1)).Nodup) :
    ((g.bind ref id).owners.map (·.1)).Nodup := by
  unfold bind
  split
  · rename_i free
    rw [owners_update, List.map_append, List.nodup_append]
    refine ⟨nodup, by simp, ?_⟩
    intro a old b last same
    obtain rfl : b = ref.target := by simpa using last
    obtain ⟨owned, listed, rfl⟩ := List.mem_map.mp old
    have differ := List.lookup_eq_none_iff.mp free owned listed
    simp [same] at differ
  · split <;> exact nodup

theorem aliases_bind (ref : ModuleRef) (known : id < g.modules.size) :
    ((g.bind ref id).moduleAt other).aliases =
      if other = id ∧ g.owners.lookup ref.target = none
      then withNew (g.moduleAt other).aliases ref.target else (g.moduleAt other).aliases := by
  unfold bind
  split
  · rename_i free
    rw [moduleAt_update]
    by_cases same : other = id
    · rw [if_pos ⟨same, known⟩, if_pos ⟨same, free⟩]
      rfl
    · rw [if_neg fun both => same both.1, if_neg fun both => same both.1]
      rfl
  · rename_i owner owned
    have kept : ((if owner = id then g
        else g.warn (.aliasConflict ⟨ref.target, g.path owner, g.path id, ref.requiringFile⟩)).moduleAt
        other).aliases = (g.moduleAt other).aliases := by
      split <;> rfl
    rw [kept]
    simp [owned]

theorem mem_warnings_bind (ref : ModuleRef) (warning : Warning) :
    warning ∈ (g.bind ref id).warnings ↔ warning ∈ g.warnings ∨
      ∃ owner, g.owners.lookup ref.target = some owner ∧ owner ≠ id ∧
        warning = .aliasConflict ⟨ref.target, g.path owner, g.path id, ref.requiringFile⟩ := by
  unfold bind
  split
  · rename_i free
    simp [free]
  · rename_i owner owned
    split
    · rename_i same
      simp [owned, same]
    · rename_i differ
      simp only [warn, mem_withNew, owned, Option.some.injEq]
      constructor
      · exact Or.imp_right fun last => ⟨owner, rfl, differ, last⟩
      · rintro (old | ⟨other, rfl, -, last⟩)
        · exact .inl old
        · exact .inr last

theorem moduleAt_bind_field {α : Type} (field : Module → α)
    (keeps : ∀ m name, field (Module.addAlias m name) = field m) (ref : ModuleRef) :
    field ((g.bind ref id).moduleAt other) = field (g.moduleAt other) := by
  unfold bind
  split
  · exact moduleAt_update_field field fun m => keeps m _
  · split <;> rfl

@[simp] theorem size_bind (ref : ModuleRef) : (g.bind ref id).modules.size = g.modules.size := by
  unfold bind
  split
  · exact size_update
  · split <;> rfl

@[simp] theorem members_bind (ref : ModuleRef) : (g.bind ref id).members = g.members := by
  unfold bind
  split
  · rfl
  · split <;> rfl

@[simp] theorem order_bind (ref : ModuleRef) : (g.bind ref id).order = g.order := by
  unfold bind
  split
  · rfl
  · split <;> rfl

@[simp] theorem entry_bind (ref : ModuleRef) : (g.bind ref id).entry = g.entry := by
  unfold bind
  split
  · rfl
  · split <;> rfl

/-! ### What a walk does to a graph -/

/-- The graph after a reference of `parent` was found to lead to `child`. -/
def linked (g : Graph) (parent : ModuleId) (ref : ModuleRef) (child : ModuleId) : Graph :=
  (g.bind ref child).update parent (·.addChild child)

/-- The graph after a module was read. -/
def entered (g : Graph) (id : ModuleId) (source : Text) (calls : List DynamicRequire) : Graph :=
  { g.update id (fun m => { m with color := .gray, source }) with
    warnings := g.warnings ++ calls.map .dynamicRequire }

/-- The graph after a module was left. -/
def left (g : Graph) (id : ModuleId) : Graph :=
  { g.update id (fun m => { m with color := .black }) with order := g.order ++ [id] }

section Linked

variable {parent child : ModuleId} {ref : ModuleRef}

@[simp] theorem size_linked : (g.linked parent ref child).modules.size = g.modules.size := by
  simp [linked]

@[simp] theorem members_linked : (g.linked parent ref child).members = g.members := by
  simp [linked]

@[simp] theorem order_linked : (g.linked parent ref child).order = g.order := by simp [linked]

@[simp] theorem entry_linked : (g.linked parent ref child).entry = g.entry := by simp [linked]

theorem moduleAt_linked_field {α : Type} (field : Module → α)
    (named : ∀ m name, field (Module.addAlias m name) = field m)
    (grown : ∀ m child, field (Module.addChild m child) = field m) :
    field ((g.linked parent ref child).moduleAt other) = field (g.moduleAt other) := by
  unfold linked
  rw [moduleAt_update_field field fun m => grown m _, moduleAt_bind_field field named]

@[simp] theorem path_linked : (g.linked parent ref child).path other = g.path other :=
  moduleAt_linked_field Module.path (fun _ _ => rfl) fun _ _ => rfl

@[simp] theorem color_linked :
    ((g.linked parent ref child).moduleAt other).color = (g.moduleAt other).color :=
  moduleAt_linked_field Module.color (fun _ _ => rfl) fun _ _ => rfl

@[simp] theorem source_linked :
    ((g.linked parent ref child).moduleAt other).source = (g.moduleAt other).source :=
  moduleAt_linked_field Module.source (fun _ _ => rfl) fun _ _ => rfl

@[simp] theorem deferred_linked :
    ((g.linked parent ref child).moduleAt other).deferred = (g.moduleAt other).deferred :=
  moduleAt_linked_field Module.deferred (fun _ _ => rfl) fun _ _ => rfl

theorem children_linked : ((g.linked parent ref child).moduleAt other).children =
    if other = parent ∧ parent < g.modules.size then withNew (g.moduleAt other).children child
    else (g.moduleAt other).children := by
  unfold linked
  rw [moduleAt_update, size_bind]
  split
  · show withNew _ child = _
    rw [moduleAt_bind_field Module.children fun _ _ => rfl]
  · exact moduleAt_bind_field Module.children (fun _ _ => rfl) ref

theorem aliases_linked (known : child < g.modules.size) :
    ((g.linked parent ref child).moduleAt other).aliases =
      if other = child ∧ g.owners.lookup ref.target = none
      then withNew (g.moduleAt other).aliases ref.target else (g.moduleAt other).aliases := by
  rw [← aliases_bind ref known]
  exact moduleAt_update_field Module.aliases fun _ => rfl

theorem lookup_linked (name : Text) : (g.linked parent ref child).owners.lookup name =
    if name = ref.target ∧ g.owners.lookup name = none then some child
    else g.owners.lookup name :=
  lookup_bind ref name

theorem lookup_linked_of_some {name : Text} {owner : ModuleId}
    (found : g.owners.lookup name = some owner) :
    (g.linked parent ref child).owners.lookup name = some owner := by
  rw [lookup_linked, if_neg, found]
  rintro ⟨-, free⟩
  rw [found] at free
  cases free

theorem mem_warnings_linked {warning : Warning} :
    warning ∈ (g.linked parent ref child).warnings ↔ warning ∈ g.warnings ∨
      ∃ owner, g.owners.lookup ref.target = some owner ∧ owner ≠ child ∧
        warning = .aliasConflict ⟨ref.target, g.path owner, g.path child, ref.requiringFile⟩ :=
  mem_warnings_bind ref warning

end Linked

section Entered

variable {source : Text} {calls : List DynamicRequire}

@[simp] theorem size_entered : (g.entered id source calls).modules.size = g.modules.size := by
  simp [entered]

@[simp] theorem members_entered : (g.entered id source calls).members = g.members := rfl

@[simp] theorem order_entered : (g.entered id source calls).order = g.order := rfl

@[simp] theorem entry_entered : (g.entered id source calls).entry = g.entry := rfl

theorem moduleAt_entered : (g.entered id source calls).moduleAt other =
    if other = id ∧ id < g.modules.size then { g.moduleAt other with color := .gray, source }
    else g.moduleAt other :=
  moduleAt_update g id other _

theorem moduleAt_entered_field {α : Type} (field : Module → α)
    (keeps : ∀ m, field { m with color := .gray, source } = field m) :
    field ((g.entered id source calls).moduleAt other) = field (g.moduleAt other) :=
  moduleAt_update_field field keeps

@[simp] theorem path_entered : (g.entered id source calls).path other = g.path other :=
  moduleAt_entered_field Module.path fun _ => rfl

@[simp] theorem children_entered :
    ((g.entered id source calls).moduleAt other).children = (g.moduleAt other).children :=
  moduleAt_entered_field Module.children fun _ => rfl

@[simp] theorem deferred_entered :
    ((g.entered id source calls).moduleAt other).deferred = (g.moduleAt other).deferred :=
  moduleAt_entered_field Module.deferred fun _ => rfl

@[simp] theorem aliases_entered :
    ((g.entered id source calls).moduleAt other).aliases = (g.moduleAt other).aliases :=
  moduleAt_entered_field Module.aliases fun _ => rfl

end Entered

@[simp] theorem size_left : (g.left id).modules.size = g.modules.size := by simp [left]

@[simp] theorem order_left : (g.left id).order = g.order ++ [id] := rfl

theorem moduleAt_left : (g.left id).moduleAt other =
    if other = id ∧ id < g.modules.size then { g.moduleAt other with color := .black }
    else g.moduleAt other :=
  moduleAt_update g id other _

theorem moduleAt_left_field {α : Type} (field : Module → α)
    (keeps : ∀ m, field { m with color := .black } = field m) :
    field ((g.left id).moduleAt other) = field (g.moduleAt other) :=
  moduleAt_update_field field keeps

@[simp] theorem path_left : (g.left id).path other = g.path other :=
  moduleAt_left_field Module.path fun _ => rfl

@[simp] theorem source_left : ((g.left id).moduleAt other).source = (g.moduleAt other).source :=
  moduleAt_left_field Module.source fun _ => rfl

@[simp] theorem children_left :
    ((g.left id).moduleAt other).children = (g.moduleAt other).children :=
  moduleAt_left_field Module.children fun _ => rfl

@[simp] theorem deferred_left :
    ((g.left id).moduleAt other).deferred = (g.moduleAt other).deferred :=
  moduleAt_left_field Module.deferred fun _ => rfl

@[simp] theorem aliases_left :
    ((g.left id).moduleAt other).aliases = (g.moduleAt other).aliases :=
  moduleAt_left_field Module.aliases fun _ => rfl

/-! ### Members and numbers -/

/-- The members are all modules in the order of their numbers, and their paths differ. -/
structure Indexed (g : Graph) : Prop where
  members : g.members = (List.range g.modules.size).map fun id => (g.path id, id)
  paths : ∀ a < g.modules.size, ∀ b < g.modules.size, g.path a = g.path b → a = b

namespace Indexed

theorem memberIds (indexed : g.Indexed) : g.memberIds = List.range g.modules.size := by
  simp [Graph.memberIds, indexed.members, Function.comp_def]

theorem mem_memberIds (indexed : g.Indexed) : id ∈ g.memberIds ↔ id < g.modules.size := by
  simp [indexed.memberIds]

theorem length_members (indexed : g.Indexed) : g.members.length = g.modules.size := by
  simp [indexed.members]

/-- The member under a path is the module with that path. -/
theorem member?_eq_some_iff (indexed : g.Indexed) {path : Text} :
    g.member? path = some id ↔ id < g.modules.size ∧ g.path id = path := by
  unfold member?
  constructor
  · intro found
    have listed := mem_of_lookup_eq_some found
    rw [indexed.members] at listed
    simp only [List.mem_map, List.mem_range, Prod.mk.injEq] at listed
    obtain ⟨a, inside, named, rfl⟩ := listed
    exact ⟨inside, named⟩
  · rintro ⟨inside, named⟩
    have listed : (path, id) ∈ g.members := by
      rw [indexed.members]
      exact List.mem_map.mpr ⟨id, List.mem_range.mpr inside, by rw [named]⟩
    obtain ⟨a, found⟩ : ∃ a, g.members.lookup path = some a := by
      cases looked : g.members.lookup path with
      | some a => exact ⟨a, rfl⟩
      | none =>
        have := List.lookup_eq_none_iff.mp looked (path, id) listed
        simp at this
    have listedToo := mem_of_lookup_eq_some found
    rw [indexed.members] at listedToo
    simp only [List.mem_map, List.mem_range, Prod.mk.injEq] at listedToo
    obtain ⟨b, insideToo, namedToo, rfl⟩ := listedToo
    rw [found, indexed.paths b insideToo id inside (namedToo.trans named.symm)]

theorem congr (indexed : g.Indexed) {g' : Graph} (size : g'.modules.size = g.modules.size)
    (members : g'.members = g.members) (paths : ∀ id, g'.path id = g.path id) : g'.Indexed where
  members := by
    rw [members, indexed.members, size]
    simp only [paths]
  paths a insideA b insideB same := by
    rw [size] at insideA insideB
    rw [paths, paths] at same
    exact indexed.paths a insideA b insideB same

theorem member?_eq_none_iff (indexed : g.Indexed) {path : Text} :
    g.member? path = none ↔ ∀ id < g.modules.size, g.path id ≠ path := by
  constructor
  · intro absent id inside named
    rw [indexed.member?_eq_some_iff.mpr ⟨inside, named⟩] at absent
    cases absent
  · intro differ
    cases found : g.member? path with
    | none => rfl
    | some id =>
      obtain ⟨inside, named⟩ := indexed.member?_eq_some_iff.mp found
      exact absurd named (differ id inside)

theorem map_members (indexed : g.Indexed) :
    g.members.map (·.1) = (List.range g.modules.size).map g.path := by
  rw [indexed.members, List.map_map]
  rfl

theorem nodup_members (indexed : g.Indexed) : (g.members.map (·.1)).Nodup := by
  rw [indexed.map_members]
  refine List.pairwise_map.mpr (List.nodup_range.imp_of_mem fun {a b} insideA insideB differ same => ?_)
  exact differ (indexed.paths a (List.mem_range.mp insideA) b (List.mem_range.mp insideB) same)

theorem not_mem_members (indexed : g.Indexed) {path : Text} (fresh : g.member? path = none) :
    path ∉ g.members.map (·.1) := by
  rw [indexed.map_members, List.mem_map]
  rintro ⟨id, inside, named⟩
  exact indexed.member?_eq_none_iff.mp fresh id (List.mem_range.mp inside) named

theorem extend (indexed : g.Indexed) {path : Text} (fresh : g.member? path = none) :
    (g.extend path).Indexed where
  members := by
    have old : ∀ id ∈ List.range g.modules.size,
        ((g.extend path).path id, id) = (g.path id, id) := by
      intro id inside
      rw [path_extend_lt path (List.mem_range.mp inside)]
    rw [size_extend, List.range_succ, List.map_append, List.map_congr_left old, ← indexed.members]
    simp only [List.map_cons, List.map_nil, path_extend_size]
    rfl
  paths a insideA b insideB same := by
    have differ := indexed.member?_eq_none_iff.mp fresh
    have new : (g.extend path).path g.modules.size = path := path_extend_size path
    rw [size_extend] at insideA insideB
    rcases Nat.lt_succ_iff_lt_or_eq.mp insideA with oldA | rfl <;>
      rcases Nat.lt_succ_iff_lt_or_eq.mp insideB with oldB | rfl
    · rw [path_extend_lt path oldA, path_extend_lt path oldB] at same
      exact indexed.paths a oldA b oldB same
    · rw [path_extend_lt path oldA, new] at same
      exact absurd same (differ a oldA)
    · rw [path_extend_lt path oldB, new] at same
      exact absurd same.symm (differ b oldB)
    · rfl

end Indexed

end Graph

end LuaLink
