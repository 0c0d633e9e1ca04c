import LuaLink.Failure

/-! Computations that can fail.  What a sequence of them gives is told by what each of them gives, two
sequences agree if their parts do, and one repeats the other if each part does. -/

namespace LuaLink

variable {ε ε' α β γ : Type}

/-- A sequence succeeds if its first part does and the rest does with the value of it. -/
theorem bind_eq_ok {x : Except ε α} {f : α → Except ε β} {b : β} :
    (x >>= f) = .ok b ↔ ∃ a, x = .ok a ∧ f a = .ok b := by
  cases x with
  | error failure =>
    constructor
    · intro failed
      cases failed
    · rintro ⟨a, failed, -⟩
      cases failed
  | ok a =>
    constructor
    · exact fun rest => ⟨a, rfl, rest⟩
    · rintro ⟨value, same, rest⟩
      cases same
      exact rest

/-- A sequence fails if its first part does, or the rest does with the value of it. -/
theorem bind_eq_error {x : Except ε α} {f : α → Except ε β} {e : ε} :
    (x >>= f) = .error e ↔ x = .error e ∨ ∃ a, x = .ok a ∧ f a = .error e := by
  cases x with
  | error failure =>
    constructor
    · intro failed
      exact .inl (congrArg Except.error (Except.error.inj failed))
    · rintro (failed | ⟨a, value, -⟩)
      · exact congrArg Except.error (Except.error.inj failed)
      · cases value
  | ok a =>
    constructor
    · exact fun failed => .inr ⟨a, rfl, failed⟩
    · rintro (failed | ⟨value, same, failed⟩)
      · cases failed
      · cases same
        exact failed

/-- Sequences are the same if their rests do the same with the value of the first part. -/
theorem bind_congr_of_ok {x : Except ε α} {f g : α → Except ε β} (rest : ∀ a, x = .ok a → f a = g a) :
    (x >>= f) = x >>= g := by
  cases x with
  | error failure => rfl
  | ok a => exact rest a rfl

theorem mapError_eq_ok {x : Except ε α} {f : ε → ε'} {a : α} : x.mapError f = .ok a ↔ x = .ok a := by
  cases x with
  | error failure => constructor <;> exact nofun
  | ok value =>
    constructor
    · intro same
      exact congrArg Except.ok (Except.ok.inj same)
    · intro same
      exact congrArg Except.ok (Except.ok.inj same)

theorem map_eq_ok_iff {x : Except ε α} {f : α → β} {b : β} :
    x.map f = .ok b ↔ ∃ a, x = .ok a ∧ f a = b := by
  cases x with
  | error failure =>
    constructor
    · exact nofun
    · rintro ⟨a, failed, -⟩
      cases failed
  | ok a =>
    constructor
    · exact fun same => ⟨a, rfl, Except.ok.inj same⟩
    · rintro ⟨value, same, rfl⟩
      cases same
      rfl

theorem map_eq_error_iff {x : Except ε α} {f : α → β} {e : ε} : x.map f = .error e ↔ x = .error e := by
  cases x with
  | error failure =>
    constructor
    · intro same
      exact congrArg Except.error (Except.error.inj same)
    · intro same
      exact congrArg Except.error (Except.error.inj same)
  | ok value => constructor <;> exact nofun

theorem mapError_eq_error {x : Except ε α} {f : ε → ε'} {e : ε'} :
    x.mapError f = .error e ↔ ∃ failure, x = .error failure ∧ f failure = e := by
  cases x with
  | error failure =>
    constructor
    · exact fun same => ⟨failure, rfl, Except.error.inj same⟩
    · rintro ⟨other, same, rfl⟩
      cases same
      rfl
  | ok value =>
    constructor
    · intro same
      cases same
    · rintro ⟨failure, same, -⟩
      cases same

theorem eq_ok_of_toOption {x : Except ε α} {a : α} (value : x.toOption = some a) : x = .ok a := by
  cases x with
  | error failure => cases value
  | ok found => exact congrArg Except.ok (Option.some.inj value)

theorem mapM_congr_of_mem {f g : α → Except ε β} {xs : List α} (each : ∀ x ∈ xs, f x = g x) :
    xs.mapM f = xs.mapM g := by
  induction xs with
  | nil => rfl
  | cons x rest ih =>
    rw [List.mapM_cons, List.mapM_cons, each x List.mem_cons_self,
      ih fun other member => each other (List.mem_cons_of_mem x member)]

theorem mapM_append_eq_ok {f : β → Except ε γ} {xs ys : List β} {xValues yValues : List γ}
    (first : xs.mapM f = .ok xValues) (second : ys.mapM f = .ok yValues) :
    (xs ++ ys).mapM f = .ok (xValues ++ yValues) := by
  rw [List.mapM_append, first, second]
  rfl

theorem mapM_flatMap_eq_ok {f : β → Except ε γ} {part : α → List β} {values : α → List γ}
    {xs : List α} (each : ∀ x ∈ xs, (part x).mapM f = .ok (values x)) :
    (xs.flatMap part).mapM f = .ok (xs.flatMap values) := by
  induction xs with
  | nil => rfl
  | cons x rest ih =>
    have later := ih fun other member => each other (List.mem_cons_of_mem x member)
    exact mapM_append_eq_ok (each x (by simp)) later

theorem mapM_mem {f : α → Except ε β} {xs : List α} {ys : List β} (mapped : xs.mapM f = .ok ys) :
    (∀ y ∈ ys, ∃ x ∈ xs, f x = .ok y) ∧ ∀ x ∈ xs, ∃ y ∈ ys, f x = .ok y := by
  induction xs generalizing ys with
  | nil =>
    cases mapped
    exact ⟨nofun, nofun⟩
  | cons x rest ih =>
    rw [List.mapM_cons] at mapped
    obtain ⟨y, found, mapped⟩ := bind_eq_ok.mp mapped
    obtain ⟨others, later, mapped⟩ := bind_eq_ok.mp mapped
    cases mapped
    obtain ⟨values, arguments⟩ := ih later
    constructor
    · refine List.forall_mem_cons.mpr ⟨⟨x, List.mem_cons_self, found⟩, fun value member => ?_⟩
      obtain ⟨other, listed, same⟩ := values value member
      exact ⟨other, List.mem_cons_of_mem _ listed, same⟩
    · refine List.forall_mem_cons.mpr ⟨⟨y, List.mem_cons_self, found⟩, fun other member => ?_⟩
      obtain ⟨value, listed, same⟩ := arguments other member
      exact ⟨value, List.mem_cons_of_mem _ listed, same⟩

theorem mapM_eq_ok_map {f : α → Except ε β} {g : α → β} {xs : List α} (each : ∀ x ∈ xs, f x = .ok (g x)) :
    xs.mapM f = .ok (xs.map g) := by
  induction xs with
  | nil => rfl
  | cons x rest ih =>
    rw [List.mapM_cons, each x List.mem_cons_self,
      ih fun other member => each other (List.mem_cons_of_mem x member)]
    rfl

theorem exists_of_mapM_eq_error {f : α → Except ε β} {xs : List α} {e : ε} (failed : xs.mapM f = .error e) :
    ∃ x ∈ xs, f x = .error e := by
  induction xs with
  | nil => cases failed
  | cons x rest ih =>
    rw [List.mapM_cons] at failed
    cases first : f x with
    | error other =>
      rw [first] at failed
      exact ⟨x, List.mem_cons_self, by rw [first, Except.error.inj failed]⟩
    | ok y =>
      rw [first] at failed
      cases later : rest.mapM f with
      | error other =>
        rw [later] at failed
        obtain ⟨found, member, same⟩ := ih (by rw [later, Except.error.inj failed])
        exact ⟨found, List.mem_cons_of_mem x member, same⟩
      | ok ys =>
        rw [later] at failed
        cases failed

/-- Where each part fails with its fault if it has one, the whole fails with the first fault. -/
theorem mapM_eq_error_of_findSome? {f : α → Except ε β} {fault : α → Option ε} {xs : List α} {e : ε}
    (fails : ∀ x e, fault x = some e → f x = .error e) (succeeds : ∀ x, fault x = none → ∃ y, f x = .ok y)
    (first : xs.findSome? fault = some e) : xs.mapM f = .error e := by
  induction xs with
  | nil => cases first
  | cons x rest ih =>
    rw [List.mapM_cons]
    rw [List.findSome?_cons] at first
    cases here : fault x with
    | some other =>
      rw [here] at first
      rw [fails x other here, Option.some.inj first]
      rfl
    | none =>
      rw [here] at first
      obtain ⟨y, value⟩ := succeeds x here
      rw [value, ih first]
      rfl

theorem exists_mapM_eq_ok_iff {f : α → Except ε β} {xs : List α} :
    (∃ ys, xs.mapM f = .ok ys) ↔ ∀ x ∈ xs, ∃ y, f x = .ok y := by
  constructor
  · rintro ⟨ys, mapped⟩ x member
    obtain ⟨y, -, value⟩ := (mapM_mem mapped).2 x member
    exact ⟨y, value⟩
  · intro each
    cases mapped : xs.mapM f with
    | ok ys => exact ⟨ys, rfl⟩
    | error e =>
      obtain ⟨x, member, failed⟩ := exists_of_mapM_eq_error mapped
      obtain ⟨y, value⟩ := each x member
      rw [failed] at value
      cases value

theorem map_eq_map_of_mapM {f : α → Except ε β} {g : α → γ} {h : β → γ} {xs : List α} {ys : List β}
    (each : ∀ x ∈ xs, ∀ y, f x = .ok y → h y = g x) (mapped : xs.mapM f = .ok ys) :
    ys.map h = xs.map g := by
  induction xs generalizing ys with
  | nil =>
    cases mapped
    rfl
  | cons x rest ih =>
    rw [List.mapM_cons] at mapped
    obtain ⟨y, found, mapped⟩ := bind_eq_ok.mp mapped
    obtain ⟨others, later, mapped⟩ := bind_eq_ok.mp mapped
    cases mapped
    rw [List.map_cons, List.map_cons, each x List.mem_cons_self y found,
      ih (fun other member => each other (List.mem_cons_of_mem x member)) later]

theorem eq_map_of_mapM {f : α → Except ε β} {g : α → β} {xs : List α} {ys : List β}
    (each : ∀ x ∈ xs, ∀ y, f x = .ok y → y = g x) (mapped : xs.mapM f = .ok ys) : ys = xs.map g := by
  rw [← map_eq_map_of_mapM (h := fun y => y) each mapped, List.map_id']

/-! ### Computations that agree -/

/-- Both computations succeed, with values that are alike, or both fail, with failures that are alike. -/
inductive Agree (fails : ε → ε' → Prop) (alike : α → β → Prop) : Except ε α → Except ε' β → Prop
  | ok {a : α} {b : β} (same : alike a b) : Agree fails alike (.ok a) (.ok b)
  | error {e : ε} {e' : ε'} (same : fails e e') : Agree fails alike (.error e) (.error e')

namespace Agree

variable {δ ε₁ ε₂ : Type} {fails : ε → ε' → Prop} {alike : α → β → Prop} {x : Except ε α}
  {y : Except ε' β}

theorem mono {alike' : α → β → Prop} (agree : Agree fails alike x y)
    (weaker : ∀ a b, x = .ok a → alike a b → alike' a b) : Agree fails alike' x y := by
  cases agree with
  | ok same => exact .ok (weaker _ _ rfl same)
  | error same => exact .error same

/-- Sequences agree if their first parts do, and the rests do with values of these that are alike. -/
theorem bind {after : γ → δ → Prop} {f : α → Except ε γ} {g : β → Except ε' δ}
    (agree : Agree fails alike x y)
    (rest : ∀ a b, x = .ok a → y = .ok b → alike a b → Agree fails after (f a) (g b)) :
    Agree fails after (x >>= f) (y >>= g) := by
  cases agree with
  | ok same => exact rest _ _ rfl rfl same
  | error same => exact .error same

theorem mapError {fails' : ε₁ → ε₂ → Prop} {f : ε → ε₁} {g : ε' → ε₂} (agree : Agree fails alike x y)
    (same : ∀ e e', fails e e' → fails' (f e) (g e')) :
    Agree fails' alike (x.mapError f) (y.mapError g) := by
  cases agree with
  | ok same => exact .ok same
  | error fault => exact .error (same _ _ fault)

/-- Two computations that agree with a third one agree with each other. -/
theorem meet {fails' : ε₁ → ε' → Prop} {failsBoth : ε → ε₁ → Prop} {alike' : γ → β → Prop}
    {both : α → γ → Prop} {z : Except ε₁ γ} (first : Agree fails alike x y)
    (second : Agree fails' alike' z y) (fault : ∀ e e₁ e', fails e e' → fails' e₁ e' → failsBoth e e₁)
    (value : ∀ a c b, alike a b → alike' c b → both a c) : Agree failsBoth both x z := by
  cases first with
  | ok same =>
    cases second with
    | ok same' => exact .ok (value _ _ _ same same')
  | error same =>
    cases second with
    | error same' => exact .error (fault _ _ _ same same')

theorem mapM {xs : List γ} {f : γ → Except ε α} {g : γ → Except ε' β} {u : γ → α} {v : γ → β}
    (each : ∀ x ∈ xs, Agree fails (fun a b => a = u x ∧ b = v x) (f x) (g x)) :
    Agree fails (fun as bs => as = xs.map u ∧ bs = xs.map v) (xs.mapM f) (xs.mapM g) := by
  induction xs with
  | nil => exact .ok ⟨rfl, rfl⟩
  | cons x rest ih =>
    rw [List.mapM_cons, List.mapM_cons]
    refine (each x List.mem_cons_self).bind ?_
    rintro a b - - ⟨rfl, rfl⟩
    refine (ih fun other member => each other (List.mem_cons_of_mem x member)).bind ?_
    rintro as bs - - ⟨rfl, rfl⟩
    exact .ok ⟨rfl, rfl⟩

end Agree

/-! ### Computations that repeat others -/

/-- The second computation does what the first one does, unless that one fails in an excused way. -/
def Unless (excused : ε → Prop) (x y : Except ε α) : Prop := (∀ e, x = .error e → ¬ excused e) → y = x

namespace Unless

variable {excused : ε → Prop} {x y : Except ε α}

theorem refl (excused : ε → Prop) (x : Except ε α) : Unless excused x x := fun _ => rfl

theorem eq_ok (repeats : Unless excused x y) {a : α} (value : x = .ok a) : y = .ok a := by
  subst value
  exact repeats nofun

theorem of_ok (value : ∀ a, x = .ok a → y = .ok a) : Unless (fun _ => True) x y := by
  intro unexcused
  cases x with
  | error e => exact absurd trivial (unexcused e rfl)
  | ok a => exact value a rfl

theorem bind {f g : α → Except ε β} (first : Unless excused x y)
    (rest : ∀ a, x = .ok a → Unless excused (f a) (g a)) : Unless excused (x >>= f) (y >>= g) := by
  intro unexcused
  cases x with
  | error e =>
    rw [first fun failure same => unexcused failure (by cases same; rfl)]
    rfl
  | ok a =>
    rw [first nofun]
    exact rest a rfl unexcused

end Unless

/-- Failures of one class. -/
def Failure.Alike (failure failure' : Failure) : Prop := failure.kind = failure'.kind

end LuaLink
