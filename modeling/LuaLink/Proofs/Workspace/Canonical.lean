import Mathlib.Data.Nat.Find
import LuaLink.Proofs.Workspace

/-! Canonical paths.  Settling a path ends where following it does. -/

namespace LuaLink.Workspace

open Utf8 (Spells)
open FileTree (Plain Goes)

variable {ws : Workspace} {t : Text} {shown rest : List Text} {place final : Place} {name : Name}
  {names : List Name} {n : Nat}

/-- The links of a tree stand at places whose paths may be followed. -/
def Within (ws : Workspace) : Prop := ∀ place ∈ ws.tree.links, place.bytes.length ≤ FileTree.maxPath

instance (ws : Workspace) : Decidable ws.Within :=
  inferInstanceAs (Decidable (∀ place ∈ ws.tree.links, place.bytes.length ≤ FileTree.maxPath))

/-- The link at a place with the path that it holds, if there is one. -/
def linkAt (ws : Workspace) (place : Place) : Option (Place × Text) :=
  match ws.tree.entry? place with
  | some (.link target) => some (place, Utf8.decodeName target)
  | _ => none

theorem linkAt_link {target : Bytes} (link : ws.tree.entry? place = some (.link target)) :
    ws.linkAt place = some (place, Utf8.decodeName target) := by
  rw [linkAt, link]

theorem linkAt_other {entry : Entry} (here : ws.tree.entry? place = some entry)
    (noLink : ∀ target, entry ≠ .link target) : ws.linkAt place = none := by
  rw [linkAt, here]
  cases entry with
  | link target => exact absurd rfl (noLink target)
  | directory => rfl
  | file => rfl

/-- Behind directories a path leads to what stands there. -/
theorem link?_eq (within : ws.Within) (plain : Plain name) (solid : ws.tree.Solid place)
    (spelled : List.Forall₂ Spells (t :: shown) (name :: place))
    (readable : 0 ∉ Place.bytes (name :: place)) :
    ws.link? (pathOf (t :: shown)) = .ok (ws.linkAt (name :: place)) := by
  have spells := spells_pathOf spelled
  by_cases short : (Place.bytes (name :: place)).length ≤ FileTree.maxPath
  · have way : wayOf (pathOf (t :: shown)) = .ok (Place.bytes (name :: place)) :=
      wayOf_eq_ok_iff.mpr ⟨⟨spells, readable⟩, List.cons_ne_nil _ _, short⟩
    rw [link?, locate_solid plain solid way, FileTree.walk_last plain, linkAt]
    cases ws.tree.entry? (name :: place) with
    | none => rfl
    | some entry => cases entry <;> rfl
  · have none : ws.linkAt (name :: place) = none := by
      unfold linkAt
      split
      · rename_i target link
        exact absurd (within _ (FileTree.mem_links link)) short
      · rfl
    rw [link?, locate, wayOf_long spells readable (Nat.lt_of_not_le short), none]
    rfl

/-! ### Settling follows a path -/

theorem idle_eq (spells : Spells t name) :
    (t.isEmpty || decide (t = Text.ofString ".")) = FileTree.staysHere name := by
  have empty : t.isEmpty = name.isEmpty := by
    rw [Bool.eq_iff_iff, List.isEmpty_iff, List.isEmpty_iff]
    exact spells.nil_iff
  have here : decide (t = Text.ofString ".") = (name == FileTree.here) := by
    rw [Bool.eq_iff_iff, decide_eq_true_iff, beq_iff_eq]
    exact spells.here_iff
  rw [empty, here]
  rfl

theorem settle_idle {links : List Place} {known : Replacements}
    (idle : (t.isEmpty || decide (t = Text.ofString ".")) = true) :
    ws.settle links known shown (t :: rest) = ws.settle links known shown rest := by
  rw [settle, if_pos idle]

theorem settle_up {links : List Place} {known : Replacements} :
    ws.settle links known shown (Text.ofString ".." :: rest) =
      ws.settle links known shown.tail rest := by
  rw [settle, if_neg (by decide), if_pos rfl]

/-- A name at which settling looks for a link. -/
structure Sought (t : Text) : Prop where
  moves : ¬ (t.isEmpty || decide (t = Text.ofString ".")) = true
  other : t ≠ Text.ofString ".."

theorem Sought.of_plain (plain : Path.Plain t) : Sought t :=
  ⟨by simp [plain.some, plain.notHere], plain.notAbove⟩

theorem settle_refused {links : List Place} {known : Replacements} {fault : NameFault}
    (sought : Sought t) (looked : ws.link? (pathOf (t :: shown)) = .error fault) :
    ws.settle links known shown (t :: rest) = .error fault := by
  rw [settle, if_neg sought.moves, if_neg sought.other, looked]

/-- What is settled holds no byte 0. -/
theorem readable_of_settle {links : List Place} {known : Replacements} {trail : Trail}
    (plain : Path.Plain t) (spelled : List.Forall₂ Spells (t :: shown) (name :: place))
    (settled : ws.settle links known shown (t :: rest) = .ok trail) :
    0 ∉ Place.bytes (name :: place) := by
  intro zero
  have refused : ws.link? (pathOf (t :: shown)) = .error .holdsZero := by
    rw [link?, locate, wayOf_zero (spells_pathOf spelled) zero]
    rfl
  rw [settle_refused (.of_plain plain) refused] at settled
  cases settled

theorem settle_free {links : List Place} {known : Replacements} (sought : Sought t)
    (looked : ws.link? (pathOf (t :: shown)) = .ok none) :
    ws.settle links known shown (t :: rest) = ws.settle links known (t :: shown) rest := by
  rw [settle, if_neg sought.moves, if_neg sought.other, looked]

theorem settle_known {links : List Place} {known : Replacements} {link : Place} {target : Text}
    {led : List Text} (sought : Sought t)
    (looked : ws.link? (pathOf (t :: shown)) = .ok (some (link, target)))
    (found : known.lookup link = some led) :
    ws.settle links known shown (t :: rest) = ws.settle links known led rest := by
  rw [settle, if_neg sought.moves, if_neg sought.other, looked]
  dsimp only
  rw [found]

/-- A link is replaced by where the path that it holds is settled. -/
theorem settle_link {links : List Place} {known : Replacements} {link : Place} {target way : Text}
    {start : List Text} (sought : Sought t)
    (looked : ws.link? (pathOf (t :: shown)) = .ok (some (link, target)))
    (fresh : known.lookup link = none) (open_ : link ∈ links)
    (held : (if Path.isAbsolute target then ([], target.tail) else (shown, target)) = (start, way)) :
    ws.settle links known shown (t :: rest) =
      match ws.settle (links.erase link) known start (Text.split Path.separator way) with
      | .error fault => .error fault
      | .ok (.settled led known) => ws.settle links ((link, led) :: known) led rest
      | .ok (.circular path) => .ok (.circular (Path.join path (Text.join "/" rest))) := by
  rw [settle, if_neg sought.moves, if_neg sought.other, looked]
  dsimp only
  rw [fresh]
  dsimp only
  rw [dif_pos open_]
  generalize (if Path.isAbsolute target then ([], target.tail) else (shown, target)) = first at held ⊢
  subst held
  rfl

/-- A link that is being replaced already leads back to itself. -/
theorem settle_circular {links : List Place} {known : Replacements} {link : Place} {target : Text}
    (sought : Sought t) (looked : ws.link? (pathOf (t :: shown)) = .ok (some (link, target)))
    (fresh : known.lookup link = none) (closed : link ∉ links) :
    ws.settle links known shown (t :: rest) =
      .ok (.circular (Path.join (pathOf (t :: shown)) (Text.join "/" rest))) := by
  rw [settle, if_neg sought.moves, if_neg sought.other, looked]
  dsimp only
  rw [fresh]
  exact dif_neg closed

/-- The path that a link holds leads to a place, through links to less than a height. -/
def Holds (ws : Workspace) (n : Nat) : Place → Place → Prop
  | [], _ => False
  | name :: around, final => ∃ target, ws.tree.entry? (name :: around) = some (.link target) ∧
      ws.tree.Goes n (FileTree.startOf target around) (FileTree.pieces target) final

theorem Holds.unique {link middle : Place} {m : Nat} (first : ws.Holds m link middle)
    (second : ws.Holds n link final) : middle = final := by
  cases link with
  | nil => exact first.elim
  | cons name around =>
    obtain ⟨target, here, goes⟩ := first
    obtain ⟨other, there, goesOther⟩ := second
    rw [here] at there
    cases there
    exact goes.unique goesOther

theorem Holds.mem_links {link : Place} (holds : ws.Holds n link final) : link ∈ ws.tree.links := by
  cases link with
  | nil => exact holds.elim
  | cons =>
    obtain ⟨target, here, -⟩ := holds
    exact FileTree.mem_links here

theorem Holds.least {link : Place} (holds : ws.Holds n link final) :
    ∃ k ≤ n, ws.Holds k link final ∧ ∀ j < k, ¬ ws.Holds j link final := by
  classical
  have some : ∃ k, ws.Holds k link final := ⟨n, holds⟩
  exact ⟨Nat.find some, Nat.find_min' some holds, Nat.find_spec some, fun j => Nat.find_min some⟩

/-- A way to take texts for names: they spell the names, and so are taken the pieces of a path that is
read from a link. -/
structure Reading (R : Text → Name → Prop) : Prop where
  spells : ∀ t name, R t name → Spells t name
  pieces : ∀ target, List.Forall₂ R (Text.split Path.separator (Utf8.decodeName target))
    (FileTree.pieces target)

theorem reading_spells : Reading Spells where
  spells _ _ := id
  pieces target := (Utf8.spells_decodeName target).split

theorem reading_decoded : Reading fun t name => t = Utf8.decodeName name where
  spells := by
    rintro _ name rfl
    exact Utf8.spells_decodeName name
  pieces target := by
    show List.Forall₂ _ (Text.split '/' _) _
    rw [Utf8.split_decodeName, List.forall₂_map_left_iff]
    exact List.forall₂_same.mpr fun _ _ => rfl

variable {R : Text → Name → Prop}

theorem Reading.nil (reading : Reading R) : R [] [] :=
  (List.forall₂_cons.mp (reading.pieces [])).1

theorem Reading.here (reading : Reading R) : R (Text.ofString ".") FileTree.here :=
  (List.forall₂_cons.mp (reading.pieces FileTree.here)).1

/-- Links that are known were replaced by what they lead to. -/
def Learnt (ws : Workspace) (R : Text → Name → Prop) (known : Replacements) : Prop :=
  ∀ link led, known.lookup link = some led →
    ∃ m middle, ws.Holds m link middle ∧ List.Forall₂ R led middle

theorem learnt_nil (ws : Workspace) (R : Text → Name → Prop) : ws.Learnt R [] := by
  intro link led look
  cases look

theorem Learnt.cons {known : Replacements} {link middle : Place} {led : List Text}
    (learnt : ws.Learnt R known) (holds : ws.Holds n link middle)
    (spelled : List.Forall₂ R led middle) : ws.Learnt R ((link, led) :: known) := by
  intro other found look
  by_cases same : other = link
  · subst same
    rw [List.lookup_cons_self] at look
    cases look
    exact ⟨n, middle, holds, spelled⟩
  · rw [List.lookup_cons, beq_eq_false_iff_ne.mpr same] at look
    exact learnt other found look

/-- Paths that lead somewhere, through links up to a height, are settled there. -/
def Settles (ws : Workspace) (R : Text → Name → Prop) (n : Nat) : Prop :=
  ∀ ⦃place names final⦄, ws.tree.Goes n place names final →
    ∀ ⦃links known shown rest trail⦄,
      (∀ m < n, ∀ link middle, ws.Holds m link middle → link ∈ links) → ws.Learnt R known →
      List.Forall₂ R shown place → List.Forall₂ R rest names →
      ws.settle links known shown rest = .ok trail →
      ∃ led known', trail = .settled led known' ∧ ws.Learnt R known' ∧ List.Forall₂ R led final

/-- The path that a link holds, as it is settled. -/
theorem exists_way (reading : Reading R) {target : Bytes} {middle : Place}
    (goes : ws.tree.Goes n (FileTree.startOf target place) (FileTree.pieces target) middle)
    (spelled : List.Forall₂ R shown place) :
    ∃ start way origin names, (if Path.isAbsolute (Utf8.decodeName target) then
        ([], (Utf8.decodeName target).tail) else (shown, Utf8.decodeName target)) = (start, way) ∧
      List.Forall₂ R start origin ∧
      List.Forall₂ R (Text.split Path.separator way) names ∧ ws.tree.Goes n origin names middle := by
  have spells := Utf8.spells_decodeName target
  by_cases absolute : Path.isAbsolute (Utf8.decodeName target) = true
  · have head := (isAbsolute_iff spells).mp absolute
    rw [FileTree.startOf, if_pos head] at goes
    obtain ⟨way, whole⟩ := Path.exists_of_isAbsolute absolute
    have pieces := reading.pieces target
    rw [if_pos absolute]
    rw [whole, Text.split_eq_splitOn] at pieces
    rw [splitOn_cons_self, List.forall₂_cons_left_iff] at pieces
    obtain ⟨empty, names, nothing, later, same⟩ := pieces
    obtain rfl := (reading.spells _ _ nothing).nil_iff.mp rfl
    rw [same] at goes
    refine ⟨[], way, [], names, by rw [whole]; rfl, .nil, ?_, goes.stay_inv rfl⟩
    rw [Text.split_eq_splitOn]
    exact later
  · have head : target.head? ≠ some FileTree.slash := fun head =>
      absolute ((isAbsolute_iff spells).mpr head)
    rw [FileTree.startOf, if_neg head] at goes
    rw [if_neg absolute]
    exact ⟨_, _, place, _, rfl, spelled, reading.pieces target, goes⟩

/-- A link on the way is replaced by where it leads, if paths through no more links are settled. -/
theorem settle_replaced (reading : Reading R) {target : Bytes} {links : List Place} {known : Replacements}
    {trail : Trail} (lower : ∀ k ≤ n, ws.Settles R k) (plain : Path.Plain t)
    (looked : ws.link? (pathOf (t :: shown)) = .ok (some (name :: place, Utf8.decodeName target)))
    (here : ws.tree.entry? (name :: place) = some (.link target))
    (inside : ws.tree.Goes n (FileTree.startOf target place) (FileTree.pieces target) final)
    (open_ : ∀ k ≤ n, ∀ link middle, ws.Holds k link middle → link ∈ links)
    (learnt : ws.Learnt R known) (spelled : List.Forall₂ R shown place)
    (settled : ws.settle links known shown (t :: rest) = .ok trail) :
    ∃ led known', ws.Learnt R known' ∧ List.Forall₂ R led final ∧
      ws.settle links known' led rest = .ok trail := by
  have holds : ws.Holds n (name :: place) final := ⟨target, here, inside⟩
  cases found : known.lookup (name :: place) with
  | some led =>
    rw [settle_known (.of_plain plain) looked found] at settled
    obtain ⟨height, middle, held, spelledLed⟩ := learnt _ _ found
    obtain rfl := holds.unique held
    exact ⟨led, known, learnt, spelledLed, settled⟩
  | none =>
    -- At the least height the link does not lead through itself.
    obtain ⟨height, below, held, least⟩ := holds.least
    obtain ⟨other, there, goes⟩ := held
    rw [here] at there
    cases there
    obtain ⟨start, way, origin, wayNames, held, spelledStart, spelledWay, goes⟩ :=
      exists_way reading goes spelled
    have others : ∀ k < height, ∀ link middle, ws.Holds k link middle →
        link ∈ links.erase (name :: place) := by
      intro k small link middle leads
      refine (List.mem_erase_of_ne ?_).mpr (open_ k (by omega) link middle leads)
      rintro rfl
      exact least k small (leads.unique holds ▸ leads)
    rw [settle_link (.of_plain plain) looked found (open_ n le_rfl _ _ holds) held] at settled
    cases inner : ws.settle (links.erase (name :: place)) known start
        (Text.split Path.separator way) with
    | error fault =>
      rw [inner] at settled
      cases settled
    | ok trail =>
      obtain ⟨led, known', rfl, learnt, spelledLed⟩ :=
        lower height below goes others learnt spelledStart spelledWay inner
      rw [inner] at settled
      exact ⟨led, _, learnt.cons holds spelledLed, spelledLed, settled⟩

/-- What leads somewhere is settled there, by induction on the height of the links on the way. -/
theorem settles (within : ws.Within) (reading : Reading R) (n : Nat) : ws.Settles R n := by
  induction n using Nat.strongRecOn with
  | ind n lower =>
    intro place names final goes
    induction goes with
    | done =>
      intro links known shown rest trail open_ learnt spelled spelledRest settled
      cases spelledRest
      rw [settle] at settled
      cases settled
      exact ⟨shown, known, rfl, learnt, spelled⟩
    | @stay n place final name names idle _ ih =>
      intro links known shown rest trail open_ learnt spelled spelledRest settled
      obtain ⟨t, rest, here, later, rfl⟩ := List.forall₂_cons_right_iff.mp spelledRest
      rw [settle_idle (idle_eq (reading.spells _ _ here) ▸ idle)] at settled
      exact ih lower open_ learnt spelled later settled
    | @up n place final names _ ih =>
      intro links known shown rest trail open_ learnt spelled spelledRest settled
      obtain ⟨t, rest, here, later, rfl⟩ := List.forall₂_cons_right_iff.mp spelledRest
      obtain rfl := (reading.spells _ _ here).above_iff.mpr rfl
      rw [settle_up] at settled
      have outside : List.Forall₂ R shown.tail place.tail := by
        cases spelled with
        | nil => exact .nil
        | cons _ outside => exact outside
      exact ih lower open_ learnt outside later settled
    | @enter n place final name names entry plain solid here noLink _ ih =>
      intro links known shown rest trail open_ learnt spelled spelledRest settled
      obtain ⟨t, rest, read, later, rfl⟩ := List.forall₂_cons_right_iff.mp spelledRest
      have inside : List.Forall₂ R (t :: shown) (name :: place) := .cons read spelled
      have spells := inside.imp reading.spells
      have shownPlain := plain_of_spells (reading.spells _ _ read) plain
      have looked := link?_eq within plain solid spells (readable_of_settle shownPlain spells settled)
      rw [linkAt_other here noLink] at looked
      rw [settle_free (.of_plain shownPlain) looked] at settled
      exact ih lower open_ learnt inside later settled
    | @follow m n place middle final name names target plain solid here height inside _ _ ih =>
      intro links known shown rest trail open_ learnt spelled spelledRest settled
      obtain ⟨t, rest, read, later, rfl⟩ := List.forall₂_cons_right_iff.mp spelledRest
      have spells := (List.Forall₂.cons read spelled).imp reading.spells
      have shownPlain := plain_of_spells (reading.spells _ _ read) plain
      have looked := link?_eq within plain solid spells (readable_of_settle shownPlain spells settled)
      rw [linkAt_link here] at looked
      obtain ⟨led, known', learnt, spelledLed, settled⟩ := settle_replaced reading
        (fun k le => lower k (Nat.lt_of_le_of_lt le height)) shownPlain looked here inside
        (fun k le => open_ k (Nat.lt_of_le_of_lt le height)) learnt spelled settled
      exact ih lower open_ learnt spelledLed later settled

/-! ### Canonical paths of files -/

theorem forall₂_moving (reading : Reading R) {ts : List Text} (spelled : List.Forall₂ R ts names) :
    List.Forall₂ R (Path.moving ts) (FileTree.moving names) := by
  refine List.rel_filter (fun t name read => ?_) spelled
  dsimp only
  rw [idle_eq (reading.spells t name read)]

theorem forall₂_filled {path : Text} {bytes : Bytes} (spells : Spells path bytes) :
    List.Forall₂ Spells (Path.names path)
      ((FileTree.pieces bytes).filter fun name => !name.isEmpty) := by
  refine List.rel_filter (fun t name spells => ?_) spells.split
  simpa using not_congr spells.nil_iff

/-- Texts that do not move spell names that do not. -/
theorem exists_moving (reading : Reading R) {ts : List Text}
    (spelled : List.Forall₂ R (Path.moving ts) names) :
    ∃ all, List.Forall₂ R ts all ∧ FileTree.moving all = names := by
  induction ts generalizing names with
  | nil =>
    cases spelled
    exact ⟨[], .nil, rfl⟩
  | cons t rest ih =>
    cases idle : (t.isEmpty || decide (t = Text.ofString ".")) with
    | true =>
      have kept : Path.moving (t :: rest) = Path.moving rest := List.filter_cons_of_neg (by simp [idle])
      rw [kept] at spelled
      obtain ⟨all, spelled, same⟩ := ih spelled
      obtain ⟨name, read⟩ : ∃ name, R t name := by
        rcases (Bool.or_eq_true ..).mp idle with empty | here
        · exact ⟨[], List.isEmpty_iff.mp empty ▸ reading.nil⟩
        · exact ⟨FileTree.here, of_decide_eq_true here ▸ reading.here⟩
      refine ⟨name :: all, .cons read spelled, ?_⟩
      rw [FileTree.moving_cons_stay (idle_eq (reading.spells _ _ read) ▸ idle), same]
    | false =>
      have kept : Path.moving (t :: rest) = t :: Path.moving rest :=
        List.filter_cons_of_pos (by simp [idle])
      rw [kept] at spelled
      obtain ⟨name, more, read, later, rfl⟩ := List.forall₂_cons_left_iff.mp spelled
      obtain ⟨all, spelledAll, rfl⟩ := ih later
      exact ⟨name :: all, .cons read spelledAll,
        FileTree.moving_cons (idle_eq (reading.spells _ _ read) ▸ idle)⟩

theorem plain_of_forall₂ {ts : List Text} (spelled : List.Forall₂ Spells ts names)
    (plain : ∀ name ∈ names, Plain name) : ∀ t ∈ ts, Path.Plain t := by
  induction spelled with
  | nil => exact nofun
  | cons spells _ ih =>
    obtain ⟨here, later⟩ := List.forall_mem_cons.mp plain
    exact List.forall_mem_cons.mpr ⟨plain_of_spells spells here, ih later⟩

/-- What is found at an absolute path is where its names lead from the root. -/
theorem goes_of_locate {path : Text} {content : Bytes} (absolute : Path.isAbsolute path = true)
    (located : ws.locate true path = .ok (.found final (.file content))) :
    ∃ bytes n, Spells path bytes ∧ ws.tree.Goes n [] (FileTree.pieces bytes) final ∧
      ws.tree.Regular final := by
  obtain ⟨bytes, way, found⟩ := locate_eq_ok_iff.mp located
  obtain ⟨⟨spells, -⟩, -, -⟩ := wayOf_eq_ok_iff.mp way
  have start : ws.start bytes = [] := if_pos ((isAbsolute_iff spells).mp absolute)
  rw [start] at found
  obtain ⟨⟨n, goes⟩, regular⟩ := FileTree.regular_of_walk found fun name => FileTree.free_of_mem_namesOf
  exact ⟨bytes, n, spells, FileTree.goes_namesOf_iff.mp goes, regular⟩

theorem entry_of_locate {path : Text} {node : Entry} (absolute : Path.isAbsolute path = true)
    (located : ws.locate true path = .ok (.found final node)) : ws.tree.entry? final = some node := by
  obtain ⟨bytes, way, found⟩ := locate_eq_ok_iff.mp located
  obtain ⟨⟨spells, -⟩, -, -⟩ := wayOf_eq_ok_iff.mp way
  have start : ws.start bytes = [] := if_pos ((isAbsolute_iff spells).mp absolute)
  rw [start] at found
  exact (FileTree.goes_of_walk found trivial fun name => FileTree.free_of_mem_namesOf).2

/-- No file is found at a path that goes up at its end. -/
theorem last_ne_above {path last : Text} {front : List Text} {content : Bytes}
    (absolute : Path.isAbsolute path = true) (ended : Path.names path = front ++ [last])
    (located : ws.locate true path = .ok (.found final (.file content))) :
    last ≠ Text.ofString ".." := by
  rintro rfl
  obtain ⟨bytes, n, spells, goes, regular⟩ := goes_of_locate absolute located
  have filled := forall₂_filled spells
  rw [ended] at filled
  have backwards := List.rel_reverse filled
  rw [List.reverse_append] at backwards
  obtain ⟨name, before, spells, -, whole⟩ := List.forall₂_cons_left_iff.mp backwards
  obtain rfl := spells.above_iff.mp rfl
  rw [← FileTree.goes_filled_iff, List.reverse_eq_cons_iff.mp whole] at goes
  exact regular.not_above goes

/-- Where the names of a path lead to a file, there they are settled. -/
theorem canonical_of_goes {path result : Text} (within : ws.Within) (reading : Reading R)
    (goes : ws.tree.Goes n [] names final) (regular : ws.tree.Regular final)
    (read : List.Forall₂ R (Path.moving (Text.split Path.separator (ws.absolute path).tail))
      (FileTree.moving names)) (canonical : ws.canonical path = .ok result) :
    ∃ led, List.Forall₂ R led final ∧ result = pathOf led := by
  obtain ⟨trail, settled, rest⟩ := bind_eq_ok.mp canonical
  obtain ⟨all, read, same⟩ := exists_moving reading read
  rw [← FileTree.goes_moving_iff, ← same, FileTree.goes_moving_iff] at goes
  obtain ⟨led, known, rfl, -, readLed⟩ := settles within reading n goes
    (fun m _ link middle holds => holds.mem_links) (learnt_nil ws R) .nil read settled
  refine ⟨led, readLed, ?_⟩
  cases rest
  exact Path.normalize_pathOf (plain_of_forall₂ (readLed.imp reading.spells) regular.plain)

/-- The canonical path of a file is the path of the place where the file is found. -/
theorem canonical_of_file {path result : Text} {content : Bytes} (within : ws.Within)
    (reading : Reading R) (straight : Path.Straight path)
    (read : ∀ bytes, Spells path bytes →
      List.Forall₂ R (Text.split Path.separator path) (FileTree.pieces bytes))
    (located : ws.locate true path = .ok (.found final (.file content)))
    (canonical : ws.canonical path = .ok result) :
    ∃ led, List.Forall₂ R led final ∧ result = pathOf led := by
  obtain ⟨bytes, n, spells, goes, regular⟩ := goes_of_locate straight.absolute located
  have pieces := forall₂_moving reading (read bytes spells)
  exact canonical_of_goes within reading goes regular
    (@Path.moving_absolute _ ws.cwd.path straight ▸ pieces) canonical

/-- The bytes of a place are among those of the places inside it. -/
theorem bytes_subset (name : Name) (place : Place) : place.bytes ⊆ Place.bytes (name :: place) := by
  intro b member
  rw [Place.bytes, separated_cons]
  refine List.mem_append_left _ ?_
  split
  · rename_i top
    subst top
    simpa [Place.bytes] using member
  · exact List.mem_append_left _ member

/-- Directories are settled as they stand. -/
theorem settle_solid {links : List Place} {known : Replacements} (within : ws.Within)
    (solid : ws.tree.Solid place) (spelled : List.Forall₂ Spells shown place)
    (readable : 0 ∉ place.bytes) : ws.settle links known [] (shown.reverse ++ rest) =
      ws.settle links known shown rest := by
  induction spelled generalizing rest with
  | nil => rfl
  | @cons t name shown place spells spelled ih =>
    have looked := link?_eq within solid.1 solid.2.2 (.cons spells spelled) readable
    rw [linkAt_other solid.2.1 nofun] at looked
    rw [List.reverse_cons, List.append_assoc,
      ih solid.2.2 fun zero => readable (bytes_subset name place zero)]
    exact settle_free (.of_plain (plain_of_spells spells solid.1)) looked

theorem absolute_pathOf (ws : Workspace) {ns : List Text} (plain : ∀ name ∈ ns, Path.Plain name) :
    ws.absolute (pathOf ns) = pathOf ns := by
  rw [Path.pathOf_eq_pathFrom]
  exact absolute_pathFrom ws (.inl rfl) plain

theorem canonical_congr {path path' : Text} (same : ws.absolute path = ws.absolute path') :
    ws.canonical path = ws.canonical path' := by
  rw [canonical, canonical, same]

/-- A canonical path is settled from the names of the absolute one. -/
theorem canonical_eq (ws : Workspace) (path : Text) {ns : List Text}
    (plain : ∀ name ∈ ns, Path.Plain name) (absolute : ws.absolute path = pathOf ns) :
    ws.canonical path = ws.settle ws.tree.links [] [] ns.reverse >>= fun trail =>
      match trail with
      | .settled names _ => .ok (Path.normalize (pathOf names))
      | .circular path => .ok (ws.absolute path) := by
  have pieces : ws.settle ws.tree.links [] [] (Text.split Path.separator (pathOf ns).tail) =
      ws.settle ws.tree.links [] [] ns.reverse := by
    rw [Path.pathOf_eq, List.tail_cons, Text.split_eq_splitOn]
    by_cases top : ns.reverse = []
    · rw [top]
      exact settle_idle rfl
    · rw [List.splitOn_intercalate _ (fun name member =>
        (plain name (List.mem_reverse.mp member)).free) top]
  rw [canonical, absolute, pieces]
  rfl

/-- The path of a directory that no link leads to is canonical. -/
theorem canonical_solid (within : ws.Within) (solid : ws.tree.Solid place)
    (spelled : List.Forall₂ Spells shown place) (readable : 0 ∉ place.bytes) :
    ws.canonical (pathOf shown) = .ok (pathOf shown) := by
  have plain := plain_of_forall₂ spelled solid.plain
  have settled : ws.settle ws.tree.links [] [] shown.reverse = .ok (.settled shown []) := by
    rw [← List.append_nil shown.reverse, settle_solid within solid spelled readable, settle]
  rw [canonical_eq ws _ plain (absolute_pathOf ws plain), settled]
  exact congrArg Except.ok (Path.normalize_pathOf plain)

/-- The path of a place where a file stands is canonical. -/
theorem canonical_regular (within : ws.Within) (regular : ws.tree.Regular final)
    (spelled : List.Forall₂ Spells shown final) (readable : 0 ∉ final.bytes) :
    ws.canonical (pathOf shown) = .ok (pathOf shown) := by
  have plain := plain_of_forall₂ spelled regular.plain
  cases spelled with
  | nil => exact regular.elim
  | @cons t name shown place spells spelled =>
    obtain ⟨plainName, ⟨content, file⟩, solid⟩ := regular
    have looked := link?_eq within plainName solid (.cons spells spelled) readable
    rw [linkAt_other file nofun] at looked
    have settled : ws.settle ws.tree.links [] [] (t :: shown).reverse = .ok (.settled (t :: shown) []) := by
      have sought := Sought.of_plain (plain t List.mem_cons_self)
      rw [List.reverse_cons, settle_solid within solid spelled fun zero =>
        readable (bytes_subset name place zero), settle_free sought looked, settle]
    rw [canonical_eq ws _ plain (absolute_pathOf ws plain), settled]
    exact congrArg Except.ok (Path.normalize_pathOf plain)

/-! ### Without links -/

/-- Without links looking for one tells only whether a text is a path. -/
theorem link?_linkless (linkless : ws.tree.links = []) (path : Text) :
    ws.link? path = (bytesOf path).map fun _ => none := by
  rw [link?]
  cases written : bytesOf path with
  | error fault =>
    rw [locate_of_fault written]
    rfl
  | ok bytes =>
    cases located : ws.locate false path with
    | error fault =>
      obtain ⟨error, rfl⟩ := error_of_locate written located
      rfl
    | ok landing =>
      cases landing with
      | free directory name => rfl
      | found place node =>
        cases node with
        | directory => rfl
        | file content => rfl
        | link target =>
          obtain ⟨bytes, -, found⟩ := locate_eq_ok_iff.mp located
          exact absurd (FileTree.link_of_walk found) (FileTree.not_link linkless)

theorem settle_linkless (linkless : ws.tree.links = []) {links : List Place} {known : Replacements}
    {trail : Trail} (plain : ∀ name ∈ Path.moving rest, Path.Plain name)
    (settled : ws.settle links known shown rest = .ok trail) :
    trail = .settled ((Path.moving rest).reverse ++ shown) known := by
  induction rest generalizing shown with
  | nil =>
    rw [settle] at settled
    cases settled
    rfl
  | cons t rest ih =>
    cases idle : (t.isEmpty || decide (t = Text.ofString ".")) with
    | true =>
      have kept : Path.moving (t :: rest) = Path.moving rest := List.filter_cons_of_neg (by simp [idle])
      rw [settle_idle idle] at settled
      rw [kept] at plain ⊢
      exact ih plain settled
    | false =>
      have kept : Path.moving (t :: rest) = t :: Path.moving rest :=
        List.filter_cons_of_pos (by simp [idle])
      rw [kept] at plain ⊢
      obtain ⟨here, later⟩ := List.forall_mem_cons.mp plain
      have looked : ws.link? (pathOf (t :: shown)) = .ok none := by
        have known := link?_linkless linkless (pathOf (t :: shown))
        cases written : bytesOf (pathOf (t :: shown)) with
        | ok bytes =>
          rw [written] at known
          exact known
        | error fault =>
          rw [written] at known
          rw [settle_refused (.of_plain here) known] at settled
          cases settled
      rw [settle_free (.of_plain here) looked] at settled
      rw [ih later settled, List.reverse_cons, List.append_assoc]
      rfl

/-- Without links the canonical path has the names of the absolute one. -/
theorem canonical_linkless (linkless : ws.tree.links = []) {path result : Text}
    (canonical : ws.canonical path = .ok result) :
    result = pathOf (Path.names (ws.absolute path)).reverse := by
  obtain ⟨trail, settled, rest⟩ := bind_eq_ok.mp canonical
  obtain ⟨front, ns, leads, plain, absolute⟩ := ws.exists_pathFrom path
  have names : Path.names (ws.absolute path) = ns.reverse := by
    rw [absolute, Path.names_pathFrom leads plain]
  have moving : Path.moving (Text.split Path.separator (ws.absolute path).tail) = ns.reverse := by
    obtain ⟨inner, whole⟩ := Path.exists_of_isAbsolute (absolute ▸ Path.isAbsolute_pathFrom leads ns)
    rw [whole, Path.names_separator] at names
    rw [whole, List.tail_cons, Path.moving_split, names, Path.filter_plain (Path.plain_reverse plain)]
  have trail := settle_linkless linkless (moving ▸ Path.plain_reverse plain) settled
  rw [moving, List.reverse_reverse, List.append_nil] at trail
  subst trail
  cases rest
  rw [names, List.reverse_reverse, Path.normalize_pathOf plain]

/-! ### Workspaces with the same links -/

variable {ws' : Workspace}

/-- Settling looks for links only.  Those that may be followed come in no particular order. -/
theorem settle_congr (alike : ∀ names, ws'.link? (pathOf names) = ws.link? (pathOf names))
    {links links' : List Place} {known : Replacements} {rest : List Text} (perm : links'.Perm links) :
    ws'.settle links' known shown rest = ws.settle links known shown rest := by
  fun_induction Workspace.settle ws links known shown rest generalizing links' with
  | case1 => rw [Workspace.settle]
  | case2 links known shown name rest idle ih =>
    rw [settle_idle idle]
    exact ih perm
  | case3 links known shown rest moves ih =>
    rw [settle_up]
    exact ih perm
  | case4 links known shown name rest moves other fault looked =>
    exact settle_refused ⟨moves, other⟩ ((alike _).trans looked)
  | case5 links known shown name rest moves other looked ih =>
    rw [settle_free ⟨moves, other⟩ ((alike _).trans looked)]
    exact ih perm
  | case6 links known shown name rest moves other place target looked led found ih =>
    rw [settle_known ⟨moves, other⟩ ((alike _).trans looked) found]
    exact ih perm
  | case7 links known shown name rest moves other place target looked fresh inside start way held fault
      failed ih =>
    rw [settle_link ⟨moves, other⟩ ((alike _).trans looked) fresh (perm.mem_iff.mpr inside) held,
      ih (perm.erase place), failed]
  | case8 links known shown name rest moves other place target looked fresh inside start way held led
      known' settled ihInside ih =>
    rw [settle_link ⟨moves, other⟩ ((alike _).trans looked) fresh (perm.mem_iff.mpr inside) held,
      ihInside (perm.erase place), settled]
    exact ih perm
  | case9 links known shown name rest moves other place target looked fresh inside start way held path
      circular ih =>
    rw [settle_link ⟨moves, other⟩ ((alike _).trans looked) fresh (perm.mem_iff.mpr inside) held,
      ih (perm.erase place), circular]
  | case10 links known shown name rest moves other place target looked fresh outside =>
    exact settle_circular ⟨moves, other⟩ ((alike _).trans looked) fresh (mt perm.mem_iff.mp outside)

/-- Both stand in the same directory and find the same links. -/
structure SameLinks (ws ws' : Workspace) : Prop where
  cwd : ws'.cwd = ws.cwd
  link? : ws'.link? = ws.link?
  links : ws'.tree.links.Perm ws.tree.links

namespace SameLinks

theorem absolute (same : ws.SameLinks ws') : ws'.absolute = ws.absolute := by
  funext path
  rw [Workspace.absolute, Workspace.absolute, same.cwd]

theorem canonical (same : ws.SameLinks ws') : ws'.canonical = ws.canonical := by
  funext path
  rw [Workspace.canonical, Workspace.canonical, same.absolute,
    settle_congr (fun names => congrFun same.link? (pathOf names)) same.links]

end SameLinks

end LuaLink.Workspace
