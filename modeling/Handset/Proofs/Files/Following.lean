import Handset.Files.Tree
import Handset.Proofs.Steps

/-!
# Following paths through links

In a tree with links the place of a path cannot be read off its text, but a path that leads somewhere leads to
the same place in every other tree with the same links and at least the same directories. Giving a file a
content, making directories and removing a file are such changes; only to remove a link or to make one is not.
-/
namespace Handset.FileTree

/-- The content of the file at a place. -/
def contentAt (t : FileTree) (place : Place) : Option Content :=
  match t.node? place with
  | some (.file content) => some content
  | _ => none

variable {t t' : FileTree} {place other : Place} {path : String}

theorem node?_put (hplace : place ≠ []) (node : Node) :
    (t.put place node).node? other = if place = other then some node else t.node? other := by
  by_cases hother : other = []
  · subst hother
    simp [node?, hplace]
  · simp [node?, put, Table.find?_put, hother]

theorem ne_nil_of_node? (h : t.node? place ≠ some .directory) : place ≠ [] := by
  rintro rfl
  exact h rfl

theorem contentAt_eq_some_iff {content : Content} :
    t.contentAt place = some content ↔ t.node? place = some (.file content) := by
  unfold contentAt
  split
  next found hnode => rw [hnode, Option.some.injEq, Option.some.injEq, Node.file.injEq]
  next hnone => exact ⟨nofun, fun hnode => absurd hnode (hnone content)⟩

theorem contentAt_put_file (hplace : place ≠ []) (content : Content) :
    (t.put place (.file content)).contentAt place = some content := by
  rw [contentAt, node?_put hplace, if_pos rfl]

/-- The second tree has all directories of the first one, and the same links. -/
structure KeepsWays (t t' : FileTree) : Prop where
  directories : ∀ place, t.node? place = some .directory → t'.node? place = some .directory
  links : ∀ place target, t.node? place = some (.link target) ↔ t'.node? place = some (.link target)

theorem KeepsWays.refl (t : FileTree) : KeepsWays t t :=
  ⟨fun _ h => h, fun _ _ => Iff.rfl⟩

theorem KeepsWays.trans {t'' : FileTree} (h : KeepsWays t t') (h' : KeepsWays t' t'') : KeepsWays t t'' :=
  ⟨fun place hnode => h'.directories place (h.directories place hnode),
    fun place target => (h.links place target).trans (h'.links place target)⟩

/-! ### Where paths lead -/

/-- A piece that names an entry of a directory. -/
def IsName (piece : String) : Prop :=
  piece ≠ "." ∧ piece ≠ ".." ∧ ¬nameLimit < piece.utf8ByteSize

section Walking

variable {follow : Bool} {jump jump' : Place → List String → Except Fault Place} {base : Place} {piece : String}
  {rest : List String}

theorem walkWith_up (t : FileTree) :
    t.walkWith follow jump base (".." :: rest) = t.walkWith follow jump base.tail rest := by
  rw [walkWith, if_neg (by decide), if_pos rfl]

theorem walkWith_into (hpiece : IsName piece) (hnode : t.node? (piece :: base) = some .directory) :
    t.walkWith follow jump base (piece :: rest) = t.walkWith follow jump (piece :: base) rest := by
  rw [walkWith, if_neg hpiece.1, if_neg hpiece.2.1, if_neg hpiece.2.2, hnode]

theorem walkWith_arrives (hpiece : IsName piece)
    (hnode : ∀ target, t.node? (piece :: base) ≠ some (.link target)) :
    t.walkWith follow jump base [piece] = .ok (piece :: base) := by
  rw [walkWith, if_neg hpiece.1, if_neg hpiece.2.1, if_neg hpiece.2.2]
  cases h : t.node? (piece :: base) with
  | none => rfl
  | some node =>
    cases node with
    | directory => rfl
    | file content => rfl
    | link target => exact absurd h (hnode target)

theorem walkWith_link {target : String} (hpiece : IsName piece)
    (hnode : t.node? (piece :: base) = some (.link target)) :
    t.walkWith follow jump base (piece :: rest) =
      if rest.isEmpty && !follow then .ok (piece :: base)
      else jump (if target.startsWith "/" then [] else base) (names target ++ rest) := by
  rw [walkWith, if_neg hpiece.1, if_neg hpiece.2.1, if_neg hpiece.2.2, hnode]

/-- A path is followed by staying, going up, going into a directory, through a link or arriving. -/
theorem walkWith_cons_cases (hwalk : t.walkWith follow jump base (piece :: rest) = .ok place) :
    (piece = "." ∧ t.walkWith follow jump base rest = .ok place) ∨
    (piece = ".." ∧ t.walkWith follow jump base.tail rest = .ok place) ∨
    (IsName piece ∧ t.node? (piece :: base) = some .directory ∧
      t.walkWith follow jump (piece :: base) rest = .ok place) ∨
    (IsName piece ∧ ∃ target, t.node? (piece :: base) = some (.link target)) ∨
    (IsName piece ∧ rest = [] ∧ place = piece :: base ∧
      ∀ target, t.node? place ≠ some (.link target)) := by
  rw [walkWith] at hwalk
  by_cases hdot : piece = "."
  · exact .inl ⟨hdot, by simpa only [if_pos hdot] using hwalk⟩
  by_cases hup : piece = ".."
  · exact .inr (.inl ⟨hup, by simpa only [if_neg hdot, if_pos hup] using hwalk⟩)
  by_cases hlong : nameLimit < piece.utf8ByteSize
  · simp [hdot, hup, hlong] at hwalk
  rw [if_neg hdot, if_neg hup, if_neg hlong] at hwalk
  have hpiece : IsName piece := ⟨hdot, hup, hlong⟩
  -- what is neither a directory nor a link ends the path
  have hend {e : Fault} (hlink : ∀ target, t.node? (piece :: base) ≠ some (.link target))
      (hwalk : (if rest.isEmpty then .ok (piece :: base) else .error e) = Except.ok place) :
      rest = [] ∧ place = piece :: base ∧ ∀ target, t.node? place ≠ some (.link target) := by
    split at hwalk
    next hlast =>
      obtain rfl := Except.ok.inj hwalk
      exact ⟨List.isEmpty_iff.mp hlast, rfl, hlink⟩
    next => cases hwalk
  cases hnode : t.node? (piece :: base) with
  | none =>
    rw [hnode] at hwalk
    exact .inr (.inr (.inr (.inr ⟨hpiece, hend (by simp [hnode]) hwalk⟩)))
  | some node =>
    rw [hnode] at hwalk
    cases node with
    | directory => exact .inr (.inr (.inl ⟨hpiece, rfl, hwalk⟩))
    | link target => exact .inr (.inr (.inr (.inl ⟨hpiece, target, rfl⟩)))
    | file content => exact .inr (.inr (.inr (.inr ⟨hpiece, hend (by simp [hnode]) hwalk⟩)))

theorem KeepsWays.walkWith (h : KeepsWays t t')
    (hjump : ∀ base pieces, jump base pieces = .ok place → jump' base pieces = .ok place)
    {pieces : List String} (hwalk : t.walkWith follow jump base pieces = .ok place) :
    t'.walkWith follow jump' base pieces = .ok place := by
  induction pieces generalizing base with
  | nil => exact hwalk
  | cons piece rest ih =>
    rcases walkWith_cons_cases hwalk with
      ⟨rfl, hrest⟩ | ⟨rfl, hrest⟩ | ⟨hpiece, hnode, hrest⟩ | ⟨hpiece, target, hnode⟩ | ⟨hpiece, rfl, rfl, hend⟩
    · rw [FileTree.walkWith, if_pos rfl]
      exact ih hrest
    · rw [walkWith_up]
      exact ih hrest
    · rw [walkWith_into hpiece (h.directories _ hnode)]
      exact ih hrest
    · rw [walkWith_link hpiece hnode] at hwalk
      rw [walkWith_link hpiece ((h.links _ target).mp hnode)]
      split at hwalk
      next hlast => rwa [if_pos hlast]
      next hlast =>
        rw [if_neg hlast]
        exact hjump _ _ hwalk
    · exact walkWith_arrives hpiece fun target hlink => hend target ((h.links _ target).mpr hlink)

theorem KeepsWays.walk (h : KeepsWays t t') (hops : Nat) {pieces : List String}
    (hwalk : t.walk follow hops base pieces = .ok place) : t'.walk follow hops base pieces = .ok place := by
  induction hops generalizing base pieces with
  | zero => exact h.walkWith (fun _ _ hjump => hjump) hwalk
  | succ hops ih => exact h.walkWith (fun _ _ hjump => ih hjump) hwalk

/-- No link stands at a place or above it. -/
def Clear (t : FileTree) (base : Place) : Prop :=
  ∀ above, above <:+ base → ∀ target, t.node? above ≠ some (.link target)

theorem clear_root (t : FileTree) : Clear t [] := by
  intro above habove target
  rw [List.suffix_nil.mp habove]
  nofun

theorem Clear.cons (h : Clear t base)
    (hnode : ∀ target, t.node? (piece :: base) ≠ some (.link target)) : Clear t (piece :: base) := by
  intro above habove
  rcases List.suffix_cons_iff.mp habove with rfl | habove
  · exact hnode
  · exact h above habove

theorem clear_of_walkWith (hjump : ∀ base pieces, Clear t base → jump base pieces = .ok place → Clear t place)
    (hbase : Clear t base) {pieces : List String} (hwalk : t.walkWith true jump base pieces = .ok place) :
    Clear t place := by
  induction pieces generalizing base with
  | nil =>
    cases hwalk
    exact hbase
  | cons piece rest ih =>
    rcases walkWith_cons_cases hwalk with
      ⟨rfl, hrest⟩ | ⟨rfl, hrest⟩ | ⟨-, hnode, hrest⟩ | ⟨hpiece, target, hnode⟩ | ⟨-, -, rfl, hend⟩
    · exact ih hbase hrest
    · exact ih (fun above habove => hbase above (habove.trans (List.tail_suffix base))) hrest
    · exact ih (hbase.cons (by simp [hnode])) hrest
    · simp only [walkWith_link hpiece hnode, Bool.not_true, Bool.and_false, Bool.false_eq_true, if_false]
        at hwalk
      refine hjump _ _ ?_ hwalk
      split
      · exact clear_root t
      · exact hbase
    · exact hbase.cons hend

theorem clear_of_walk (hops : Nat) (hbase : Clear t base) {pieces : List String}
    (hwalk : t.walk true hops base pieces = .ok place) : Clear t place := by
  induction hops generalizing base pieces with
  | zero => exact clear_of_walkWith (fun _ _ _ hjump => by cases hjump) hbase hwalk
  | succ hops ih => exact clear_of_walkWith (fun _ _ hclear hjump => ih hclear hjump) hbase hwalk

end Walking

/-- A text that can be a path. -/
def Legible (path : String) : Prop :=
  ¬path.toList.contains (Char.ofNat 0) = true ∧ ¬path.isEmpty = true ∧ ¬pathLimit ≤ path.utf8ByteSize

theorem locate_eq_ok_iff {follow : Bool} :
    t.locate follow path = .ok place ↔
      Legible path ∧ t.walkWith follow (t.walk follow (linkLimit - 1)) [] (names path) = .ok place := by
  have hwalk : t.walk follow linkLimit = t.walkWith follow (t.walk follow (linkLimit - 1)) := rfl
  unfold locate Legible
  rw [hwalk]
  split
  next hzero => exact ⟨nofun, fun h => absurd hzero h.1.1⟩
  next hzero =>
    split
    next hempty => exact ⟨nofun, fun h => absurd hempty h.1.2.1⟩
    next hempty =>
      split
      next hlong => exact ⟨nofun, fun h => absurd hlong h.1.2.2⟩
      next hlong => exact ⟨fun h => ⟨⟨hzero, hempty, hlong⟩, h⟩, fun h => h.2⟩

theorem KeepsWays.locate {follow : Bool} (h : KeepsWays t t') (hlocate : t.locate follow path = .ok place) :
    t'.locate follow path = .ok place := by
  obtain ⟨hlegible, hwalk⟩ := locate_eq_ok_iff.mp hlocate
  exact locate_eq_ok_iff.mpr ⟨hlegible, h.walkWith (fun _ _ hjump => h.walk _ hjump) hwalk⟩

theorem not_link_of_locate (hlocate : t.locate true path = .ok place) (target : String) :
    t.node? place ≠ some (.link target) := by
  have hwalk := (locate_eq_ok_iff.mp hlocate).2
  have hclear : Clear t place := clear_of_walk linkLimit (clear_root t) hwalk
  exact hclear place List.suffix_rfl target

/-! ### Files that paths lead to -/

/-- The path leads to the place, and there is a file, or room for one. -/
structure Opens (t : FileTree) (path : String) (place : Place) : Prop where
  located : t.locate true path = .ok place
  plain : path.endsWith "/" = false
  free : t.node? place ≠ some .directory

theorem Opens.not_link (h : t.Opens path place) (target : String) : t.node? place ≠ some (.link target) :=
  not_link_of_locate h.located target

theorem Opens.unique (h : t.Opens path place) (h' : t.Opens path other) : place = other :=
  Except.ok.inj (h.located.symm.trans h'.located)

theorem Opens.ne_nil (h : t.Opens path place) : place ≠ [] :=
  ne_nil_of_node? h.free

theorem Opens.node?_put (h : t.Opens path place) (node : Node) (other : Place) :
    (t.put place node).node? other = if place = other then some node else t.node? other :=
  FileTree.node?_put h.ne_nil node

theorem Opens.contentAt_put (h : t.Opens path place) (content : Content) :
    (t.put place (.file content)).contentAt place = some content :=
  contentAt_put_file h.ne_nil content

theorem Opens.contentAt_put_of_ne (h : t.Opens path place) (content : Content) (hne : place ≠ other) :
    (t.put place (.file content)).contentAt other = t.contentAt other := by
  rw [contentAt, h.node?_put, if_neg hne, contentAt]

theorem Opens.keepsWays_put (h : t.Opens path place) (content : Content) :
    KeepsWays t (t.put place (.file content)) := by
  constructor
  · intro other hother
    rw [h.node?_put, if_neg (by rintro rfl; exact h.free hother), hother]
  · intro other target
    rw [h.node?_put]
    split
    next heq =>
      subst heq
      exact ⟨fun hlink => absurd hlink (h.not_link target), nofun⟩
    next => exact Iff.rfl

/-- A path that leads to a file still does if the ways are kept and no directory stands there. -/
theorem Opens.persists (h : t.Opens path place) (ht : KeepsWays t t')
    (hfree : t'.node? place ≠ some .directory) : t'.Opens path place :=
  ⟨ht.locate h.located, h.plain, hfree⟩

/-- The content of one file does not matter for where another path leads. -/
theorem Opens.put {first : String} (hput : t.Opens first place) (h : t.Opens path other) (content : Content) :
    (t.put place (.file content)).Opens path other := by
  refine h.persists (hput.keepsWays_put content) ?_
  rw [hput.node?_put]
  split
  · nofun
  · exact h.free

theorem setContent_eq_ok_iff {content : Content} :
    t.setContent path content = .ok t' ↔
      ∃ place, t.Opens path place ∧ t' = t.put place (.file content) := by
  unfold setContent
  cases hlocate : t.locate true path with
  | error e => exact ⟨nofun, fun ⟨place, h, _⟩ => by cases hlocate.symm.trans h.located⟩
  | ok place =>
    have hplace {other : Place} (h : t.Opens path other) : other = place :=
      Except.ok.inj (h.located.symm.trans hlocate)
    -- a file and nothing differ only in the fault for a path that ends with a slash
    have hroom (e : Fault) (hfree : t.node? place ≠ some .directory) :
        (if path.endsWith "/" then .error e else .ok (t.put place (.file content))) = Except.ok t' ↔
          ∃ place, t.Opens path place ∧ t' = t.put place (.file content) := by
      constructor
      · intro hset
        split at hset
        · cases hset
        next hslash =>
          exact ⟨place, ⟨hlocate, Bool.eq_false_iff.mpr hslash, hfree⟩, (Except.ok.inj hset).symm⟩
      · rintro ⟨other, h, rfl⟩
        obtain rfl := hplace h
        exact if_neg (Bool.eq_false_iff.mp h.plain)
    simp only [bind, Except.bind]
    cases hnode : t.node? place with
    | none => exact hroom _ (by simp [hnode])
    | some node =>
      cases node with
      | directory =>
        refine ⟨nofun, ?_⟩
        rintro ⟨other, h, rfl⟩
        exact absurd (hplace h ▸ hnode) h.free
      | link target => exact absurd hnode (not_link_of_locate hlocate target)
      | file old => exact hroom _ (by simp [hnode])

/-- A look at a path finds what stands where the path leads to; behind a slash at its end only a directory is
found. -/
theorem look_eq_ok_iff_located {follow : Bool} {node : Node} :
    t.look follow path = .ok (place, node) ↔
      t.locate (follow || path.endsWith "/") path = .ok place ∧ t.node? place = some node ∧
        (node = .directory ∨ path.endsWith "/" = false) := by
  constructor
  · intro hlook
    obtain ⟨found, hlocate, hlook⟩ := Step.exists_of_bind_eq_ok hlook
    cases hseen : t.node? found with
    | none =>
      rw [hseen] at hlook
      cases hlook
    | some seen =>
      rw [hseen] at hlook
      have hsame : (found, seen) = (place, node) ∧ (seen = .directory ∨ path.endsWith "/" = false) := by
        by_cases hslash : path.endsWith "/" = true
        · cases seen with
          | directory => exact ⟨Except.ok.inj hlook, .inl rfl⟩
          | file content => cases (if_pos hslash).symm.trans hlook
          | link target => cases (if_pos hslash).symm.trans hlook
        · refine ⟨?_, .inr (Bool.eq_false_iff.mpr hslash)⟩
          cases seen with
          | directory => exact Except.ok.inj hlook
          | file content => exact Except.ok.inj ((if_neg hslash).symm.trans hlook)
          | link target => exact Except.ok.inj ((if_neg hslash).symm.trans hlook)
      obtain ⟨hpair, hplain⟩ := hsame
      cases hpair
      exact ⟨hlocate, hseen, hplain⟩
  · rintro ⟨hlocate, hseen, hplain⟩
    unfold look
    rw [hlocate]
    simp only [bind, Except.bind, hseen]
    rcases hplain with rfl | hslash
    · rfl
    · cases node <;> simp only [hslash, Bool.false_eq_true, if_false] <;> rfl

theorem look_eq_ok_iff {follow : Bool} {node : Node} (hnode : node ≠ .directory) :
    t.look follow path = .ok (place, node) ↔
      path.endsWith "/" = false ∧ t.locate follow path = .ok place ∧ t.node? place = some node := by
  rw [look_eq_ok_iff_located]
  constructor
  · rintro ⟨hlocate, hseen, hdirectory | hslash⟩
    · exact absurd hdirectory hnode
    · exact ⟨hslash, by rwa [hslash, Bool.or_false] at hlocate, hseen⟩
  · rintro ⟨hslash, hlocate, hseen⟩
    exact ⟨by rwa [hslash, Bool.or_false], hseen, .inr hslash⟩

theorem fileAt_eq_ok_iff {content : Content} :
    t.fileAt path = .ok (place, content) ↔ t.Opens path place ∧ t.contentAt place = some content := by
  have hlook : t.fileAt path = .ok (place, content) ↔ t.look true path = .ok (place, .file content) := by
    unfold fileAt
    cases hfound : t.look true path with
    | error e => exact ⟨nofun, nofun⟩
    | ok found =>
      obtain ⟨spot, node⟩ := found
      cases node with
      | file seen => simp [bind, Except.bind, pure, Except.pure]
      | directory => simp [bind, Except.bind, throw, throwThe, MonadExceptOf.throw]
      | link target => simp [bind, Except.bind, throw, throwThe, MonadExceptOf.throw]
  have hfile : Node.file content ≠ .directory := nofun
  rw [hlook, look_eq_ok_iff hfile, contentAt_eq_some_iff]
  constructor
  · rintro ⟨hslash, hlocate, hnode⟩
    exact ⟨⟨hlocate, hslash, by simp [hnode]⟩, hnode⟩
  · rintro ⟨h, hnode⟩
    exact ⟨h.plain, h.located, hnode⟩

/-! ### Removing -/

theorem remove_eq_ok_iff :
    t.remove path = .ok t' ↔ ∃ place node, node ≠ .directory ∧ t.look false path = .ok (place, node) ∧
      t' = t.without place := by
  unfold remove
  cases hlook : t.look false path with
  | error e => exact ⟨nofun, nofun⟩
  | ok found =>
    obtain ⟨spot, seen⟩ := found
    simp only [bind, Except.bind, Except.ok.injEq, Prod.mk.injEq]
    cases seen with
    | directory => exact ⟨nofun, fun ⟨_, _, hne, ⟨_, hseen⟩, _⟩ => absurd hseen.symm hne⟩
    | file content =>
      constructor
      · intro hremove
        exact ⟨spot, .file content, nofun, ⟨rfl, rfl⟩, (Except.ok.inj hremove).symm⟩
      · rintro ⟨_, _, -, ⟨rfl, rfl⟩, rfl⟩
        rfl
    | link target =>
      constructor
      · intro hremove
        exact ⟨spot, .link target, nofun, ⟨rfl, rfl⟩, (Except.ok.inj hremove).symm⟩
      · rintro ⟨_, _, -, ⟨rfl, rfl⟩, rfl⟩
        rfl

theorem node?_without (hplace : place ≠ []) :
    (t.without place).node? other = if place = other then none else t.node? other := by
  have hfind (nodes : Table Place Node) : Table.find? (nodes.filter (·.1 != place)) other =
      if place = other then none else nodes.find? other := by
    induction nodes with
    | nil => simp [Table.find?]
    | cons entry rest ih =>
      obtain ⟨q, node⟩ := entry
      by_cases hq : q = place
      · rw [List.filter_cons_of_neg (by simp [hq]), ih, Table.find?, hq]
        split
        next => rfl
        next hne => rw [if_neg (by simpa using hne)]
      · rw [List.filter_cons_of_pos (by simpa using hq), Table.find?, Table.find?, ih]
        split
        next heq => rw [if_neg (by rintro rfl; exact hq (eq_of_beq heq))]
        next => rfl
  by_cases hother : other = []
  · subst hother
    simp [node?, hplace]
  · simp only [node?, without, List.isEmpty_eq_false_iff.mpr hother, Bool.false_eq_true, if_false, hfind]

theorem keepsWays_without {content : Content} (hnode : t.node? place = some (.file content)) :
    KeepsWays t (t.without place) := by
  have hplace : place ≠ [] := ne_nil_of_node? (t := t) (by simp [hnode])
  constructor
  · intro other hother
    rw [node?_without hplace, if_neg (by rintro rfl; simp [hnode] at hother), hother]
  · intro other target
    rw [node?_without hplace]
    split
    next heq => simp [← heq, hnode]
    next => exact Iff.rfl

/-! ### Making directories -/

/-- What holds of making one directory, and of doing nothing and of two changes in a row, holds of making a
directory with those above it. -/
theorem makeLevels_induction {R : FileTree → FileTree → Prop} (hrefl : ∀ t, R t t)
    (htrans : ∀ t t' t'', R t t' → R t' t'' → R t t'')
    (hmake : ∀ t path t', t.makeDirectory path = .ok t' → R t t') (t : FileTree) (existing : Bool) (depth : Nat)
    (path : String) : R t (makeLevels existing depth t path).1 := by
  have hlast (t : FileTree) (path : String) (missing : Bool) : R t (makeLast existing t path missing).1 := by
    unfold makeLast
    split
    · exact hrefl t
    · split
      next hmade => exact hmake _ _ _ hmade
      next => split <;> exact hrefl t
  induction depth generalizing path with
  | zero => exact hrefl t
  | succ depth ih =>
    rw [makeLevels]
    have habove : R t
        (if t.lacksHead path then makeLevels existing depth t (headAndLast path).1 else (t, none)).1 := by
      split
      · exact ih (headAndLast path).1
      · exact hrefl t
    generalize (if t.lacksHead path then makeLevels existing depth t (headAndLast path).1 else (t, none)) =
      above at habove
    unfold makeBelow
    split
    · exact htrans _ _ _ habove (hlast _ path _)
    · exact htrans _ _ _ habove (hlast _ path _)
    · exact habove

/-- Where the trees differ, the second one has a directory and the first one nothing. -/
def AddsDirectories (t t' : FileTree) : Prop :=
  ∀ place, t'.node? place = t.node? place ∨ t.node? place = none ∧ t'.node? place = some .directory

theorem AddsDirectories.refl (t : FileTree) : AddsDirectories t t :=
  fun _ => .inl rfl

theorem AddsDirectories.trans {t'' : FileTree} (h : AddsDirectories t t') (h' : AddsDirectories t' t'') :
    AddsDirectories t t'' := by
  intro place
  rcases h' place with hsame | ⟨hnone, hmade⟩
  · rw [hsame]
    exact h place
  · rcases h place with hold | ⟨-, hmade'⟩
    · exact .inr ⟨hold.symm.trans hnone, hmade⟩
    · cases hnone.symm.trans hmade'

theorem AddsDirectories.keepsWays (h : AddsDirectories t t') : KeepsWays t t' := by
  constructor
  · intro place hnode
    rcases h place with hsame | ⟨hnone, -⟩
    · exact hsame.trans hnode
    · cases hnone.symm.trans hnode
  · intro place target
    rcases h place with hsame | ⟨hnone, hmade⟩
    · rw [hsame]
    · simp [hnone, hmade]

theorem AddsDirectories.contentAt_eq (h : AddsDirectories t t') (place : Place) :
    t'.contentAt place = t.contentAt place := by
  unfold contentAt
  rcases h place with hsame | ⟨hnone, hmade⟩
  · rw [hsame]
  · rw [hnone, hmade]

theorem addsDirectories_makeLevels (t : FileTree) (existing : Bool) (depth : Nat) (path : String) :
    AddsDirectories t (makeLevels existing depth t path).1 := by
  refine makeLevels_induction AddsDirectories.refl (fun _ _ _ => AddsDirectories.trans) ?_ t existing depth path
  intro t path t' hmake place
  obtain ⟨spot, -, hmake⟩ := Step.exists_of_bind_eq_ok hmake
  split at hmake
  · cases hmake
  next hnone =>
    cases hmake
    have hne : spot ≠ [] := ne_nil_of_node? (t := t) (by simp [hnone])
    rw [node?_put hne]
    split
    next heq => exact .inr ⟨heq ▸ hnone, rfl⟩
    next => exact .inl rfl

theorem addsDirectories_makeDirectories (t : FileTree) (existing : Bool) (path : String) :
    AddsDirectories t (t.makeDirectories existing path).1 :=
  addsDirectories_makeLevels t existing levelLimit path

end Handset.FileTree
