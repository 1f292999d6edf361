import Handset.Proofs.Files.Following

/-!
# Places that paths name

If no link stands on its way, the place that a path leads to can be read off its text: the path either leads there
or it leads nowhere. What is done to a tree by such paths can therefore be said by place. Directories are never
taken away and links are never made, so a path that has led to its place once always does.
-/
namespace Handset

/-- Is this a link? -/
def Node.isLink : Node → Bool
  | .link _ => true
  | _ => false

namespace FileTree

/-- The place that pieces lead to from a directory, if there are no links. -/
def descend : Place → List String → Place
  | base, [] => base
  | base, piece :: rest =>
    if piece = "." then descend base rest
    else if piece = ".." then descend base.tail rest
    else descend (piece :: base) rest

theorem descend_dot (base : Place) (rest : List String) : descend base ("." :: rest) = descend base rest :=
  if_pos rfl

theorem descend_up (base : Place) (rest : List String) : descend base (".." :: rest) = descend base.tail rest := by
  rw [descend, if_neg (by decide), if_pos rfl]

theorem descend_name {piece : String} (hdot : piece ≠ ".") (hup : piece ≠ "..") (base : Place) (rest : List String) :
    descend base (piece :: rest) = descend (piece :: base) rest := by
  rw [descend, if_neg hdot, if_neg hup]

theorem descend_append (base : Place) (first second : List String) :
    descend base (first ++ second) = descend (descend base first) second := by
  induction first generalizing base with
  | nil => rfl
  | cons piece rest ih =>
    rw [List.cons_append, descend, descend]
    split
    · exact ih base
    · split <;> exact ih _

/-- The place that the text of a path names. -/
def placeOf (path : String) : Place :=
  descend [] (names path)

/-- Going piece by piece from a directory meets no link. -/
def Unlinked (t : FileTree) (base : Place) (pieces : List String) : Prop :=
  ∀ n ≤ pieces.length, (t.node? (descend base (pieces.take n))).any Node.isLink = false

/-- No link stands on the way of the path. -/
def Avoids (t : FileTree) (path : String) : Prop :=
  t.Unlinked [] (names path)

instance (t : FileTree) (path : String) : Decidable (t.Avoids path) :=
  inferInstanceAs (Decidable (∀ n ≤ (names path).length, _ = false))

variable {t t' : FileTree} {place other : Place} {path : String}

theorem KeepsWays.unlinked (h : KeepsWays t t') {base : Place} {pieces : List String} (ht : t.Unlinked base pieces) :
    t'.Unlinked base pieces := by
  intro n hn
  have hold := ht n hn
  cases hnode : t'.node? (descend base (pieces.take n)) with
  | none => rfl
  | some node =>
    cases node with
    | link target =>
      rw [(h.links _ target).mpr hnode] at hold
      cases hold
    | _ => rfl

theorem KeepsWays.avoids (h : KeepsWays t t') (ht : t.Avoids path) : t'.Avoids path :=
  h.unlinked ht

/-! ### Following a path -/

section Walking

variable {follow : Bool} {jump : Place → List String → Except Fault Place} {base : Place} {piece : String}
  {rest : List String}

theorem Unlinked.next (h : t.Unlinked base (piece :: rest)) : t.Unlinked (descend base [piece]) rest := by
  intro n hn
  have hnext := h (n + 1) (Nat.succ_le_succ hn)
  rwa [List.take_succ_cons, ← List.singleton_append, descend_append] at hnext

theorem descend_single (hpiece : IsName piece) : descend base [piece] = piece :: base := by
  rw [descend_name hpiece.1 hpiece.2.1, descend]

/-- Without links a path is followed by staying, going up, going into a directory or arriving. -/
theorem walkWith_cons_eq_ok (h : t.Unlinked base (piece :: rest))
    (hwalk : t.walkWith follow jump base (piece :: rest) = .ok place) :
    (piece = "." ∧ t.walkWith follow jump base rest = .ok place) ∨
    (piece = ".." ∧ t.walkWith follow jump base.tail rest = .ok place) ∨
    (IsName piece ∧ t.node? (piece :: base) = some .directory ∧
      t.walkWith follow jump (piece :: base) rest = .ok place) ∨
    (IsName piece ∧ rest = [] ∧ place = piece :: base) := by
  rcases walkWith_cons_cases hwalk with
    hstay | hup | hinto | ⟨hpiece, target, hnode⟩ | ⟨hpiece, hlast, hplace, -⟩
  · exact .inl hstay
  · exact .inr (.inl hup)
  · exact .inr (.inr (.inl hinto))
  · have hlink := h.next 0 (Nat.zero_le _)
    rw [List.take_zero, descend, descend_single hpiece, hnode] at hlink
    cases hlink
  · exact .inr (.inr (.inr ⟨hpiece, hlast, hplace⟩))

theorem eq_descend_of_walkWith {pieces : List String} (h : t.Unlinked base pieces)
    (hwalk : t.walkWith follow jump base pieces = .ok place) : place = descend base pieces := by
  induction pieces generalizing base with
  | nil => exact (Except.ok.inj hwalk).symm
  | cons piece rest ih =>
    have hnext := h.next
    rw [← List.singleton_append, descend_append]
    rcases walkWith_cons_eq_ok h hwalk with
      ⟨rfl, hrest⟩ | ⟨rfl, hrest⟩ | ⟨hpiece, -, hrest⟩ | ⟨hpiece, rfl, rfl⟩
    · exact ih hnext hrest
    · exact ih hnext hrest
    · rw [descend_single hpiece] at hnext ⊢
      exact ih hnext hrest
    · rw [descend_single hpiece, descend]

end Walking

theorem eq_placeOf_of_locate (h : t.Avoids path) {follow : Bool} (hlocate : t.locate follow path = .ok place) :
    place = placeOf path :=
  eq_descend_of_walkWith h (locate_eq_ok_iff.mp hlocate).2

theorem Opens.eq_placeOf (h : t.Opens path place) (ht : t.Avoids path) : place = placeOf path :=
  eq_placeOf_of_locate ht h.located

theorem Opens.contentAt_placeOf_put (h : t.Opens path place) (ht : t.Avoids path) (content : Content) :
    (t.put place (.file content)).contentAt (placeOf path) = some content := by
  rw [← h.eq_placeOf ht]
  exact h.contentAt_put content

/-! ### Changing a tree -/

/-- The second tree has come out of the first one with the same ways, and with other contents at some places only. -/
structure Reworked (places : List Place) (t t' : FileTree) : Prop where
  ways : KeepsWays t t'
  contents : ∀ place, place ∉ places → t'.contentAt place = t.contentAt place

variable {places : List Place}

theorem Reworked.refl (places : List Place) (t : FileTree) : Reworked places t t :=
  ⟨.refl t, fun _ _ => rfl⟩

theorem Reworked.trans {t'' : FileTree} (h : Reworked places t t') (h' : Reworked places t' t'') :
    Reworked places t t'' :=
  ⟨h.ways.trans h'.ways, fun place hplace => (h'.contents place hplace).trans (h.contents place hplace)⟩

theorem AddsDirectories.reworked (h : AddsDirectories t t') : Reworked places t t' :=
  ⟨h.keepsWays, fun place _ => h.contentAt_eq place⟩

theorem Opens.reworked_put (h : t.Opens path place) (ht : t.Avoids path) (hplace : placeOf path ∈ places)
    (content : Content) : Reworked places t (t.put place (.file content)) := by
  obtain rfl := h.eq_placeOf ht
  exact ⟨h.keepsWays_put content,
    fun other hother => h.contentAt_put_of_ne content (by rintro rfl; exact hother hplace)⟩

/-- What is removed where no link stands on the way is the file at the place of the path. -/
theorem exists_of_remove (ht : t.Avoids path) (hremove : t.remove path = .ok t') :
    (∃ content, t.node? (placeOf path) = some (.file content)) ∧ t' = t.without (placeOf path) := by
  obtain ⟨place, node, hne, hlook, rfl⟩ := remove_eq_ok_iff.mp hremove
  obtain ⟨hlocate, hnode, -⟩ := look_eq_ok_iff_located.mp hlook
  obtain rfl := eq_placeOf_of_locate ht hlocate
  have hlink := ht _ (Nat.le_refl _)
  rw [List.take_length, show descend [] (names path) = placeOf path from rfl, hnode] at hlink
  cases node with
  | directory => exact absurd rfl hne
  | link target => cases hlink
  | file content => exact ⟨⟨content, hnode⟩, rfl⟩

theorem reworked_remove (ht : t.Avoids path) (hremove : t.remove path = .ok t') (hplace : placeOf path ∈ places) :
    Reworked places t t' ∧ t'.contentAt (placeOf path) = none := by
  obtain ⟨⟨content, hnode⟩, rfl⟩ := exists_of_remove ht hremove
  have hne : placeOf path ≠ [] := ne_nil_of_node? (t := t) (by simp [hnode])
  refine ⟨⟨keepsWays_without hnode, fun other hother => ?_⟩, ?_⟩
  · rw [contentAt, node?_without hne, if_neg (by rintro rfl; exact hother hplace), contentAt]
  · rw [contentAt, node?_without hne, if_pos rfl]

/-- The path leads to its place, and not into it. -/
def Reaches (t : FileTree) (path : String) : Prop :=
  t.locate true path = .ok (placeOf path) ∧ path.endsWith "/" = false

theorem Reaches.persists (h : t.Reaches path) (ht : KeepsWays t t') : t'.Reaches path :=
  ⟨ht.locate h.1, h.2⟩

theorem Opens.reaches (h : t.Opens path place) (ht : t.Avoids path) : t.Reaches path :=
  ⟨h.eq_placeOf ht ▸ h.located, h.plain⟩

/-- A path that leads to its place opens that place, unless a directory is there. -/
theorem Reaches.opens (h : t.Reaches path) (hfree : t.node? (placeOf path) ≠ some .directory) :
    t.Opens path (placeOf path) :=
  ⟨h.1, h.2, hfree⟩

theorem Reaches.fileAt (h : t.Reaches path) :
    (t.fileAt path).toOption = (t.contentAt (placeOf path)).map fun content => (placeOf path, content) := by
  obtain ⟨hlocate, hslash⟩ := h
  have hlook : t.look true path = match t.node? (placeOf path) with
      | none => .error .fileNotFound
      | some node => .ok (placeOf path, node) := by
    have hplain : ¬path.endsWith "/" = true := Bool.eq_false_iff.mp hslash
    unfold look
    rw [Bool.true_or, hlocate]
    dsimp only [bind, Except.bind]
    cases t.node? (placeOf path) with
    | none => rfl
    | some node => cases node <;> simp only [if_neg hplain] <;> rfl
  unfold FileTree.fileAt contentAt
  rw [hlook]
  cases t.node? (placeOf path) with
  | none => rfl
  | some node => cases node <;> rfl

end FileTree

end Handset
