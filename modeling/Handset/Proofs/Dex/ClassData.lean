import Handset.Proofs.Dex.Blocks
import Handset.Proofs.Steps

/-!
# The numbers of class data

Class data are one row of numbers of variable length: how many members of each kind there are, then the entries
of the fields and of the methods. Where such a row is read to its end, the bytes determine the entries, and the
scan of the methods has turned their index differences into running sums and has left out those beyond the method
table.
-/
namespace Handset.Dex

open Step (exists_of_bind_eq_ok)

variable {d : Bytes} {p q r n k : Nat}

namespace Leb128

/-- From `p` up to `q` stands this number: seven bits a byte, the lowest first, and all bytes but the last with
their high bit set. -/
inductive Spans (d : Bytes) : (p n q : Nat) → Prop
  | last {p : Nat} {byte : UInt8} (hbyte : d[p]? = some byte) (hlow : byte.toNat < 128) :
      Spans d p byte.toNat (p + 1)
  | more {p n q : Nat} {byte : UInt8} (hbyte : d[p]? = some byte) (hhigh : 128 ≤ byte.toNat)
      (rest : Spans d (p + 1) n q) : Spans d p (byte.toNat - 128 + 128 * n) q

theorem Spans.unique {n' q' : Nat} (h : Spans d p n q) (h' : Spans d p n' q') : n = n' ∧ q = q' := by
  induction h generalizing n' q' with
  | last hbyte hlow =>
    cases h' with
    | last hbyte' =>
      cases hbyte.symm.trans hbyte'
      exact ⟨rfl, rfl⟩
    | more hbyte' hhigh =>
      cases hbyte.symm.trans hbyte'
      omega
  | more hbyte hhigh rest ih =>
    cases h' with
    | last hbyte' hlow =>
      cases hbyte.symm.trans hbyte'
      omega
    | more hbyte' hhigh' rest' =>
      cases hbyte.symm.trans hbyte'
      obtain ⟨rfl, rfl⟩ := ih rest'
      exact ⟨rfl, rfl⟩

theorem spans_of_readLast {left : Nat} (hleft : p + left = d.size) (h : readLast d left = some (n, k)) :
    Spans d p n (p + k) := by
  induction left generalizing p n k with
  | zero => cases h
  | succ left ih =>
    have hbyte : d[p]? = some d[p] := Array.getElem?_eq_getElem (by omega)
    rw [readLast_succ hbyte hleft] at h
    split at h
    next hlow =>
      cases h
      exact .last hbyte hlow
    next hhigh =>
      obtain ⟨⟨value, count⟩, hrest, ⟨⟩⟩ := Option.map_eq_some_iff.mp h
      have hspans := ih (p := p + 1) (by omega) hrest
      rw [Nat.add_right_comm] at hspans
      exact .more hbyte (by omega) hspans

theorem spans_of_read (h : read d p = .ok (n, k)) : Spans d p n (p + k) := by
  unfold read at h
  split at h
  next found hfound =>
    cases h
    have hleft : p + ((d.size : Int) - p).toNat = d.size := by
      have hpos : ((d.size : Int) - p).toNat ≠ 0 := by
        intro hzero
        rw [hzero] at hfound
        cases hfound
      omega
    exact spans_of_readLast hleft hfound
  next => cases h

end Leb128

open Leb128 (Spans)

/-! ### Rows of numbers -/

/-- From `p` up to `q` stand these numbers, one after the other. -/
inductive Numbers (d : Bytes) : Nat → List Nat → Nat → Prop
  | nil (p : Nat) : Numbers d p [] p
  | cons {p n q r : Nat} {ns : List Nat} (head : Spans d p n q) (tail : Numbers d q ns r) :
      Numbers d p (n :: ns) r

namespace Numbers

variable {ns ms : List Nat}

theorem append (h : Numbers d p ns q) (h' : Numbers d q ms r) : Numbers d p (ns ++ ms) r := by
  induction h with
  | nil => exact h'
  | cons head _ ih => exact .cons head (ih h')

/-- Two rows from one place begin with the same number and go on from one place. -/
theorem head_unique {m : Nat} (h : Numbers d p (n :: ns) q) (h' : Numbers d p (m :: ms) r) :
    n = m ∧ ∃ p', Numbers d p' ns q ∧ Numbers d p' ms r := by
  cases h with
  | cons head tail =>
    cases h' with
    | cons head' tail' =>
      obtain ⟨rfl, rfl⟩ := head.unique head'
      exact ⟨rfl, _, tail, tail'⟩

end Numbers

/-- An entry is read off from the beginning of a row, wherever the row stands. -/
def Recoverable {α : Type} (d : Bytes) (numbers : α → List Nat) : Prop :=
  ∀ ⦃p q r : Nat⦄ ⦃a b : α⦄ ⦃ns ms : List Nat⦄,
    Numbers d p (numbers a ++ ns) q → Numbers d p (numbers b ++ ms) r →
      a = b ∧ ∃ p', Numbers d p' ns q ∧ Numbers d p' ms r

/-- So are as many entries as are expected. -/
theorem Recoverable.flatMap {α : Type} {numbers : α → List Nat} (hone : Recoverable d numbers) {xs ys : List α}
    {ns ms : List Nat} (hlength : xs.length = ys.length) (h : Numbers d p (xs.flatMap numbers ++ ns) q)
    (h' : Numbers d p (ys.flatMap numbers ++ ms) r) :
    xs = ys ∧ ∃ p', Numbers d p' ns q ∧ Numbers d p' ms r := by
  induction xs generalizing ys p with
  | nil =>
    obtain rfl : ys = [] := List.eq_nil_of_length_eq_zero hlength.symm
    exact ⟨rfl, p, h, h'⟩
  | cons x xs ih =>
    obtain ⟨y, ys, rfl⟩ := List.exists_cons_of_length_eq_add_one hlength.symm
    rw [List.flatMap_cons, List.append_assoc] at h h'
    obtain ⟨rfl, p', hrest, hrest'⟩ := hone h h'
    obtain ⟨rfl, hend⟩ := ih (Nat.succ.inj hlength) hrest hrest'
    exact ⟨rfl, hend⟩

/-! ### The members of a class -/

/-- What class data say of a field. -/
structure FieldEntry where
  difference : Nat
  flags : Nat
deriving DecidableEq

/-- What class data say of a method. -/
structure MethodEntry where
  difference : Nat
  flags : Nat
  codeOffset : Nat
deriving DecidableEq

def FieldEntry.numbers (e : FieldEntry) : List Nat := [e.difference, e.flags]

def MethodEntry.numbers (e : MethodEntry) : List Nat := [e.difference, e.flags, e.codeOffset]

theorem recoverable_fields (d : Bytes) : Recoverable d FieldEntry.numbers := by
  rintro p q r ⟨difference, flags⟩ ⟨difference', flags'⟩ ns ms h h'
  obtain ⟨hdifference : difference = difference', p₁, h, h'⟩ := h.head_unique h'
  obtain ⟨hflags : flags = flags', hrest⟩ := h.head_unique h'
  subst hdifference hflags
  exact ⟨rfl, hrest⟩

theorem recoverable_methods (d : Bytes) : Recoverable d MethodEntry.numbers := by
  rintro p q r ⟨difference, flags, codeOffset⟩ ⟨difference', flags', codeOffset'⟩ ns ms h h'
  obtain ⟨hdifference : difference = difference', p₁, h, h'⟩ := h.head_unique h'
  obtain ⟨hflags : flags = flags', p₂, h, h'⟩ := h.head_unique h'
  obtain ⟨hoffset : codeOffset = codeOffset', hrest⟩ := h.head_unique h'
  subst hdifference hflags hoffset
  exact ⟨rfl, hrest⟩

/-- The lists of class data. -/
structure MemberLists where
  statics : List FieldEntry := []
  instances : List FieldEntry := []
  directs : List MethodEntry := []
  virtuals : List MethodEntry := []
deriving DecidableEq

namespace MemberLists

/-- The lists as a row of numbers. -/
def numbers (l : MemberLists) : List Nat :=
  [l.statics.length, l.instances.length, l.directs.length, l.virtuals.length] ++
    ((l.statics ++ l.instances).flatMap FieldEntry.numbers ++
      (l.directs ++ l.virtuals).flatMap MethodEntry.numbers)

/-- These are the lists at an offset; the offset zero stands for empty ones. -/
def StandsAt (l : MemberLists) (d : Bytes) (offset : Nat) : Prop :=
  if offset = 0 then l = {} else ∃ stop, Numbers d offset l.numbers stop

theorem StandsAt.unique {l l' : MemberLists} {offset : Nat} (h : l.StandsAt d offset)
    (h' : l'.StandsAt d offset) : l = l' := by
  obtain ⟨statics, instances, directs, virtuals⟩ := l
  obtain ⟨statics', instances', directs', virtuals'⟩ := l'
  unfold StandsAt at h h'
  split at h
  next hzero =>
    rw [if_pos hzero] at h'
    rw [h, h']
  next hsome =>
    rw [if_neg hsome] at h'
    obtain ⟨stop, h⟩ := h
    obtain ⟨stop', h'⟩ := h'
    -- the counts come first, so that the lists have the same lengths
    obtain ⟨hstatics : statics.length = statics'.length, _, h, h'⟩ := h.head_unique h'
    obtain ⟨hinstances : instances.length = instances'.length, _, h, h'⟩ := h.head_unique h'
    obtain ⟨hdirects : directs.length = directs'.length, _, h, h'⟩ := h.head_unique h'
    obtain ⟨hvirtuals : virtuals.length = virtuals'.length, _, h, h'⟩ := h.head_unique h'
    obtain ⟨hfields, _, h, h'⟩ := (recoverable_fields d).flatMap (by simp [hstatics, hinstances]) h h'
    rw [← List.append_nil (List.flatMap _ _)] at h h'
    obtain ⟨hmethods, -⟩ := (recoverable_methods d).flatMap (by simp [hdirects, hvirtuals]) h h'
    obtain ⟨rfl, rfl⟩ := List.append_inj hfields hstatics
    obtain ⟨rfl, rfl⟩ := List.append_inj hmethods hdirects
    rfl

theorem StandsAt.iff_eq {l : MemberLists} {offset : Nat} (h : l.StandsAt d offset) (l' : MemberLists) :
    l'.StandsAt d offset ↔ l' = l :=
  ⟨fun h' => h'.unique h, fun heq => heq ▸ h⟩

end MemberLists

/-! ### What the entries say -/

namespace MethodEntry

/-- The sum of the index differences. -/
def total (es : List MethodEntry) : Nat := es.foldl (fun sum e => sum + e.difference) 0

/-- The members that entries describe: the index of each is the sum of the differences up to its own. -/
def members (es : List MethodEntry) : List Member :=
  es.mapIdx fun k e => ⟨total (es.take (k + 1)), e.flags, e.codeOffset⟩

/-- The same members one after the other, where the sum is `start` before the first. -/
def membersFrom : (start : Nat) → List MethodEntry → List Member
  | _, [] => []
  | start, e :: es => ⟨start + e.difference, e.flags, e.codeOffset⟩ :: membersFrom (start + e.difference) es

/-- The members that are in a method table of this size. -/
def listed (size : Nat) (es : List MethodEntry) : List Member :=
  (members es).filter (·.methodIndex < size)

theorem foldl_difference (es : List MethodEntry) (start : Nat) :
    es.foldl (fun sum e => sum + e.difference) start = start + total es := by
  induction es generalizing start with
  | nil => rfl
  | cons e es ih =>
    rw [total, List.foldl_cons, List.foldl_cons, ih, ih, Nat.zero_add, Nat.add_assoc]

theorem total_cons (e : MethodEntry) (es : List MethodEntry) : total (e :: es) = e.difference + total es := by
  rw [total, List.foldl_cons, foldl_difference, Nat.zero_add]

theorem total_append (es fs : List MethodEntry) : total (es ++ fs) = total es + total fs := by
  rw [total, List.foldl_append, foldl_difference, ← total]

theorem membersFrom_eq_mapIdx (start : Nat) (es : List MethodEntry) :
    membersFrom start es = es.mapIdx fun k e => ⟨start + total (es.take (k + 1)), e.flags, e.codeOffset⟩ := by
  induction es generalizing start with
  | nil => rfl
  | cons e es ih =>
    rw [membersFrom, ih, List.mapIdx_cons]
    simp only [List.take_succ_cons, total_cons, List.take_zero, Nat.add_assoc]
    rfl

theorem listed_eq (size : Nat) (es : List MethodEntry) :
    listed size es = (membersFrom 0 es).filter (·.methodIndex < size) := by
  rw [listed, members, membersFrom_eq_mapIdx]
  simp only [Nat.zero_add]

theorem membersFrom_append (start : Nat) (es fs : List MethodEntry) :
    membersFrom start (es ++ fs) = membersFrom start es ++ membersFrom (start + total es) fs := by
  induction es generalizing start with
  | nil => rfl
  | cons e es ih => rw [List.cons_append, membersFrom, ih, total_cons, membersFrom, ← Nat.add_assoc]; rfl

end MethodEntry

/-- The methods with the code offsets of these members, a later one in the place of an earlier one. -/
def setCodeOffsets (methods : Array Method) (members : List Member) : Array Method :=
  members.foldl (fun methods e => methods.modify e.methodIndex fun m => { m with codeOffset := e.codeOffset })
    methods

theorem size_setCodeOffsets (methods : Array Method) (members : List Member) :
    (setCodeOffsets methods members).size = methods.size := by
  induction members generalizing methods with
  | nil => rfl
  | cons e members ih => exact (ih _).trans (Array.size_modify ..)

theorem setCodeOffsets_append (methods : Array Method) (first second : List Member) :
    setCodeOffsets methods (first ++ second) = setCodeOffsets (setCodeOffsets methods first) second :=
  List.foldl_append

/-- The code offset of the last member with this index, if there is one. -/
def lastOffset (members : List Member) (index otherwise : Nat) : Nat :=
  ((members.filter (·.methodIndex = index)).map (·.codeOffset)).getLastD otherwise

theorem lastOffset_cons (e : Member) (members : List Member) (index otherwise : Nat) :
    lastOffset (e :: members) index otherwise =
      lastOffset members index (if e.methodIndex = index then e.codeOffset else otherwise) := by
  unfold lastOffset
  split
  next h => rw [List.filter_cons_of_pos (by simpa using h), List.map_cons, List.getLastD_cons]
  next h => rw [List.filter_cons_of_neg (by simpa using h)]

theorem getElem?_setCodeOffsets (methods : Array Method) (members : List Member) (i : Nat) :
    (setCodeOffsets methods members)[i]? =
      methods[i]?.map fun m => { m with codeOffset := lastOffset members i m.codeOffset } := by
  induction members generalizing methods with
  | nil => exact Option.map_id'.symm
  | cons e members ih =>
    simp only [lastOffset_cons]
    rw [setCodeOffsets, List.foldl_cons, ← setCodeOffsets, ih, Array.getElem?_modify]
    split
    next h => rw [Option.map_map]; rfl
    next h => rfl

/-! ### The scans -/

theorem getLastD_append {α : Type} (xs ys : List α) (a : α) :
    (xs ++ ys).getLastD a = ys.getLastD (xs.getLastD a) := by
  induction xs generalizing a with
  | nil => rfl
  | cons x xs ih => rw [List.cons_append, List.getLastD_cons, List.getLastD_cons, ih]

open MethodEntry (total membersFrom listed)

theorem eq_of_skipFields {left : Nat} {scan last : MemberScan} (h : skipFields d left scan = (last, none)) :
    ∃ es : List FieldEntry, es.length = left ∧
      Numbers d scan.position (es.flatMap FieldEntry.numbers) last.position ∧
      last = { scan with position := last.position, flags := (es.map (·.flags)).getLastD scan.flags } := by
  induction left generalizing scan with
  | zero =>
    cases h
    exact ⟨[], rfl, .nil _, rfl⟩
  | succ left ih =>
    unfold skipFields at h
    split at h
    next => cases h
    next flags position hread =>
      obtain ⟨⟨difference, n⟩, hdifference, hread⟩ := exists_of_bind_eq_ok hread
      obtain ⟨⟨flags', m⟩, hflags, hread⟩ := exists_of_bind_eq_ok hread
      cases hread
      obtain ⟨es, hlength, hnumbers, hlast⟩ := ih h
      refine ⟨⟨difference, flags⟩ :: es, congrArg Nat.succ hlength, ?_, ?_⟩
      · exact .cons (Leb128.spans_of_read hdifference) (.cons (Leb128.spans_of_read hflags) hnumbers)
      · rw [hlast, List.map_cons, List.getLastD_cons]

/-- Between two states of the scan these entries were read. -/
structure MemberScan.Passes (d : Bytes) (scan last : MemberScan) (es : List MethodEntry) : Prop where
  numbers : Numbers d scan.position (es.flatMap MethodEntry.numbers) last.position
  index : last.index = scan.index + total es
  flags : last.flags = (es.map (·.flags)).getLastD scan.flags
  entries : last.entries.toList =
    scan.entries.toList ++ (membersFrom scan.index es).filter (·.methodIndex < scan.methods.size)
  methods : last.methods =
    setCodeOffsets scan.methods ((membersFrom scan.index es).filter (·.methodIndex < scan.methods.size))

namespace MemberScan.Passes

variable {scan next last : MemberScan} {es fs : List MethodEntry}

theorem refl (scan : MemberScan) : Passes d scan scan [] :=
  ⟨.nil _, rfl, rfl, (List.append_nil _).symm, rfl⟩

theorem size_eq (h : Passes d scan last es) : last.methods.size = scan.methods.size := by
  rw [h.methods, size_setCodeOffsets]

theorem methods_eq (h : Passes d scan last es) (hempty : scan.entries = #[]) :
    last.methods = setCodeOffsets scan.methods last.entries.toList := by
  rw [h.methods, h.entries, hempty]
  rfl

theorem trans (h : Passes d scan next es) (h' : Passes d next last fs) : Passes d scan last (es ++ fs) where
  numbers := by
    rw [List.flatMap_append]
    exact h.numbers.append h'.numbers
  index := by rw [h'.index, h.index, MethodEntry.total_append, Nat.add_assoc]
  flags := by rw [h'.flags, h.flags, List.map_append, getLastD_append]
  entries := by
    rw [h'.entries, h.entries, h.size_eq, h.index, MethodEntry.membersFrom_append, List.filter_append,
      List.append_assoc]
  methods := by
    rw [h'.methods, h.size_eq, h.index, h.methods, MethodEntry.membersFrom_append, List.filter_append,
      setCodeOffsets_append]

end MemberScan.Passes

theorem passes_one {left : Nat} {scan last : MemberScan} (h : readMembers d (left + 1) scan = (last, none)) :
    ∃ e next, scan.Passes d next [e] ∧ readMembers d left next = (last, none) := by
  unfold readMembers at h
  split at h
  next => cases h
  next difference flags codeOffset position hread =>
    obtain ⟨⟨difference', n⟩, hdifference, hread⟩ := exists_of_bind_eq_ok hread
    obtain ⟨⟨flags', m⟩, hflags, hread⟩ := exists_of_bind_eq_ok hread
    obtain ⟨⟨codeOffset', k⟩, hoffset, hread⟩ := exists_of_bind_eq_ok hread
    cases hread
    have hnumbers : Numbers d scan.position [difference, flags, codeOffset] (scan.position + n + m + k) :=
      .cons (Leb128.spans_of_read hdifference) (.cons (Leb128.spans_of_read hflags)
        (.cons (Leb128.spans_of_read hoffset) (.nil _)))
    have htotal : scan.index + difference = scan.index + total [⟨difference, flags, codeOffset⟩] := by
      rw [MethodEntry.total_cons]
      rfl
    dsimp only at h
    split at h
    next hlt =>
      refine ⟨⟨difference, flags, codeOffset⟩, _, ?_, h⟩
      refine ⟨hnumbers, htotal, rfl, ?_, ?_⟩
      · simp [membersFrom, hlt]
      · simp [membersFrom, hlt, setCodeOffsets]
    next hge =>
      refine ⟨⟨difference, flags, codeOffset⟩, _, ?_, h⟩
      refine ⟨hnumbers, htotal, rfl, ?_, ?_⟩
      · simp [membersFrom, hge]
      · simp [membersFrom, hge, setCodeOffsets]

theorem passes_readMembers {left : Nat} {scan last : MemberScan}
    (h : readMembers d left scan = (last, none)) : ∃ es, es.length = left ∧ scan.Passes d last es := by
  induction left generalizing scan with
  | zero =>
    cases h
    exact ⟨[], rfl, .refl _⟩
  | succ left ih =>
    obtain ⟨e, next, hone, h⟩ := passes_one h
    obtain ⟨es, hlength, hrest⟩ := ih h
    exact ⟨e :: es, congrArg Nat.succ hlength, hone.trans hrest⟩

/-- The flags of the members, in their order. -/
def MemberLists.flags (l : MemberLists) : List Nat :=
  (l.statics ++ l.instances).map (·.flags) ++ (l.directs ++ l.virtuals).map (·.flags)

/-- The class data are what these lists say, for a class with these flags and beside a table of these methods. -/
structure ClassData.Follows (l : MemberLists) (methods : Array Method) (flags : Nat) (data : ClassData) :
    Prop where
  flags : data.flags = l.flags.getLastD flags
  direct : data.direct.toList = listed methods.size l.directs
  members : data.direct.toList ++ data.virtual.toList = listed methods.size (l.directs ++ l.virtuals)
  methods : data.methods = setCodeOffsets methods (data.direct.toList ++ data.virtual.toList)

theorem exists_standsAt {statics instances offset : Nat} {fields : List FieldEntry}
    {directs virtuals : List MethodEntry} (hoffset : offset ≠ 0) (hfields : fields.length = statics + instances)
    (h : Numbers d offset ([statics, instances, directs.length, virtuals.length] ++
      (fields.flatMap FieldEntry.numbers ++
        (directs.flatMap MethodEntry.numbers ++ virtuals.flatMap MethodEntry.numbers))) q) :
    ∃ l : MemberLists, l.StandsAt d offset ∧ l.statics ++ l.instances = fields ∧ l.directs = directs ∧
      l.virtuals = virtuals := by
  have hjoined : fields.take statics ++ fields.drop statics = fields := List.take_append_drop _ _
  have hstatics : (fields.take statics).length = statics := List.length_take_of_le (by omega)
  have hinstances : (fields.drop statics).length = instances := by rw [List.length_drop]; omega
  refine ⟨⟨fields.take statics, fields.drop statics, directs, virtuals⟩, ?_, hjoined, rfl, rfl⟩
  rw [MemberLists.StandsAt, if_neg hoffset, MemberLists.numbers, hstatics, hinstances, hjoined,
    List.flatMap_append]
  exact ⟨q, h⟩

/-- What the two scans of the methods leave, behind fields with these flags. -/
theorem follows_of_passes {l : MemberLists} {methods : Array Method} {flags position : Nat}
    {scan middle last : MemberScan}
    (hscan : scan = { position, index := 0, methods, entries := #[]
                      flags := ((l.statics ++ l.instances).map (·.flags)).getLastD flags })
    (hdirect : scan.Passes d middle l.directs)
    (hvirtual : MemberScan.Passes d { middle with entries := #[] } last l.virtuals) :
    ClassData.Follows l methods flags
      { methods := last.methods, flags := last.flags, direct := middle.entries, virtual := last.entries } := by
  subst hscan
  have hmiddle : middle.entries.toList = listed methods.size l.directs := by
    rw [hdirect.entries, MethodEntry.listed_eq]
    rfl
  have hmembers : middle.entries.toList ++ last.entries.toList =
      listed methods.size (l.directs ++ l.virtuals) := by
    rw [hvirtual.entries, hmiddle, MethodEntry.listed_eq, MethodEntry.listed_eq, MethodEntry.membersFrom_append,
      List.filter_append, hdirect.size_eq, hdirect.index]
    rfl
  refine ⟨?_, hmiddle, hmembers, ?_⟩
  · change last.flags = _
    rw [hvirtual.flags, hdirect.flags, MemberLists.flags]
    simp only [List.map_append, getLastD_append]
  · rw [setCodeOffsets_append]
    exact (hvirtual.methods_eq rfl).trans (congrArg (setCodeOffsets · _) (hdirect.methods_eq rfl))

theorem follows_readClassData {methods : Array Method} {flags offset : Nat} {data : ClassData}
    (h : readClassData d methods flags offset = (data, none)) :
    ∃ l : MemberLists, l.StandsAt d offset ∧ data.Follows l methods flags := by
  unfold readClassData at h
  dsimp only at h
  split at h
  next hzero =>
    cases h
    exact ⟨{}, by rw [MemberLists.StandsAt, if_pos hzero], rfl, rfl, rfl, rfl⟩
  next hsome =>
    split at h
    next => cases h
    next hread =>
      obtain ⟨⟨statics, n₁⟩, hstatics, hread⟩ := exists_of_bind_eq_ok hread
      obtain ⟨⟨instances, n₂⟩, hinstances, hread⟩ := exists_of_bind_eq_ok hread
      obtain ⟨⟨directs, n₃⟩, hdirects, hread⟩ := exists_of_bind_eq_ok hread
      obtain ⟨⟨virtuals, n₄⟩, hvirtuals, hread⟩ := exists_of_bind_eq_ok hread
      cases hread
      have hcounts : Numbers d offset [statics, instances, directs, virtuals] (offset + n₁ + n₂ + n₃ + n₄) :=
        .cons (Leb128.spans_of_read hstatics) (.cons (Leb128.spans_of_read hinstances)
          (.cons (Leb128.spans_of_read hdirects) (.cons (Leb128.spans_of_read hvirtuals) (.nil _))))
      split at h
      next => cases h
      next scan hskip =>
        obtain ⟨fields, hfields, hnumbers, hscan⟩ := eq_of_skipFields hskip
        split at h
        next => cases h
        next middle hread =>
          obtain ⟨direct, rfl, hdirect⟩ := passes_readMembers hread
          split at h
          next => cases h
          next last hread' =>
            obtain ⟨virtual, rfl, hvirtual⟩ := passes_readMembers hread'
            cases h
            obtain ⟨l, hstands, hjoined, rfl, rfl⟩ := exists_standsAt hsome hfields
              (hcounts.append (hnumbers.append (hdirect.numbers.append hvirtual.numbers)))
            exact ⟨l, hstands, follows_of_passes (by rw [hscan, hjoined]) hdirect hvirtual⟩

end Handset.Dex
