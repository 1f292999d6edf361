import Handset.Proofs.Storage.Requests

/-!
# The bytes in use

A volume counts its bytes in use apart from its catalogue. Creating a path that is recorded already
replaces the entry, with the size in it, but does not take the replaced size off the count. The count is
therefore the sum of the recorded sizes plus all the sizes that were replaced in this way, and that
surplus outlives the files.
-/
namespace Handset

open Step

namespace Volume

/-- The size that an entry of the catalogue notes. -/
def notedSize? (entry : Value) : Option Int :=
  (entry.part "size").toOption.bind Value.int?

def recordedBytes : List (String × Value) → Int
  | [] => 0
  | (_, entry) :: rest => (notedSize? entry).getD 0 + recordedBytes rest

/-- The size that the catalogue notes for a path, nothing for a path that is not recorded. -/
def sizeAt (fields : List (String × Value)) (name : String) : Int :=
  ((Table.find? fields name).bind notedSize?).getD 0

theorem sizeAt_cons (k : String) (entry : Value) (rest : List (String × Value)) (name : String) :
    sizeAt ((k, entry) :: rest) name =
      if k = name then (notedSize? entry).getD 0 else sizeAt rest name := by
  by_cases hk : k = name <;> simp [sizeAt, Table.find?, hk]

theorem recordedBytes_put (fields : List (String × Value)) (name : String) (entry : Value) :
    recordedBytes (Table.put fields name entry) =
      recordedBytes fields - sizeAt fields name + (notedSize? entry).getD 0 := by
  induction fields with
  | nil => simp [Table.put, recordedBytes, sizeAt, Table.find?]
  | cons first rest ih =>
    obtain ⟨k, e⟩ := first
    by_cases hk : k = name
    · simp only [Table.put, beq_iff_eq, sizeAt_cons, hk, if_true, recordedBytes]
      omega
    · simp only [Table.put, beq_iff_eq, sizeAt_cons, hk, if_false, recordedBytes, ih]
      omega

theorem recordedBytes_remove (fields : List (String × Value)) (name : String) :
    recordedBytes (Table.remove fields name) = recordedBytes fields - sizeAt fields name := by
  induction fields with
  | nil => rfl
  | cons first rest ih =>
    obtain ⟨k, e⟩ := first
    by_cases hk : k = name
    · simp only [Table.remove, beq_iff_eq, sizeAt_cons, hk, if_true, recordedBytes]
      omega
    · simp only [Table.remove, beq_iff_eq, sizeAt_cons, hk, if_false, recordedBytes, ih]
      omega

/-- Every entry of the catalogue notes a size. -/
def Sized (fields : List (String × Value)) : Prop :=
  ∀ entry ∈ fields, (notedSize? entry.2).isSome

theorem Sized.put {fields : List (String × Value)} {entry : Value} (h : Sized fields)
    (hentry : (notedSize? entry).isSome) (name : String) : Sized (Table.put fields name entry) := by
  intro e he
  rcases Table.eq_or_mem_of_mem_put he with rfl | hold
  · exact hentry
  · exact h e hold

theorem Sized.remove {fields : List (String × Value)} (h : Sized fields) (name : String) :
    Sized (Table.remove fields name) :=
  fun e he => h e (Table.mem_of_mem_remove he)

theorem Sized.find? {fields : List (String × Value)} {name : String} {entry : Value} (h : Sized fields)
    (hfound : Table.find? fields name = some entry) : ∃ n, notedSize? entry = some n :=
  Option.isSome_iff_exists.mp (h _ (Table.mem_of_find? hfound))

theorem notedSize?_put_modified (entry : List (String × Value)) (time : Value) :
    notedSize? (.object (Table.put entry "modified_at" time)) = notedSize? (.object entry) := by
  have hne : ("modified_at" == "size") = false := by decide
  simp [notedSize?, Value.part, Value.field?_eq_find?, Table.find?_put, hne]

/-- All entries note their sizes, and the bytes in use exceed their sum by the surplus. -/
def Audited (v : Volume) (surplus : Int) : Prop :=
  ∃ fields, v.files = .object fields ∧ Sized fields ∧ v.used = .int (recordedBytes fields + surplus)

variable {v w : Volume} {surplus : Int}

theorem Audited.sameBooks (h : v.Audited surplus) (hw : v.SameBooks w) : w.Audited surplus := by
  obtain ⟨tree, log, rfl⟩ := hw
  exact h

/-- Creation adds its size to the count, but gives back nothing of an entry that it replaces. -/
theorem Audited.created {path size : Value} (h : v.Audited surplus) (hw : v.Created path size w) :
    ∃ fields name, v.files = .object fields ∧ path = .text name ∧
      w.Audited (surplus + sizeAt fields name) := by
  obtain ⟨fields, hfiles, hsized, hused⟩ := h
  obtain ⟨tree, log, hfiles', hpath, hsize, htotal, -⟩ := hw
  rename_i fields' name n total
  obtain rfl : fields = fields' := Value.object.inj (hfiles.symm.trans hfiles')
  obtain ⟨hint, -⟩ := word_eq_ok hsize
  have hnoted : notedSize? (v.noted size) = some n := hint
  refine ⟨fields, name, hfiles, hpath, _, rfl, hsized.put (by simp [hnoted]) name, ?_⟩
  rw [hused, Value.add_of_int? hint] at htotal
  simp only [← Except.ok.inj htotal, recordedBytes_put, hnoted, Option.getD_some]
  congr 1
  omega

theorem Audited.touched {path : Value} (h : v.Audited surplus) (hw : v.Touched path w) :
    w.Audited surplus := by
  obtain ⟨fields, hfiles, hsized, hused⟩ := h
  obtain ⟨tree, log, hfiles', hpath, hentry⟩ := hw
  rename_i fields' entry name
  obtain rfl : fields = fields' := Value.object.inj (hfiles.symm.trans hfiles')
  obtain ⟨n, hn⟩ := hsized.find? hentry
  have hnoted := notedSize?_put_modified entry (.double v.clock)
  rw [hn] at hnoted
  refine ⟨_, rfl, hsized.put (by simp [hnoted]) name, ?_⟩
  have hsame : sizeAt fields name = n := by simp [sizeAt, hentry, hn]
  simp only [hused, recordedBytes_put, hnoted, hsame, Option.getD_some]
  congr 1
  omega

/-- Deletion takes off the count what the entry notes. -/
theorem Audited.deleted {path : Value} (h : v.Audited surplus) (hw : v.Deleted path w) :
    w.Audited surplus := by
  obtain ⟨fields, hfiles, hsized, hused⟩ := h
  obtain ⟨tree, log, hfiles', hpath, hentry, hsize, hused'⟩ := hw
  rename_i fields' name entry size used
  obtain rfl : fields = fields' := Value.object.inj (hfiles.symm.trans hfiles')
  obtain ⟨n, hn⟩ := hsized.find? hentry
  have hint : size.int? = some n := by simpa [notedSize?, hsize, Except.toOption] using hn
  have hsame : sizeAt fields name = n := by simp [sizeAt, hentry, hn]
  refine ⟨_, rfl, hsized.remove name, ?_⟩
  rw [hused, Value.sub_of_int? hint] at hused'
  simp only [← Except.ok.inj hused', recordedBytes_remove, hsame]
  congr 1
  omega

end Volume

namespace Request

open Volume

/-- The recorded size that a request replaces without giving it back: that of a path which is created
once more. -/
def forgets (v : Volume) (r : Request) : Int :=
  match r, (r.perform.on v).1, v.files with
  | .create (.text name) _, .ok true, .object fields => sizeAt fields name
  | _, _, _ => 0

/-- All sizes that a sequence of requests replaces without giving them back. -/
def forgotten : List Request → Volume → Int
  | [], _ => 0
  | r :: rest, v => r.forgets v + forgotten rest (r.perform.on v).2

theorem audited_perform {v : Volume} {surplus : Int} (h : v.Audited surplus) (r : Request) :
    (r.perform.on v).2.Audited (surplus + r.forgets v) := by
  have heffect := r.perform_effect v
  unfold forgets
  -- only a creation that was met forgets anything
  generalize r.perform.on v = out at heffect ⊢
  obtain ⟨answer, w⟩ := out
  cases heffect with
  | same hanswer hsame =>
    have hw := h.sameBooks hsame
    split
    next hmet _ => cases hanswer hmet
    next => simpa using hw
  | created hdone =>
    obtain ⟨fields, name, hfiles, rfl, haudited⟩ := h.created hdone
    simpa [hfiles] using haudited
  | touched hdone => simpa using h.touched hdone
  | deleted hdone => simpa using h.deleted hdone

theorem audited_afterAll {v : Volume} {surplus : Int} (h : v.Audited surplus) (requests : List Request) :
    (afterAll requests v).Audited (surplus + forgotten requests v) := by
  induction requests generalizing v surplus with
  | nil => simpa [afterAll, forgotten] using h
  | cons r rest ih =>
    have hrest := ih (audited_perform h r)
    rwa [Int.add_assoc] at hrest

/-- After any requests to a new volume, the bytes in use are the sum of the recorded sizes and of all the
sizes that were replaced when a recorded path was created once more. -/
theorem used_eq_recorded_add_forgotten {v₀ v : Volume} {root : String} {gigabytes : Value}
    (hopen : (Storing.openAt root gigabytes).on v₀ = (.ok (), v))
    (hnew : v.tree.pathExists v.stateFile = false) (requests : List Request) :
    ∃ fields, (afterAll requests v).files = .object fields ∧ Sized fields ∧
      (afterAll requests v).used = .int (recordedBytes fields + forgotten requests v) := by
  obtain ⟨hused, hfiles⟩ := Storing.openAt_new hopen hnew
  have hstart : v.Audited 0 := ⟨[], hfiles, nofun, hused⟩
  have hend := audited_afterAll hstart requests
  rwa [Int.zero_add] at hend

def newVolume : Volume :=
  ((Storing.openAt "/v" (.int 1)).on { root := "" }).2

/-- One path created twice, and another one written to, created too large and deleted. -/
def repeatedCreation : List Request :=
  [.create (.text "/a") (.int 5), .create (.text "/b") (.bool true), .create (.text "/a") (.int 3),
    .write (.text "/b") (.bytes #[7, 7]) (.int 4), .create (.text "/c") (.int 1073741824),
    .delete (.text "/b"), .delete (.text "/b"), .list (.text "/")]

theorem repeatedCreation_surplus :
    (Storing.openAt "/v" (.int 1)).on { root := "" } = (.ok (), newVolume) ∧
    newVolume.tree.pathExists newVolume.stateFile = false ∧
    ∃ fields, (afterAll repeatedCreation newVolume).files = .object fields ∧ Sized fields ∧
      (afterAll repeatedCreation newVolume).used = .int (recordedBytes fields + 5) := by
  have hopen : (Storing.openAt "/v" (.int 1)).on { root := "" } = (.ok (), newVolume) :=
    Prod.ext (eq_ok_of_toOption (by decide +kernel)) rfl
  have hnew : newVolume.tree.pathExists newVolume.stateFile = false := by decide +kernel
  have hforgotten : forgotten repeatedCreation newVolume = 5 := by decide +kernel
  have hused := used_eq_recorded_add_forgotten hopen hnew repeatedCreation
  rw [hforgotten] at hused
  exact ⟨hopen, hnew, hused⟩

/-- Five bytes are in use when the only file, which was created twice, has been deleted. -/
theorem used_after_repeated_creation_and_deletion :
    (afterAll [.create (.text "/a") (.int 5), .create (.text "/a") (.int 3), .delete (.text "/a")]
      newVolume).fileCount = .ok 0 ∧
    (afterAll [.create (.text "/a") (.int 5), .create (.text "/a") (.int 3), .delete (.text "/a")]
      newVolume).used.int? = some 5 :=
  ⟨eq_ok_of_toOption (by decide +kernel), by decide +kernel⟩

end Request

end Handset
