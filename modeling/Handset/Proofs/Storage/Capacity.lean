import Handset.Proofs.Number.Differences
import Handset.Proofs.Storage.Accounting

/-!
# The capacity of a volume

A volume refuses a creation that would take its bytes in use past the capacity, and everything else can
only lower them. What is in use is therefore never more than there is, nor less than what the catalogue
records: the sizes that are forgotten when a path is created once more only stay in use.
-/
namespace Handset

open Step

namespace Value

variable {v : Value} {c : Num}

theorem compare_int_le (h : v.num? = some c) (i : Int) :
    compare .le (int i) v = .ok ((Num.int i).le c) := by
  cases v with
  | bool b => cases h; rfl
  | int j => cases h; rfl
  | double d => cases h; rfl
  | _ => cases h

theorem compare_int_gt (h : v.num? = some c) (i : Int) :
    compare .gt (int i) v = .ok (c.lt (Num.int i)) := by
  cases v with
  | bool b => cases h; rfl
  | int j => cases h; rfl
  | double d => cases h; rfl
  | _ => cases h

/-- What is left of a finite capacity is not below zero. -/
theorem exists_sub_int {n : Int} (h : v.num? = some c) (hc : c.isFinite = true) (hn : 0 ≤ n)
    (hle : (n : ℚ) ≤ c.value) :
    ∃ free, v.sub (int n) = .ok free ∧ compare .ge free (int 0) = .ok true := by
  cases c with
  | int j =>
    have hj : n ≤ j := Int.cast_le.mp hle
    have hint : v.sub (int n) = .ok (int (j - n)) := by
      cases v with
      | bool b => cases h; rfl
      | int j => cases h; rfl
      | double d => cases h
      | _ => cases h
    refine ⟨int (j - n), hint, ?_⟩
    have hcompare : compare .ge (int (j - n)) (int 0) = .ok ((Num.int 0).le (.int (j - n))) := rfl
    rw [hcompare, (Num.int_le_iff (c := .int (j - n)) rfl 0).mpr]
    simpa [Num.value] using hj
  | double d =>
    obtain rfl : v = double d := by
      cases v with
      | double d' => cases h; rfl
      | _ => cases h
    obtain ⟨k, rfl⟩ := Int.eq_ofNat_of_zero_le hn
    obtain ⟨b, hb, hfinite, hvalue⟩ := Double.exists_ofInt?_le hc (by exact_mod_cast hle)
    have hround : (Num.int k).toDouble = .ok b := by
      rw [Num.toDouble, hb]
    have hsub : (double d).sub (int k) = .ok (double (d.sub b)) := by
      calc (double d).sub (int k) = (Num.int k).toDouble >>= fun b => pure (double (d.sub b)) := rfl
        _ = .ok (double (d.sub b)) := by rw [hround]; rfl
    have hfree := Num.zero_le_of_notNegative (Double.notNegative_sub hc hfinite hvalue)
    exact ⟨_, hsub, congrArg Except.ok hfree⟩

end Value

namespace Volume

/-- No entry of the catalogue notes a size below zero. -/
def NotNegative (fields : List (String × Value)) : Prop :=
  ∀ entry ∈ fields, ∀ n ∈ notedSize? entry.2, 0 ≤ n

theorem NotNegative.put {fields : List (String × Value)} {entry : Value} (h : NotNegative fields)
    (hentry : ∀ n ∈ notedSize? entry, 0 ≤ n) (name : String) :
    NotNegative (Table.put fields name entry) := by
  intro e he
  rcases Table.eq_or_mem_of_mem_put he with rfl | hold
  · exact hentry
  · exact h e hold

theorem NotNegative.find? {fields : List (String × Value)} {name : String} {entry : Value}
    (h : NotNegative fields) (hfound : Table.find? fields name = some entry) :
    ∀ n ∈ notedSize? entry, 0 ≤ n :=
  h _ (Table.mem_of_find? hfound)

theorem NotNegative.sizeAt_nonneg {fields : List (String × Value)} (h : NotNegative fields)
    (name : String) : 0 ≤ sizeAt fields name := by
  unfold sizeAt
  cases hfound : Table.find? fields name with
  | none => exact Int.le_refl 0
  | some entry =>
    cases hsize : notedSize? entry with
    | none => simp [hsize]
    | some n => simpa [hsize] using h.find? hfound n hsize

theorem NotNegative.recordedBytes_nonneg {fields : List (String × Value)} (h : NotNegative fields) :
    0 ≤ recordedBytes fields := by
  induction fields with
  | nil => exact Int.le_refl 0
  | cons first rest ih =>
    have hfirst : 0 ≤ (notedSize? first.2).getD 0 := by
      cases hsize : notedSize? first.2 with
      | none => exact Int.le_refl 0
      | some n => exact h first (List.mem_cons_self ..) n hsize
    have hrest := ih fun e he => h e (List.mem_cons_of_mem _ he)
    obtain ⟨name, entry⟩ := first
    exact Int.add_nonneg hfirst hrest

/-- The books are in order: no recorded size is negative, the bytes in use exceed the sum of the recorded
sizes by a surplus that is not negative either, and they do not exceed the capacity. -/
structure Solvent (total : Value) (c : Num) (v : Volume) : Prop where
  capacity_eq : v.capacity = total
  isNumber : v.capacity.num? = some c
  audited : ∃ surplus, 0 ≤ surplus ∧ v.Audited surplus
  notNegative : ∀ fields, v.files = .object fields → NotNegative fields
  within : ∀ n, v.used = .int n → (n : ℚ) ≤ c.value

variable {v w : Volume} {total : Value} {c : Num}

theorem Solvent.sameBooks (h : v.Solvent total c) (hw : v.SameBooks w) : w.Solvent total c := by
  obtain ⟨tree, log, rfl⟩ := hw
  exact ⟨h.capacity_eq, h.isNumber, h.audited, h.notNegative, h.within⟩

/-- A new volume has its books in order. -/
theorem solvent_of_new (hused : v.used = .int 0) (hfiles : v.files = .object [])
    (hcapacity : v.capacity.num? = some c) (hfinite : c.isFinite = true)
    (hnonneg : Value.compare .ge v.capacity (.int 0) = .ok true) : v.Solvent v.capacity c := by
  have hle : (Num.int 0).le c = true :=
    Except.ok.inj ((Value.compare_int_le hcapacity 0).symm.trans hnonneg)
  have hzero : (0 : ℚ) ≤ c.value := by simpa using (Num.int_le_iff hfinite 0).mp hle
  have haudited : v.Audited 0 := ⟨[], hfiles, nofun, hused⟩
  refine ⟨rfl, hcapacity, ⟨0, Int.le_refl 0, haudited⟩, fun fields hfields => ?_, fun n hn => ?_⟩
  · obtain rfl := Value.object.inj (hfiles.symm.trans hfields)
    exact nofun
  · obtain rfl := Value.int.inj (hused.symm.trans hn)
    simpa using hzero

theorem Solvent.created {path size : Value} (h : v.Solvent total c) (hc : c.isFinite = true)
    (hsize : ∀ n ∈ size.int?, 0 ≤ n) (hw : v.Created path size w) : w.Solvent total c := by
  obtain ⟨surplus, hsurplus, haudited⟩ := h.audited
  obtain ⟨fields, name, hfiles, hpath, hgrown⟩ := haudited.created hw
  have hnoted := h.notNegative fields hfiles
  obtain ⟨tree, log, hfiles', hpath', hword, htotal, hroom⟩ := hw
  rename_i fields' name' n grown
  obtain rfl : fields = fields' := Value.object.inj (hfiles.symm.trans hfiles')
  have hsurplus' := Int.add_nonneg hsurplus (hnoted.sizeAt_nonneg name)
  refine ⟨h.capacity_eq, h.isNumber, ⟨_, hsurplus', hgrown⟩, ?_, ?_⟩
  · rintro _ ⟨⟩
    have hentry : ∀ n ∈ notedSize? (v.noted size), 0 ≤ n := hsize
    exact hnoted.put hentry name'
  · rintro used hused
    obtain rfl : grown = .int used := hused
    rw [Value.compare_int_gt h.isNumber] at hroom
    have hfits := mt (Num.lt_int_iff hc used).mpr (Bool.eq_false_iff.mp (Except.ok.inj hroom))
    exact not_lt.mp hfits

theorem Solvent.touched {path : Value} (h : v.Solvent total c) (hw : v.Touched path w) :
    w.Solvent total c := by
  obtain ⟨surplus, hsurplus, haudited⟩ := h.audited
  have hkept := haudited.touched hw
  obtain ⟨tree, log, hfiles, hpath, hentry⟩ := hw
  rename_i fields entry name
  refine ⟨h.capacity_eq, h.isNumber, ⟨surplus, hsurplus, hkept⟩, ?_, h.within⟩
  have hnoted := h.notNegative fields hfiles
  rintro _ ⟨⟩
  refine hnoted.put ?_ name
  rw [notedSize?_put_modified]
  exact hnoted.find? hentry

theorem Solvent.deleted {path : Value} (h : v.Solvent total c) (hw : v.Deleted path w) :
    w.Solvent total c := by
  obtain ⟨surplus, hsurplus, haudited⟩ := h.audited
  have hkept := haudited.deleted hw
  obtain ⟨fields, hfiles, hsized, hused⟩ := haudited
  obtain ⟨tree, log, hfiles', hpath, hentry, hsize, hused'⟩ := hw
  rename_i fields' name entry size used
  obtain rfl : fields = fields' := Value.object.inj (hfiles.symm.trans hfiles')
  have hnoted := h.notNegative fields hfiles
  obtain ⟨n, hn⟩ := hsized.find? hentry
  have hint : size.int? = some n := by simpa [notedSize?, hsize, Except.toOption] using hn
  refine ⟨h.capacity_eq, h.isNumber, ⟨surplus, hsurplus, hkept⟩, ?_, ?_⟩
  · rintro _ ⟨⟩
    exact fun e he => hnoted e (Table.mem_of_mem_remove he)
  · rintro left hleft
    obtain rfl : used = .int left := hleft
    have hbefore := h.within _ hused
    rw [hused, Value.sub_of_int? hint] at hused'
    obtain rfl := Value.int.inj (Except.ok.inj hused')
    have hfewer : recordedBytes fields + surplus - n ≤ recordedBytes fields + surplus :=
      Int.sub_le_self _ (hnoted.find? hentry n hn)
    exact le_trans (Int.cast_le.mpr hfewer) hbefore

/-- What a solvent volume tells about itself. -/
theorem Solvent.exists_info (h : v.Solvent total c) (hc : c.isFinite = true) :
    ∃ fields used info, v.files = .object fields ∧ Sized fields ∧ v.used = .int used ∧
      recordedBytes fields ≤ used ∧ Value.compare .le v.used v.capacity = .ok true ∧
      v.info = .ok info ∧ Value.compare .ge info.free (.int 0) = .ok true := by
  obtain ⟨surplus, hsurplus, fields, hfiles, hsized, hused⟩ := h.audited
  have hle := h.within _ hused
  have hnonneg : 0 ≤ recordedBytes fields + surplus :=
    Int.add_nonneg (h.notNegative fields hfiles).recordedBytes_nonneg hsurplus
  obtain ⟨free, hfree, hzero⟩ := Value.exists_sub_int h.isNumber hc hnonneg hle
  have hcount : v.fileCount = .ok fields.length := by rw [fileCount, hfiles]
  have hinfo : v.info =
      .ok { capacity := v.capacity, used := v.used, free, fileCount := fields.length } := by
    rw [info, hused, hfree, hcount]
    rfl
  refine ⟨fields, _, _, hfiles, hsized, hused, by omega, ?_, hinfo, hzero⟩
  rw [hused, Value.compare_int_le h.isNumber, (Num.int_le_iff hc _).mpr hle]

end Volume

namespace Request

open Volume

/-- A creation asks for a size that is not negative. A size that is no integer is never met. -/
def AsksNoNegativeSize : Request → Prop
  | create _ size => ∀ n ∈ size.int?, 0 ≤ n
  | _ => True

instance (r : Request) : Decidable r.AsksNoNegativeSize :=
  match r with
  | create _ size => inferInstanceAs (Decidable (∀ n ∈ size.int?, 0 ≤ n))
  | write _ _ _ | read _ _ _ | delete _ | list _ => isTrue trivial

theorem solvent_perform {v : Volume} {total : Value} {c : Num} (h : v.Solvent total c) (hc : c.isFinite = true)
    {r : Request} (hr : r.AsksNoNegativeSize) : (r.perform.on v).2.Solvent total c := by
  have heffect := r.perform_effect v
  generalize r.perform.on v = out at heffect ⊢
  obtain ⟨answer, w⟩ := out
  cases heffect with
  | same _ hsame => exact h.sameBooks hsame
  | created hdone => exact h.created hc hr hdone
  | touched hdone => exact h.touched hdone
  | deleted hdone => exact h.deleted hdone

theorem solvent_afterAll {total : Value} {c : Num} (hc : c.isFinite = true) (requests : List Request)
    (hsizes : ∀ r ∈ requests, r.AsksNoNegativeSize) {v : Volume} (h : v.Solvent total c) :
    (afterAll requests v).Solvent total c := by
  induction requests generalizing v with
  | nil => exact h
  | cons r rest ih =>
    have hstep := solvent_perform h hc (hsizes r List.mem_cons_self)
    exact ih (fun r' hr' => hsizes r' (List.mem_cons_of_mem _ hr')) hstep

/-- After any requests to a new volume of finite capacity that ask for no negative size, the recorded sizes
add up to no more than the bytes in use, these are no more than the capacity, and what the volume tells is
left is not below zero. -/
theorem used_within_capacity {v₀ v : Volume} {root : String} {gigabytes : Value} {c : Num}
    (hopen : (Storing.openAt root gigabytes).on v₀ = (.ok (), v))
    (hnew : v.tree.pathExists v.stateFile = false) (hcapacity : v.capacity.num? = some c)
    (hfinite : c.isFinite = true) (hnonneg : Value.compare .ge v.capacity (.int 0) = .ok true)
    (requests : List Request) (hsizes : ∀ r ∈ requests, r.AsksNoNegativeSize) :
    (afterAll requests v).capacity = v.capacity ∧
    ∃ fields used info, (afterAll requests v).files = .object fields ∧ Sized fields ∧
      (afterAll requests v).used = .int used ∧ recordedBytes fields ≤ used ∧
      Value.compare .le (.int used) v.capacity = .ok true ∧
      (afterAll requests v).info = .ok info ∧ Value.compare .ge info.free (.int 0) = .ok true := by
  obtain ⟨hused, hfiles⟩ := Storing.openAt_new hopen hnew
  have hstart := solvent_of_new hused hfiles hcapacity hfinite hnonneg
  have hend := solvent_afterAll hfinite requests hsizes hstart
  obtain ⟨fields, used, info, hfiles', hsized, hused', hle, hwithin, hinfo, hfree⟩ :=
    hend.exists_info hfinite
  rw [hused', hend.capacity_eq] at hwithin
  exact ⟨hend.capacity_eq, fields, used, info, hfiles', hsized, hused', hle, hwithin, hinfo, hfree⟩

/-- A volume of ten and a half bytes in a new directory. -/
def fractionalVolume : Volume :=
  ((Storing.openAt "/v" (.double ⟨0x3E45000000000000⟩)).on { root := "" }).2

/-- One path created twice, another one created too large, and the first one deleted. -/
def crowdingRequests : List Request :=
  [.create (.text "/a") (.int 5), .create (.text "/a") (.int 3), .create (.text "/b") (.int 9),
    .write (.text "/a") (.bytes #[7, 7]) (.int 4), .delete (.text "/a"), .create (.text "/b") (.bool true)]

theorem crowdingRequests_within_capacity :
    (Storing.openAt "/v" (.double ⟨0x3E45000000000000⟩)).on { root := "" } = (.ok (), fractionalVolume) ∧
    fractionalVolume.tree.pathExists fractionalVolume.stateFile = false ∧
    fractionalVolume.capacity.num? = some (.double ⟨0x4025000000000000⟩) ∧
    Value.compare .ge fractionalVolume.capacity (.int 0) = .ok true ∧
    (∀ r ∈ crowdingRequests, r.AsksNoNegativeSize) ∧
    (afterAll crowdingRequests fractionalVolume).used.int? = some 6 ∧
    ∃ fields used info, (afterAll crowdingRequests fractionalVolume).files = .object fields ∧ Sized fields ∧
      (afterAll crowdingRequests fractionalVolume).used = .int used ∧ recordedBytes fields ≤ used ∧
      Value.compare .le (.int used) fractionalVolume.capacity = .ok true ∧
      (afterAll crowdingRequests fractionalVolume).info = .ok info ∧
      Value.compare .ge info.free (.int 0) = .ok true := by
  have hopen : (Storing.openAt "/v" (.double ⟨0x3E45000000000000⟩)).on { root := "" } =
      (.ok (), fractionalVolume) :=
    Prod.ext (eq_ok_of_toOption (by decide +kernel)) rfl
  have hnew : fractionalVolume.tree.pathExists fractionalVolume.stateFile = false := by decide +kernel
  have hcapacity : fractionalVolume.capacity.num? = some (.double ⟨0x4025000000000000⟩) := by decide +kernel
  have hnonneg : Value.compare .ge fractionalVolume.capacity (.int 0) = .ok true :=
    eq_ok_of_toOption (by decide +kernel)
  have hsizes : ∀ r ∈ crowdingRequests, r.AsksNoNegativeSize := by decide
  have hend := used_within_capacity hopen hnew hcapacity (by decide) hnonneg crowdingRequests hsizes
  exact ⟨hopen, hnew, hcapacity, hnonneg, hsizes, by decide +kernel, hend.2⟩

end Request

end Handset
