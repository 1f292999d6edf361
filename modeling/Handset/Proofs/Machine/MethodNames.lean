import Handset.Proofs.Machine.CallCounts

/-!
# Which methods the compiler tells apart

The name under which the compiler knows a method joins the names of its class and of the method with a dot. The
signature is no part of it, so overloaded methods share one entry of the cache; and since nothing keeps dots out of
the two names, the same text can be the join of two pairs. These are the only ways in which two methods meet.
-/
namespace Handset

open Step

namespace Dex.Method

/-- The class and the name of a method, joined with a dot. -/
def joined (a : Method) : String :=
  a.className ++ "." ++ a.name

/-- What one method has in its name behind a dot the other has in the name of its class. -/
def Overlaps (a b : Method) : Prop :=
  ∃ shared, b.className = a.className ++ "." ++ shared ∧ a.name = shared ++ "." ++ b.name

end Dex.Method

theorem Callee.id_ofMethod (a : Dex.Method) : (Callee.ofMethod a).id = .ok a.joined := rfl

/-- Where two joins with a separator agree, the parts agree, or one separator comes before the other. -/
theorem append_cons_eq_append_cons {α : Type} {c : α} {xs ys us vs : List α}
    (h : xs ++ c :: us = ys ++ c :: vs) :
    (xs = ys ∧ us = vs) ∨ (∃ t, ys = xs ++ c :: t ∧ us = t ++ c :: vs) ∨
      ∃ t, xs = ys ++ c :: t ∧ vs = t ++ c :: us := by
  rcases List.append_eq_append_iff.mp h with ⟨_ | ⟨d, t⟩, hfront, hback⟩ | ⟨_ | ⟨d, t⟩, hfront, hback⟩
  · exact .inl ⟨(hfront.trans (List.append_nil xs)).symm, (List.cons.inj hback).2⟩
  · obtain ⟨rfl, hrest⟩ := List.cons.inj hback
    exact .inr (.inl ⟨t, hfront, hrest⟩)
  · exact .inl ⟨hfront.trans (List.append_nil ys), (List.cons.inj hback).2.symm⟩
  · obtain ⟨rfl, hrest⟩ := List.cons.inj hback
    exact .inr (.inr ⟨t, hfront, hrest⟩)

theorem toList_join (s t : String) : (s ++ "." ++ t).toList = s.toList ++ '.' :: t.toList := by
  rw [String.toList_append, String.toList_append, List.append_assoc]
  rfl

theorem eq_join_iff {s t u : String} : s = t ++ "." ++ u ↔ s.toList = t.toList ++ '.' :: u.toList := by
  rw [← String.toList_inj, toList_join]

namespace Dex.Method

variable {a b : Method}

theorem Overlaps.joined_eq (h : a.Overlaps b) : a.joined = b.joined := by
  obtain ⟨shared, hclass, hname⟩ := h
  rw [joined, joined, hclass, hname]
  simp only [String.append_assoc]

theorem overlaps_of_toList {shared : List Char} (hclass : b.className.toList = a.className.toList ++ '.' :: shared)
    (hname : a.name.toList = shared ++ '.' :: b.name.toList) : a.Overlaps b := by
  refine ⟨String.ofList shared, ?_, ?_⟩
  · rwa [eq_join_iff, String.toList_ofList]
  · rwa [eq_join_iff, String.toList_ofList]

/-- The joins agree only if class and name do, or where a dot within one of them is taken for the dot between. -/
theorem joined_eq_iff :
    a.joined = b.joined ↔ (a.className = b.className ∧ a.name = b.name) ∨ a.Overlaps b ∨ b.Overlaps a := by
  constructor
  · intro h
    rw [joined, joined, ← String.toList_inj, toList_join, toList_join] at h
    rcases append_cons_eq_append_cons h with ⟨hclass, hname⟩ | ⟨t, hclass, hname⟩ | ⟨t, hclass, hname⟩
    · exact .inl ⟨String.toList_inj.mp hclass, String.toList_inj.mp hname⟩
    · exact .inr (.inl (overlaps_of_toList hclass hname))
    · exact .inr (.inr (overlaps_of_toList hclass hname))
  · rintro (⟨hclass, hname⟩ | h | h)
    · rw [joined, joined, hclass, hname]
    · exact h.joined_eq
    · exact h.joined_eq.symm

theorem Overlaps.dot_mem (h : a.Overlaps b) : '.' ∈ b.className.toList := by
  obtain ⟨shared, hclass, -⟩ := h
  rw [eq_join_iff.mp hclass]
  exact List.mem_append_right _ List.mem_cons_self

end Dex.Method

namespace Jit.Event

variable {a b : Dex.Method}

theorem goesBy_ofMethod_iff {id : String} : (Callee.ofMethod a).goesBy id = true ↔ a.joined = id := by
  rw [Callee.goesBy_iff, Callee.id_ofMethod, Except.ok.injEq]

/-- Whatever happens to a method of another name makes no difference to an entry. -/
theorem entry_of_others (hne : a.joined ≠ b.joined) {events : List Event}
    (hevents : ∀ e ∈ events, e.callee = .ofMethod b) (m : Machine) :
    Table.find? (afterAll events m).jit.cache a.joined = Table.find? m.jit.cache a.joined := by
  have hnone : events.filter (·.callee.goesBy a.joined) = [] := by
    apply List.filter_eq_nil_iff.mpr
    intro e he
    rw [hevents e he, goesBy_ofMethod_iff]
    exact Ne.symm hne
  rw [entry_afterAll, hnone]
  rfl

/-- The compiler knows two methods under the same name exactly if they agree in class and name, whatever their
signatures are, or if a dot within their names is taken for the dot between; for classes without a dot in their names
only the first can be. Exactly then what happens to one of the methods can change the entry of the other. -/
theorem methods_share_name_iff (a b : Dex.Method) :
    ((Callee.ofMethod a).id = (Callee.ofMethod b).id ↔
      (a.className = b.className ∧ a.name = b.name) ∨ a.Overlaps b ∨ b.Overlaps a) ∧
    ('.' ∉ a.className.toList → '.' ∉ b.className.toList →
      ((Callee.ofMethod a).id = (Callee.ofMethod b).id ↔ a.className = b.className ∧ a.name = b.name)) ∧
    ((Callee.ofMethod a).id = (Callee.ofMethod b).id ↔
      ∃ (m : Machine) (events : List Event), (∀ e ∈ events, e.callee = .ofMethod b) ∧
        Table.find? (afterAll events m).jit.cache a.joined ≠ Table.find? m.jit.cache a.joined) := by
  have hid : (Callee.ofMethod a).id = (Callee.ofMethod b).id ↔ a.joined = b.joined := by
    rw [Callee.id_ofMethod, Callee.id_ofMethod, Except.ok.injEq]
  rw [hid]
  refine ⟨Dex.Method.joined_eq_iff, fun hdot hdot' => ?_, ?_, ?_⟩
  · rw [Dex.Method.joined_eq_iff, or_iff_left]
    rintro (h | h)
    · exact hdot' h.dot_mem
    · exact hdot h.dot_mem
  · intro h
    refine ⟨{}, [asked (.ofMethod b)], List.forall_mem_singleton.mpr rfl, ?_⟩
    have hentry : Table.find? (afterAll [asked (.ofMethod b)] {}).jit.cache a.joined = some ⟨1, none⟩ :=
      (entry_act (asked (.ofMethod b)) {} a.joined).trans (if_pos (goesBy_ofMethod_iff.mpr h.symm))
    rw [hentry]
    exact Option.some_ne_none _
  · rintro ⟨m, events, hevents, hchanged⟩
    by_contra hne
    exact hchanged (entry_of_others hne hevents m)

/-- An image whose class `LA;` has two methods `go`, one without parameters and one that takes an integer. -/
def overloaded : Bytes :=
  let word (n : UInt8) : List UInt8 := [n, 0, 0, 0]
  let absent : List UInt8 := List.replicate 4 255
  let definition : List UInt8 := [1, 1].flatMap word ++ absent ++ word 0 ++ absent ++ [0, 206, 0].flatMap word
  ([100, 101, 120, 10, 48, 51, 53, 0] ++ List.replicate 36 0 ++
    [96, 116, 128, 0, 152, 168, 0, 5, 3, 2, 0, 2, 1].flatMap word ++
    -- the strings, the types, the signatures and the methods
    [216, 218, 221, 225, 227].flatMap word ++ [0, 2, 3].flatMap word ++ [0, 0, 0, 4, 0, 200].flatMap word ++
    [1, 0, 0, 0] ++ word 1 ++ [1, 0, 1, 0] ++ word 1 ++ definition ++ word 1 ++ [2, 0] ++
    [0, 0, 2, 0, 0, 1, 0, 1, 1, 0] ++
    [1, 86] ++ [2, 103, 111] ++ [3, 76, 65, 59] ++ [1, 73] ++ [2, 86, 73]).toArray

def bareGo : Dex.Method where
  classIndex := 1
  className := "LA;"
  protoIndex := 0
  nameIndex := 1
  name := "go"
  proto := { shorty := "V", returnType := "V", parameters := #[] }
  codeOffset := 0

def integerGo : Dex.Method :=
  { bareGo with protoIndex := 1, proto := { shorty := "VI", returnType := "V", parameters := #["I"] } }

/-- The compiler is asked for the first time about the method that takes an integer, and counts this as the second
question: the first one was about the other method. -/
theorem overloaded_methods_share_count :
    (Dex.parse overloaded).2 = none ∧ (Dex.parse overloaded).1.methods = #[bareGo, integerGo] ∧
      bareGo.proto ≠ integerGo.proto ∧ (Callee.ofMethod bareGo).id = (Callee.ofMethod integerGo).id ∧
      ((Act.shouldCompile (.ofMethod integerGo)).on
        (afterAll [asked (.ofMethod bareGo)] { jit := { threshold := .int 2 } })).1 = .ok true := by
  have hparse : (Dex.parse overloaded).2 = none ∧ (Dex.parse overloaded).1.methods = #[bareGo, integerGo] := by
    decide +kernel
  exact ⟨hparse.1, hparse.2, by decide, rfl, eq_ok_of_toOption (by decide +kernel)⟩

end Jit.Event

end Handset
