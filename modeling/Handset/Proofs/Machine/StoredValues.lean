import Handset.Proofs.Machine.HeldObjects
import Handset.Proofs.Machine.PairArithmetic

/-!
# What is stored comes back

Fields of objects, static fields and elements of arrays are stored and loaded by the same five kinds of
accesses. Storing changes the one place that the instruction names. What a later load of that place finds
depends on the kind: the value itself, the truth of a number, its lowest eight or sixteen bits, or both words
of a pair, of which the low one must be a word indeed.
-/
namespace Handset

open Step

open Dex (Instruction)

def Kind.width : Kind → Width
  | .wide => .wide
  | _ => .single

/-! ### Places that hold values -/

/-- A place that holds a value: a field of an object, a static field, or an element of an array. -/
inductive Location where
  | field (place : Nat) (key : Key)
  | static (key : Nat)
  | element (place index : Nat)
deriving DecidableEq

namespace Cell

def field? : Cell → Key → Option Value
  | .object o, key => Table.find? o.fields key
  | _, _ => none

def element? : Cell → Nat → Option Value
  | .array _ items, index => items[index]?
  | _, _ => none

end Cell

namespace Machine

variable {m : Machine} {loc other : Location} {p : Nat} {c : Cell} {v w : Value}

def content? (m : Machine) : Location → Option Value
  | .field p key => m.cells[p]?.bind (·.field? key)
  | .static key => m.services.bind fun s => Table.find? s.statics key
  | .element p index => m.cells[p]?.bind (·.element? index)

/-- The machine with another value in a place, which has to be there. -/
def assign (m : Machine) (loc : Location) (v : Value) : Machine :=
  match loc with
  | .field p key => match m.cells[p]? with
    | some (.object o) => m.setCell p (.object { o with fields := Table.put o.fields key v })
    | _ => m
  | .static key => { m with services := m.services.map fun s => { s with statics := Table.put s.statics key v } }
  | .element p index => match m.cells[p]? with
    | some (.array type items) => m.setCell p (.array type (items.setIfInBounds index v))
    | _ => m

theorem place?_setCell (m : Machine) (p : Nat) (d : Cell) (v : Value) :
    (m.setCell p d).place? v = m.place? v := by
  simp only [place?, setCell, Array.size_setIfInBounds]

/-- A cell that is replaced by one with the same value in a place leaves the value there. -/
theorem content?_setCell {d : Cell} (hp : m.cells[p]? = some c)
    (hfield : ∀ key, other = .field p key → d.field? key = c.field? key)
    (helement : ∀ index, other = .element p index → d.element? index = c.element? index) :
    (m.setCell p d).content? other = m.content? other := by
  cases other with
  | static key => rfl
  | field q key =>
    rw [content?, content?, getElem?_setCell hp]
    split
    next h =>
      subst h
      rw [hp]
      exact hfield key rfl
    next => rfl
  | element q index =>
    rw [content?, content?, getElem?_setCell hp]
    split
    next h =>
      subst h
      rw [hp]
      exact helement index rfl
    next => rfl

theorem content?_assign_of_ne (h : other ≠ loc) (v : Value) :
    (m.assign loc v).content? other = m.content? other := by
  cases loc with
  | field p key =>
    rw [assign]
    split
    next o hcell =>
      refine content?_setCell hcell (fun k hk => ?_) fun _ _ => rfl
      have hne : key ≠ k := fun hkey => h (hkey ▸ hk)
      rw [Cell.field?, Table.find?_put, if_neg (by simpa using hne)]
      rfl
    next => rfl
  | static key =>
    cases other with
    | static k =>
      have hne : key ≠ k := fun hkey => h (hkey ▸ rfl)
      cases hs : m.services with
      | none => simp only [content?, assign, hs, Option.map_none, Option.bind_none]
      | some s =>
        simp only [content?, assign, hs, Option.map_some, Option.bind_some]
        rw [Table.find?_put, if_neg (by simpa using hne)]
    | field _ _ => rfl
    | element _ _ => rfl
  | element p index =>
    rw [assign]
    split
    next type items hcell =>
      refine content?_setCell hcell (fun _ _ => rfl) fun k hk => ?_
      have hne : index ≠ k := fun hindex => h (hindex ▸ hk)
      exact Array.getElem?_setIfInBounds_ne hne
    next => rfl

theorem pc_assign (m : Machine) (loc : Location) (v : Value) : (m.assign loc v).pc = m.pc := by
  unfold assign
  split
  · split <;> rfl
  · rfl
  · split <;> rfl

theorem registers_assign (m : Machine) (loc : Location) (v : Value) :
    (m.assign loc v).registers = m.registers := by
  unfold assign
  split
  · split <;> rfl
  · rfl
  · split <;> rfl

end Machine

/-- The three stores. -/
inductive Region where
  | fields
  | statics
  | elements
deriving DecidableEq

namespace Region

/-- The operation that stores a register, or a pair, in a place of the region. -/
def put : Region → Kind → Operation
  | .fields => .instancePut
  | .statics => .staticPut
  | .elements => .arrayPut

/-- The operation that loads a register, or a pair, from a place of the region. -/
def get : Region → Kind → Operation
  | .fields => .instanceGet
  | .statics => .staticGet
  | .elements => .arrayGet

def distance : Region → Int
  | .fields | .statics => 2
  | .elements => 1

end Region

namespace Act

variable {pools : Pools} {region : Region} {kind : Kind} {i j : Instruction} {m t : Machine} {s : Services}
  {loc : Location} {v w : Value} {n : Nat} {back : List Value}

/-- The instruction names this place of the region, and it is there: a field, whether it has a value yet or
not, of an object of the heap; a static field; an element inside an array. -/
inductive Reaches (i : Instruction) (m : Machine) : Region → Location → Prop where
  | field {s : Services} {field p : Nat} {object : Value} {o : Obj} (hs : m.services = some s)
      (hword : Dex.word s.code 2 (i.offset + 1) = .ok field) (hregister : m.registers[i.b]? = some object)
      (hobject : m.object? object = some (p, o)) : Reaches i m .fields (.field p (.int field))
  | static {s : Services} {field : Nat} (hs : m.services = some s)
      (hword : Dex.word s.code 2 (i.offset + 1) = .ok field) : Reaches i m .statics (.static field)
  | element {s : Services} {p : Nat} {array index type : Value} {items : Array Value} {k : Int}
      (hs : m.services = some s) (harray : m.registers[i.b]? = some array)
      (hindex : m.registers[i.c]? = some index) (hfound : m.array? array = some (p, type, items))
      (hk : index.int? = some k) (hrange : 0 ≤ k ∧ k < items.size) :
      Reaches i m .elements (.element p k.toNat)

/-! ### Storing and loading -/

theorem on_setObjectField {object : Value} {p : Nat} {o : Obj} (hs : m.services = some s)
    (hobject : m.object? object = some (p, o)) (field : Nat) (v : Value) :
    (setObjectField object field v).on m = (.ok (), m.assign (.field p (.int field)) v) := by
  have hcell := (Machine.object?_eq_some_iff.mp hobject).2
  rw [setObjectField, on_bind_ok (on_service hs _), on_bind_ok (on_get m), hobject, Machine.assign, hcell]
  rfl

theorem on_setStaticField (hs : m.services = some s) (field : Nat) (v : Value) :
    (setStaticField field v).on m = (.ok (), m.assign (.static field) v) := by
  rw [setStaticField, on_bind_ok (on_service hs _), Machine.assign, hs]
  rfl

theorem on_element {array index type : Value} {p : Nat} {items : Array Value} {k : Int}
    (hfound : m.array? array = some (p, type, items)) (hk : index.int? = some k)
    (hrange : 0 ≤ k ∧ k < items.size) :
    (element array index).on m = (.ok (p, type, items, k.toNat), m) := by
  have hinside : ¬(k < 0 ∨ (items.size : Int) ≤ k) := by omega
  rw [element, on_bind_ok (on_get m), hfound]
  dsimp only
  rw [hk]
  dsimp only
  rw [if_neg hinside, on_pure]

theorem on_setArrayElement {array index type : Value} {p : Nat} {items : Array Value} {k : Int}
    (hs : m.services = some s) (hfound : m.array? array = some (p, type, items)) (hk : index.int? = some k)
    (hrange : 0 ≤ k ∧ k < items.size) (v : Value) :
    (setArrayElement array index v).on m = (.ok (), m.assign (.element p k.toNat) v) := by
  have hcell := (Machine.array?_eq_some_iff.mp hfound).2
  rw [setArrayElement, on_bind_ok (on_service hs _), on_bind_ok (on_element hfound hk hrange), Machine.assign,
    hcell]
  rfl

theorem on_objectField {object : Value} {field p : Nat} {o : Obj} (hs : m.services = some s)
    (hobject : m.object? object = some (p, o)) (hv : m.content? (.field p (.int field)) = some v) :
    (objectField object field).on m = (.ok v, m) := by
  rw [Machine.content?, (Machine.object?_eq_some_iff.mp hobject).2, Option.bind_some, Cell.field?] at hv
  rw [objectField, on_bind_ok (on_service hs _), on_bind_ok (on_get m), hobject]
  dsimp only
  rw [hv, on_pure]

theorem on_staticField {field : Nat} (hs : m.services = some s) (hv : m.content? (.static field) = some v) :
    (staticField field).on m = (.ok v, m) := by
  rw [Machine.content?, hs, Option.bind_some] at hv
  rw [staticField, on_bind_ok (on_service hs _), hv, on_pure]

theorem on_arrayElement {array index type : Value} {p : Nat} {items : Array Value} {k : Int}
    (hs : m.services = some s) (hfound : m.array? array = some (p, type, items)) (hk : index.int? = some k)
    (hrange : 0 ≤ k ∧ k < items.size) (hv : m.content? (.element p k.toNat) = some v) :
    (arrayElement array index).on m = (.ok v, m) := by
  rw [Machine.content?, (Machine.array?_eq_some_iff.mp hfound).2, Option.bind_some, Cell.element?] at hv
  rw [arrayElement, on_bind_ok (on_service hs _), on_bind_ok (on_element hfound hk hrange), on_pure,
    Array.getD_eq_getD_getElem?, hv, Option.getD_some]

theorem on_put (h : Reaches i m region loc) (hv : (deliver kind i.a).on m = (.ok v, m)) :
    (perform pools (region.put kind) i).on m =
      (.ok (), { m.assign loc v with pc := m.pc + region.distance }) := by
  rw [← Machine.pc_assign m loc v]
  cases h with
  | field hs hword hregister hobject =>
    change (instancePut kind i).on m = _
    rw [instancePut, on_bind_ok (on_operand hs hword), on_bind_ok (on_register_of_some hregister),
      on_bind_ok hv, on_bind_ok (on_setObjectField hs hobject _ v)]
    rfl
  | static hs hword =>
    change (staticPut kind i).on m = _
    rw [staticPut, on_bind_ok (on_operand hs hword), on_bind_ok hv, on_bind_ok (on_setStaticField hs _ v)]
    rfl
  | element hs harray hindex hfound hk hrange =>
    change (arrayPut kind i).on m = _
    rw [arrayPut, on_bind_ok (on_register_of_some harray), on_bind_ok (on_register_of_some hindex),
      on_bind_ok hv, on_bind_ok (on_setArrayElement hs hfound hk hrange v)]
    rfl

theorem on_put_of_error {e : Fault} (h : Reaches i m region loc) (he : (deliver kind i.a).on m = (.error e, m)) :
    (perform pools (region.put kind) i).on m = (.error e, m) := by
  cases h with
  | field hs hword hregister hobject =>
    change (instancePut kind i).on m = _
    rw [instancePut, on_bind_ok (on_operand hs hword), on_bind_ok (on_register_of_some hregister),
      on_bind_error he]
  | static hs hword =>
    change (staticPut kind i).on m = _
    rw [staticPut, on_bind_ok (on_operand hs hword), on_bind_error he]
  | element hs harray hindex hfound hk hrange =>
    change (arrayPut kind i).on m = _
    rw [arrayPut, on_bind_ok (on_register_of_some harray), on_bind_ok (on_register_of_some hindex),
      on_bind_error he]

theorem on_get_of_content (h : Reaches i m region loc) (hv : m.content? loc = some v) :
    (perform pools (region.get kind) i).on m = (do receive kind i.a v; advance region.distance).on m := by
  cases h with
  | field hs hword hregister hobject =>
    change (instanceGet kind i).on m = _
    rw [instanceGet, on_bind_ok (on_operand hs hword), on_bind_ok (on_register_of_some hregister),
      on_bind_ok (on_objectField hs hobject hv)]
    rfl
  | static hs hword =>
    change (staticGet kind i).on m = _
    rw [staticGet, on_bind_ok (on_operand hs hword), on_bind_ok (on_staticField hs hv)]
    rfl
  | element hs harray hindex hfound hk hrange =>
    change (arrayGet kind i).on m = _
    rw [arrayGet, on_bind_ok (on_register_of_some harray), on_bind_ok (on_register_of_some hindex),
      on_bind_ok (on_arrayElement hs hfound hk hrange hv)]
    rfl

theorem content?_assign_self (h : Reaches i m region loc) (v : Value) :
    (m.assign loc v).content? loc = some v := by
  cases h with
  | field hs hword hregister hobject =>
    have hcell := (Machine.object?_eq_some_iff.mp hobject).2
    rw [Machine.assign, hcell, Machine.content?, Machine.getElem?_setCell hcell, if_pos rfl, Option.bind_some,
      Cell.field?, Table.find?_put, if_pos (BEq.refl _)]
  | static hs hword =>
    rw [Machine.content?, Machine.assign, hs, Option.map_some, Option.bind_some, Table.find?_put,
      if_pos (BEq.refl _)]
  | element hs harray hindex hfound hk hrange =>
    have hcell := (Machine.array?_eq_some_iff.mp hfound).2
    rw [Machine.assign, hcell, Machine.content?, Machine.getElem?_setCell hcell, if_pos rfl, Option.bind_some,
      Cell.element?, Array.getElem?_setIfInBounds_self_of_lt (by omega)]

/-- The instruction that has stored a value names the same place afterwards. -/
theorem Reaches.assign (h : Reaches i m region loc) (v : Value) (pc : Int) :
    Reaches i { m.assign loc v with pc } region loc := by
  cases h with
  | field hs hword hregister hobject =>
    obtain ⟨hplace, hcell⟩ := Machine.object?_eq_some_iff.mp hobject
    rw [Machine.assign, hcell]
    exact .field hs hword hregister (Machine.object?_eq_some_iff.mpr
      ⟨(Machine.place?_setCell m _ _ _).trans hplace, (Machine.getElem?_setCell hcell _ _).trans (if_pos rfl)⟩)
  | static hs hword =>
    rw [Machine.assign, hs]
    exact .static rfl hword
  | element hs harray hindex hfound hk hrange =>
    obtain ⟨hplace, hcell⟩ := Machine.array?_eq_some_iff.mp hfound
    rw [Machine.assign, hcell]
    exact .element hs harray hindex (Machine.array?_eq_some_iff.mpr
      ⟨(Machine.place?_setCell m _ _ _).trans hplace, (Machine.getElem?_setCell hcell _ _).trans (if_pos rfl)⟩)
      hk (by rwa [Array.size_setIfInBounds])

/-! ### What comes back -/

/-- The values that a store of this kind from register `n` and a load of the place bring back. -/
inductive ComesBack (m : Machine) (n : Nat) : Kind → List Value → Prop where
  | plain {v : Value} (h : m.registers[n]? = some v) : ComesBack m n .plain [v]
  | boolean {x : Int} (h : Holds m n x) : ComesBack m n .boolean [.bool (x != 0)]
  | byte {x : Int} (h : Holds m n x) : ComesBack m n .byte [.int (x % 2 ^ 8)]
  | half {x : Int} (h : Holds m n x) : ComesBack m n .half [.int (x % 2 ^ 16)]
  | wide {lo hi : Int} (hlo : Holds m n lo) (hhi : Holds m (n + 1) hi) (hlow : 0 ≤ lo)
      (hword : lo < 2 ^ 32) : ComesBack m n .wide [.int lo, .int hi]

/-- The values stand in the registers from `n` on, and no other register is changed. -/
structure Loaded (before after : Array Value) (n : Nat) (values : List Value) : Prop where
  new : ∀ k < values.length, after[n + k]? = values[k]?
  others : ∀ k, k < n ∨ n + values.length ≤ k → after[k]? = before[k]?

theorem loaded_one (hn : n < t.registers.size) (v : Value) :
    (setRegister n v).on t = (.ok (), { t with registers := t.registers.setIfInBounds n v }) ∧
      Loaded t.registers (t.registers.setIfInBounds n v) n [v] := by
  refine ⟨by rw [on_setRegister, if_pos hn], ⟨fun k hk => ?_, fun k hk => ?_⟩⟩
  · obtain rfl := Nat.lt_one_iff.mp hk
    exact Array.getElem?_setIfInBounds_self_of_lt hn
  · exact Array.getElem?_setIfInBounds_ne (by simp only [List.length_singleton] at hk; omega)

theorem loaded_two {registers : Array Value} (hn : n + 1 < registers.size) (v w : Value) :
    Loaded registers ((registers.setIfInBounds n v).setIfInBounds (n + 1) w) n [v, w] := by
  refine ⟨fun k hk => ?_, fun k hk => ?_⟩
  · obtain rfl | rfl : k = 0 ∨ k = 1 := by simp only [List.length_cons, List.length_nil] at hk; omega
    · rw [Array.getElem?_setIfInBounds_ne (by omega)]
      exact Array.getElem?_setIfInBounds_self_of_lt (Nat.lt_of_succ_lt hn)
    · exact Array.getElem?_setIfInBounds_self_of_lt (by rw [Array.size_setIfInBounds]; exact hn)
  · simp only [List.length_cons, List.length_nil] at hk
    rw [Array.getElem?_setIfInBounds_ne (by omega), Array.getElem?_setIfInBounds_ne (by omega)]

theorem toInt_of_int? {x : Int} (h : v.int? = some x) : v.toInt = .ok x := by
  cases v with
  | bool b => cases h; rfl
  | int i => cases h; rfl
  | _ => cases h

theorem on_lowest_bits {x : Int} (hx : Holds m n x) (width : Nat) :
    (do lift ((← register n).and (.int (2 ^ width - 1 : Nat))) : Act Value).on m =
      (.ok (.int (x % 2 ^ width)), m) := by
  obtain ⟨v, hv, hx⟩ := hx.on_register
  rw [on_bind_ok hv, on_lift, Value.and_mask hx]

theorem and_mask_again (x : Int) (width : Nat) :
    (Value.int (x % 2 ^ width)).and (.int (2 ^ width - 1 : Nat)) = .ok (.int (x % 2 ^ width)) := by
  rw [Value.and_mask (x := x % 2 ^ width) rfl, Int.emod_emod]

/-- What is delivered to be stored is received as the values that come back. -/
theorem exists_on_deliver (h : ComesBack m n kind back) (hread : Readable m kind.width n) :
    ∃ v, (deliver kind n).on m = (.ok v, m) ∧
      ∀ (t : Machine) k, k + back.length ≤ t.registers.size →
        ∃ registers, (receive kind k v).on t = (.ok (), { t with registers }) ∧
          Loaded t.registers registers k back := by
  cases h with
  | plain hv => exact ⟨_, on_register_of_some hv, fun t k hk => ⟨_, loaded_one hk _⟩⟩
  | @boolean x hx =>
    obtain ⟨v, hv, hx⟩ := hx.on_register
    refine ⟨.int x, ?_, fun t k hk => ⟨_, loaded_one hk _⟩⟩
    rw [deliver, on_bind_ok hv, toInt_of_int? hx]
    rfl
  | @byte x hx =>
    have hagain : (Value.int (x % 2 ^ 8)).and (.int 0xFF) = .ok (.int (x % 2 ^ 8)) := and_mask_again x 8
    refine ⟨_, on_lowest_bits hx 8, fun t k hk => ⟨t.registers.setIfInBounds k (.int (x % 2 ^ 8)), ?_⟩⟩
    rw [receive, hagain]
    exact loaded_one hk _
  | @half x hx =>
    have hagain : (Value.int (x % 2 ^ 16)).and (.int 0xFFFF) = .ok (.int (x % 2 ^ 16)) :=
      and_mask_again x 16
    refine ⟨_, on_lowest_bits hx 16, fun t k hk => ⟨t.registers.setIfInBounds k (.int (x % 2 ^ 16)), ?_⟩⟩
    rw [receive, hagain]
    exact loaded_one hk _
  | @wide lo hi hlo hhi hlow hword =>
    have hpair : Carries m .wide n (Bitwise.join lo hi) := ⟨lo, hi, hlo, hhi, rfl⟩
    obtain ⟨v, hv, hx⟩ := on_load hpair hread
    -- only a low word in range can be told apart from the high one again
    rw [Bitwise.join_eq_add hlow hword] at hx
    have hrest : (hi * 2 ^ 32 + lo) % 2 ^ 32 = lo := by omega
    have hquotient : (hi * 2 ^ 32 + lo) / 2 ^ 32 = hi := by omega
    refine ⟨v, hv, fun t k hk => ⟨_, ?_, loaded_two hk _ _⟩⟩
    rw [receive, on_setPair hx hk, hrest, hquotient]

theorem exists_on_deliver_error (h : ComesBack m n kind back) (hread : ¬Readable m kind.width n) :
    ∃ e, Overflows e ∧ (deliver kind n).on m = (.error e, m) := by
  cases h with
  | @wide lo hi hlo hhi hlow hword =>
    have hpair : Carries m .wide n (Bitwise.join lo hi) := ⟨lo, hi, hlo, hhi, rfl⟩
    exact on_load_of_unreadable hpair hread
  | plain _ => exact absurd (fun h => by cases h) hread
  | boolean _ => exact absurd (fun h => by cases h) hread
  | byte _ => exact absurd (fun h => by cases h) hread
  | half _ => exact absurd (fun h => by cases h) hread

/-- Where an instruction names a place that is there, its store changes the value in that place and no other.
A load of the place, into registers that are there, then brings back the value itself, or for an integer its
truth, its lowest eight or sixteen bits, or both words of a pair with a low word in range; and it changes
nothing else. The one store that fails is that of a pair with a high word too large to be shifted, and it
changes nothing. -/
theorem stored_value_comes_back (pools : Pools) (region : Region) (kind : Kind) (i : Instruction) (m : Machine)
    (loc : Location) (back : List Value) (hloc : Reaches i m region loc) (hback : ComesBack m i.a kind back) :
    (Readable m kind.width i.a → ∃ v t,
      (perform pools (region.put kind) i).on m = (.ok (), t) ∧
      t = { m.assign loc v with pc := m.pc + region.distance } ∧ t.registers = m.registers ∧
      (∀ other, other ≠ loc → t.content? other = m.content? other) ∧ Reaches i t region loc ∧
      ∀ j, Reaches j t region loc → j.a + back.length ≤ t.registers.size → ∃ registers,
        (perform pools (region.get kind) j).on t =
          (.ok (), { t with registers, pc := t.pc + region.distance }) ∧
        Loaded t.registers registers j.a back) ∧
    (¬Readable m kind.width i.a →
      ∃ e, Overflows e ∧ (perform pools (region.put kind) i).on m = (.error e, m)) := by
  refine ⟨fun hread => ?_, fun hread => ?_⟩
  · obtain ⟨v, hdeliver, hreceive⟩ := exists_on_deliver hback hread
    refine ⟨v, _, on_put hloc hdeliver, rfl, Machine.registers_assign m loc v,
      fun other hne => Machine.content?_assign_of_ne hne v, hloc.assign v _, fun j hj hroom => ?_⟩
    obtain ⟨registers, hregisters, hloaded⟩ := hreceive _ j.a hroom
    have hcontent := content?_assign_self hloc v
    refine ⟨registers, ?_, hloaded⟩
    rw [on_get_of_content hj hcontent, on_bind_ok hregisters]
    rfl
  · obtain ⟨e, he, hdeliver⟩ := exists_on_deliver_error hback hread
    exact ⟨e, he, on_put_of_error hloc hdeliver⟩

/-- An array of two elements, with its number, a negative number and an index in the registers. -/
def byteMachine : Machine where
  registers := #[.int 1, .int (-1), .bool true]
  cells := #[.array (.text "[B") #[.int 7, .int 8]]
  services := some {}

/-- All ones stored as a byte come back as 255, and the other element is as it was. -/
theorem byteMachine_comes_back :
    Reaches ⟨528, 0, 0⟩ byteMachine .elements (.element 0 1) ∧
    ∃ t u, (perform {} (.arrayPut .byte) ⟨528, 0, 0⟩).on byteMachine = (.ok (), t) ∧
      t.content? (.element 0 0) = some (.int 7) ∧
      (perform {} (.arrayGet .byte) ⟨528, 0, 0⟩).on t = (.ok (), u) ∧
      u.registers[1]? = some (.int 255) := by
  have hreaches : Reaches ⟨528, 0, 0⟩ byteMachine .elements (.element 0 1) :=
    .element (k := 1) rfl rfl rfl rfl rfl (by decide)
  have hback : ComesBack byteMachine 1 .byte [.int (-1 % 2 ^ 8)] := .byte ⟨_, rfl, rfl⟩
  obtain ⟨v, t, hput, -, hregisters, hothers, hagain, hget⟩ :=
    (stored_value_comes_back {} .elements .byte ⟨528, 0, 0⟩ byteMachine _ _ hreaches hback).1
      fun h => by cases h
  obtain ⟨registers, hget, hloaded⟩ := hget ⟨528, 0, 0⟩ hagain (by rw [hregisters]; decide)
  exact ⟨hreaches, t, _, hput, hothers _ (by decide), hget, hloaded.new 0 (by decide)⟩

end Act

end Handset
