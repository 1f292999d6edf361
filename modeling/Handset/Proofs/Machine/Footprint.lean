import Handset.Machine.Execution
import Handset.Proofs.Steps

/-!
# What operations touch

Looking at registers, operands, fields and elements leaves the machine as it is. Allocation and
collection change the heap, the counters beside it and the log, and nothing else. One theorem goes
through all operations and tells what they are built of, which registers they write, whether they can raise
an exception and whether they can move backwards; what holds of the parts and of sequences then holds of
every operation.
-/
namespace Handset

open Dex (Instruction)

namespace Operation

/-- The registers that an operation may write. -/
def Writes (op : Operation) (i : Instruction) (n : Nat) : Prop :=
  match op with
  | .move .bothWords _ | .load .farString => True
  | .move _ .wide | .moveResult .wide | .load _ | .instanceGet _ | .staticGet _ | .arrayGet _
  | .binary .wide _ | .unary .wide _ | .extend | .convert _ _ .wide | .narrow .wide =>
    n = i.a ∨ n = i.a + 1
  | .move _ .single | .moveResult .single | .newInstance | .newArray | .instanceOf | .compare _ _
  | .binary .single _ | .unary .single _ | .convert _ _ .single | .narrow _ => n = i.a
  | _ => False

/-- The operations that can make an exception pending. -/
def raises : Operation → Bool
  | .throwValue | .checkCast => true
  | .binary _ op => Act.BinaryOp.isDivision op
  | _ => false

/-- The operations that move the program counter by a signed distance. -/
def jumps : Operation → Bool
  | .branch _ | .branchZero _ | .jump _ | .packedSwitch | .sparseSwitch => true
  | _ => false

end Operation

namespace Act

open Step

variable {P : Machine → Prop}

@[simp] theorem on_register (n : Nat) (m : Machine) :
    (register n).on m = (match m.registers[n]? with
      | some v => .ok v
      | none => .error .itemOutOfRange, m) := by
  simp only [register, on_bind, on_get]
  cases m.registers[n]? <;> rfl

theorem on_setRegister (n : Nat) (v : Value) (m : Machine) :
    (setRegister n v).on m =
      if n < m.registers.size then
        (.ok (), { m with registers := m.registers.setIfInBounds n v })
      else (.error .slotOutOfRange, m) := by
  simp only [setRegister, on_bind, on_get]
  split <;> rfl

theorem on_register_of_some {m : Machine} {n : Nat} {v : Value} (h : m.registers[n]? = some v) :
    (register n).on m = (.ok v, m) := by
  rw [on_register, h]

theorem on_service {m : Machine} {s : Services} (hs : m.services = some s) (name : String) :
    (service name).on m = (.ok s, m) := by
  simp only [service, on_bind, on_get, hs, on_pure]

theorem on_operand {m : Machine} {s : Services} {i : Instruction} {distance width n : Nat}
    (hs : m.services = some s) (h : Dex.word s.code width (i.offset + distance) = .ok n) :
    (operand i distance width).on m = (.ok n, m) := by
  rw [operand, on_bind_ok (on_service hs _), on_lift, h]

/-- What allocation does once the object is in its cell. -/
def announce (className : Value) (id : Nat) : Act Nat := do
  let shown ← lift className.written
  report .debug s!"创建对象: {shown} (ID: {id}, 大小: {objectSize}B)"
  collectIfNeeded
  pure id

/-- Allocation takes a cell, which is left vacated if the bytes in use cannot be counted. -/
theorem on_createObject (className : Value) (m : Machine) :
    (createObject className).on m = match m.used.add (.int objectSize) with
      | .ok used =>
        (announce className m.nextId).on { m with cells := m.cells.push (.object { className }), used }
      | .error e => (.error e, { m with cells := m.cells.push .vacated }) := by
  simp only [createObject, on_bind, on_get]
  cases m.used.add (.int objectSize) <;> rfl

theorem quiet_register (n : Nat) : Quiet (register n) := fun m => by rw [on_register]

theorem quiet_refuse {α : Type} (why : Refusal) : Quiet (refuse why : Act α) := fun _ => rfl

theorem quiet_service (name : String) : Quiet (service name) := by
  refine quiet_bind quiet_get fun m => ?_
  split
  · exact quiet_pure _
  · exact quiet_throw _

theorem quiet_operand (i : Instruction) (distance width : Nat) : Quiet (operand i distance width) :=
  quiet_bind (quiet_service _) fun _ => quiet_lift _

theorem quiet_withMemory {α : Type} (f : Memory → Except Fault α) : Quiet (withMemory f) :=
  quiet_bind quiet_get fun _ => quiet_lift _

theorem on_withMemory_eq {α : Type} {f : Memory → Except Fault α} {m : Machine} {r : Except Fault α}
    (h : f m.memory = r) : (withMemory f).on m = (r, m) :=
  h ▸ on_lift (f m.memory) m

theorem quiet_pair (n : Nat) : Quiet (pair n) :=
  quiet_bind (quiet_register _) fun _ => quiet_bind (quiet_withMemory _) fun _ =>
    quiet_bind (quiet_register _) fun _ => quiet_lift _

theorem quiet_load (w : Width) (n : Nat) : Quiet (load w n) := by
  cases w with
  | single => exact quiet_register n
  | wide => exact quiet_pair n

theorem quiet_element (array index : Value) : Quiet (element array index) := by
  refine quiet_bind quiet_get fun m => ?_
  split
  · exact quiet_refuse _
  · split
    · exact quiet_refuse _
    · split
      · exact quiet_refuse _
      · exact quiet_pure _

theorem quiet_objectField (object : Value) (field : Nat) : Quiet (objectField object field) := by
  refine quiet_bind (quiet_service _) fun _ => quiet_bind quiet_get fun m => ?_
  split
  · exact quiet_refuse _
  · split
    · exact quiet_pure _
    · exact quiet_refuse _

theorem quiet_staticField (field : Nat) : Quiet (staticField field) := by
  refine quiet_bind (quiet_service _) fun s => ?_
  split
  · exact quiet_pure _
  · exact quiet_refuse _

theorem quiet_arrayElement (array index : Value) : Quiet (arrayElement array index) :=
  quiet_bind (quiet_service _) fun _ => quiet_bind (quiet_element _ _) fun _ => quiet_pure _

theorem quiet_typeOf (v : Value) : Quiet (typeOf v) := by
  refine quiet_bind (quiet_service _) fun _ => quiet_bind quiet_get fun m => ?_
  split <;> exact quiet_pure _

theorem quiet_mark : Quiet mark := by
  refine quiet_bind quiet_get fun m => ?_
  split
  · split
    · exact quiet_bind (quiet_lift _) fun _ => quiet_lift _
    · exact quiet_throw _
  · exact quiet_throw _

section Collecting

variable (hreport : ∀ level text, Keeps P (Step.report level text : Act Unit))
include hreport

theorem keeps_reportCollection (marks : Machine.Marks) : Keeps P (reportCollection marks) :=
  keeps_bind quiet_get.keeps fun _ => keeps_bind (hreport _ _) fun _ =>
    keeps_bind (quiet_lift _).keeps fun _ => keeps_bind (quiet_lift _).keeps fun _ =>
      keeps_bind (quiet_lift _).keeps fun _ => hreport _ _

/-- A collection counts itself, sweeps and reports. -/
theorem keeps_collect (hcount : ∀ (m : Machine) collections, P m → P { m with collections })
    (hsweep : ∀ keep, Keeps P (sweep keep)) : Keeps P collect :=
  keeps_bind (keeps_modify fun m hm => hcount m _ hm) fun _ => keeps_bind quiet_mark.keeps fun _ =>
    keeps_bind (hsweep _) fun _ => keeps_reportCollection hreport _

theorem keeps_collectIfNeeded (hcollect : Keeps P collect) : Keeps P collectIfNeeded := by
  refine keeps_bind quiet_get.keeps fun m => keeps_bind (quiet_lift _).keeps fun share => ?_
  refine keeps_bind (quiet_lift _).keeps fun needed => ?_
  split
  · exact keeps_bind (hreport _ _) fun _ => hcollect
  · exact (quiet_pure _).keeps

theorem keeps_announce (hcollect : Keeps P collectIfNeeded) (className : Value) (id : Nat) :
    Keeps P (announce className id) :=
  keeps_bind (quiet_lift _).keeps fun _ => keeps_bind (hreport _ _) fun _ =>
    keeps_bind hcollect fun _ => (quiet_pure _).keeps

end Collecting

theorem keeps_removeObjects {places : List Nat}
    (hcell : ∀ (m : Machine), ∀ p ∈ places, P m → P (m.setCell p .vacated))
    (hused : ∀ (m : Machine) used, P m → P { m with used }) : Keeps P (removeObjects places) := by
  induction places with
  | nil => exact (quiet_pure _).keeps
  | cons p rest ih =>
    refine keeps_bind (keeps_modify fun m hm => hcell m p List.mem_cons_self hm) fun _ =>
      keeps_bind quiet_get.keeps fun m => keeps_bind (quiet_lift _).keeps fun used => ?_
    exact keeps_bind (keeps_modify fun m hm => hused m used hm) fun _ =>
      ih fun m q hq hm => hcell m q (List.mem_cons_of_mem p hq) hm

/-- The property does not look at the heap, the counters beside it or the log. -/
def HeapBlind (P : Machine → Prop) : Prop :=
  ∀ (m : Machine) cells used collections log, P m → P { m with cells, used, collections, log }

namespace HeapBlind

theorem report (h : HeapBlind P) (level : Level) (text : String) :
    Keeps P (Step.report level text : Act Unit) :=
  keeps_report (fun m log hm => h m m.cells m.used m.collections log hm) level text

theorem setCell (h : HeapBlind P) (p : Nat) (c : Cell) :
    Keeps P (modify fun m => m.setCell p c : Act Unit) :=
  keeps_modify fun m hm => h m _ m.used m.collections m.log hm

theorem sweep (h : HeapBlind P) (keep : Nat → Bool) : Keeps P (Act.sweep keep) := by
  have hremove (places : List Nat) : Keeps P (removeObjects places) :=
    keeps_removeObjects (fun m _ _ hm => h m _ m.used m.collections m.log hm)
      fun m used hm => h m m.cells used m.collections m.log hm
  exact keeps_bind quiet_get.keeps fun _ => keeps_bind (hremove _) fun _ => h.report _ _

theorem collect (h : HeapBlind P) : Keeps P Act.collect :=
  keeps_collect h.report (fun m n hm => h m m.cells m.used n m.log hm) h.sweep

theorem collectIfNeeded (h : HeapBlind P) : Keeps P Act.collectIfNeeded :=
  keeps_collectIfNeeded h.report h.collect

theorem announce (h : HeapBlind P) (className : Value) (id : Nat) : Keeps P (Act.announce className id) :=
  keeps_announce h.report h.collectIfNeeded className id

theorem createObject (h : HeapBlind P) (className : Value) : Keeps P (Act.createObject className) := by
  intro m hm
  rw [on_createObject]
  split
  next used _ => exact h.announce className m.nextId _ (h m _ used m.collections m.log hm)
  next => exact h m _ m.used m.collections m.log hm

theorem createArray (h : HeapBlind P) (type length : Value) : Keeps P (Act.createArray type length) := by
  refine keeps_bind (quiet_service _).keeps fun _ => ?_
  split
  · exact (quiet_refuse _).keeps
  · split
    · exact (quiet_refuse _).keeps
    · exact keeps_get_bind fun m hm => h m _ m.used m.collections m.log hm

theorem setArrayElement (h : HeapBlind P) (array index value : Value) :
    Keeps P (Act.setArrayElement array index value) :=
  keeps_bind (quiet_service _).keeps fun _ => keeps_bind (quiet_element _ _).keeps fun _ =>
    h.setCell _ _

theorem setObjectField (h : HeapBlind P) (object : Value) (field : Nat) (value : Value) :
    Keeps P (Act.setObjectField object field value) := by
  refine keeps_bind (quiet_service _).keeps fun _ => keeps_bind quiet_get.keeps fun m => ?_
  split
  · exact (quiet_refuse _).keeps
  · exact h.setCell _ _

end HeapBlind

/-- What an operation is built of: it looks at registers, services, elements and objects, writes the
registers it may write, raises exceptions if it can, moves the program counter, backwards only in a jump,
changes the services, allocates, and stores elements and fields. -/
inductive Built (op : Operation) (i : Instruction) : {α : Type} → Act α → Prop
  | lift {α : Type} (x : Except Fault α) : Built op i (Step.lift x)
  | withMemory {α : Type} (f : Memory → Except Fault α) : Built op i (Act.withMemory f)
  | bind {α β : Type} {x : Act α} {f : α → Act β} (hx : Built op i x)
      (hf : ∀ a, x.Answers a → Built op i (f a)) : Built op i (x >>= f)
  | register (n : Nat) : Built op i (Act.register n)
  | service (name : String) : Built op i (Act.service name)
  | element (array index : Value) : Built op i (Act.element array index)
  | objectField (object : Value) (field : Nat) : Built op i (Act.objectField object field)
  | typeOf (v : Value) : Built op i (Act.typeOf v)
  | lock (v : Value) : Built op i (Act.lock v)
  | setRegister {n : Nat} (hn : op.Writes i n) (v : Value) : Built op i (Act.setRegister n v)
  | raise (h : op.raises = true) (v : Value) : Built op i (Act.raise v)
  | advance {distance : Int} (h : op.jumps = true ∨ 0 ≤ distance) : Built op i (Act.advance distance)
  | setServices (s : Services) : Built op i (Act.setServices s)
  | createObject (h : op = .newInstance) (className : Value) : Built op i (Act.createObject className)
  | createArray (type length : Value) : Built op i (Act.createArray type length)
  | setArrayElement (array index value : Value) : Built op i (Act.setArrayElement array index value)
  | setObjectField (object : Value) (field : Nat) (value : Value) :
      Built op i (Act.setObjectField object field value)
  | report (level : Level) (text : String) : Built op i (Step.report level text)

namespace Built

variable {op : Operation} {i : Instruction}

theorem seq {α β : Type} {x : Act α} {f : α → Act β} (hx : Built op i x)
    (hf : ∀ a, Built op i (f a)) : Built op i (x >>= f) :=
  hx.bind fun a _ => hf a

theorem pure {α : Type} (a : α) : Built op i (Pure.pure a : Act α) :=
  .lift (.ok a)

theorem refuse {α : Type} (why : Refusal) : Built op i (Act.refuse why : Act α) :=
  .lift (.error (.refused why))

theorem forward (distance : Nat) : Built op i (Act.advance distance) :=
  .advance (.inr (Int.natCast_nonneg _))

theorem operand (distance width : Nat) : Built op i (Act.operand i distance width) :=
  seq (service _) fun _ => .lift _

theorem signedOperand (distance width : Nat) : Built op i (Act.signedOperand i distance width) :=
  seq (service _) fun _ => .lift _

theorem codeWord (place : Nat) : Built op i (Act.codeWord place) :=
  seq (service _) fun _ => .lift _

theorem signedCodeWord (place : Nat) : Built op i (Act.signedCodeWord place) :=
  seq (service _) fun _ => .lift _

theorem pair (n : Nat) : Built op i (Act.pair n) :=
  seq (register _) fun _ => seq (withMemory _) fun _ => seq (register _) fun _ => .lift _

theorem load (w : Width) (n : Nat) : Built op i (Act.load w n) := by
  cases w with
  | single => exact register n
  | wide => exact pair n

theorem deliver (kind : Kind) (n : Nat) : Built op i (Act.deliver kind n) := by
  cases kind with
  | plain => exact register n
  | wide => exact pair n
  | boolean => exact seq (register _) fun _ => seq (lift _) fun _ => pure _
  | byte => exact seq (register _) fun _ => .lift _
  | half => exact seq (register _) fun _ => .lift _

theorem arrayElement (array index : Value) : Built op i (Act.arrayElement array index) :=
  seq (service _) fun _ => seq (element _ _) fun _ => pure _

theorem staticField (field : Nat) : Built op i (Act.staticField field) := by
  refine seq (service _) fun s => ?_
  split
  · exact pure _
  · exact refuse _

theorem push (v : Value) : Built op i (Act.push v) :=
  seq (service _) fun _ => .setServices _

theorem pop : Built op i Act.pop := by
  refine seq (service _) fun s => ?_
  split
  · exact refuse _
  · exact seq (setServices _) fun _ => pure _

theorem popFrame : Built op i Act.popFrame := by
  refine seq (service _) fun s => ?_
  split
  · exact refuse _
  · exact .setServices _

theorem setStaticField (field : Nat) (value : Value) : Built op i (Act.setStaticField field value) :=
  seq (service _) fun _ => .setServices _

theorem unlock (v : Value) : Built op i (Act.unlock v) := by
  refine seq (service _) fun s => ?_
  split
  · exact refuse _
  · split
    · exact refuse _
    · split
      · exact .setServices _
      · exact refuse _

theorem packedTarget (v : Value) (left key place : Nat) :
    Built op i (Act.packedTarget v left key place) := by
  induction left generalizing key place with
  | zero => exact pure _
  | succ left ih =>
    refine seq (signedCodeWord _) fun target => ?_
    split
    · exact pure _
    · exact ih _ _

theorem sparseTarget (v : Value) (left place : Nat) : Built op i (Act.sparseTarget v left place) := by
  induction left generalizing place with
  | zero => exact pure _
  | succ left ih =>
    refine seq (codeWord _) fun key => seq (signedCodeWord _) fun target => ?_
    split
    · exact pure _
    · exact ih _

theorem setPair {n : Nat} (hn : op.Writes i n) (hn' : op.Writes i (n + 1)) (v : Value) :
    Built op i (Act.setPair n v) :=
  seq (lift _) fun _ => seq (setRegister hn _) fun _ => seq (lift _) fun _ => .setRegister hn' _

theorem store (w : Width) {n : Nat} (hn : op.Writes i n) (hn' : w = .wide → op.Writes i (n + 1))
    (v : Value) : Built op i (Act.store w n v) := by
  cases w with
  | single => exact .setRegister hn v
  | wide => exact setPair hn (hn' rfl) v

theorem receive (kind : Kind) {n : Nat} (hn : op.Writes i n)
    (hn' : kind = .wide → op.Writes i (n + 1)) (v : Value) : Built op i (Act.receive kind n v) := by
  cases kind with
  | plain => exact .setRegister hn v
  | wide => exact setPair hn (hn' rfl) v
  | boolean => exact .setRegister hn _
  | byte => exact seq (lift _) fun _ => .setRegister hn _
  | half => exact seq (lift _) fun _ => .setRegister hn _

theorem fillArray (array : Value) (start left done : Nat) :
    Built op i (Act.fillArray array start left done) := by
  induction left generalizing done with
  | zero => exact pure _
  | succ left ih =>
    exact seq (service _) fun _ => seq (register _) fun _ =>
      seq (setArrayElement _ _ _) fun _ => ih _

theorem moveRegisters (addressing : Addressing) : Built op i (Act.moveRegisters addressing i) := by
  cases addressing with
  | packed => exact pure _
  | sourceWord => exact seq (operand _ _) fun _ => pure _
  | bothWords => exact seq (operand _ _) fun _ => seq (operand _ _) fun _ => pure _

/-- A move writes to register `A` unless it takes both registers from the words after it, and it goes on
forwards. -/
private theorem of_answers_moveRegisters {addressing : Addressing} {r : Nat × Nat × Int}
    (h : (Act.moveRegisters addressing i).Answers r) :
    (addressing = .bothWords ∨ r.1 = i.a) ∧ 0 ≤ r.2.2 := by
  obtain ⟨m, h⟩ := h
  have h : (Act.moveRegisters addressing i).on m = (.ok r, ((Act.moveRegisters addressing i).on m).2) :=
    Prod.ext h rfl
  cases addressing with
  | packed =>
    obtain rfl := Except.ok.inj (congrArg Prod.fst h)
    exact ⟨.inr rfl, Int.natCast_nonneg _⟩
  | sourceWord =>
    obtain ⟨source, -, h⟩ := (quiet_operand _ _ _).exists_of_on_bind h
    obtain rfl := Except.ok.inj (congrArg Prod.fst h)
    exact ⟨.inr rfl, Int.natCast_nonneg _⟩
  | bothWords =>
    obtain ⟨target, -, h⟩ := (quiet_operand _ _ _).exists_of_on_bind h
    obtain ⟨source, -, h⟩ := (quiet_operand _ _ _).exists_of_on_bind h
    obtain rfl := Except.ok.inj (congrArg Prod.fst h)
    exact ⟨.inl rfl, Int.natCast_nonneg _⟩

theorem move {addressing : Addressing} {width : Width} :
    Built (.move addressing width) i (Act.move addressing width i) := by
  refine (moveRegisters addressing).bind ?_
  rintro ⟨target, source, distance⟩ hr
  obtain ⟨hplace, hdistance⟩ := of_answers_moveRegisters hr
  have htarget : (Operation.move addressing width).Writes i target ∧
      (width = .wide → (Operation.move addressing width).Writes i (target + 1)) := by
    rcases hplace with rfl | rfl
    · exact ⟨trivial, fun _ => trivial⟩
    · cases addressing with
      | bothWords => exact ⟨trivial, fun _ => trivial⟩
      | packed | sourceWord =>
        cases width with
        | single => exact ⟨rfl, nofun⟩
        | wide => exact ⟨.inl rfl, fun _ => .inr rfl⟩
  refine seq (register _) fun v => seq (setRegister htarget.1 _) fun _ => ?_
  cases width with
  | single => exact .advance (.inr hdistance)
  | wide =>
    exact seq (register _) fun _ => seq (setRegister (htarget.2 rfl) _) fun _ => .advance (.inr hdistance)

theorem moveResult {width : Width} : Built (.moveResult width) i (Act.moveResult width i) := by
  cases width with
  | single =>
    have hlow : (Operation.moveResult .single).Writes i i.a := rfl
    exact seq pop fun _ => seq (setRegister hlow _) fun _ => .forward _
  | wide =>
    have hlow : (Operation.moveResult .wide).Writes i i.a := .inl rfl
    have hhigh : (Operation.moveResult .wide).Writes i (i.a + 1) := .inr rfl
    exact seq pop fun _ => seq pop fun _ => seq (setRegister hlow _) fun _ =>
      seq (setRegister hhigh _) fun _ => .forward _

theorem loadLiteral (pools : Pools) {literal : Literal} :
    Built (.load literal) i (Act.loadLiteral pools literal i) := by
  have hlow : (Operation.load literal).Writes i i.a := by
    cases literal <;> first | exact .inl rfl | trivial
  have hhigh : (Operation.load literal).Writes i (i.a + 1) := by
    cases literal <;> first | exact .inr rfl | trivial
  cases literal with
  | nibble => exact seq (setRegister hlow _) fun _ => .forward _
  | half | word | highHalf =>
    exact seq (operand _ _) fun _ => seq (setRegister hlow _) fun _ => .forward _
  | wideHalf | wideWord | wideLong | wideHighHalf =>
    exact seq (operand _ _) fun _ => seq (setRegister hlow _) fun _ =>
      seq (setRegister hhigh _) fun _ => .forward _
  | string | className =>
    exact seq (operand _ _) fun _ => seq (lift _) fun _ => seq (setRegister hlow _) fun _ => .forward _
  | farString =>
    have hany (n : Nat) : (Operation.load .farString).Writes i n := trivial
    exact seq (operand _ _) fun _ => seq (operand _ _) fun _ => seq (lift _) fun _ =>
      seq (setRegister (hany _) _) fun _ => .forward _

theorem newInstance (pools : Pools) : Built .newInstance i (Act.newInstance pools i) := by
  have hlow : Operation.newInstance.Writes i i.a := rfl
  exact seq (operand _ _) fun _ => seq (lift _) fun _ => seq (createObject rfl _) fun _ =>
    seq (setRegister hlow _) fun _ => seq (lift _) fun _ => seq (report _ _) fun _ => .forward _

theorem filledNewArray (pools : Pools) : Built op i (Act.filledNewArray pools i) :=
  seq (operand _ _) fun _ => seq (lift _) fun _ => seq (createArray _ _) fun _ =>
    seq (fillArray _ _ _ _) fun _ => seq (push _) fun _ => .forward _

theorem checkCast (pools : Pools) : Built .checkCast i (Act.checkCast pools i) := by
  have hraises : Operation.checkCast.raises = true := rfl
  refine seq (operand _ _) fun _ => seq (lift _) fun _ => seq (register _) fun _ =>
    seq (typeOf _) fun _ => ?_
  split
  · exact .forward _
  · exact seq (lift _) fun _ => seq (lift _) fun _ => seq (raise hraises _) fun _ => .forward _

theorem binary {width : Width} {op : BinaryOp} : Built (.binary width op) i (Act.binary width op i) := by
  refine seq (load _ _) fun v => seq (load _ _) fun w => ?_
  split
  next hzero =>
    have hraises : (Operation.binary width op).raises = true := (Bool.and_eq_true_iff.mp hzero).1
    exact seq (raise hraises _) fun _ => .forward _
  next =>
    refine seq (withMemory _) fun r => seq (store width ?_ ?_ r) fun _ => .forward _
    · cases width with
      | single => exact rfl
      | wide => exact .inl rfl
    · rintro rfl
      exact .inr rfl

theorem unary {width : Width} {op : UnaryOp} : Built (.unary width op) i (Act.unary width op i) := by
  refine seq (load _ _) fun v => seq (lift _) fun r => seq (store width ?_ ?_ r) fun _ => .forward _
  · cases width with
    | single => exact rfl
    | wide => exact .inl rfl
  · rintro rfl
    exact .inr rfl

theorem convert {source target : Width} {kind : NumberKind} :
    Built (.convert source kind target) i (Act.convert source kind target i) := by
  refine seq (load _ _) fun v => seq (lift _) fun r => seq (store target ?_ ?_ r) fun _ => .forward _
  · cases target with
    | single => exact rfl
    | wide => exact .inl rfl
  · rintro rfl
    exact .inr rfl

theorem narrow {kind : Kind} : Built (.narrow kind) i (Act.narrow kind i) := by
  refine seq (register _) fun _ => seq (receive kind ?_ ?_ _) fun _ => .forward _
  · cases kind with
    | wide => exact .inl rfl
    | _ => exact rfl
  · rintro rfl
    exact .inr rfl

/-- Every operation is built of such parts. -/
theorem perform (pools : Pools) (op : Operation) (i : Instruction) :
    Built op i (Act.perform pools op i) := by
  cases op with
  | nop => exact .forward _
  | move addressing width => exact move
  | moveResult width => exact moveResult
  | load literal => exact loadLiteral pools
  | monitorEnter => exact seq (register _) fun _ => seq (lock _) fun _ => .forward _
  | monitorExit => exact seq (register _) fun _ => seq (unlock _) fun _ => .forward _
  | instanceGet kind =>
    have hlow : (Operation.instanceGet kind).Writes i i.a := .inl rfl
    have hhigh : (Operation.instanceGet kind).Writes i (i.a + 1) := .inr rfl
    exact seq (operand _ _) fun _ => seq (register _) fun _ => seq (objectField _ _) fun _ =>
      seq (receive kind hlow (fun _ => hhigh) _) fun _ => .forward _
  | instancePut kind =>
    exact seq (operand _ _) fun _ => seq (register _) fun _ => seq (deliver _ _) fun _ =>
      seq (setObjectField _ _ _) fun _ => .forward _
  | staticGet kind =>
    have hlow : (Operation.staticGet kind).Writes i i.a := .inl rfl
    have hhigh : (Operation.staticGet kind).Writes i (i.a + 1) := .inr rfl
    exact seq (operand _ _) fun _ => seq (staticField _) fun _ =>
      seq (receive kind hlow (fun _ => hhigh) _) fun _ => .forward _
  | staticPut kind =>
    exact seq (operand _ _) fun _ => seq (deliver _ _) fun _ => seq (setStaticField _ _) fun _ =>
      .forward _
  | arrayGet kind =>
    have hlow : (Operation.arrayGet kind).Writes i i.a := .inl rfl
    have hhigh : (Operation.arrayGet kind).Writes i (i.a + 1) := .inr rfl
    exact seq (register _) fun _ => seq (register _) fun _ => seq (arrayElement _ _) fun _ =>
      seq (receive kind hlow (fun _ => hhigh) _) fun _ => .forward _
  | arrayPut kind =>
    exact seq (register _) fun _ => seq (register _) fun _ => seq (deliver _ _) fun _ =>
      seq (setArrayElement _ _ _) fun _ => .forward _
  | invoke => exact seq (operand _ _) fun _ => .forward _
  | returnVoid => exact popFrame
  | returnValue width => exact seq (load _ _) fun _ => seq popFrame fun _ => push _
  | newInstance => exact newInstance pools
  | newArray =>
    have hlow : Operation.newArray.Writes i i.a := rfl
    exact seq (operand _ _) fun _ => seq (register _) fun _ => seq (lift _) fun _ =>
      seq (createArray _ _) fun _ => seq (setRegister hlow _) fun _ => .forward _
  | filledNewArray => exact filledNewArray pools
  | fillArrayData => exact seq (register _) fun _ => seq (operand _ _) fun _ => .forward _
  | throwValue =>
    have hraises : Operation.throwValue.raises = true := rfl
    exact seq (register _) fun _ => seq (raise hraises _) fun _ => .forward _
  | checkCast => exact checkCast pools
  | instanceOf =>
    have hlow : Operation.instanceOf.Writes i i.a := rfl
    exact seq (operand _ _) fun _ => seq (lift _) fun _ => seq (register _) fun _ =>
      seq (typeOf _) fun _ => seq (setRegister hlow _) fun _ => .forward _
  | compare width inverted =>
    have hlow : (Operation.compare width inverted).Writes i i.a := rfl
    exact seq (load _ _) fun _ => seq (load _ _) fun _ => seq (lift _) fun _ =>
      seq (setRegister hlow _) fun _ => .forward _
  | branch test =>
    refine seq (signedOperand _ _) fun _ => seq (register _) fun _ => seq (register _) fun _ =>
      seq (lift _) fun taken => ?_
    split <;> exact .advance (.inl rfl)
  | branchZero test =>
    refine seq (signedOperand _ _) fun _ => seq (register _) fun _ => seq (lift _) fun taken => ?_
    split <;> exact .advance (.inl rfl)
  | jump bytes => exact seq (signedOperand _ _) fun _ => .advance (.inl rfl)
  | packedSwitch =>
    exact seq (register _) fun _ => seq (operand _ _) fun _ => seq (codeWord _) fun _ =>
      seq (codeWord _) fun _ => seq (packedTarget _ _ _ _) fun _ => .advance (.inl rfl)
  | sparseSwitch =>
    exact seq (register _) fun _ => seq (operand _ _) fun _ => seq (codeWord _) fun _ =>
      seq (sparseTarget _ _ _) fun _ => .advance (.inl rfl)
  | binary width op => exact binary
  | unary width op => exact unary
  | extend =>
    have hlow : Operation.extend.Writes i i.a := .inl rfl
    have hhigh : Operation.extend.Writes i (i.a + 1) := .inr rfl
    exact seq (register _) fun _ => seq (setRegister hlow _) fun _ =>
      seq (setRegister hhigh _) fun _ => .forward _
  | convert source kind target => exact convert
  | narrow kind => exact narrow

end Built

/-- A property that nothing an operation does can break. -/
structure Robust (P : Machine → Prop) (op : Operation) (i : Instruction) : Prop where
  write : ∀ n v, op.Writes i n → Keeps P (setRegister n v)
  raise : op.raises = true → ∀ v, Keeps P (Act.raise v)
  advance : ∀ distance, op.jumps = true ∨ 0 ≤ distance → Keeps P (Act.advance distance)
  services : ∀ s, Keeps P (setServices s)
  createObject : op = .newInstance → ∀ className, Keeps P (Act.createObject className)
  createArray : ∀ type length, Keeps P (Act.createArray type length)
  setArrayElement : ∀ array index value, Keeps P (Act.setArrayElement array index value)
  setObjectField : ∀ object field value, Keeps P (Act.setObjectField object field value)
  report : ∀ level text, Keeps P (Step.report level text : Act Unit)

/-- A property that looks neither at the heap nor at the services around the machine is robust if it
survives jumps and those writes and exceptions that the operation can bring about. -/
theorem HeapBlind.robust {op : Operation} {i : Instruction} (h : HeapBlind P)
    (write : ∀ n v, op.Writes i n → Keeps P (Act.setRegister n v))
    (raise : op.raises = true → ∀ v, Keeps P (Act.raise v))
    (pc : ∀ (m : Machine) pc, P m → P { m with pc })
    (services : ∀ (m : Machine) services, P m → P { m with services }) : Robust P op i where
  write := write
  raise := raise
  advance _ _ := keeps_modify fun m hm => pc m _ hm
  services _ := keeps_modify fun m hm => services m _ hm
  createObject _ := h.createObject
  createArray := h.createArray
  setArrayElement := h.setArrayElement
  setObjectField := h.setObjectField
  report := h.report

namespace Robust

variable {op : Operation} {i : Instruction}

theorem lock (h : Robust P op i) (v : Value) : Keeps P (Act.lock v) := by
  refine keeps_bind (quiet_service _).keeps fun s => keeps_bind quiet_get.keeps fun m => ?_
  split
  · exact (quiet_refuse _).keeps
  · exact h.services _

theorem built (h : Robust P op i) {α : Type} {x : Act α} (hx : Built op i x) : Keeps P x := by
  induction hx with
  | lift x => exact (quiet_lift x).keeps
  | withMemory f => exact (quiet_withMemory f).keeps
  | bind _ _ ihx ihf => exact keeps_bind_of_yields ihx (fun s _ a ha => ⟨s, ha⟩) ihf
  | register n => exact (quiet_register n).keeps
  | service name => exact (quiet_service name).keeps
  | element array index => exact (quiet_element array index).keeps
  | objectField object field => exact (quiet_objectField object field).keeps
  | typeOf v => exact (quiet_typeOf v).keeps
  | lock v => exact h.lock v
  | setRegister hn v => exact h.write _ v hn
  | raise hraises v => exact h.raise hraises v
  | advance hdistance => exact h.advance _ hdistance
  | setServices s => exact h.services s
  | createObject hop className => exact h.createObject hop className
  | createArray type length => exact h.createArray type length
  | setArrayElement array index value => exact h.setArrayElement array index value
  | setObjectField object field value => exact h.setObjectField object field value
  | report level text => exact h.report level text

/-- An operation keeps every property that nothing it does can break. -/
theorem perform (pools : Pools) (h : Robust P op i) : Keeps P (Act.perform pools op i) :=
  h.built (Built.perform pools op i)

end Robust

end Act

end Handset
