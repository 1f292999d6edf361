import Handset.Proofs.Json.RoundTrip
import Handset.Proofs.Number.Differences
import Handset.Proofs.Number.ReadableTexts
import Handset.Proofs.Steps
import Handset.Value.Arithmetic

/-!
# Values read from documents

Whatever is read from a document can be written and read again. So can the sums and differences of such numbers,
as long as they have few enough digits.
-/
namespace Handset

/-! ### Numbers -/

namespace Double

open Float.Model

theorem plain_of_not_isNaN {d : Double} (h : d.isNaN = false) : d.Plain := fun hnan =>
  absurd hnan (by rw [h]; exact Bool.false_ne_true)

theorem plain_readUnsigned? {negative : Bool} {cs : List Char} {d : Double}
    (h : Number.readUnsigned? negative cs = some d) : d.Plain := by
  unfold Number.readUnsigned? at h
  dsimp only at h
  split at h
  next =>
    cases h
    exact plain_of_not_isNaN (isNaN_ofFields negative le_rfl)
  next =>
    split at h
    next =>
      cases h
      exact fun _ => rfl
    next =>
      split at h
      all_goals
        split at h
        next => cases h
        next =>
          obtain ⟨e, -, rfl⟩ := Option.map_eq_some_iff.mp h
          exact plain_of_not_isNaN (isNaN_ofScientific _ _ _)

/-- Machine numbers have one pattern of bits for what is no number. -/
theorem plain_ofFloat (f : Float) : (ofFloat f).Plain := by
  intro hnan
  rw [isNaN, Bool.and_eq_true, beq_iff_eq, bne_iff_ne] at hnan
  have hbits : (ofFloat f).bits.toBitVec = UnpackedFloat.packedNaN Format.binary64 := by
    apply f.toModel.valid.eq_packedNaN
    · apply BitVec.eq_of_toNat_eq
      exact (toNat_unpackExponent (ofFloat f)).trans hnan.1
    · intro hzero
      apply hnan.2
      rw [← toNat_unpackMantissa]
      exact congrArg BitVec.toNat hzero
  have hnone : nan.bits.toBitVec = UnpackedFloat.packedNaN Format.binary64 := by decide
  exact congrArg Double.mk (UInt64.toBitVec_inj.mp (hbits.trans hnone.symm))

end Double

namespace Value

theorem isWritable_int_iff {i : Int} : (int i).isWritable = true ↔ i.natAbs < 10 ^ 4300 := by
  have hpow (k : Nat) : Nat.pow 10 k = 10 ^ k := rfl
  simp only [isWritable, hpow, writableDigits, decide_eq_true_iff]

/-- The result of an operation on numbers can be written and read, if it has few enough digits. -/
theorem readable_of_onNumbers {onInts : Int → Int → Int} {onDoubles : Double → Double → Double} {v w u : Value}
    (hdoubles : ∀ a b, (onDoubles a b).Plain) (h : onNumbers onInts onDoubles v w = .ok u)
    (hu : u.isWritable = true) (depth : Nat) : Json.Readable depth u := by
  unfold onNumbers at h
  split at h
  next =>
    cases h
    exact .int (isWritable_int_iff.mp hu)
  next =>
    obtain ⟨a, -, h⟩ := Step.exists_of_bind_eq_ok h
    obtain ⟨b, -, h⟩ := Step.exists_of_bind_eq_ok h
    cases h
    exact .double (hdoubles a b)
  next => cases h

theorem readable_of_add {v w u : Value} {n : Int} (hw : w.int? = some n) (h : v.add w = .ok u)
    (hu : u.isWritable = true) (depth : Nat) : Json.Readable depth u := by
  have hnumbers : v.add w = onNumbers (· + ·) Double.add v w := by
    unfold add
    split
    · cases hw
    · cases hw
    · cases hw
    · rfl
  rw [hnumbers] at h
  exact readable_of_onNumbers (fun _ _ => Double.plain_ofFloat _) h hu depth

theorem readable_of_sub {v w u : Value} (h : v.sub w = .ok u) (hu : u.isWritable = true) (depth : Nat) :
    Json.Readable depth u :=
  readable_of_onNumbers (fun _ _ => Double.plain_ofFloat _) h hu depth

end Value

namespace Json

theorem isDigit_of_wholeDigits {cs ds rest : List Char} (h : wholeDigits cs = some (ds, rest)) :
    ∀ c ∈ ds, c.isDigit = true := by
  unfold wholeDigits at h
  split at h
  next =>
    cases h
    exact fun _ => Number.isDigit_of_mem_zero
  next =>
    dsimp only at h
    split at h
    next => cases h
    next =>
      cases h
      exact fun c hc => List.all_eq_true.mp List.all_takeWhile c hc

theorem readable_of_number? {cs rest : List Char} {v : Value} (h : number? cs = some (v, rest)) (depth : Nat) :
    Readable depth v := by
  unfold number? at h
  generalize splitMinus cs = s at h
  dsimp only at h
  split at h
  next => cases h
  next digits tail hwhole =>
    split at h
    next =>
      split at h
      next => cases h
      next hshort =>
        cases h
        have hlt := Number.ofDigits_lt (isDigit_of_wholeDigits hwhole)
        have hle : digits.length ≤ 4300 := Nat.not_lt.mp hshort
        have hpow := Nat.pow_le_pow_right (by decide : 0 < 10) hle
        refine .int ?_
        split <;> omega
    next =>
      obtain ⟨d, hd, hpair⟩ := Option.map_eq_some_iff.mp h
      cases hpair
      exact .double (Double.plain_readUnsigned? hd)

theorem readable_of_named? {cs rest : List Char} {v : Value} (h : named? cs = some (v, rest)) (depth : Nat) :
    Readable depth v := by
  unfold named? at h
  simp only [Option.orElse_eq_orElse, Option.orElse_eq_or, Option.or_eq_some_iff, Option.map_eq_some_iff,
    Prod.mk.injEq] at h
  rcases h with ⟨_, _, rfl, _⟩ | ⟨_, ⟨_, _, rfl, _⟩ | ⟨_, ⟨_, _, rfl, _⟩ | ⟨_, ⟨_, _, rfl, _⟩ | ⟨_, ⟨_, _, rfl, _⟩ |
    ⟨_, ⟨_, _, rfl, _⟩⟩⟩⟩⟩⟩
  · exact .none
  · exact .bool true
  · exact .bool false
  · exact .double fun _ => rfl
  · exact .double (Double.plain_of_not_isNaN (Double.isNaN_ofFields false le_rfl))
  · exact .double (Double.plain_of_not_isNaN (Double.isNaN_ofFields true le_rfl))

/-! ### Values -/

theorem exists_of_map_eq_ok {α β : Type} {x : Except Fault α} {f : α → β} {b : β} (h : x.map f = .ok b) :
    ∃ a, x = .ok a ∧ f a = b := by
  cases x with
  | error e => cases h
  | ok a => exact ⟨a, rfl, Except.ok.inj h⟩

/-- The fields are those of an object in a document, and lie at most `depth` deep. -/
def ReadableFields (depth : Nat) (fields : Table String Value) : Prop :=
  fields.keys.Nodup ∧ ∀ field ∈ fields, Readable depth field.2

theorem ReadableFields.put {depth : Nat} {fields : Table String Value} (h : ReadableFields depth fields) (key : String)
    {v : Value} (hv : Readable depth v) : ReadableFields depth (fields.put key v) := by
  refine ⟨Table.nodup_keys_put h.1 key v, fun field hfield => ?_⟩
  rcases Table.eq_or_mem_of_mem_put hfield with rfl | hmem
  · exact hv
  · exact h.2 field hmem

theorem readable_object_iff {depth : Nat} {fields : Table String Value} :
    Readable (depth + 1) (.object fields) ↔ ReadableFields depth fields := by
  constructor
  · intro h
    cases h with
    | object hkeys h => exact ⟨hkeys, h⟩
  · exact fun h => .object h.1 h.2

theorem ReadableFields.remove {depth : Nat} {fields : Table String Value} (h : ReadableFields depth fields)
    (key : String) : ReadableFields depth (fields.remove key) :=
  ⟨Table.nodup_keys_remove h.1 key, fun field hfield => h.2 field (Table.mem_of_mem_remove hfield)⟩

section
variable {left : Nat} (hvalue : ∀ depth cs v rest, value left depth cs = .ok (v, rest) → Readable depth v)
  (hitems : ∀ depth cs vs rest, items left depth cs = .ok (vs, rest) → ∀ v ∈ vs, Readable depth v)
  (hfields : ∀ depth before cs fs rest, ReadableFields depth before →
    fields left depth before cs = .ok (fs, rest) → ReadableFields depth fs)

include hitems hfields in
theorem readable_of_value_succ {depth : Nat} {cs rest : List Char} {v : Value}
    (h : value (left + 1) depth cs = .ok (v, rest)) : Readable depth v := by
  rw [value.eq_def] at h
  dsimp only at h
  split at h
  next =>
    obtain ⟨r, -, hr⟩ := exists_of_map_eq_ok h
    cases hr
    exact .text _
  next =>
    split at h
    next => cases h
    next =>
      cases h
      exact .list (List.forall_mem_nil _)
    next =>
      obtain ⟨r, hread, hr⟩ := exists_of_map_eq_ok h
      cases hr
      exact .list (hitems _ _ _ _ hread)
  next =>
    split at h
    next => cases h
    next =>
      cases h
      exact .object List.nodup_nil (List.forall_mem_nil _)
    next =>
      obtain ⟨r, hread, hr⟩ := exists_of_map_eq_ok h
      cases hr
      obtain ⟨hkeys, hvalues⟩ := hfields _ [] _ _ _ ⟨List.nodup_nil, List.forall_mem_nil _⟩ hread
      exact .object hkeys hvalues
  next =>
    unfold need at h
    split at h
    next hfound =>
      cases h
      rw [Option.orElse_eq_orElse, Option.orElse_eq_or, Option.or_eq_some_iff] at hfound
      rcases hfound with hnamed | ⟨-, hnumber⟩
      · exact readable_of_named? hnamed depth
      · exact readable_of_number? hnumber depth
    next => cases h

include hvalue hitems in
theorem readable_of_items_succ {depth : Nat} {cs rest : List Char} {vs : List Value}
    (h : items (left + 1) depth cs = .ok (vs, rest)) : ∀ v ∈ vs, Readable depth v := by
  rw [items] at h
  obtain ⟨⟨v, tail⟩, hv, h⟩ := Step.exists_of_bind_eq_ok h
  have hreadable := hvalue _ _ _ _ hv
  dsimp only at h
  split at h
  next =>
    cases h
    intro w hw
    rw [List.mem_singleton.mp hw]
    exact hreadable
  next =>
    obtain ⟨⟨ws, tail⟩, hws, h⟩ := Step.exists_of_bind_eq_ok h
    cases h
    intro w hw
    rcases List.mem_cons.mp hw with rfl | hw
    · exact hreadable
    · exact hitems _ _ _ _ hws w hw
  next => cases h

include hvalue hfields in
theorem readable_of_fields_succ {depth : Nat} {before fs : Table String Value} {cs rest : List Char}
    (hbefore : ReadableFields depth before) (h : fields (left + 1) depth before cs = .ok (fs, rest)) :
    ReadableFields depth fs := by
  rw [fields.eq_def] at h
  dsimp only at h
  split at h
  next =>
    obtain ⟨⟨key, tail⟩, -, h⟩ := Step.exists_of_bind_eq_ok h
    dsimp only at h
    split at h
    next =>
      obtain ⟨⟨v, tail⟩, hv, h⟩ := Step.exists_of_bind_eq_ok h
      have hput := hbefore.put key (hvalue _ _ _ _ hv)
      dsimp only at h
      split at h
      next =>
        cases h
        exact hput
      next => exact hfields _ _ _ _ _ hput h
      next => cases h
    next => cases h
  next => cases h

end

theorem readable_of_read (left : Nat) :
    (∀ depth cs v rest, value left depth cs = .ok (v, rest) → Readable depth v) ∧
    (∀ depth cs vs rest, items left depth cs = .ok (vs, rest) → ∀ v ∈ vs, Readable depth v) ∧
    (∀ depth before cs fs rest, ReadableFields depth before →
      fields left depth before cs = .ok (fs, rest) → ReadableFields depth fs) := by
  induction left with
  | zero =>
    refine ⟨fun _ _ _ _ h => ?_, fun _ _ _ _ h => ?_, fun _ _ _ _ _ _ h => ?_⟩
    · cases h
    · cases h
    · cases h
  | succ left ih =>
    obtain ⟨hvalue, hitems, hfields⟩ := ih
    exact ⟨fun _ _ _ _ h => readable_of_value_succ hitems hfields h,
      fun _ _ _ _ h => readable_of_items_succ hvalue hitems h,
      fun _ _ _ _ _ hbefore h => readable_of_fields_succ hvalue hfields hbefore h⟩

theorem readable_of_parse {s : String} {v : Value} (h : parse s = .ok v) : Readable deepest v := by
  unfold parse at h
  obtain ⟨⟨w, rest⟩, hw, h⟩ := Step.exists_of_bind_eq_ok h
  dsimp only at h
  split at h
  next =>
    cases h
    exact (readable_of_read _).1 _ _ _ _ hw
  next => cases h

end Json

end Handset
