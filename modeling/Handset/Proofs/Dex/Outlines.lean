import Handset.Dex.Parsing

/-!
# Images up to their names

Two readings of an image may differ in the names that they found and agree in everything else. An image
with all its names replaced by one text is its outline; replacing each name by itself leaves the image, so
the same argument serves for outlines and for whole images. A reading persists in another one if it
succeeds there too whenever it succeeds here, with a value that looks the same.
-/
namespace Handset.Dex

def Proto.mapNames (f : String → String) (p : Proto) : Proto :=
  { shorty := f p.shorty, returnType := f p.returnType, parameters := p.parameters.map f }

def Field.mapNames (f : String → String) (x : Field) : Field :=
  { x with className := f x.className, typeName := f x.typeName, name := f x.name }

def Method.mapNames (f : String → String) (m : Method) : Method :=
  { m with className := f m.className, name := f m.name, proto := m.proto.mapNames f }

def ClassDef.mapNames (f : String → String) (c : ClassDef) : ClassDef :=
  { c with
    className := f c.className
    superclass := f c.superclass
    interfaces := c.interfaces.map f
    sourceFile := c.sourceFile.map f }

/-- The image with every name replaced. Numbers, flags, offsets and code stay. -/
def Image.mapNames (f : String → String) (image : Image) : Image where
  header := image.header
  strings := image.strings.map f
  types := image.types.map f
  protos := image.protos.map (·.mapNames f)
  fields := image.fields.map (·.mapNames f)
  methods := image.methods.map (·.mapNames f)
  classes := image.classes.map (·.mapNames f)
  code := image.code

/-- All that an image tells without its names. -/
def Image.outline (image : Image) : Image :=
  image.mapNames fun _ => ""

theorem Proto.mapNames_id : Proto.mapNames id = id := by
  funext p
  simp [Proto.mapNames]

theorem Image.mapNames_id (image : Image) : image.mapNames id = image := by
  have hfield : Field.mapNames id = id := rfl
  have hmethod : Method.mapNames id = id := by
    funext m
    simp [Method.mapNames, Proto.mapNames_id]
  have hclass : ClassDef.mapNames id = id := by
    funext c
    simp [ClassDef.mapNames]
  simp [Image.mapNames, Proto.mapNames_id, hfield, hmethod, hclass]

/-- The images are the same but for their names, and these look the same through `f`. -/
structure Image.Alike (f : String → String) (image image' : Image) : Prop where
  header : image'.header = image.header
  strings : image'.strings.map f = image.strings.map f
  types : image'.types.map f = image.types.map f
  protos : image'.protos.map (·.mapNames f) = image.protos.map (·.mapNames f)
  fields : image'.fields.map (·.mapNames f) = image.fields.map (·.mapNames f)
  methods : image'.methods.map (·.mapNames f) = image.methods.map (·.mapNames f)
  classes : image'.classes.map (·.mapNames f) = image.classes.map (·.mapNames f)
  code : image'.code = image.code

theorem Image.Alike.mapNames_eq {f : String → String} {image image' : Image} (h : image.Alike f image') :
    image'.mapNames f = image.mapNames f := by
  simp only [Image.mapNames, h.header, h.strings, h.types, h.protos, h.fields, h.methods, h.classes, h.code]

variable {α β γ δ : Type}

/-- Where the first reading succeeds the second one does, with a value that looks the same. -/
def Persists (look : α → γ) (x y : Except Fault α) : Prop :=
  ∀ a, x = .ok a → ∃ b, y = .ok b ∧ look b = look a

/-- The reading goes through in the second place too, with an outcome that looks the same. -/
def Completes (look : α → α → Prop) (p q : Partial α) : Prop :=
  p.2 = none → q.2 = none ∧ look p.1 q.1

namespace Persists

variable {look : α → γ} {x y : Except Fault α}

theorem pure {a b : α} (h : look b = look a) :
    Persists look (Pure.pure a : Except Fault α) (Pure.pure b) := by
  intro a' ha
  obtain rfl := Except.ok.inj ha
  exact ⟨b, rfl, h⟩

theorem bind {look' : β → δ} {f g : α → Except Fault β} (h : Persists look x y)
    (hf : ∀ a b, look b = look a → Persists look' (f a) (g b)) : Persists look' (x >>= f) (y >>= g) := by
  intro c hc
  cases x with
  | error e => cases hc
  | ok a =>
    obtain ⟨b, rfl, hab⟩ := h a rfl
    exact hf a b hab c hc

/-- What persists exactly gives the same value to the rest. -/
theorem bindExact {look' : β → δ} {f g : α → Except Fault β} (h : Persists id x y)
    (hf : ∀ a, Persists look' (f a) (g a)) : Persists look' (x >>= f) (y >>= g) :=
  h.bind fun a b hab => by
    obtain rfl : b = a := hab
    exact hf b

/-- One of two readings is chosen, and the rest goes on with what it gives. -/
theorem chooseBind {look' : β → δ} {p : Prop} [Decidable p] {x' y' : Except Fault α}
    {f g : α → Except Fault β} (h : Persists look x y) (h' : Persists look x' y')
    (hf : ∀ a b, look b = look a → Persists look' (f a) (g b)) :
    Persists look' (if p then x >>= f else x' >>= f) (if p then y >>= g else y' >>= g) := by
  split
  · exact h.bind hf
  · exact h'.bind hf

theorem map {look' : β → δ} {g : α → β} (h : Persists look x y)
    (hg : ∀ a b, look b = look a → look' (g b) = look' (g a)) : Persists look' (x.map g) (y.map g) :=
  h.bind fun a b hab => pure (hg a b hab)

theorem eq_ok {a : α} (h : Persists id x y) (ha : x = .ok a) : y = .ok a := by
  obtain ⟨b, hb, rfl⟩ := h a ha
  exact hb

end Persists

theorem persists_entry {look : α → γ} {table table' : Array α} (h : table'.map look = table.map look)
    (index : Nat) : Persists look (entry table index) (entry table' index) := by
  intro a ha
  have hlook : (table'.map look)[index]? = (table.map look)[index]? := by rw [h]
  unfold entry at ha ⊢
  split at ha
  next found hfound =>
    obtain rfl := Except.ok.inj ha
    rw [Array.getElem?_map, Array.getElem?_map, hfound] at hlook
    cases hfound' : table'[index]? with
    | none =>
      rw [hfound'] at hlook
      cases hlook
    | some b =>
      rw [hfound'] at hlook
      exact ⟨b, rfl, Option.some.inj hlook⟩
  next => cases ha

theorem completes_collectFrom {look : α → γ} {read read' : Nat → Except Fault α} (left index : Nat)
    (h : ∀ i, index ≤ i → i < index + left → Persists look (read i) (read' i)) {acc acc' : Array α}
    (hacc : acc'.map look = acc.map look) :
    Completes (fun a b => b.map look = a.map look) (collectFrom read left index acc)
      (collectFrom read' left index acc') := by
  induction left generalizing index acc acc' with
  | zero => exact fun _ => ⟨rfl, hacc⟩
  | succ left ih =>
    have hfirst := h index (by omega) (by omega)
    unfold collectFrom
    cases hread : read index with
    | error e => exact nofun
    | ok a =>
      obtain ⟨b, hread', hab⟩ := hfirst a hread
      rw [hread']
      apply ih (index + 1)
      · intro i hle hlt
        exact h i (by omega) (by omega)
      · rw [Array.map_push, Array.map_push, hacc, hab]

theorem completes_collect {look : α → γ} {read read' : Nat → Except Fault α} (count : Nat)
    (h : ∀ i < count, Persists look (read i) (read' i)) :
    Completes (fun a b => b.map look = a.map look) (collect count read) (collect count read') := by
  apply completes_collectFrom
  · intro i _ hi
    exact h i (by omega)
  · rfl

theorem persists_readAll {look : α → γ} {read read' : Nat → Except Fault α} (count : Nat)
    (h : ∀ i, Persists look (read i) (read' i)) :
    Persists (Array.map look) (readAll count read) (readAll count read') := by
  intro entries hentries
  have hcollect := completes_collect count fun i _ => h i
  unfold readAll at hentries ⊢
  split at hentries
  next found heq =>
    obtain rfl := Except.ok.inj hentries
    rw [heq] at hcollect
    obtain ⟨hnone, hlook⟩ := hcollect rfl
    rcases hfound : collect count read' with ⟨found', fault⟩
    rw [hfound] at hnone hlook
    obtain rfl : fault = none := hnone
    exact ⟨found', rfl, hlook⟩
  next => cases hentries

theorem persists_readAll_exact {read read' : Nat → Except Fault α} (count : Nat)
    (h : ∀ i, Persists id (read i) (read' i)) : Persists id (readAll count read) (readAll count read') := by
  have hlook := persists_readAll count h
  rwa [Array.map_id_fun] at hlook

theorem Completes.andThen {look : α → α → Prop} {p q : Partial α} {next next' : α → Partial α}
    (h : Completes look p q) (hnext : ∀ b, look p.1 b → Completes look (next p.1) (next' b)) :
    Completes look (p.andThen next) (q.andThen next') := by
  obtain ⟨a, fault⟩ := p
  cases fault with
  | some e => exact nofun
  | none =>
    obtain ⟨hnone, hlook⟩ := h rfl
    obtain ⟨b, fault'⟩ := q
    obtain rfl : fault' = none := hnone
    exact hnext b hlook

end Handset.Dex
