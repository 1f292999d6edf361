import Handset.Machine.Calls
import Handset.Proofs.Steps

/-!
# The table of loaded classes

An image brings in all of its classes or none: what a reading has collected before it fails is not loaded.
So the table is decided by the definitions of the images that were read to their end, one image after the
other, and among definitions of one name the last one stands.
-/
namespace Handset

namespace Dex

/-- Is the image read to its end? -/
def readable (d : Bytes) : Bool :=
  (parse d).2.isNone

/-- The definitions of the images that are read to their end, in the order of the images. -/
def definitions (images : List Bytes) : List ClassDef :=
  (images.filter readable).flatMap fun d => (parse d).1.classes.toList

theorem definitions_cons (d : Bytes) (rest : List Bytes) :
    definitions (d :: rest) = definitions [d] ++ definitions rest := by
  unfold definitions
  rw [← List.flatMap_append, ← List.filter_append, List.singleton_append]

theorem definitions_of_failed {d : Bytes} (h : readable d = false) : definitions [d] = [] := by
  simp [definitions, h]

theorem definitions_of_readable {d : Bytes} (h : readable d = true) :
    definitions [d] = (parse d).1.classes.toList := by
  simp [definitions, h]

end Dex

open Dex (ClassDef)

namespace Act

open Step

theorem on_loadClasses (cs : List ClassDef) (m : Machine) :
    ∃ log, (loadClasses cs).on m = (.ok (), { m with classes := m.classes.putAll ClassDef.className id cs, log }) := by
  induction cs generalizing m with
  | nil => exact ⟨m.log, rfl⟩
  | cons c rest ih =>
    obtain ⟨log, hrest⟩ := ih
      { m with
        classes := m.classes.put c.className c
        log := m.log.add .debug s!"加载类: {c.className}" }
    exact ⟨log, hrest⟩

theorem on_loadImage (d : Bytes) (m : Machine) :
    ∃ log, (loadImage d).on m = (.ok (Dex.readable d),
      { m with classes := m.classes.putAll ClassDef.className id (Dex.definitions [d]), log }) := by
  have hread : (readImage d).on m = (.ok (Dex.parse d), { m with
      log := m.log.add (Dex.parseRecord (Dex.parse d)).level (Dex.parseRecord (Dex.parse d)).text }) := rfl
  unfold loadImage
  rw [on_bind_ok hread]
  rcases hparse : Dex.parse d with ⟨image, _ | fault⟩
  · have hreadable : Dex.readable d = true := by rw [Dex.readable, hparse]; rfl
    obtain ⟨log, hload⟩ := on_loadClasses image.classes.toList
      { m with log := m.log.add (Dex.parseRecord (image, none)).level (Dex.parseRecord (image, none)).text }
    refine ⟨log, ?_⟩
    rw [hreadable, Dex.definitions_of_readable hreadable, hparse]
    exact on_bind_ok hload _
  · have hfailed : Dex.readable d = false := by rw [Dex.readable, hparse]; rfl
    rw [hfailed, Dex.definitions_of_failed hfailed]
    exact ⟨_, rfl⟩

/-- Images are loaded in turn, whatever becomes of those before. -/
theorem on_loadImages (images : List Bytes) (m : Machine) :
    ∃ log, (images.mapM loadImage).on m = (.ok (images.map Dex.readable),
      { m with classes := m.classes.putAll ClassDef.className id (Dex.definitions images), log }) := by
  induction images generalizing m with
  | nil => exact ⟨m.log, rfl⟩
  | cons d rest ih =>
    obtain ⟨_, hload⟩ := on_loadImage d m
    obtain ⟨log, hrest⟩ := ih
      { m with classes := m.classes.putAll ClassDef.className id (Dex.definitions [d]), log := _ }
    refine ⟨log, ?_⟩
    rw [List.mapM_cons, on_bind_ok hload, on_bind_ok hrest, on_pure, Dex.definitions_cons d rest,
      Table.putAll_append, List.map_cons]

/-- However many images are loaded, readable or not, every load answers whether its image was read to its
end, and a name leads to the last definition of that name among the definitions of the readable images, or
to what it led to before if there is none. No name stands twice, none comes from elsewhere, and nothing but
the table and the log is changed. A load that answers no changes the log only, whatever its reading has
collected. -/
theorem class_table_after_loads (images : List Bytes) (m : Machine) (hnames : m.classes.keys.Nodup) :
    (∃ t, (images.mapM loadImage).on m = (.ok (images.map Dex.readable), t) ∧
      t = { m with classes := t.classes, log := t.log } ∧
      (∀ name, t.classes.find? name =
        ((Dex.definitions images).reverse.find? (·.className == name)).or (m.classes.find? name)) ∧
      (∀ name, name ∈ t.classes.keys ↔
        (∃ c ∈ Dex.definitions images, c.className = name) ∨ name ∈ m.classes.keys) ∧
      t.classes.keys.Nodup) ∧
    ∀ d t, (loadImage d).on m = (.ok false, t) → t = { m with log := t.log } := by
  constructor
  · obtain ⟨log, hloads⟩ := on_loadImages images m
    refine ⟨_, hloads, rfl, fun name => ?_, fun name => Table.mem_keys_putAll, Table.nodup_keys_putAll hnames _⟩
    rw [Table.find?_putAll, Option.map_id, id]
  · intro d t ht
    obtain ⟨log, hload⟩ := on_loadImage d m
    obtain ⟨hfailed, rfl⟩ := Prod.mk.inj (hload.symm.trans ht)
    rw [Dex.definitions_of_failed (Except.ok.inj hfailed)]
    rfl

/-- An image whose header claims so many definitions, where there are two: both of one name, with these flags
and the next ones. -/
def twins (claimed flags : UInt8) : Bytes :=
  let word (n : UInt8) : List UInt8 := [n, 0, 0, 0]
  let blank (words : Nat) : List UInt8 := List.replicate (4 * words) 0
  let absent : List UInt8 := List.replicate 4 255
  let definition (flags : UInt8) : List UInt8 := word 0 ++ word flags ++ absent ++ word 0 ++ absent ++ blank 3
  ([100, 101, 120, 10, 48, 51, 53, 0] ++ blank 9 ++ word 96 ++ word 100 ++ blank 3 ++ word 104 ++ blank 1 ++
    word 1 ++ word 1 ++ blank 3 ++ word claimed ++ word 168 ++ word 0 ++ definition flags ++
    definition (flags + 1) ++ [3, 76, 65, 59]).toArray

/-- The image in the middle claims a third definition, so its two are not loaded; of the other four the last
one stands. -/
theorem class_table_after_twins :
    (Dex.parse (twins 3 5)).1.classes.size = 2 ∧
    (∃ t, (loadImage (twins 3 5)).on {} = (.ok false, t) ∧ t.classes = []) ∧
    ∃ t, ([twins 2 1, twins 3 5, twins 2 3].mapM loadImage).on {} = (.ok [true, false, true], t) ∧
      (t.classes.find? "LA;").map (·.accessFlags) = some 4 ∧ (t.classes.find? "LB;").isNone := by
  have hread : (Dex.parse (twins 3 5)).1.classes.size = 2 ∧ Dex.readable (twins 3 5) = false ∧
      [twins 2 1, twins 3 5, twins 2 3].map Dex.readable = [true, false, true] ∧
      (((Dex.definitions [twins 2 1, twins 3 5, twins 2 3]).reverse.find? (·.className == "LA;")).map
        (·.accessFlags) = some 4) ∧
      ((Dex.definitions [twins 2 1, twins 3 5, twins 2 3]).reverse.find? (·.className == "LB;")).isNone := by
    decide +kernel
  obtain ⟨hsize, hfails, hanswers, hlast, hnone⟩ := hread
  obtain ⟨⟨t, hloads, -, htable, -⟩, hfailing⟩ :=
    class_table_after_loads [twins 2 1, twins 3 5, twins 2 3] {} List.nodup_nil
  obtain ⟨log, hfailed⟩ := on_loadImage (twins 3 5) {}
  rw [hfails] at hfailed
  refine ⟨hsize, ⟨_, hfailed, ?_⟩, t, by rw [hloads, hanswers], ?_, ?_⟩
  · exact congrArg Machine.classes (hfailing _ _ hfailed)
  · rw [htable, Option.map_or, hlast, Option.some_or]
  · rw [htable, Option.isNone_or, hnone]
    rfl

end Act

end Handset
