import Handset.Proofs.Files.Inside
import Handset.Proofs.Storage.Errands
import Handset.Proofs.Storage.Isolation

/-!
# Which paths lead out of a storage

Both storages join a path to their directory and check nothing. A drive takes the path as it is, a volume
drops one leading slash and takes backslashes for slashes first. So absolute paths, which a volume gets from
two leading slashes or one backslash, and paths that climb lead out, and what is then done is done outside.
Requests for paths that stay inside change no file outside.
-/
namespace Handset

open Step FileTree

namespace FileTree

/-- No file outside a directory has changed. -/
def KeepsOutside (root : String) (t t' : FileTree) : Prop :=
  ∀ place, ¬placeOf root <:+ place → t'.contentAt place = t.contentAt place

theorem Reworked.keepsOutside {t t' : FileTree} {places : List Place} {root : String}
    (h : Reworked places t t') (hinside : ∀ place ∈ places, placeOf root <:+ place) :
    KeepsOutside root t t' :=
  fun place houtside => h.contents place fun hmem => houtside (hinside place hmem)

end FileTree

namespace Volume

variable {v : Volume}

theorem stateFile_inside (v : Volume) : placeOf v.root <:+ placeOf v.stateFile := by
  rw [← Path.inside_iff_suffix, stateFile, Path.inside_join_iff (Path.startsWith_slash_iff.mpr ⟨[], rfl⟩)]
  have hname : ".storage_state.json".startsWith "/" = false ∧
      ".." ∉ Path.normalPieces ".storage_state.json" := by
    decide +kernel
  exact Path.stays_of_notMem hname.1 hname.2 _

end Volume

namespace Request

open Volume

variable {v w : Volume} {path : String}

/-- A request for a path inside the volume changes no file outside. -/
theorem perform_keepsOutside (hv : v.AvoidsLinks (.text path)) {r : Request} (hr : r.target = .text path)
    (hinside : Path.Inside "/" v.root (v.physicalPath path)) :
    KeepsOutside v.root v.tree (r.perform.on v).2.tree := by
  rw [← hr] at hv
  refine (reworked_perform hv).keepsOutside ?_
  rw [hr, placesOf, List.forall_mem_cons, List.forall_mem_singleton]
  exact ⟨(Path.inside_iff_suffix _ _).mp hinside, v.stateFile_inside⟩

/-- A creation that is met makes a file outside if its path leads there. -/
theorem Outcome.creates_outside {size : Value} (h : (create (.text path) size).Outcome v (.ok true) w)
    (hv : v.AvoidsLinks (.text path)) (houtside : ¬Path.Inside "/" v.root (v.physicalPath path)) :
    ∃ n, w.tree.contentAt (placeOf (v.physicalPath path)) = some (.blank n) := by
  have hstate : placeOf v.stateFile ≠ placeOf (v.physicalPath path) := by
    intro hsame
    rw [Path.inside_iff_suffix, ← hsame] at houtside
    exact houtside v.stateFile_inside
  cases h with
  | looked hr => cases hr
  | refused hanswer _ | prepared hanswer => exact absurd rfl hanswer
  | created hopens _ _ _ _ _ =>
    have hprepared := (v.addsDirectories_preparedTree path).keepsWays
    refine ⟨_, (contentAt_resaved ?_ hstate _ _ _).trans (hopens.contentAt_placeOf_put (hprepared.avoids hv.2) _)⟩
    exact (hprepared.trans (hopens.keepsWays_put _)).avoids hv.1

end Request

namespace Errand

variable {d e : Drive} {path : String}

/-- An errand changes the content at the place of its path only. -/
theorem Outcome.reworked {errand : Errand} {answer : Except Fault Bool} (h : errand.Outcome d answer e)
    (htarget : errand.target = .text path) (hd : d.tree.Avoids (d.fullPath path)) :
    Reworked [placeOf (d.fullPath path)] d.tree e.tree := by
  have hprepared := d.addsDirectories_preparedTree path
  have hput {place : Place} (hopens : (d.preparedTree path).Opens (d.fullPath path) place) (content : Content) :
      Reworked [placeOf (d.fullPath path)] d.tree ((d.preparedTree path).put place (.file content)) :=
    hprepared.reworked.trans
      (hopens.reworked_put (hprepared.keepsWays.avoids hd) (List.mem_singleton_self _) content)
  cases h with
  | kept _ => exact .refl _ d.tree
  | prepared _ =>
    cases htarget
    exact hprepared.reworked
  | emptied _ hopens | created hopens =>
    cases htarget
    exact hput hopens _
  | removed _ hremove =>
    cases htarget
    exact (reworked_remove hd hremove (List.mem_singleton_self _)).1

theorem perform_keepsOutside (hd : d.tree.Avoids (d.fullPath path)) {errand : Errand}
    (htarget : errand.target = .text path) (hinside : Path.Inside "/" d.root (d.fullPath path)) :
    KeepsOutside d.root d.tree (errand.perform.on d).2.tree := by
  refine ((errand.perform_outcome d).reworked htarget hd).keepsOutside fun place hplace => ?_
  rw [List.mem_singleton.mp hplace]
  exact (Path.inside_iff_suffix _ _).mp hinside

theorem Outcome.contentAt_created {text : String} (h : (create (.text path) (.text text)).Outcome d (.ok true) e)
    (hd : d.tree.Avoids (d.fullPath path)) :
    e.tree.contentAt (placeOf (d.fullPath path)) = some (.ofBytes (Text.Utf8.encode text)) := by
  cases h with
  | kept hanswer => exact absurd rfl (hanswer rfl _ _)
  | prepared hanswer | emptied hanswer _ => exact absurd rfl hanswer
  | created hopens =>
    exact hopens.contentAt_placeOf_put ((d.addsDirectories_preparedTree path).keepsWays.avoids hd) _

end Errand

/-- A path of a volume or of a drive lies inside its directory exactly if the text that is joined to the
directory stays there. If no link stands on its way, what is asked of the storage for such a path changes no file
outside the directory, and a creation for any other path makes its file outside. -/
theorem storage_paths_inside_iff {workingDir : String} (hdir : workingDir.startsWith "/" = true) :
    (∀ (v : Volume) (path : String),
      (Path.Inside workingDir v.root (v.physicalPath path) ↔
        Path.Stays (Path.absolutePieces workingDir v.root) (Volume.below path)) ∧
      (v.AvoidsLinks (.text path) → Path.Inside "/" v.root (v.physicalPath path) →
        ∀ r : Request, r.target = .text path → KeepsOutside v.root v.tree (r.perform.on v).2.tree) ∧
      (v.AvoidsLinks (.text path) → ¬Path.Inside "/" v.root (v.physicalPath path) →
        ∀ size w, (Storing.create (.text path) size).on v = (.ok true, w) →
          ∃ place n, ¬placeOf v.root <:+ place ∧ w.tree.contentAt place = some (.blank n))) ∧
    ∀ (d : Drive) (path : String),
      (Path.Inside workingDir d.root (d.fullPath path) ↔
        Path.Stays (Path.absolutePieces workingDir d.root) path) ∧
      (d.tree.Avoids (d.fullPath path) → Path.Inside "/" d.root (d.fullPath path) →
        ∀ e : Errand, e.target = .text path → KeepsOutside d.root d.tree (e.perform.on d).2.tree) ∧
      (d.tree.Avoids (d.fullPath path) → ¬Path.Inside "/" d.root (d.fullPath path) →
        ∀ s e, (Driving.create (.text path) (.text s)).on d = (.ok true, e) →
          ∃ place, ¬placeOf d.root <:+ place ∧
            e.tree.contentAt place = some (.ofBytes (Text.Utf8.encode s))) := by
  refine ⟨fun v path => ⟨Path.inside_join_iff hdir _ _, fun hv hinside r hr => ?_, ?_⟩,
    fun d path => ⟨Path.inside_join_iff hdir _ _, fun hd hinside e he => ?_, ?_⟩⟩
  · exact Request.perform_keepsOutside hv hr hinside
  · intro hv houtside size w hmet
    have hcreated := Request.perform_outcome (.create (.text path) size) v
    unfold Ends Request.perform at hcreated
    rw [hmet] at hcreated
    obtain ⟨n, hstored⟩ := hcreated.creates_outside hv houtside
    exact ⟨_, n, mt (Path.inside_iff_suffix _ _).mpr houtside, hstored⟩
  · exact Errand.perform_keepsOutside hd he hinside
  · intro hd houtside s e hmet
    have hcreated := Errand.perform_outcome (.create (.text path) (.text s)) d
    unfold Ends Errand.perform at hcreated
    rw [hmet] at hcreated
    exact ⟨_, mt (Path.inside_iff_suffix _ _).mpr houtside, hcreated.contentAt_created hd⟩

/-- A drive in a relative directory. -/
def sampleDrive : Drive where
  host := { home := "/home", temp := "/tmp" }
  root := "g/h"

theorem climbing_paths_inside :
    "/home".startsWith "/" = true ∧ Request.newVolume.AvoidsLinks (.text "/../v/./a") ∧
    Path.Inside "/home" Request.newVolume.root (Request.newVolume.physicalPath "/../v/./a") ∧
    (∀ r : Request, r.target = .text "/../v/./a" →
      KeepsOutside Request.newVolume.root Request.newVolume.tree (r.perform.on Request.newVolume).2.tree) ∧
    Path.Inside "/home" sampleDrive.root (sampleDrive.fullPath "../../g/h/x") ∧
    ¬Path.Inside "/home" sampleDrive.root (sampleDrive.fullPath "../../h/x") := by
  have hdir : "/home".startsWith "/" = true := by decide +kernel
  have hlinks : Request.newVolume.AvoidsLinks (.text "/../v/./a") := by decide +kernel
  obtain ⟨hvolume, hdrive⟩ := storage_paths_inside_iff hdir
  obtain ⟨hstays, hkept, -⟩ := hvolume Request.newVolume "/../v/./a"
  refine ⟨hdir, hlinks, hstays.mpr ?_, hkept hlinks ?_, (hdrive sampleDrive "../../g/h/x").1.mpr ?_,
    mt (hdrive sampleDrive "../../h/x").1.mp ?_⟩ <;> decide +kernel

/-- Two leading slashes, a backslash and climbing lead out of a volume, and a slash and climbing lead out of
a drive; files are made there. -/
theorem paths_lead_out :
    (∀ path ∈ ["//x", "\\x", "/../x"],
      ¬Path.Inside "/" Request.newVolume.root (Request.newVolume.physicalPath path) ∧
      ((Storing.create (.text path) (.int 2)).on Request.newVolume).1.toOption = some true ∧
      ((Storing.create (.text path) (.int 2)).on Request.newVolume).2.tree.contentAt ["x"] =
        some (.blank 2)) ∧
    ∀ path ∈ ["/x", "../../x"],
      ¬Path.Inside "/" sampleDrive.root (sampleDrive.fullPath path) ∧
      ((Driving.create (.text path) (.text "t")).on sampleDrive).1.toOption = some true ∧
      ((Driving.create (.text path) (.text "t")).on sampleDrive).2.tree.contentAt ["x"] =
        some (.ofBytes #[116]) := by
  decide +kernel

end Handset
