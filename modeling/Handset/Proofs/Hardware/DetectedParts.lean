import Handset.Hardware.Detection
import Handset.Proofs.Steps
import Handset.Proofs.Text.Pieces
import Handset.Proofs.Text.Transcoding

/-!
# Which parts of the hardware are detected

A probe that fails leaves its part unknown, and that is noted. A probe that reads a text without the line that
it looks for neither finds anything nor fails, and then nothing is noted at all. This can happen to the
processor and the memory where they are read from a system file, and to the storage where it is read from a
table; every other part is always noted.
-/
namespace Handset.Hardware

open Step

/-- The parts of the hardware that a detection looks for. -/
inductive Part where
  | processor
  | memory
  | storage
  | network
  | display
  | camera
  | audio
deriving DecidableEq

def Part.name : Part → String
  | processor => "cpu"
  | memory => "memory"
  | storage => "storage"
  | network => "network"
  | display => "display"
  | camera => "camera"
  | audio => "audio"

theorem Part.name_injective {part other : Part} (h : part.name = other.name) : part = other := by
  revert h
  cases part <;> cases other <;> decide

namespace Host

/-- There is such a system file, it is a text, and the mark stands nowhere in it. -/
def Lacks (host : Host) (path mark : String) : Prop :=
  ∃ file text, host.files.find? path = some file ∧ Text.Utf8.decode? file.bytes = some text ∧
    Text.holds text mark = false

/-- The table of file systems is printed and read, and is a single line. -/
def BareTable (host : Host) : Prop :=
  ∃ bytes text, host.answers.find? .disk = some (.output bytes) ∧ Text.Utf8.decode? bytes = some text ∧
    '\n' ∉ (Text.Character.trim text).toList

/-- The computers on which the probe of a part finds nothing and does not fail. -/
def Overlooks (host : Host) : Part → Prop
  | .processor => host.system = "Linux" ∧ host.Lacks "/proc/cpuinfo" "model name"
  | .memory => host.system = "Linux" ∧ host.Lacks "/proc/meminfo" "MemTotal"
  | .storage => (host.system = "Linux" ∨ host.system = "Darwin") ∧ host.BareTable
  | .network | .display | .camera | .audio => False

/-- The operating systems that have probes of their own. -/
def Supported (host : Host) : Prop :=
  host.system = "Windows" ∨ host.system = "Linux" ∨ host.system = "Darwin"

end Host

namespace Detecting

variable {α : Type} {host : Host} {d : Detection} {part : String} {overlooked : Prop}

/-! ### What probes read -/

theorem quiet_output (probe : Probe) : Quiet (output probe) := by
  refine quiet_bind quiet_get fun d => ?_
  split
  · exact quiet_pure _
  · exact quiet_throw _
  · exact quiet_throw _

theorem quiet_outputText (probe : Probe) : Quiet (outputText probe) := by
  refine quiet_bind (quiet_output probe) fun bytes => ?_
  split
  · exact quiet_pure _
  · exact quiet_throw _

theorem quiet_wholeNumber (s : String) : Quiet (wholeNumber s) := by
  unfold wholeNumber
  split
  · exact quiet_pure _
  · exact quiet_throw _

theorem quiet_piece (pieces : List String) (index : Nat) : Quiet (piece pieces index) := by
  unfold piece
  split
  · exact quiet_pure _
  · exact quiet_throw _

theorem quiet_gigabytes (amount unit : Int) : Quiet (gigabytes amount unit) := by
  unfold gigabytes
  split
  · exact quiet_pure _
  · exact quiet_throw _

theorem quiet_drive (line : String) : Quiet (drive line) :=
  quiet_bind (quiet_piece _ _) fun _ =>
    quiet_bind (quiet_piece _ _) fun _ => quiet_bind (quiet_wholeNumber _) fun _ =>
      quiet_bind (quiet_gigabytes _ _) fun _ =>
        quiet_bind (quiet_piece _ _) fun _ => quiet_bind (quiet_wholeNumber _) fun _ =>
          quiet_bind (quiet_gigabytes _ _) fun _ => quiet_pure _

theorem quiet_drives (lines : List String) : Quiet (lines.mapM drive) := by
  induction lines with
  | nil => exact quiet_pure _
  | cons line rest ih =>
    rw [List.mapM_cons]
    exact quiet_bind (quiet_drive line) fun _ => quiet_bind ih fun _ => quiet_pure _

theorem quiet_listing (path : String) : Quiet (listing path) := by
  refine quiet_bind quiet_get fun d => ?_
  split
  · exact quiet_lift _
  · exact quiet_pure _

theorem quiet_fileLines (path : String) : Quiet (fileLines path) := by
  refine quiet_bind quiet_get fun d => ?_
  split
  · split
    · exact quiet_pure _
    · exact quiet_throw _
  · exact quiet_throw _

theorem fileLines_eq_ok_iff {path : String} {lines : List String} :
    ((fileLines path).on d).1 = .ok lines ↔ ∃ file text, d.host.files.find? path = some file ∧
      Text.Utf8.decode? file.bytes = some text ∧ Text.splitAt '\n' text = lines := by
  unfold fileLines
  simp only [on_bind, on_get]
  cases d.host.files.find? path with
  | none => simp
  | some file => cases htext : Text.Utf8.decode? file.bytes <;> simp [htext]

/-! ### What a probe does to its part -/

/-- The probe fails and has changed nothing, or it notes a finding for the part; if the part is overlooked it
does nothing. -/
structure Probes (part : String) (overlooked : Prop) (d : Detection) (probe : Detecting Unit) : Prop where
  ends : Ends d probe fun outcome t => match outcome with
    | .ok _ => (overlooked ∧ t = d) ∨
      (¬overlooked ∧ ∃ v log, v.isNone = false ∧ t = { d with found := d.found.put part v, log })
    | .error _ => ¬overlooked ∧ t = d

theorem probes_note (ho : ¬overlooked) {v : Value} (hv : v.isNone = false) :
    Probes part overlooked d (note part v) :=
  ⟨.inr ⟨ho, v, d.log, hv, rfl⟩⟩

theorem probes_pure (ho : overlooked) : Probes part overlooked d (pure ()) :=
  ⟨.inl ⟨ho, rfl⟩⟩

/-- What a probe reads first decides how it goes on; failing there is no overlooking. -/
theorem probes_read {x : Detecting α} (hx : Quiet x) {f : α → Detecting Unit}
    (hok : ∀ a, (x.on d).1 = .ok a → Probes part overlooked d (f a))
    (herror : ∀ e, (x.on d).1 = .error e → ¬overlooked) : Probes part overlooked d (x >>= f) := by
  constructor
  unfold Ends
  rw [hx.on_bind]
  cases hanswer : (x.on d).1 with
  | ok a => exact (hok a hanswer).ends
  | error e => exact ⟨herror e hanswer, rfl⟩

theorem probes_bind (ho : ¬overlooked) {x : Detecting α} (hx : Quiet x) {f : α → Detecting Unit}
    (hf : ∀ a, Probes part overlooked d (f a)) : Probes part overlooked d (x >>= f) :=
  probes_read hx (fun a _ => hf a) fun _ _ => ho

theorem probes_of_on {x : Detecting α} {a : α} (hx : x.on d = (.ok a, d)) {f : α → Detecting Unit}
    (hf : Probes part overlooked d (f a)) : Probes part overlooked d (x >>= f) := by
  constructor
  unfold Ends
  rw [on_bind_ok hx]
  exact hf.ends

/-- Looking for the first line with a mark overlooks the part exactly if the mark is nowhere in the file. -/
theorem probes_markedLine {path mark : String} {found : String → Detecting Unit} (hne : mark.toList ≠ [])
    (hmark : '\n' ∉ mark.toList) (ho : overlooked ↔ d.host.Lacks path mark)
    (hfound : ¬overlooked → ∀ line, Probes part overlooked d (found line)) :
    Probes part overlooked d (do
      match (← fileLines path).find? (Text.holds · mark) with
      | some line => found line
      | none => pure ()) := by
  refine probes_read (quiet_fileLines path) (fun lines hlines => ?_) fun e he hover => ?_
  · obtain ⟨file, text, hfile, htext, rfl⟩ := fileLines_eq_ok_iff.mp hlines
    have hlacks : overlooked ↔ Text.holds text mark = false := by
      rw [ho]
      constructor
      · rintro ⟨file', text', hfile', htext', hmarked⟩
        obtain rfl := Option.some.inj (hfile.symm.trans hfile')
        exact Option.some.inj (htext.symm.trans htext') ▸ hmarked
      · exact fun hmarked => ⟨file, text, hfile, htext, hmarked⟩
    cases hline : (Text.splitAt '\n' text).find? (Text.holds · mark) with
    | none => exact probes_pure (hlacks.mpr ((Text.find?_holds_eq_none_iff hne hmark).mp hline))
    | some line =>
      apply hfound
      rw [hlacks, ← Text.find?_holds_eq_none_iff hne hmark, hline]
      exact fun h => Option.some_ne_none line h
  · obtain ⟨file, text, hfile, htext, -⟩ := ho.mp hover
    cases he.symm.trans (fileLines_eq_ok_iff.mpr ⟨file, text, hfile, htext, rfl⟩)

/-- An amount in gigabytes is noted as a text. -/
theorem probes_gigabytes (ho : ¬overlooked) (amount unit : Int) :
    Probes part overlooked d (gigabytes amount unit >>= fun v => note part v) := by
  unfold gigabytes
  cases Double.ofQuotient? amount unit with
  | some size => exact probes_note ho rfl
  | none => exact ⟨⟨ho, rfl⟩⟩

theorem outputText_eq_ok_iff {probe : Probe} {s : String} :
    ((outputText probe).on d).1 = .ok s ↔ ∃ bytes text, d.host.answers.find? probe = some (.output bytes) ∧
      Text.Utf8.decode? bytes = some text ∧ Text.Character.trim text = s := by
  unfold outputText output
  simp only [on_bind, on_get]
  cases d.host.answers.find? probe with
  | none => simp
  | some answer =>
    cases answer with
    | failure bytes => simp
    | output bytes =>
      cases htext : Text.Utf8.decode? bytes with
      | none => simp [htext]
      | some text => simp [htext]

/-- Looking for the line after the title overlooks the part exactly if the table is bare. -/
theorem probes_secondLine {found : String → Detecting Unit} (ho : overlooked ↔ d.host.BareTable)
    (hfound : ¬overlooked → ∀ line, Probes part overlooked d (found line)) :
    Probes part overlooked d (do
      match (Text.splitAt '\n' (← outputText .disk)).tail with
      | line :: _ => found line
      | [] => pure ()) := by
  have hbare : overlooked ↔ ∃ s, ((outputText .disk).on d).1 = .ok s ∧ '\n' ∉ s.toList := by
    rw [ho]
    constructor
    · rintro ⟨bytes, text, hanswer, htext, hline⟩
      exact ⟨_, outputText_eq_ok_iff.mpr ⟨bytes, text, hanswer, htext, rfl⟩, hline⟩
    · rintro ⟨s, hs, hline⟩
      obtain ⟨bytes, text, hanswer, htext, rfl⟩ := outputText_eq_ok_iff.mp hs
      exact ⟨bytes, text, hanswer, htext, hline⟩
  refine probes_read (quiet_outputText .disk) (fun s hs => ?_) fun e he hover => ?_
  · have hlines : overlooked ↔ (Text.splitAt '\n' s).tail = [] := by
      rw [hbare, Text.tail_splitAt_eq_nil_iff]
      exact ⟨fun ⟨_, hok, hline⟩ => Except.ok.inj (hs.symm.trans hok) ▸ hline, fun hline => ⟨s, hs, hline⟩⟩
    cases htail : (Text.splitAt '\n' s).tail with
    | nil => exact probes_pure (hlines.mpr htail)
    | cons line rest =>
      apply hfound
      rw [hlines, htail]
      exact List.cons_ne_nil line rest
  · obtain ⟨s, hok, -⟩ := hbare.mp hover
    cases he.symm.trans hok

theorem probes_system {f : System → Detecting Unit} (hsystem : d.host.Supported)
    (hwindows : d.host.system = "Windows" → Probes part overlooked d (f .windows))
    (hlinux : d.host.system = "Linux" → Probes part overlooked d (f .linux))
    (hdarwin : d.host.system = "Darwin" → Probes part overlooked d (f .darwin)) :
    Probes part overlooked d (system >>= f) := by
  rcases hsystem with hs | hs | hs
  · refine probes_of_on (a := .windows) ?_ (hwindows hs)
    simp only [system, on_bind, on_get, hs]
    rfl
  · refine probes_of_on (a := .linux) ?_ (hlinux hs)
    simp only [system, on_bind, on_get, hs]
    rfl
  · refine probes_of_on (a := .darwin) ?_ (hdarwin hs)
    simp only [system, on_bind, on_get, hs]
    rfl

/-! ### Parts in turn -/

/-- These parts have been looked for on the computer: those that are not overlooked have been noted, none as
nothing, and nothing else has been noted. -/
structure Detected (host : Host) (looked : List Part) (d : Detection) : Prop where
  onHost : d.host = host
  noted : ∀ part : Part, d.found.has part.name = true ↔ part ∈ looked ∧ ¬host.Overlooks part
  known : ∀ name v, d.found.find? name = some v → v.isNone = false
  named : ∀ name, d.found.has name = true → ∃ part : Part, name = part.name

theorem detected_start (host : Host) : Detected host [] { host } where
  onHost := rfl
  noted part := by simp [Table.has, Table.find?]
  known name v h := by cases h
  named name h := by cases h

variable {looked : List Part} {p : Part}

theorem Detected.overlook (h : Detected host looked d) (ho : host.Overlooks p) :
    Detected host (looked ++ [p]) d where
  onHost := h.onHost
  noted part := by
    rw [h.noted, List.mem_append, List.mem_singleton, or_and_right]
    refine ⟨.inl, fun hpart => hpart.resolve_right ?_⟩
    rintro ⟨rfl, hno⟩
    exact hno ho
  known := h.known
  named := h.named

theorem Detected.note (h : Detected host looked d) (ho : ¬host.Overlooks p) {v : Value}
    (hv : v.isNone = false) (log : Log) :
    Detected host (looked ++ [p]) { d with found := d.found.put p.name v, log } where
  onHost := h.onHost
  noted part := by
    rw [Table.has_put, Bool.or_eq_true_iff, h.noted, List.mem_append, List.mem_singleton, or_and_right,
      or_comm, beq_iff_eq]
    refine or_congr_right ⟨fun hname => ?_, fun hpart => hpart.1 ▸ rfl⟩
    obtain rfl := Part.name_injective hname
    exact ⟨rfl, ho⟩
  known name w hw := by
    rw [Table.find?_put] at hw
    split at hw
    · rw [← Option.some.inj hw]
      exact hv
    · exact h.known name w hw
  named name hname := by
    rw [Table.has_put] at hname
    rcases Bool.or_eq_true_iff.mp hname with hsame | hold
    · exact ⟨p, (eq_of_beq hsame).symm⟩
    · exact h.named name hold

/-- A probe whose failure is noted has been looked for afterwards, however it ended. -/
theorem Detected.guarded (h : Detected host looked d) {label : String} {otherwise : Value}
    {probe : Detecting Unit} (hother : otherwise.isNone = false)
    (hprobe : Probes p.name (host.Overlooks p) d probe) :
    ∃ t, (guarded p.name label otherwise probe).on d = (.ok (), t) ∧ Detected host (looked ++ [p]) t := by
  have hends : Ends d (Detecting.guarded p.name label otherwise probe) fun outcome t =>
      outcome = .ok () ∧ Detected host (looked ++ [p]) t := by
    apply ends_tryCatch hprobe.ends
    · rintro ⟨⟩ t (⟨ho, rfl⟩ | ⟨ho, v, log, hv, rfl⟩)
      · exact ⟨rfl, h.overlook ho⟩
      · exact ⟨rfl, h.note ho hv log⟩
    · rintro e t ⟨ho, rfl⟩
      exact ⟨rfl, h.note ho hother _⟩
  exact ⟨_, Prod.ext hends.1 rfl, hends.2⟩

section Parts

variable (h : Detected host looked d) (hsystem : host.Supported)
include h hsystem

theorem detected_processor :
    ∃ t, detectProcessor.on d = (.ok (), t) ∧ Detected host (looked ++ [.processor]) t := by
  obtain rfl := h.onHost
  have hprinted (hs : d.host.system ≠ "Linux") : Probes "cpu" (d.host.Overlooks .processor) d
      (outputText .processor >>= fun s => note "cpu" (.text s)) := by
    have ho : ¬d.host.Overlooks .processor := fun ho => hs ho.1
    exact probes_bind ho (quiet_outputText _) fun _ => probes_note ho rfl
  refine h.guarded (p := .processor) rfl (probes_system hsystem (fun hs => ?_) (fun hs => ?_) fun hs => ?_)
  · exact hprinted (by rw [hs]; decide)
  · refine probes_markedLine (by decide) (by decide) ⟨fun ho => ho.2, fun ho => ⟨hs, ho⟩⟩ fun ho line => ?_
    exact probes_bind ho (quiet_piece _ _) fun _ => probes_note ho rfl
  · exact hprinted (by rw [hs]; decide)

theorem detected_memory :
    ∃ t, detectMemory.on d = (.ok (), t) ∧ Detected host (looked ++ [.memory]) t := by
  obtain rfl := h.onHost
  have hprinted (hs : d.host.system ≠ "Linux") (unit : Int) : Probes "memory" (d.host.Overlooks .memory) d
      (outputText .memory >>= fun s => wholeNumber s >>= fun n => gigabytes n unit >>= fun v =>
        note "memory" v) := by
    have ho : ¬d.host.Overlooks .memory := fun ho => hs ho.1
    exact probes_bind ho (quiet_outputText _) fun _ => probes_bind ho (quiet_wholeNumber _) fun _ =>
      probes_gigabytes ho _ unit
  refine h.guarded (p := .memory) rfl (probes_system hsystem (fun hs => ?_) (fun hs => ?_) fun hs => ?_)
  · exact hprinted (by rw [hs]; decide) _
  · refine probes_markedLine (by decide) (by decide) ⟨fun ho => ho.2, fun ho => ⟨hs, ho⟩⟩ fun ho line => ?_
    exact probes_bind ho (quiet_piece _ _) fun _ => probes_bind ho (quiet_wholeNumber _) fun _ =>
      probes_gigabytes ho _ _
  · exact hprinted (by rw [hs]; decide) _

theorem detected_storage :
    ∃ t, detectStorage.on d = (.ok (), t) ∧ Detected host (looked ++ [.storage]) t := by
  obtain rfl := h.onHost
  refine h.guarded (p := .storage) rfl (probes_system hsystem (fun hs => ?windows) (fun hs => ?linux)
    fun hs => ?darwin)
  case windows =>
    have ho : ¬d.host.Overlooks .storage := by
      rintro ⟨hother, -⟩
      rw [hs] at hother
      exact absurd hother (by decide)
    exact probes_bind ho (quiet_outputText _) fun _ => probes_bind ho (quiet_drives _) fun _ =>
      probes_note ho rfl
  case linux | darwin =>
    have htable : d.host.Overlooks .storage ↔ d.host.BareTable :=
      ⟨fun ho => ho.2, fun ho => ⟨by rw [hs]; decide, ho⟩⟩
    refine probes_secondLine htable fun ho line => ?_
    exact probes_bind ho (quiet_piece _ _) fun _ => probes_bind ho (quiet_piece _ _) fun _ =>
      probes_bind ho (quiet_piece _ _) fun _ => probes_bind ho (quiet_piece _ _) fun _ => probes_note ho rfl

theorem detected_network :
    ∃ t, detectNetwork.on d = (.ok (), t) ∧ Detected host (looked ++ [.network]) t := by
  obtain rfl := h.onHost
  refine h.guarded (p := .network) rfl ?_
  refine probes_bind id (quiet_output _) fun bytes => ?_
  exact probes_system hsystem (fun _ => probes_note id rfl) (fun _ => probes_note id rfl)
    fun _ => probes_note id rfl

theorem detected_display :
    ∃ t, detectDisplay.on d = (.ok (), t) ∧ Detected host (looked ++ [.display]) t := by
  obtain rfl := h.onHost
  have hprinted : Probes "display" False d (outputText .display >>= fun s => note "display" (.text s)) :=
    probes_bind id (quiet_outputText _) fun _ => probes_note id rfl
  exact h.guarded (p := .display) rfl
    (probes_system hsystem (fun _ => hprinted) (fun _ => hprinted) fun _ => hprinted)

theorem detected_camera :
    ∃ t, detectCamera.on d = (.ok (), t) ∧ Detected host (looked ++ [.camera]) t := by
  obtain rfl := h.onHost
  refine h.guarded (p := .camera) rfl (probes_system hsystem (fun _ => ?_) (fun _ => ?_) fun _ => ?_)
  · exact probes_bind id (quiet_outputText _) fun _ => probes_note id rfl
  · exact probes_bind id (quiet_listing _) fun _ => probes_note id rfl
  · exact probes_note id rfl

theorem detected_audio :
    ∃ t, detectAudio.on d = (.ok (), t) ∧ Detected host (looked ++ [.audio]) t := by
  obtain rfl := h.onHost
  refine h.guarded (p := .audio) rfl (probes_system hsystem (fun _ => ?_) (fun _ => ?_) fun _ => ?_)
  · refine probes_of_on (on_get d) ?_
    split
    · exact probes_note id (by split <;> rfl)
    · exact ⟨.inr ⟨id, unknown, _, rfl, rfl⟩⟩
    · exact ⟨.inr ⟨id, unknown, _, rfl, rfl⟩⟩
  · exact probes_bind id (quiet_output _) fun _ => probes_note id (by split <;> rfl)
  · exact probes_bind id (quiet_output _) fun _ => probes_note id rfl

end Parts

/-- On every computer with one of the three systems, whatever its files and directories hold and its commands
print or fail with, a detection comes to its end, and a part has been noted, as something, exactly if the computer
does not overlook it: the processor and the memory are overlooked on Linux if their file is a text without its mark,
the storage on Linux and Darwin if the table of file systems has no second line. Nothing but the seven parts
is noted. -/
theorem detection_notes_iff (host : Host) (hsystem : host.Supported) :
    ∃ d, detectAll.on { host } = (.ok (), d) ∧
      (∀ part : Part, (∃ v, d.found.find? part.name = some v ∧ v.isNone = false) ↔ ¬host.Overlooks part) ∧
      ∀ name, d.found.has name = true → ∃ part : Part, name = part.name := by
  obtain ⟨_, hprocessor, h⟩ := detected_processor (detected_start host) hsystem
  obtain ⟨_, hmemory, h⟩ := detected_memory h hsystem
  obtain ⟨_, hstorage, h⟩ := detected_storage h hsystem
  obtain ⟨_, hnetwork, h⟩ := detected_network h hsystem
  obtain ⟨_, hdisplay, h⟩ := detected_display h hsystem
  obtain ⟨_, hcamera, h⟩ := detected_camera h hsystem
  obtain ⟨d, haudio, h⟩ := detected_audio h hsystem
  refine ⟨d, ?_, fun part => ?_, h.named⟩
  · rw [detectAll, on_bind_ok hprocessor, on_bind_ok hmemory, on_bind_ok hstorage, on_bind_ok hnetwork,
      on_bind_ok hdisplay, on_bind_ok hcamera, haudio]
  · have hall : part ∈ [Part.processor, .memory, .storage, .network, .display, .camera, .audio] := by
      cases part <;> decide
    have hnoted : d.found.has part.name = true ↔ ¬host.Overlooks part :=
      (h.noted part).trans (and_iff_right hall)
    rw [← hnoted, Table.has, Option.isSome_iff_exists]
    exact exists_congr fun v => and_iff_left_of_imp (h.known _ v)

/-- A computer whose processor names no model. -/
def unnamedProcessor : Host where
  system := "Linux"
  answers := [(.disk, .output #[70, 10, 100, 32, 57, 32, 52, 32, 53])]
  files := [("/proc/cpuinfo", "processor\t: 0\nCPU part\t: 0xd0c\n"),
    ("/proc/meminfo", "MemTotal: 1048576 kB\n")]

theorem detection_of_unnamedProcessor :
    unnamedProcessor.Supported ∧ ∃ d, detectAll.on { host := unnamedProcessor } = (.ok (), d) ∧
      (¬∃ v, d.found.find? "cpu" = some v ∧ v.isNone = false) ∧
      (∃ v, d.found.find? "memory" = some v ∧ v.isNone = false) ∧
      ∃ v, d.found.find? "storage" = some v ∧ v.isNone = false := by
  have hsystem : unnamedProcessor.Supported := .inr (.inl rfl)
  have hfiles : unnamedProcessor.files.find? "/proc/cpuinfo" = some ↑"processor\t: 0\nCPU part\t: 0xd0c\n" ∧
      unnamedProcessor.files.find? "/proc/meminfo" = some ↑"MemTotal: 1048576 kB\n" ∧
      ((Text.Utf8.decode? #[70, 10, 100, 32, 57, 32, 52, 32, 53]).all fun text =>
        (Text.Character.trim text).toList.contains '\n') = true := by decide +kernel
  obtain ⟨hprocessor, hmemory, htable⟩ := hfiles
  obtain ⟨d, hrun, hnotes, -⟩ := detection_notes_iff unnamedProcessor hsystem
  refine ⟨hsystem, d, hrun, fun hcpu => ?_, (hnotes .memory).mpr ?_, (hnotes .storage).mpr ?_⟩
  · exact (hnotes .processor).mp hcpu ⟨rfl, _, _, hprocessor, Text.Utf8.decode?_encode _, by decide +kernel⟩
  · rintro ⟨-, file, text, hfile, htext, hmark⟩
    obtain rfl := Option.some.inj (hmemory.symm.trans hfile)
    obtain rfl := Option.some.inj ((Text.Utf8.decode?_encode _).symm.trans htext)
    exact absurd hmark (by decide +kernel)
  · rintro ⟨-, bytes, text, hanswer, htext, hline⟩
    cases hanswer
    rw [htext, Option.all_some, List.contains_iff_mem] at htable
    exact hline htable

/-- The detection ends without a fault and without the processor. -/
theorem processor_not_noted :
    ∃ d, detectAll.on { host := unnamedProcessor } = (.ok (), d) ∧
      d.found.keys = ["memory", "storage", "network", "display", "camera", "audio"] ∧
      (d.found.find? "cpu").isNone = true := by
  have hrun : (detectAll.on { host := unnamedProcessor }).1.toOption = some () ∧
      (detectAll.on { host := unnamedProcessor }).2.found.keys =
        ["memory", "storage", "network", "display", "camera", "audio"] ∧
      ((detectAll.on { host := unnamedProcessor }).2.found.find? "cpu").isNone = true := by
    decide +kernel
  generalize detectAll.on { host := unnamedProcessor } = ended at hrun ⊢
  obtain ⟨outcome, d⟩ := ended
  exact ⟨d, Prod.ext (eq_ok_of_toOption hrun.1) rfl, hrun.2⟩

end Detecting

end Handset.Hardware
