import Handset.Proofs.Files.Places
import Handset.Proofs.Value.Integers
import Handset.Storage.Volume

/-!
# What requests do to a volume

All that a request can come to is listed once, with the answer that it gives, the tree that it leaves and its causes;
whatever else is said about requests is read off this list. Creating, writing and deleting are all or nothing for the
books of a volume, its catalogue and its bytes in use: a request that is met changes them in one way, and any other
leaves them as they are. For the file tree they are not: there may be new directories, and a file may have been
emptied, written to or removed before the request failed.
-/
namespace Handset

open Step FileTree

namespace Volume

/-- The volumes differ in the file tree and the log only. -/
def SameBooks (v w : Volume) : Prop :=
  ∃ tree log, w = { v with tree, log }

theorem SameBooks.refl (v : Volume) : v.SameBooks v := ⟨v.tree, v.log, rfl⟩

theorem SameBooks.trans {u v w : Volume} (h : u.SameBooks v) (h' : v.SameBooks w) : u.SameBooks w := by
  obtain ⟨tree, log, rfl⟩ := h
  obtain ⟨tree', log', rfl⟩ := h'
  exact ⟨tree', log', rfl⟩

theorem SameBooks.setLog {v w : Volume} (h : v.SameBooks w) (log : Log) :
    v.SameBooks (Journal.setLog w log) :=
  h.trans ⟨w.tree, log, rfl⟩

def noted (v : Volume) (size : Value) : Value :=
  .object [("size", size), ("created_at", .double v.clock), ("modified_at", .double v.clock)]

/-- The file has been recorded and its size added. -/
inductive Created (v : Volume) (path size : Value) : Volume → Prop
  | intro {fields : List (String × Value)} {name : String} {n : Int} {total : Value} (tree : FileTree)
      (log : Log) (hfiles : v.files = .object fields) (hpath : path = .text name)
      (hsize : word size = .ok n) (htotal : v.used.add size = .ok total)
      (hroom : Value.compare .gt total v.capacity = .ok false) :
      Created v path size
        { v with tree, log, used := total, files := .object (Table.put fields name (v.noted size)) }

/-- The time of the change has been noted in the entry of the file. -/
inductive Touched (v : Volume) (path : Value) : Volume → Prop
  | intro {fields entry : List (String × Value)} {name : String} (tree : FileTree) (log : Log)
      (hfiles : v.files = .object fields) (hpath : path = .text name)
      (hentry : Table.find? fields name = some (.object entry)) :
      Touched v path { v with
        tree, log, files := .object (Table.put fields name
          (.object (Table.put entry "modified_at" (.double v.clock)))) }

/-- The entry of the file has been removed and its size subtracted. -/
inductive Deleted (v : Volume) (path : Value) : Volume → Prop
  | intro {fields : List (String × Value)} {name : String} {entry size used : Value} (tree : FileTree)
      (log : Log) (hfiles : v.files = .object fields) (hpath : path = .text name)
      (hentry : Table.find? fields name = some entry) (hsize : entry.part "size" = .ok size)
      (hused : v.used.sub size = .ok used) :
      Deleted v path { v with tree, log, used, files := .object (Table.remove fields name) }

variable {v w : Volume}

theorem pathText_eq_ok {path : Value} {name : String} (h : pathText path = .ok name) :
    path = .text name := by
  cases path with
  | text s => rw [Except.ok.inj h]
  | _ => cases h

theorem withEntry_eq_ok {name : String} {entry : Value} (h : v.withEntry name entry = .ok w) :
    ∃ fields, v.files = .object fields ∧ w = { v with files := .object (Table.put fields name entry) } := by
  unfold withEntry at h
  split at h
  next fields hfiles => exact ⟨fields, hfiles, (Except.ok.inj h).symm⟩
  next => cases h

theorem withEntry_of_object {fields : List (String × Value)} (h : v.files = .object fields)
    (name : String) (entry : Value) :
    v.withEntry name entry = .ok { v with files := .object (Table.put fields name entry) } := by
  rw [withEntry, h]

theorem withoutEntry_of_object {fields : List (String × Value)} (h : v.files = .object fields)
    (name : String) :
    v.withoutEntry name = .ok { v with files := .object (Table.remove fields name) } := by
  unfold withoutEntry
  rw [h]

theorem entry_eq_ok {name : String} {entry : Value} (h : v.entry name = .ok entry) :
    ∃ fields, v.files = .object fields ∧ Table.find? fields name = some entry := by
  unfold Volume.entry at h
  split at h
  next fields hfiles =>
    split at h
    next found hfound =>
      obtain rfl := Except.ok.inj h
      exact ⟨fields, hfiles, hfound⟩
    next => cases h
  next => cases h

theorem word_eq_ok {size : Value} {n : Int} (h : word size = .ok n) :
    size.int? = some n ∧ n.natAbs.log2 < 1000 := by
  unfold word at h
  split at h
  next => cases h
  next i hi =>
    split at h
    next hbounds =>
      obtain rfl := Except.ok.inj h
      refine ⟨hi, ?_⟩
      by_cases h0 : i.natAbs = 0
      · rw [h0]
        decide
      · rw [Nat.log2_lt h0]
        calc i.natAbs ≤ 2 ^ 63 := by omega
          _ < 2 ^ 1000 := Nat.pow_lt_pow_right (by omega) (by omega)
    next => cases h

theorem blank_eq_ok {size : Value} {content : Content} (h : blank size = .ok content) :
    ∃ n, word size = .ok n ∧ content = .blank n.toNat := by
  obtain ⟨n, hword, h⟩ := exists_of_bind_eq_ok h
  refine ⟨n, hword, ?_⟩
  dsimp only at h
  split at h
  · cases h
  · exact (Except.ok.inj h).symm

theorem writable_eq_ok {data : Value} {bytes : Bytes} (h : writable data = .ok bytes) :
    data = .bytes bytes := by
  cases data with
  | bytes b => rw [Except.ok.inj h]
  | _ => cases h

/-! ### The trees on the way -/

/-- The tree once the directories above a file are made, or as far as they could be. -/
@[irreducible] def preparedTree (v : Volume) (name : String) : FileTree :=
  if v.tree.pathExists (Path.dirName (v.physicalPath name)) then v.tree
  else (v.tree.makeDirectories false (Path.dirName (v.physicalPath name))).1

theorem addsDirectories_preparedTree (v : Volume) (name : String) : AddsDirectories v.tree (v.preparedTree name) := by
  unfold preparedTree
  split
  · exact .refl v.tree
  · exact addsDirectories_makeDirectories _ _ _

/-- The tree once the books have been saved, if the state file can be written. -/
@[irreducible] def savedTree (v : Volume) : FileTree :=
  (v.tree.write v.stateFile (Text.Utf8.encode v.stateText)).toOption.getD v.tree

theorem savedTree_cases (v : Volume) : v.savedTree = v.tree ∨ ∃ spot, v.tree.Opens v.stateFile spot ∧
    v.savedTree = v.tree.put spot (.file (.ofBytes (Text.Utf8.encode v.stateText))) := by
  unfold savedTree
  cases hwrite : v.tree.write v.stateFile (Text.Utf8.encode v.stateText) with
  | error e => exact .inl rfl
  | ok tree =>
    obtain ⟨spot, hopens, rfl⟩ := setContent_eq_ok_iff.mp hwrite
    exact .inr ⟨spot, hopens, rfl⟩

def resaved (v : Volume) (log : Log) : Volume :=
  { v with tree := v.savedTree, log }

end Volume

/-- What can be asked of a volume. -/
inductive Request where
  | create (path size : Value)
  | write (path data offset : Value)
  | read (path size offset : Value)
  | delete (path : Value)
  | list (directory : Value)

namespace Request

open Volume

def perform : Request → Storing Bool
  | create path size => Storing.create path size
  | write path data offset => Storing.write path data offset
  | read path size offset => do pure (← Storing.read path size offset).isSome
  | delete path => Storing.delete path
  | list directory => do
    let _ ← lift ((← get).list directory)
    pure true

/-- The path of what a request may change. -/
def target : Request → Value
  | create path _ | write path _ _ | delete path => path
  | read _ _ _ | list _ => .none

/-- The volume after a sequence of requests, which goes on after failures. -/
def afterAll (requests : List Request) (v : Volume) : Volume :=
  requests.foldl (fun v r => (r.perform.on v).2) v

/-- What a write stores in its file, and from where on: the bytes that fit, if the path is recorded and its file is
there. -/
def stores? (v : Volume) : Request → Option (Nat × Bytes)
  | write (.text name) data offset =>
    match v.recorded (.text name), v.tree.fileAt (v.physicalPath name), position offset, writable data with
    | .ok true, .ok _, .ok position, .ok bytes => some (position, fitting position bytes)
    | _, _, _, _ => none
  | _ => none

theorem stores?_eq_none {v : Volume} {path data offset : Value}
    (h : ∀ name found position bytes, path = .text name → v.recorded path = .ok true →
      v.tree.fileAt (v.physicalPath name) = .ok found → Volume.position offset = .ok position →
      writable data ≠ .ok bytes) : (write path data offset).stores? v = none := by
  cases path with
  | text name =>
    rw [stores?]
    split
    next hrecorded hfile hposition hbytes => exact absurd hbytes (h _ _ _ _ rfl hrecorded hfile hposition)
    next => rfl
  | _ => rfl

theorem stores?_eq_some {v : Volume} {name : String} {bytes : Bytes} {offset : Value} {position : Nat}
    {found : Place × Content} (hrecorded : v.recorded (.text name) = .ok true)
    (hfile : v.tree.fileAt (v.physicalPath name) = .ok found) (hposition : Volume.position offset = .ok position) :
    (write (.text name) (.bytes bytes) offset).stores? v = some (position, fitting position bytes) := by
  simp only [stores?, hrecorded, hfile, hposition, writable]

/-- What a request can come to: its answer and the volume that it leaves. -/
inductive Outcome (v : Volume) : Request → Except Fault Bool → Volume → Prop
  | looked {r : Request} {answer : Except Fault Bool} {log : Log} (hr : r.target = .none) :
      Outcome v r answer { v with log }
  | refused {r : Request} {answer : Except Fault Bool} {log : Log} (hanswer : answer ≠ .ok true)
      (hstores : r.stores? v = none) : Outcome v r answer { v with log }
  | prepared {name : String} {size : Value} {answer : Except Fault Bool} {log : Log} (hanswer : answer ≠ .ok true) :
      Outcome v (create (.text name) size) answer { v with tree := v.preparedTree name, log }
  | emptied {name : String} {size : Value} {place : Place} {log : Log}
      (hopens : (v.preparedTree name).Opens (v.physicalPath name) place)
      (hblank : ∀ content, blank size ≠ .ok content) :
      Outcome v (create (.text name) size) (.ok false)
        { v with tree := (v.preparedTree name).put place (.file {}), log }
  | unrecorded {name : String} {size : Value} {place : Place} {content : Content} {log : Log}
      (hopens : (v.preparedTree name).Opens (v.physicalPath name) place)
      (hfiles : ∀ fields, v.files ≠ .object fields) :
      Outcome v (create (.text name) size) (.ok false)
        { v with tree := (v.preparedTree name).put place (.file content), log }
  | created {name : String} {size total : Value} {place : Place} {n : Int} {fields : List (String × Value)} {log : Log}
      (hopens : (v.preparedTree name).Opens (v.physicalPath name) place) (hsize : word size = .ok n)
      (hfiles : v.files = .object fields) (htotal : v.used.add size = .ok total)
      (hroom : Value.compare .gt total v.capacity = .ok false) (hblank : blank size = .ok (.blank n.toNat)) :
      Outcome v (create (.text name) size) (.ok true)
        (resaved { v with
          tree := (v.preparedTree name).put place (.file (.blank n.toNat))
          used := total
          files := .object (Table.put fields name (v.noted size)) } log)
  | spliced {name : String} {bytes : Bytes} {offset : Value} {place : Place} {content : Content} {position : Nat}
      {log : Log}
      (hrecorded : v.recorded (.text name) = .ok true)
      (hfile : v.tree.fileAt (v.physicalPath name) = .ok (place, content))
      (hposition : Volume.position offset = .ok position)
      (hcause : (fitting position bytes).size < bytes.size ∨
        ∀ fields entry, v.files = .object fields → Table.find? fields name ≠ some (.object entry)) :
      Outcome v (write (.text name) (.bytes bytes) offset) (.ok false)
        { v with tree := v.tree.put place (.file (content.splice position (fitting position bytes))), log }
  | written {name : String} {bytes : Bytes} {offset : Value} {place : Place} {content : Content} {position : Nat}
      {fields entry : List (String × Value)} {log : Log}
      (hrecorded : v.recorded (.text name) = .ok true)
      (hfile : v.tree.fileAt (v.physicalPath name) = .ok (place, content))
      (hposition : Volume.position offset = .ok position)
      (hfiles : v.files = .object fields) (hentry : Table.find? fields name = some (.object entry))
      (hwhole : ¬(fitting position bytes).size < bytes.size) :
      Outcome v (write (.text name) (.bytes bytes) offset) (.ok true)
        (resaved { v with
          tree := v.tree.put place (.file (content.splice position (fitting position bytes)))
          files := .object (Table.put fields name
            (.object (Table.put entry "modified_at" (.double v.clock)))) } log)
  | unlinked {name : String} {tree : FileTree} {log : Log} (hrecorded : v.recorded (.text name) = .ok true)
      (hremove : v.tree.remove (v.physicalPath name) = .ok tree)
      (hcause : ∀ entry size used, v.entry name = .ok entry → entry.part "size" = .ok size →
        v.used.sub size ≠ .ok used) :
      Outcome v (delete (.text name)) (.ok false) { v with tree, log }
  | deleted {name : String} {tree : FileTree} {entry size used : Value} {fields : List (String × Value)} {log : Log}
      (hremove : v.tree.remove (v.physicalPath name) = .ok tree) (hfiles : v.files = .object fields)
      (hentry : Table.find? fields name = some entry) (hsize : entry.part "size" = .ok size)
      (hused : v.used.sub size = .ok used) :
      Outcome v (delete (.text name)) (.ok true)
        (resaved { v with tree, used, files := .object (Table.remove fields name) } log)

/-- What a step that is attempted can come to: it ends the request, or it fails and the request ends so. -/
inductive Attempted (v : Volume) (r : Request) : Except Fault Bool → Volume → Prop
  | ended {met : Bool} {w : Volume} (h : r.Outcome v (.ok met) w) : Attempted v r (.ok met) w
  | failed {e : Fault} {w : Volume} (h : ∀ log, r.Outcome v (.ok false) { w with log }) : Attempted v r (.error e) w

theorem outcome_attempt {v w : Volume} {r : Request} {label : String} {step : Storing Bool}
    (h : Ends w step (r.Attempted v)) : Ends w (attempt label false step) (r.Outcome v) := by
  refine ends_attempt h ?_ ?_
  · rintro _ _ ⟨hended⟩
    exact hended
  · rintro _ _ log (_ | hfailed)
    exact hfailed log

end Request

namespace Storing

open Volume Request

variable {v w : Volume}

theorem ends_makeDirectories (v : Volume) (name : String) :
    Ends v (makeDirectories (Path.dirName (v.physicalPath name))) fun _ w =>
      w = { v with tree := v.preparedTree name } := by
  unfold makeDirectories preparedTree
  refine ends_get_bind ?_
  cases v.tree.pathExists (Path.dirName (v.physicalPath name)) with
  | true => rfl
  | false =>
    rcases v.tree.makeDirectories false (Path.dirName (v.physicalPath name)) with ⟨tree, fault⟩
    cases fault with
    | none => rfl
    | some fault => rfl

theorem exists_on_save (w : Volume) : ∃ log, save.on w = (.ok (), w.resaved log) := by
  have hsaved : Ends w save fun r u => r = .ok () ∧ ∃ log, u = w.resaved log := by
    refine ends_attempt (Q := fun _ u => ∃ log, u = w.resaved log) ?_ (fun _ _ h => ⟨rfl, h⟩) ?_
    · refine ends_get_bind (ends_lift_bind_cases (fun tree htree => ends_modify_bind ?_) fun e he => ⟨w.log, ?_⟩)
      · have hwritten (log : Log) : ({ w with tree, log } : Volume) = w.resaved log := by
          rw [resaved, savedTree, htree]
          rfl
        split
        · exact ⟨w.log, hwritten _⟩
        · exact ⟨_, hwritten _⟩
      · rw [resaved, savedTree, he]
        rfl
    · rintro _ _ log ⟨_, rfl⟩
      exact ⟨rfl, log, rfl⟩
  obtain ⟨hanswer, log, hstate⟩ := hsaved
  exact ⟨log, Prod.ext hanswer hstate⟩

theorem ends_save_bind {α : Type} {f : Unit → Storing α} {R : Except Fault α → Volume → Prop}
    (h : ∀ log, Ends (w.resaved log) (f ()) R) : Ends w (save >>= f) R := by
  obtain ⟨log, hsave⟩ := exists_on_save w
  unfold Ends
  rw [on_bind_ok hsave]
  exact h log

theorem attempted_report {r : Request} {level : Level} {text : String}
    (h : ∀ log, r.Outcome v (.ok true) { w with log }) :
    Ends w (do report level text; pure true) (r.Attempted v) := .ended (h _)

theorem create_outcome (path size : Value) (v : Volume) :
    Ends v (create path size) ((Request.create path size).Outcome v) := by
  have hrefused {answer : Except Fault Bool} {log : Log} (hanswer : answer ≠ .ok true) :
      (Request.create path size).Outcome v answer { v with log } := .refused hanswer rfl
  unfold create
  refine ends_get_bind (ends_lift_bind (fun total htotal => ?_) fun _ => hrefused nofun)
  refine ends_lift_bind (fun full hroom => ?_) fun _ => hrefused nofun
  split
  · exact ends_lift_bind (fun shown _ => hrefused nofun) fun _ => hrefused nofun
  obtain rfl : full = false := by simpa using ‹¬full = true›
  refine ends_lift_bind (fun name hname => ?_) fun _ => hrefused nofun
  obtain rfl := pathText_eq_ok hname
  refine ends_bind (ends_makeDirectories v name) ?_ ?_
  case refine_2 =>
    rintro e _ rfl
    exact .prepared nofun
  rintro _ _ rfl
  refine outcome_attempt (ends_get_bind (ends_lift_bind (fun tree htree => ?_)
    fun _ => .failed fun _ => .prepared nofun))
  -- the file is made, first without content
  obtain ⟨place, hopens, rfl⟩ := setContent_eq_ok_iff.mp htree
  refine ends_modify_bind (ends_get_bind (ends_lift_bind_cases (fun content hblank => ?_) fun e he => ?_))
  case refine_2 => exact .failed fun _ => .emptied hopens (by simp [he])
  have hfilled : ((v.preparedTree name).put place (.file {})).put place (.file content) =
      (v.preparedTree name).put place (.file content) := congrArg FileTree.mk (Table.put_put _ _ _ _)
  refine ends_lift_bind_of_ok (setContent_eq_ok_iff.mpr ⟨place, hopens.put hopens _, rfl⟩) ?_
  rw [hfilled]
  refine ends_modify_bind (ends_get_bind (ends_lift_bind_cases (fun listed hlisted => ?_) fun e he => ?_))
  case refine_2 =>
    refine .failed fun _ => .unrecorded hopens fun fields hfiles => ?_
    cases he.symm.trans (withEntry_of_object (by exact hfiles) name _)
  -- from here on nothing fails
  obtain ⟨fields, hfiles, rfl⟩ := withEntry_eq_ok hlisted
  obtain ⟨n, hn, rfl⟩ := blank_eq_ok hblank
  obtain ⟨hint, hbits⟩ := word_eq_ok hn
  refine ends_set_bind (ends_lift_bind_of_ok htotal (ends_modify_bind (ends_save_bind fun log => ?_)))
  exact ends_lift_bind_of_ok (Value.written_of_int? hint hbits)
    (attempted_report fun log => .created hopens hn hfiles htotal hroom hblank)

/-- A request for a recorded path goes on; any other ends with the volume as it is. -/
theorem ends_onRecorded {α : Type} {path : Value} {otherwise : α} {step : String → Storing α}
    {R : Except Fault α → Volume → Prop}
    (h : ∀ name, path = .text name → v.recorded path = .ok true → Ends v (step name) R)
    (hother : (∀ name, path = .text name → v.recorded path ≠ .ok true) → ∀ answer,
      (∀ a, answer = .ok a → a = otherwise) → ∀ log, R answer { v with log }) :
    Ends v (onRecorded path otherwise step) R := by
  have hunrecorded (hno : ∀ name, path = .text name → v.recorded path ≠ .ok true) :
      Ends v (do let shown ← lift path.written; report .warning s!"文件不存在: {shown}"; pure otherwise) R :=
    ends_lift_bind (fun _ _ => hother hno _ (fun _ ha => (Except.ok.inj ha).symm) _)
      fun _ => hother hno (.error _) (by simp) v.log
  unfold onRecorded
  refine ends_get_bind (ends_lift_bind_cases (fun found hfound => ?_) fun e he => ?_)
  case refine_2 => exact hother (by simp [he]) (.error _) (by simp) v.log
  cases found with
  | false => exact hunrecorded (by simp [hfound])
  | true =>
    refine ends_lift_bind_cases (fun name hname => h name (pathText_eq_ok hname) hfound) fun e he => ?_
    refine hother ?_ (.error _) (by simp) v.log
    rintro name rfl
    cases he

theorem touch_cases (name : String) (w : Volume) : Ends w (touch name) fun r t =>
    (∃ fields entry, w.files = .object fields ∧ Table.find? fields name = some (.object entry) ∧ r = .ok () ∧
      t = { w with
        files := .object (Table.put fields name (.object (Table.put entry "modified_at" (.double w.clock)))) }) ∨
    ((∀ fields entry, w.files = .object fields → Table.find? fields name ≠ some (.object entry)) ∧
      (∃ e, r = .error e) ∧ t = w) := by
  have hnone {e : Fault} (h : ∀ entry, w.entry name ≠ .ok (.object entry)) :
      (∀ fields entry, w.files = .object fields → Table.find? fields name ≠ some (.object entry)) ∧
        (∃ e', Except.error (α := Unit) e = .error e') ∧ w = w := by
    refine ⟨fun fields entry hfiles hentry => h entry ?_, ⟨e, rfl⟩, rfl⟩
    rw [Volume.entry, hfiles]
    simp only [hentry]
  unfold touch
  refine ends_get_bind (ends_lift_bind_cases (fun entry hentry => ?_) fun e he => .inr (hnone (by simp [he])))
  split
  next parts =>
    obtain ⟨fields, hfiles, hfound⟩ := entry_eq_ok hentry
    exact ends_lift_bind_of_ok (withEntry_of_object hfiles name _) (.inl ⟨fields, parts, hfiles, hfound, rfl, rfl⟩)
  next hother =>
    refine .inr (hnone fun parts hparts => ?_)
    exact hother parts (Except.ok.inj (hentry.symm.trans hparts))

theorem write_outcome (path data offset : Value) (v : Volume) :
    Ends v (write path data offset) ((Request.write path data offset).Outcome v) := by
  refine ends_onRecorded (fun name hname hrecorded => ?_) fun hno answer hanswer log => ?_
  case refine_2 =>
    refine .refused (fun htrue => ?_) (stores?_eq_none fun name _ _ _ hname htrue => absurd htrue (hno name hname))
    cases hanswer true htrue
  subst hname
  have hfailed {e : Fault} (hstores : (Request.write (.text name) data offset).stores? v = none) :
      (Request.write (.text name) data offset).Attempted v (.error e) v := .failed fun _ => .refused nofun hstores
  refine outcome_attempt (ends_get_bind (ends_lift_bind_cases (fun found hfile => ?_) fun e he => ?_))
  case refine_2 =>
    refine hfailed (stores?_eq_none ?_)
    rintro _ _ _ _ ⟨⟩ - hfile
    cases he.symm.trans hfile
  refine ends_lift_bind_cases (fun position hposition => ?_) fun e he => hfailed (stores?_eq_none (by simp [he]))
  refine ends_lift_bind_cases (fun bytes hbytes => ?_) fun e he => hfailed (stores?_eq_none (by simp [he]))
  obtain rfl := writable_eq_ok hbytes
  refine ends_modify_bind ?_
  split
  next hpast => exact .failed fun _ => .spliced hrecorded hfile hposition (.inl hpast)
  next hwhole =>
    refine ends_bind (touch_cases name _) ?_ ?_
    · rintro _ _ (⟨fields, entry, hfiles, hentry, -, rfl⟩ | ⟨-, ⟨e, he⟩, -⟩)
      · refine ends_save_bind fun log => attempted_report fun log => ?_
        exact .written hrecorded hfile hposition hfiles hentry hwhole
      · cases he
    · rintro e _ (⟨_, _, -, -, he, -⟩ | ⟨hentry, -, rfl⟩)
      · cases he
      · exact .failed fun _ => .spliced hrecorded hfile hposition (.inr hentry)

theorem read_keeps (path size offset : Value) (v : Volume) :
    Ends v (read path size offset) fun _ w => ∃ log, w = { v with log } := by
  refine ends_onRecorded (fun name _ _ => ?_) fun _ _ _ log => ⟨log, rfl⟩
  refine ends_attempt (Q := fun _ w => w = v) ?_ (fun _ _ h => ⟨v.log, h⟩) fun _ _ log h => ⟨log, h ▸ rfl⟩
  refine ends_get_bind (ends_lift_bind (fun found _ => ?_) fun _ => rfl)
  exact ends_lift_bind (fun position _ => ends_lift_bind (fun count _ => rfl) fun _ => rfl) fun _ => rfl

theorem delete_outcome (path : Value) (v : Volume) :
    Ends v (delete path) ((Request.delete path).Outcome v) := by
  refine ends_onRecorded (fun name hname hrecorded => ?_) fun _ answer hanswer log => ?_
  case refine_2 =>
    refine .refused (fun htrue => ?_) rfl
    cases hanswer true htrue
  subst hname
  refine outcome_attempt (ends_get_bind (ends_lift_bind (fun tree hremove => ?_)
    fun _ => .failed fun _ => .refused nofun rfl))
  refine ends_modify_bind (ends_lift_bind_cases (fun entry hentry => ?_) fun e he => ?_)
  case refine_2 => exact .failed fun _ => .unlinked hrecorded hremove (by simp [he])
  refine ends_lift_bind_cases (fun size hsize => ?_) fun e he => .failed fun _ => .unlinked hrecorded hremove ?_
  case refine_2 =>
    rintro _ _ _ hentry' hsize
    cases hentry.symm.trans hentry'
    cases he.symm.trans hsize
  refine ends_lift_bind_cases (fun used hused => ?_) fun e he => .failed fun _ => .unlinked hrecorded hremove ?_
  case refine_2 =>
    rintro _ _ _ hentry' hsize' hused
    cases hentry.symm.trans hentry'
    cases hsize.symm.trans hsize'
    cases he.symm.trans hused
  obtain ⟨fields, hfiles, hfound⟩ := entry_eq_ok hentry
  refine ends_modify_bind (ends_get_bind (ends_lift_bind_of_ok (withoutEntry_of_object (by exact hfiles) name) ?_))
  exact ends_set_bind (ends_save_bind fun log => attempted_report fun log => .deleted hremove hfiles hfound hsize hused)

theorem load_spec (v : Volume) :
    Ends v load fun _ w => w.tree = v.tree ∧ w.root = v.root ∧
      (v.tree.pathExists v.stateFile = false → w = v) := by
  unfold load
  refine ends_get_bind ?_
  split
  next hthere =>
    refine ends_attempt (Q := fun _ w => w.tree = v.tree ∧ w.root = v.root) ?_
      (fun _ _ h => ⟨h.1, h.2, fun hnew => ?_⟩) fun _ _ _ h => ⟨h.1, h.2, fun hnew => ?_⟩
    · refine ends_lift_bind (fun saved _ => ?_) fun _ => ⟨rfl, rfl⟩
      cases saved with
      | object fields =>
        exact ends_modify_bind (ends_lift_bind (fun _ _ => ⟨rfl, rfl⟩) fun _ => ⟨rfl, rfl⟩)
      | _ => exact ⟨rfl, rfl⟩
    · rw [hthere] at hnew
      cases hnew
    · rw [hthere] at hnew
      cases hnew
  next => exact ⟨rfl, rfl, fun _ => rfl⟩

/-- A volume that has been opened was loaded on top of empty books. -/
theorem openAt_eq_ok {v₀ : Volume} {root : String} {gigabytes : Value}
    (hopen : (openAt root gigabytes).on v₀ = (.ok (), v)) :
    ∃ u, u.root = root ∧ u.used = .int 0 ∧ u.files = .object [] ∧ load.on u = (.ok (), v) := by
  have hspec : Ends v₀ (openAt root gigabytes) fun r w => r = .ok () →
      ∃ u, u.root = root ∧ u.used = .int 0 ∧ u.files = .object [] ∧ load.on u = (.ok (), w) := by
    have hload (t : Volume) (capacity : Value) :
        Ends t (do
          modify fun v => { v with root, capacity, used := .int 0, files := .object [] }
          load) fun r w => r = .ok () →
            ∃ u, u.root = root ∧ u.used = .int 0 ∧ u.files = .object [] ∧ load.on u = (.ok (), w) :=
      ends_modify_bind fun hanswer => ⟨_, rfl, rfl, rfl, Prod.ext hanswer rfl⟩
    unfold openAt
    refine ends_lift_bind (fun _ _ => ?_) nofun
    refine ends_lift_bind (fun _ _ => ?_) nofun
    refine ends_lift_bind (fun capacity _ => ends_get_bind ?_) nofun
    split
    · refine ends_bind (Q := fun _ _ => True) trivial (fun _ t _ => ?_) fun _ _ _ => nofun
      exact ends_report_bind fun log => hload _ capacity
    · exact hload v₀ capacity
  unfold Ends at hspec
  rw [hopen] at hspec
  exact hspec rfl

/-- A volume that was opened where no state file is starts with nothing. -/
theorem openAt_new {v₀ : Volume} {root : String} {gigabytes : Value}
    (hopen : (openAt root gigabytes).on v₀ = (.ok (), v))
    (hnew : v.tree.pathExists v.stateFile = false) : v.used = .int 0 ∧ v.files = .object [] := by
  obtain ⟨u, -, hused, hfiles, hload⟩ := openAt_eq_ok hopen
  obtain ⟨htree, hroot, hsame⟩ := load_spec u
  rw [hload] at htree hroot hsame
  rw [stateFile, htree, hroot] at hnew
  obtain rfl := hsame hnew
  exact ⟨hused, hfiles⟩

end Storing

namespace Request

open Volume

variable {v w : Volume} {r : Request} {answer : Except Fault Bool}

theorem perform_outcome (r : Request) (v : Volume) : Ends v r.perform (r.Outcome v) := by
  cases r with
  | create path size => exact Storing.create_outcome path size v
  | write path data offset => exact Storing.write_outcome path data offset v
  | read path size offset =>
    refine ends_bind (Storing.read_keeps path size offset v) ?_ ?_
    · rintro _ _ ⟨log, rfl⟩
      exact .looked rfl
    · rintro _ _ ⟨log, rfl⟩
      exact .looked rfl
  | delete path => exact Storing.delete_outcome path v
  | list directory => exact ends_get_bind (ends_lift_bind (fun _ _ => .looked rfl) fun _ => .looked rfl)

/-- A volume stays where it is. -/
theorem root_perform (r : Request) (v : Volume) : (r.perform.on v).2.root = v.root := by
  have houtcome : r.Outcome v (r.perform.on v).1 (r.perform.on v).2 := r.perform_outcome v
  generalize r.perform.on v = out at houtcome ⊢
  obtain ⟨answer, w⟩ := out
  cases houtcome <;> rfl

theorem physicalPath_perform (r : Request) (v : Volume) (name : String) :
    (r.perform.on v).2.physicalPath name = v.physicalPath name := by
  rw [physicalPath, root_perform, physicalPath]

theorem stateFile_perform (r : Request) (v : Volume) : (r.perform.on v).2.stateFile = v.stateFile := by
  rw [stateFile, root_perform, stateFile]

theorem root_afterAll (requests : List Request) (v : Volume) : (afterAll requests v).root = v.root := by
  induction requests generalizing v with
  | nil => rfl
  | cons r rest ih => exact (ih _).trans (root_perform r v)

/-- What an answered request has done to the books. -/
inductive Effect (v : Volume) : Request → Except Fault Bool → Volume → Prop
  | same {r : Request} {answer : Except Fault Bool} {w : Volume} (hanswer : answer = .ok true → r.target = .none)
      (hsame : v.SameBooks w) : Effect v r answer w
  | created {path size : Value} {w : Volume} (hdone : v.Created path size w) :
      Effect v (create path size) (.ok true) w
  | touched {path data offset : Value} {w : Volume} (hdone : v.Touched path w) :
      Effect v (write path data offset) (.ok true) w
  | deleted {path : Value} {w : Volume} (hdone : v.Deleted path w) : Effect v (delete path) (.ok true) w

theorem Outcome.effect (h : r.Outcome v answer w) : r.Effect v answer w := by
  cases h with
  | looked hr => exact .same (fun _ => hr) ⟨v.tree, _, rfl⟩
  | refused hanswer _ => exact .same (fun htrue => absurd htrue hanswer) ⟨v.tree, _, rfl⟩
  | prepared hanswer => exact .same (fun htrue => absurd htrue hanswer) ⟨_, _, rfl⟩
  | emptied _ _ | unrecorded _ _ | spliced _ _ _ _ | unlinked _ _ _ => exact .same nofun ⟨_, _, rfl⟩
  | created _ hsize hfiles htotal hroom _ => exact .created (.intro _ _ hfiles rfl hsize htotal hroom)
  | written _ _ _ hfiles hentry => exact .touched (.intro _ _ hfiles rfl hentry)
  | deleted _ hfiles hentry hsize hused => exact .deleted (.intro _ _ hfiles rfl hentry hsize hused)

theorem perform_effect (r : Request) (v : Volume) : r.Effect v (r.perform.on v).1 (r.perform.on v).2 :=
  (r.perform_outcome v).effect

/-- A request that is not met leaves the books. -/
theorem Effect.sameBooks (h : r.Effect v answer w) (hfailed : answer ≠ .ok true) : v.SameBooks w := by
  cases h with
  | same _ hsame => exact hsame
  | created _ | touched _ | deleted _ => exact absurd rfl hfailed

end Request

end Handset
