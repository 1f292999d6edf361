import Handset.Proofs.Files.Places
import Handset.Storage.Drive

/-!
# What errands do to a drive

A drive keeps no books, so that an errand comes to what it has done to the tree. As for the requests to a volume, all
of it is listed once, and what else is said about errands is read off this list.
-/
namespace Handset

open Step FileTree

/-- The tree once the directories above a file are made, or as far as they could be. -/
@[irreducible] def Drive.preparedTree (d : Drive) (path : String) : FileTree :=
  (d.tree.makeDirectories true (Path.dirName (d.fullPath path))).1

theorem Drive.addsDirectories_preparedTree (d : Drive) (path : String) :
    AddsDirectories d.tree (d.preparedTree path) := by
  unfold preparedTree
  exact addsDirectories_makeDirectories _ _ _

/-- What can be asked of a drive. -/
inductive Errand where
  | create (path content : Value)
  | read (path : Value)
  | list (directory : Value)
  | delete (path : Value)

namespace Errand

def target : Errand → Value
  | create path _ | read path | list path | delete path => path

def perform : Errand → Driving Bool
  | create path content => Driving.create path content
  | read path => do pure (← Driving.read path).isSome
  | list directory => do
    let _ ← Driving.list directory
    pure true
  | delete path => Driving.delete path

/-- What an errand can come to: its answer and the drive that it leaves. -/
inductive Outcome (d : Drive) : Errand → Except Fault Bool → Drive → Prop
  | kept {errand : Errand} {answer : Except Fault Bool} {log : Log}
      (hanswer : answer = .ok true → ∀ path content, errand ≠ create path content) :
      Outcome d errand answer { d with log }
  | prepared {path : String} {content : Value} {answer : Except Fault Bool} {log : Log} (hanswer : answer ≠ .ok true) :
      Outcome d (create (.text path) content) answer { d with tree := d.preparedTree path, log }
  | emptied {path : String} {content : Value} {answer : Except Fault Bool} {place : Place} {log : Log}
      (hanswer : answer ≠ .ok true) (hopens : (d.preparedTree path).Opens (d.fullPath path) place) :
      Outcome d (create (.text path) content) answer
        { d with tree := (d.preparedTree path).put place (.file (.ofBytes #[])), log }
  | created {path text : String} {place : Place} {log : Log}
      (hopens : (d.preparedTree path).Opens (d.fullPath path) place) :
      Outcome d (create (.text path) (.text text)) (.ok true)
        { d with tree := (d.preparedTree path).put place (.file (.ofBytes (Text.Utf8.encode text))), log }
  | removed {path : String} {tree : FileTree} {log : Log} (hfile : d.tree.isFile (d.fullPath path) = true)
      (hremove : d.tree.remove (d.fullPath path) = .ok tree) :
      Outcome d (delete (.text path)) (.ok true) { d with tree, log }

/-- What a step with a path can come to: it ends the errand, or it fails, and the failure is reported or not. -/
inductive Attempted (d : Drive) (errand : Errand) : Except Fault Bool → Drive → Prop
  | ended {met : Bool} {e : Drive} (h : errand.Outcome d (.ok met) e) : Attempted d errand (.ok met) e
  | failed {fault : Fault} {e : Drive}
      (h : ∀ answer, answer ≠ .ok true → ∀ log, errand.Outcome d answer { e with log }) :
      Attempted d errand (.error fault) e

end Errand

namespace Driving

open Errand

variable {d e : Drive} {errand : Errand}

theorem ends_attemptAt {α : Type} {failure : String} {shown : Value} {otherwise : α} {step : Driving α}
    {Q R : Except Fault α → Drive → Prop} (h : Ends d step Q) (hok : ∀ a t, Q (.ok a) t → R (.ok a) t)
    (hreported : ∀ e t log, Q (.error e) t → R (.ok otherwise) (Journal.setLog t log))
    (hunreported : ∀ e e' t, Q (.error e) t → R (.error e') t) :
    Ends d (attemptAt failure shown otherwise step) R := by
  refine ends_tryCatch h hok fun e t ht => ?_
  exact ends_lift_bind (fun _ _ => hreported e t _ ht) fun e' => hunreported e e' t ht

theorem outcome_attemptAt {failure : String} {shown : Value} {step : Driving Bool}
    (h : Ends d step (errand.Attempted d)) : Ends d (attemptAt failure shown false step) (errand.Outcome d) := by
  refine ends_attemptAt h ?_ ?_ ?_
  · rintro _ _ ⟨hended⟩
    exact hended
  · rintro _ _ log (_ | hfailed)
    exact hfailed (.ok false) nofun log
  · rintro _ fault t (_ | hfailed)
    exact hfailed (.error fault) nofun t.log

theorem ends_makeDirectories (d : Drive) (path : String) :
    Ends d (makeDirectories (Path.dirName (d.fullPath path)))
      fun _ e => e = { d with tree := d.preparedTree path } := by
  unfold makeDirectories Drive.preparedTree
  refine ends_get_bind ?_
  rcases d.tree.makeDirectories true (Path.dirName (d.fullPath path)) with ⟨tree, fault⟩
  cases fault with
  | none => rfl
  | some fault => rfl

theorem create_outcome (path content : Value) (d : Drive) :
    Ends d (create path content) ((Errand.create path content).Outcome d) := by
  refine outcome_attemptAt (ends_get_bind (ends_lift_bind (fun full hfull => ?_) fun _ => ?_))
  case refine_2 => exact .failed fun answer hanswer log => .kept fun htrue => absurd htrue hanswer
  cases path with
  | text path =>
    obtain rfl : d.fullPath path = full := Except.ok.inj hfull
    refine ends_bind (ends_makeDirectories d path) ?_ ?_
    case refine_2 =>
      rintro fault _ rfl
      exact .failed fun answer hanswer log => .prepared hanswer
    rintro _ _ rfl
    refine ends_get_bind (ends_lift_bind (fun tree htree => ?_) fun _ => ?_)
    case refine_2 => exact .failed fun answer hanswer log => .prepared hanswer
    -- the file is made, first without content
    obtain ⟨place, hopens, rfl⟩ := setContent_eq_ok_iff.mp htree
    refine ends_modify_bind ?_
    cases content with
    | text s =>
      have hwritten : ((d.preparedTree path).put place (.file (.ofBytes #[]))).put place
          (.file (.ofBytes (Text.Utf8.encode s))) =
          (d.preparedTree path).put place (.file (.ofBytes (Text.Utf8.encode s))) :=
        congrArg FileTree.mk (Table.put_put _ _ _ _)
      refine ends_get_bind (ends_lift_bind_of_ok (setContent_eq_ok_iff.mpr ⟨place, hopens.put hopens _, rfl⟩) ?_)
      rw [hwritten]
      exact ends_modify_bind (ends_report_bind fun log => .ended (.created hopens))
    | _ => exact .failed fun answer hanswer log => .emptied hanswer hopens
  | _ => cases hfull

theorem remove_cases (full : String) (d : Drive) : Ends d (remove full) fun r e =>
    (∃ tree, d.tree.remove full = .ok tree ∧ r = .ok () ∧ e = { d with tree }) ∨
      (∃ fault, r = .error fault) ∧ e = d := by
  unfold remove
  refine ends_get_bind ?_
  split
  · exact .inr ⟨⟨_, rfl⟩, rfl⟩
  · exact ends_lift_bind (fun tree htree => .inl ⟨tree, htree, rfl, rfl⟩) fun fault => .inr ⟨⟨fault, rfl⟩, rfl⟩

theorem delete_outcome (path : Value) (d : Drive) : Ends d (delete path) ((Errand.delete path).Outcome d) := by
  have hkept {answer : Except Fault Bool} {log : Log} : (Errand.delete path).Outcome d answer { d with log } :=
    .kept fun _ _ _ => nofun
  refine outcome_attemptAt (ends_get_bind (ends_lift_bind (fun full hfull => ?_) fun _ => .failed fun _ _ _ => hkept))
  split
  next hfile =>
    refine ends_bind (remove_cases full d) ?_ ?_
    · rintro _ _ (⟨tree, htree, -, rfl⟩ | ⟨⟨_, hfault⟩, -⟩)
      · cases path with
        | text path =>
          obtain rfl : d.fullPath path = full := Except.ok.inj hfull
          exact ends_report_bind fun log => .ended (.removed hfile htree)
        | _ => cases hfull
      · cases hfault
    · rintro fault _ (⟨_, -, hfault, -⟩ | ⟨-, rfl⟩)
      · cases hfault
      · exact .failed fun _ _ _ => hkept
  next => exact ends_report_bind fun log => .ended hkept

theorem read_keeps (path : Value) (d : Drive) : Ends d (read path) fun _ e => ∃ log, e = { d with log } := by
  refine ends_attemptAt (Q := fun _ e => e = d) ?_ (fun _ _ h => ⟨d.log, h⟩) (fun _ _ log h => ⟨log, h ▸ rfl⟩)
    fun _ _ _ h => ⟨d.log, h⟩
  refine ends_get_bind (ends_lift_bind (fun full _ => ends_lift_bind (fun content _ => ?_) fun _ => rfl) fun _ => rfl)
  split <;> rfl

theorem list_keeps (directory : Value) (d : Drive) :
    Ends d (list directory) fun _ e => ∃ log, e = { d with log } := by
  refine ends_attempt (Q := fun _ e => e = d) ?_ (fun _ _ h => ⟨d.log, h⟩) fun _ _ log h => ⟨log, h ▸ rfl⟩
  refine ends_get_bind (ends_lift_bind (fun full _ => ?_) fun _ => rfl)
  split
  · exact quiet_lift _ d
  · rfl

end Driving

namespace Errand

theorem perform_outcome (errand : Errand) (d : Drive) : Ends d errand.perform (errand.Outcome d) := by
  cases errand with
  | create path content => exact Driving.create_outcome path content d
  | delete path => exact Driving.delete_outcome path d
  | read path =>
    refine ends_bind (Driving.read_keeps path d) ?_ ?_
    · rintro _ _ ⟨log, rfl⟩
      exact .kept fun _ _ _ => nofun
    · rintro _ _ ⟨log, rfl⟩
      exact .kept nofun
  | list directory =>
    refine ends_bind (Driving.list_keeps directory d) ?_ ?_
    · rintro _ _ ⟨log, rfl⟩
      exact .kept fun _ _ _ => nofun
    · rintro _ _ ⟨log, rfl⟩
      exact .kept nofun

end Errand

end Handset
