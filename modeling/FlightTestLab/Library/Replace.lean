import Mathlib.Logic.Function.Basic

/-!
# Replacing a file by renaming

A writer puts the new content into a temporary file of its own and renames it. A kill
can stop it at any point; what stands under the name of the file is then the old
content or the new, never a part of it.

## Main definitions

- `Replace.Disk`: a file and the temporary files of its writers
- `Replace.Cut`: the point up to which a replacement gets
- `Replace.Disk.replace`: the disk that a replacement leaves at that point

## Main results

- `Replace.file_replace`: the file is replaced exactly when the renaming happened
-/

namespace Replace

variable {ω α : Type*} [DecidableEq ω]

/-- A file, and the temporary file of each writer. -/
structure Disk (ω α : Type*) where
  file : Option (List α)
  temps : ω → Option (List α)

/-- The point up to which a replacement gets. -/
inductive Cut
  | before
  | writing (n : Nat)
  | renamed
  deriving DecidableEq, Repr

namespace Disk

def empty : Disk ω α where
  file := none
  temps := fun _ => none

/-- The writer has put some content into its temporary file. -/
def write (d : Disk ω α) (writer : ω) (content : List α) : Disk ω α :=
  { d with temps := Function.update d.temps writer (some content) }

/-- The writer renames its temporary file. -/
def rename (d : Disk ω α) (writer : ω) : Disk ω α where
  file := d.temps writer
  temps := Function.update d.temps writer none

/-- A replacement of the content, up to a point. -/
def replace (d : Disk ω α) (writer : ω) (content : List α) : Cut → Disk ω α
  | .before => d
  | .writing n => d.write writer (content.take n)
  | .renamed => (d.write writer content).rename writer

end Disk

/-- The file is replaced exactly when the renaming happened. -/
theorem file_replace (d : Disk ω α) (writer : ω) (content : List α) (cut : Cut) :
    (d.replace writer content cut).file = if cut = .renamed then some content else d.file := by
  cases cut with
  | before => rfl
  | writing n => rfl
  | renamed =>
    show Function.update d.temps writer (some content) writer = some content
    exact Function.update_self ..

end Replace
