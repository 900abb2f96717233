import Optiflow.Model.Uuid
import Mathlib.Data.List.Infix

/-!
# Paths

What the services use of Go's package `path`, for paths that begin with a slash.
-/

namespace Optiflow

namespace GoPath

/-- The elements of a path that are left when `.` and `..` are resolved; `above` are those before, the
last one first. -/
def resolve : List GoString → List GoString → List GoString
  | above, [] => above.reverse
  | above, element :: elements =>
    if element = [] ∨ element = lit "." then resolve above elements
    else if element = lit ".." then resolve above.tail elements
    else resolve (element :: above) elements

/-- `path.Clean("/" + rest)`. -/
def cleanRooted (rest : GoString) : GoString :=
  lit "/" ++ (lit "/").intercalate (resolve [] (rest.splitOn 47))

/-- `path.Ext`: from the last dot of the last element. -/
def ext (path : GoString) : GoString :=
  let last := path.reverse.takeWhile (· ≠ 47)
  if 46 ∈ last then (last.takeWhile (· ≠ 46) ++ lit ".").reverse else []

/-- A cleaned path begins with a slash. -/
theorem cleanRooted_eq (rest : GoString) : ∃ name, cleanRooted rest = lit "/" ++ name := ⟨_, rfl⟩

example : cleanRooted (lit "a/./b//../../../480p.m3u8") = lit "/480p.m3u8" := by decide

example : ext (lit "/a.b/480p_000.ts") = lit ".ts" := by decide

end GoPath

end Optiflow
