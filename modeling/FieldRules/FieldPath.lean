/-
Where a field is, seen from the record that owns it: the names on the way down.
-/
import FieldRules.Text.Blank

namespace FieldRules

structure FieldPath where
  segments : List String
  deriving DecidableEq, Repr, Inhabited

namespace FieldPath

def root : FieldPath := ⟨[]⟩

def child (path : FieldPath) (name : String) : FieldPath := ⟨path.segments ++ [name]⟩

/-- The path that leads on from the end of another. -/
def append (path below : FieldPath) : FieldPath := ⟨path.segments ++ below.segments⟩

def render (path : FieldPath) : String := String.intercalate "." path.segments

/-- Reads dotted text; dots with nothing between them count for one. -/
def parse (dotted : String) : FieldPath :=
  ⟨((Text.splitAt (· == '.') dotted.toList).filter fun piece => !piece.isEmpty).map String.ofList⟩

theorem append_append (path below deeper : FieldPath) :
    (path.append below).append deeper = path.append (below.append deeper) := by
  simp [append]

theorem append_root (path : FieldPath) : path.append root = path := by
  simp [append, root]

theorem root_append (path : FieldPath) : root.append path = path := by
  simp [append, root]

end FieldPath

end FieldRules
