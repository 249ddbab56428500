/-
Places in a text: lines and columns count from one, columns count characters.
-/
namespace FieldRules
namespace Text

structure Position where
  line : Nat
  column : Nat
  deriving DecidableEq, Repr, Inhabited

namespace Position

def first : Position := ⟨1, 1⟩

def after (p : Position) (c : Char) : Position :=
  if c = '\n' then ⟨p.line + 1, 1⟩ else ⟨p.line, p.column + 1⟩

def advance (p : Position) (cs : List Char) : Position := cs.foldl after p

def le (p q : Position) : Bool :=
  decide (p.line < q.line) || (p.line == q.line && decide (p.column ≤ q.column))

def render (p : Position) : String := toString p.line ++ ":" ++ toString p.column

/-- The place of the character that starts `offset` bytes into a text. -/
def atOffset (p : Position) : List Char → Nat → Position
  | [], _ => p
  | _, 0 => p
  | c :: cs, offset => (p.after c).atOffset cs (offset - c.utf8Size)

theorem advance_append (p : Position) (as bs : List Char) :
    p.advance (as ++ bs) = (p.advance as).advance bs := by
  simp [advance]

theorem le_iff (p q : Position) :
    p.le q = true ↔ p.line < q.line ∨ p.line = q.line ∧ p.column ≤ q.column := by
  simp [le]

theorem le_total {p q : Position} (h : p.le q = false) : q.le p = true := by
  rw [← Bool.not_eq_true, le_iff] at h
  rw [le_iff]
  omega

theorem le_trans {p q r : Position} (hpq : p.le q = true) (hqr : q.le r = true) :
    p.le r = true := by
  rw [le_iff] at *
  omega

end Position

end Text
end FieldRules
