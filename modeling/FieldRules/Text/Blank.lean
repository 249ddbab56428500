/-
White space as Unicode defines it, and what it separates.

`trim` and its halves drop white space at the ends of a text; `words` are the
longest pieces without any.
-/
namespace FieldRules
namespace Text

/-- The property White_Space. -/
def isBlank (c : Char) : Bool :=
  c == ' ' || (decide ('\t' ≤ c) && decide (c ≤ '\r')) || c.toNat == 0x85 || c.toNat == 0xA0 ||
    c.toNat == 0x1680 || (decide (0x2000 ≤ c.toNat) && decide (c.toNat ≤ 0x200A)) ||
    c.toNat == 0x2028 || c.toNat == 0x2029 || c.toNat == 0x202F || c.toNat == 0x205F ||
    c.toNat == 0x3000

def trimStart (cs : List Char) : List Char := cs.dropWhile isBlank

def trimEnd (cs : List Char) : List Char := (trimStart cs.reverse).reverse

def trim (cs : List Char) : List Char := trimEnd (trimStart cs)

/-- Whether nothing but white space is there. -/
def isAllBlank (cs : List Char) : Bool := cs.all isBlank

/-- Adds a character in front of the first of some pieces. -/
def consFirst (c : Char) : List (List Char) → List (List Char)
  | [] => [[c]]
  | piece :: pieces => (c :: piece) :: pieces

/-- The pieces between the characters that satisfy `p`; `n` of them make `n + 1` pieces. -/
def splitAt (p : Char → Bool) : List Char → List (List Char)
  | [] => [[]]
  | c :: cs => if p c then [] :: splitAt p cs else consFirst c (splitAt p cs)

/-- The pieces with one character between each two of them. -/
def joinWith (separator : Char) : List (List Char) → List Char
  | [] => []
  | [piece] => piece
  | piece :: pieces => piece ++ separator :: joinWith separator pieces

theorem splitAt_ne_nil (p : Char → Bool) (cs : List Char) : splitAt p cs ≠ [] := by
  cases cs with
  | nil => simp [splitAt]
  | cons c cs =>
    unfold splitAt
    split
    · simp
    · cases splitAt p cs <;> simp [consFirst]

theorem joinWith_consFirst (separator c : Char) {pieces : List (List Char)} (h : pieces ≠ []) :
    joinWith separator (consFirst c pieces) = c :: joinWith separator pieces := by
  match pieces with
  | [] => exact absurd rfl h
  | [_] => rfl
  | _ :: _ :: _ => rfl

/-- Nothing is lost by splitting at a character. -/
theorem joinWith_splitAt (separator : Char) (cs : List Char) :
    joinWith separator (splitAt (· == separator) cs) = cs := by
  induction cs with
  | nil => rfl
  | cons c cs ih =>
    have hne := splitAt_ne_nil (· == separator) cs
    unfold splitAt
    split
    · next h =>
      rw [beq_iff_eq] at h
      obtain ⟨piece, pieces, hp⟩ := List.exists_cons_of_ne_nil hne
      rw [hp] at ih ⊢
      simp [joinWith, ih, h]
    · rw [joinWith_consFirst separator c hne, ih]

def words (cs : List Char) : List (List Char) :=
  (splitAt isBlank cs).filter (fun piece => !piece.isEmpty)

end Text
end FieldRules
