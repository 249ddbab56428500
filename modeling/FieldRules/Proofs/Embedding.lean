/-
Embedded fields, each on a line of its own.

A type is embedded as `Name` or `pkg.Name`, with type arguments or without, and with a
star in front or without (`WritesField`).  Whether a line has an embedded field is
decided at its second token, which is a bracket only behind a name with arguments and
neither package nor star.  On all other lines an embedded field is read, whatever
stands around the line (`WritesField.standsAlone`).  A line of `Name[args]` is taken for
a field of array or slice type that has no element type, and the text is refused
(`WritesField.refused`).
-/
import FieldRules.Proofs.Items
import FieldRules.Proofs.RoundTrip

namespace FieldRules
namespace Go

open Go.Parser

/-! ### Brackets in pairs -/

/-- The bracket that closes an opening one. -/
def Token.closing? : Token → Option Token
  | leftBrace => some rightBrace
  | leftParen => some rightParen
  | leftBracket => some rightBracket
  | _ => none

/-- Every bracket is closed by one of its kind, within the brackets around it. -/
inductive IsBalanced : List Lexeme → Prop where
  | nil : IsBalanced []
  | plain {l : Lexeme} {ls : List Lexeme} : l.token.isOpening = false →
      l.token.isClosing = false → IsBalanced ls → IsBalanced (l :: ls)
  | bracketed {l m : Lexeme} {ls ms : List Lexeme} : l.token.closing? = some m.token →
      IsBalanced ls → IsBalanced ms → IsBalanced (l :: (ls ++ m :: ms))

theorem Token.closing?_cases {t u : Token} (h : t.closing? = some u) :
    t = .leftBrace ∧ u = .rightBrace ∨ t = .leftParen ∧ u = .rightParen ∨
      t = .leftBracket ∧ u = .rightBracket := by
  cases t <;> cases h
  · exact .inl ⟨rfl, rfl⟩
  · exact .inr (.inl ⟨rfl, rfl⟩)
  · exact .inr (.inr ⟨rfl, rfl⟩)

/-- Within brackets a balanced piece is taken whole. -/
theorem IsBalanced.takeGroup {ls : List Lexeme} (h : IsBalanced ls) {depth : Nat}
    (inside : 0 < depth) (rest : List Lexeme) :
    takeGroup depth (ls ++ rest) =
      (takeGroup depth rest).map fun (taken, behind) => (ls ++ taken, behind) := by
  induction h generalizing depth rest with
  | nil => simp
  | plain opening closing _ ih =>
    rw [List.cons_append, Go.takeGroup]
    simp [opening, closing, ih inside, Function.comp_def]
  | @bracketed l m ls ms pair _ _ inner behind =>
    have around : l.token.isOpening = true ∧ l.token.isClosing = false ∧
        m.token.isOpening = false ∧ m.token.isClosing = true := by
      rcases Token.closing?_cases pair with ⟨hl, hm⟩ | ⟨hl, hm⟩ | ⟨hl, hm⟩ <;>
        rw [hl, hm] <;> exact ⟨rfl, rfl, rfl, rfl⟩
    obtain ⟨opens, notCloses, notOpens, closes⟩ := around
    have goesOn : ¬(depth + 1 ≤ 1) := by omega
    rw [List.cons_append, List.append_assoc, List.cons_append, Go.takeGroup]
    simp only [opens, notCloses, Bool.false_eq_true, false_and, if_false, if_true]
    rw [inner (Nat.succ_pos depth), Go.takeGroup]
    simp [notOpens, closes, goesOn, behind inside, Function.comp_def]

/-- In front of the end of an array length a balanced piece is taken whole. -/
theorem IsBalanced.takeLength {ls : List Lexeme} (h : IsBalanced ls) (depth : Nat)
    (rest : List Lexeme) :
    takeLength depth (ls ++ rest) =
      (takeLength depth rest).map fun (taken, behind) => (ls ++ taken, behind) := by
  induction h generalizing depth rest with
  | nil => simp
  | @plain l ls opening closing _ ih =>
    have other : l.token ≠ .leftBracket ∧ l.token ≠ .leftParen ∧ l.token ≠ .rightBracket ∧
        l.token ≠ .rightParen := by
      refine ⟨?_, ?_, ?_, ?_⟩ <;> intro same <;> rw [same] at opening closing <;>
        first | exact absurd opening (by decide) | exact absurd closing (by decide)
    rw [List.cons_append, Go.takeLength]
    simp [other, ih, Function.comp_def]
  | @bracketed l m ls ms pair _ _ inner behind =>
    rw [List.cons_append, List.append_assoc, List.cons_append, Go.takeLength]
    rcases Token.closing?_cases pair with ⟨hl, hm⟩ | ⟨hl, hm⟩ | ⟨hl, hm⟩ <;>
    · simp only [hl, reduceCtorEq, false_and, if_false, or_false, false_or, if_true]
      rw [inner, Go.takeLength]
      simp [hm, behind, Function.comp_def]

/-! ### Lines with embedded fields -/

/-- A type name, of a package or not. -/
inductive WritesName : List Lexeme → String → TypeExpr → Prop where
  | plain {l : Lexeme} {word : String} :
      l.token = .identifier word → WritesName [l] word (.named word)
  | qualified {l d m : Lexeme} {package word : String} :
      l.token = .identifier package → d.token = .dot → m.token = .identifier word →
      WritesName [l, d, m] word (.qualified package word)

/-- A type name with type arguments or without. -/
inductive WritesBase : List Lexeme → String → TypeExpr → Prop where
  | bare {ls : List Lexeme} {word : String} {t : TypeExpr} :
      WritesName ls word t → WritesBase ls word t
  | applied {ls arguments : List Lexeme} {l m : Lexeme} {word : String} {t : TypeExpr} :
      WritesName ls word t → l.token = .leftBracket → IsBalanced arguments →
      m.token = .rightBracket →
      WritesBase (ls ++ l :: (arguments ++ [m])) word
        (.instantiated t (String.ofList (spanText (l :: (arguments ++ [m])))))

inductive WritesTag : List Lexeme → Option String → Prop where
  | absent : WritesTag [] none
  | present {l : Lexeme} {quoted : String} :
      l.token.tag? = some quoted → WritesTag [l] (some quoted)

/-- An embedded field, with or without a star and a tag.  What stands above it is left open. -/
inductive WritesField : List Lexeme → Field → Prop where
  | direct {l : Lexeme} {ls tags : List Lexeme} {word : String} {t : TypeExpr}
      {tag : Option String} {doc : List Comment} :
      WritesBase (l :: ls) word t → WritesTag tags tag →
      WritesField (l :: (ls ++ tags)) ⟨[word], true, t, tag, doc, l.position⟩
  | pointer {s : Lexeme} {ls tags : List Lexeme} {word : String} {t : TypeExpr}
      {tag : Option String} {doc : List Comment} :
      s.token = .star → WritesBase ls word t → WritesTag tags tag →
      WritesField (s :: (ls ++ tags)) ⟨[word], true, .pointer t, tag, doc, s.position⟩

/-- An instance of a generic type that is named without a package. -/
def TypeExpr.isLocalInstance : TypeExpr → Bool
  | instantiated (named _) _ => true
  | _ => false

/-- A line that is read as a field wherever it stands, without its newline. -/
def StandsAlone (line : List Lexeme) (field : Field) : Prop :=
  ∀ previous doc (n : Lexeme) rest, n.token = .newline →
    Reads ⟨previous, line ++ n :: rest⟩ (.field { field with doc := doc })
      ⟨line.getLast?, n :: rest⟩

section

variable {ls tags line rest : List Lexeme} {l n : Lexeme} {word : String} {t : TypeExpr}
  {tag : Option String} {field : Field}

theorem WritesName.embeddedName? (h : WritesName ls word t) :
    embeddedName? t = some word := by
  cases h <;> rfl

theorem WritesBase.embeddedName? (h : WritesBase ls word t) :
    embeddedName? t = some word := by
  cases h with
  | bare name => exact name.embeddedName?
  | applied name => exact name.embeddedName?

/-- A name is read up to whatever is not a dot. -/
theorem WritesName.readsBase (h : WritesName (l :: ls) word t) (stops : front rest ≠ some .dot) :
    ∃ first, l.token = .identifier first ∧
      ReadsBase first ⟨some l, ls ++ rest⟩ t ⟨(l :: ls).getLast?, rest⟩ := by
  cases h with
  | plain hl => exact ⟨_, hl, .plain stops⟩
  | qualified hl hd hm => exact ⟨_, hl, .dotted hd hm⟩

/-- The type is read up to whatever is neither a dot nor a bracket. -/
theorem WritesBase.reads (h : WritesBase ls word t) (previous : Option Lexeme)
    (noDot : front rest ≠ some .dot) (noBracket : front rest ≠ some .leftBracket) :
    Reads ⟨previous, ls ++ rest⟩ (.type t) ⟨ls.getLast?, rest⟩ := by
  cases h with
  | bare name =>
    obtain ⟨l, ls, rfl⟩ : ∃ l more, ls = l :: more := by cases name <;> exact ⟨_, _, rfl⟩
    obtain ⟨first, hl, base⟩ := name.readsBase noDot
    exact .name hl base noBracket
  | @applied ls arguments a z _ t name opening balanced closing =>
    obtain ⟨l, ls, rfl⟩ : ∃ l more, ls = l :: more := by cases name <;> exact ⟨_, _, rfl⟩
    have taken : takeGroup 0 (a :: (arguments ++ z :: rest)) =
        some (a :: (arguments ++ [z]), rest) := by
      have ends : takeGroup 1 (z :: rest) = some ([z], rest) := by
        rw [takeGroup, closing]
        rfl
      rw [takeGroup, opening]
      simp [Token.isClosing, Token.isOpening, balanced.takeGroup Nat.one_pos, ends]
    have text : l :: ls ++ a :: (arguments ++ [z]) ++ rest =
        l :: (ls ++ a :: (arguments ++ z :: rest)) := by simp
    have noDot : front (a :: (arguments ++ z :: rest)) ≠ some .dot := by
      simp [front_cons, opening]
    obtain ⟨first, hl, base⟩ := name.readsBase noDot
    have last : (l :: ls ++ a :: (arguments ++ [z])).getLast? =
        (a :: (arguments ++ [z])).getLast? := by
      rw [List.getLast?_append, ← List.cons_append, List.getLast?_concat]
      rfl
    rw [text, last]
    exact .instance hl base opening taken

theorem WritesTag.reads (h : WritesTag tags tag) (last : Option Lexeme)
    (newline : n.token = .newline) (rest : List Lexeme) :
    ReadsTag ⟨last, tags ++ n :: rest⟩ tag ⟨tags.getLast?.or last, n :: rest⟩ := by
  cases h with
  | absent =>
    refine .absent ?_
    rw [List.nil_append, Place.peek?_cons, newline]
    rfl
  | present quoted => exact .present quoted

/-- Behind a type stands its tag or the end of the line. -/
theorem WritesTag.front (h : WritesTag tags tag) (newline : n.token = .newline)
    (rest : List Lexeme) :
    front (tags ++ n :: rest) ≠ some .dot ∧ front (tags ++ n :: rest) ≠ some .leftBracket ∧
      endsEmbedded (front (tags ++ n :: rest)) = true := by
  cases h with
  | absent =>
    rw [List.nil_append, front_cons, newline]
    exact ⟨nofun, nofun, rfl⟩
  | present quoted =>
    rw [List.cons_append, front_cons]
    rcases Token.tag?_eq_some quoted with found | found <;> rw [found] <;>
      exact ⟨nofun, nofun, rfl⟩

/-- The second token of a line shows that the field is embedded, if it is not a bracket. -/
theorem WritesBase.front (h : WritesBase ls word t) (other : t.isLocalInstance = false)
    (htag : WritesTag tags tag) (newline : n.token = .newline) :
    ∃ l more first, ls = l :: more ∧ l.token = .identifier first ∧
      endsEmbedded (Go.front (more ++ (tags ++ n :: rest))) = true := by
  have dotted {d : Lexeme} (hd : d.token = .dot) (ms : List Lexeme) :
      endsEmbedded (Go.front (d :: ms)) = true := by
    rw [front_cons, hd]
    rfl
  cases h with
  | bare name =>
    cases name with
    | plain hl => exact ⟨_, [], _, rfl, hl, (htag.front newline rest).2.2⟩
    | qualified hl hd => exact ⟨_, _, _, rfl, hl, dotted hd _⟩
  | applied name =>
    cases name with
    | plain => cases other
    | qualified hl hd => exact ⟨_, _, _, rfl, hl, dotted hd _⟩

/-- An embedded field is read wherever its line stands. -/
theorem WritesField.standsAlone (h : WritesField line field)
    (other : field.type.isLocalInstance = false) : StandsAlone line field := by
  intro previous doc n rest newline
  cases h with
  | @direct l ls tags word t tag _ base htag =>
    obtain ⟨noDot, noBracket, -⟩ := htag.front newline rest
    obtain ⟨l', ls', first, same, hl, ends⟩ := base.front other htag newline
    cases same
    have reads := base.reads previous noDot noBracket
    have tagged := htag.reads (l :: ls).getLast? newline rest
    rw [← List.getLast?_append] at tagged
    rw [show l :: (ls ++ tags) ++ n :: rest = l :: (ls ++ (tags ++ n :: rest)) by simp]
    exact .embedded (.inr ⟨first, hl, ends⟩) reads base.embeddedName? tagged
  | @pointer s ls tags word t tag _ star base htag =>
    obtain ⟨noDot, noBracket, -⟩ := htag.front newline rest
    have reads := base.reads (some s) noDot noBracket
    have tagged := htag.reads ls.getLast? newline rest
    obtain ⟨l, more, rfl⟩ : ∃ l more, ls = l :: more := by
      cases base with
      | bare name => cases name <;> exact ⟨_, _, rfl⟩
      | applied name => cases name <;> exact ⟨_, _, rfl⟩
    rw [← List.getLast?_append] at tagged
    have last : (s :: (l :: more ++ tags)).getLast? = (l :: more ++ tags).getLast? :=
      List.getLast?_cons_cons
    rw [List.cons_append, List.append_assoc, last]
    exact .embedded (.inl star) (.pointer star reads) base.embeddedName? tagged

/-! ### A struct with such a line -/

/-- The comments above a line are taken, and then its field. -/
theorem StandsAlone.above (h : StandsAlone line field) {lead : List Lexeme}
    (above : ∀ k ∈ lead, isAbove k.token = true) (newline : n.token = .newline)
    (previous : Option Lexeme) (rest : List Lexeme) :
    ∃ doc last, leadingComments ⟨previous, lead ++ (line ++ n :: rest)⟩ =
        .ok (doc, ⟨last, line ++ n :: rest⟩) ∧
      Reads ⟨last, line ++ n :: rest⟩ (.field { field with doc := doc })
        ⟨line.getLast?, n :: rest⟩ := by
  have starts := (h none [] n rest newline).startsField
  have stops : ∀ k ∈ (line ++ n :: rest).head?, isAbove k.token = false := by
    intro k hk
    have token : Place.peek? ⟨none, line ++ n :: rest⟩ = some k.token :=
      congrArg (Option.map fun l : Lexeme => l.token) (Option.mem_def.1 hk)
    rw [token] at starts
    rcases starts with found | ⟨word, found⟩ <;> rw [Option.some.inj found] <;> rfl
  obtain ⟨doc, last, hdoc⟩ := leadingComments_run previous above stops
  exact ⟨doc, last, hdoc, h last doc n rest newline⟩

/-- A line that is read as a field, in a struct: whatever the struct goes on with, the field is in
front of the others. -/
theorem StandsAlone.structFields (h : StandsAlone line field) {lead : List Lexeme}
    (above : ∀ k ∈ lead, isAbove k.token = true) (newline : n.token = .newline) {fuel : Nat}
    (enough : 2 * (line ++ n :: rest).length ≤ fuel) (previous : Option Lexeme) :
    ∃ doc, structFields (fuel + 1) ⟨previous, lead ++ (line ++ n :: rest)⟩ =
      (({ field with doc := doc } :: ·) <$> structFields fuel) ⟨line.getLast?, n :: rest⟩ := by
  obtain ⟨doc, last, hdoc, reads⟩ := h.above above newline previous rest
  refine ⟨doc, ?_⟩
  rw [Parser.structFields, bind_after hdoc, bind_after peek_run]
  rcases reads.startsField with found | ⟨word, found⟩ <;>
  · rw [found]
    exact (bind_after (reads.found fuel enough)).trans
      ((bind_after (trailingComment_newline newline _)).trans
        (bind_after (endOfItem_newline newline _)))

/-! ### A name with arguments -/

/-- No type starts with a newline or a tag. -/
theorem type_refused (h : l.token = .newline ∨ ∃ quoted, l.token.tag? = some quoted) (fuel : Nat)
    (last : Option Lexeme) :
    Parser.type fuel ⟨last, l :: rest⟩ =
      .error (.unexpected .type (String.ofList (Text.escaped l.text)) l.position) := by
  have token : l.token = .newline ∨ (∃ quoted, l.token = .string quoted) ∨
      ∃ quoted, l.token = .rawString quoted := by
    rcases h with newline | ⟨quoted, htag⟩
    · exact .inl newline
    · exact .inr ((Token.tag?_eq_some htag).imp (⟨_, ·⟩) (⟨_, ·⟩))
  cases fuel with
  | zero => rfl
  | succ fuel =>
    rw [Parser.type, bind_after rfl]
    rcases token with found | ⟨_, found⟩ | ⟨_, found⟩ <;>
    · simp only [found]
      rfl

theorem WritesTag.refused (h : WritesTag tags tag) (newline : n.token = .newline) (fuel : Nat)
    (last : Option Lexeme) :
    ∃ text position, Parser.type fuel ⟨last, tags ++ n :: rest⟩ =
      .error (.unexpected .type text position) := by
  cases h with
  | absent => exact ⟨_, _, type_refused (.inl newline) fuel last⟩
  | present htag => exact ⟨_, _, type_refused (.inr ⟨_, htag⟩) fuel last⟩

/-- What could be type arguments is read as the length of an array, or as a slice. -/
theorem refused_arguments {arguments : List Lexeme} {a z : Lexeme}
    (opening : a.token = .leftBracket) (balanced : IsBalanced arguments)
    (closing : z.token = .rightBracket)
    (htag : WritesTag tags tag) (newline : n.token = .newline) (fuel : Nat)
    (last : Option Lexeme) :
    ∃ text position,
      Parser.type (fuel + 1) ⟨last, a :: (arguments ++ z :: (tags ++ n :: rest))⟩ =
        .error (.unexpected .type text position) := by
  obtain ⟨text, position, refused⟩ := htag.refused newline fuel (some z)
  refine ⟨text, position, (bind_after rfl).trans ?_⟩
  simp only [opening]
  refine (bind_after rfl).trans ?_
  by_cases bare : arguments = []
  · subst bare
    exact (bind_after (accept_run closing)).trans (map_refused refused)
  · have taken : takeLength 0 (arguments ++ z :: (tags ++ n :: rest)) =
        some (arguments, z :: (tags ++ n :: rest)) := by
      have ends : takeLength 0 (z :: (tags ++ n :: rest)) =
          some ([], z :: (tags ++ n :: rest)) := by
        rw [takeLength, if_pos ⟨closing, rfl⟩]
      rw [balanced.takeLength, ends]
      simp
    obtain ⟨behind, size⟩ := @arrayLength_run (some a) _ _ _ taken
    refine (bind_after (accept_other (takeLength_head taken bare))).trans ?_
    exact (bind_after size).trans ((bind_after rfl).trans (map_refused refused))

theorem WritesField.localInstance (h : WritesField line field)
    (generic : field.type.isLocalInstance = true) :
    ∃ l a z arguments tags, ∃ (word : String) (tag : Option String),
      line = l :: a :: (arguments ++ z :: tags) ∧ l.token = .identifier word ∧
      a.token = .leftBracket ∧ IsBalanced arguments ∧ z.token = .rightBracket ∧
      WritesTag tags tag := by
  cases h with
  | pointer => cases generic
  | @direct l ls tags word t tag _ base htag =>
    generalize hlexemes : l :: ls = lexemes at base
    cases base with
    | bare name => cases name <;> cases generic
    | @applied _ arguments a z _ _ name opening balanced closing =>
      cases name with
      | qualified => cases generic
      | plain hl =>
        cases hlexemes
        exact ⟨l, a, z, arguments, tags, word, tag, by simp, hl, opening, balanced, closing, htag⟩

theorem field_refused {type : Parser TypeExpr} {previous : Option Lexeme} {ls : List Lexeme}
    {e : SyntaxError} (hl : l.token = .identifier word)
    (other : endsEmbedded (Place.mk previous (l :: ls)).peekSecond? = false)
    (refused : namedField type ⟨previous, l :: ls⟩ = .error e) (doc : List Comment) :
    Parser.field type doc ⟨previous, l :: ls⟩ = .error e := by
  rw [Parser.field, bind_after rfl]
  simp only [hl]
  refine (bind_after rfl).trans ?_
  rw [other]
  exact (bind_after rfl).trans (bind_refused refused)

/-- A line of a name with type arguments ends the reading: an element type is missing. -/
theorem WritesField.refused (h : WritesField line field)
    (generic : field.type.isLocalInstance = true) {lead : List Lexeme}
    (above : ∀ k ∈ lead, isAbove k.token = true) (newline : n.token = .newline) (fuel : Nat)
    (previous : Option Lexeme) :
    ∃ text position, structFields (fuel + 2) ⟨previous, lead ++ (line ++ n :: rest)⟩ =
      .error (.unexpected .type text position) := by
  obtain ⟨l, a, z, arguments, tags, word, tag, rfl, hl, opening, balanced, closing, htag⟩ :=
    h.localInstance generic
  have whole : l :: a :: (arguments ++ z :: tags) ++ n :: rest =
      l :: a :: (arguments ++ z :: (tags ++ n :: rest)) := by simp
  obtain ⟨doc, last, hdoc⟩ := leadingComments_before previous above (by rw [hl]; rfl)
    (a :: (arguments ++ z :: (tags ++ n :: rest)))
  obtain ⟨text, position, refused⟩ :=
    refused_arguments opening balanced closing htag newline fuel (some l)
  have noComma : Place.peek? ⟨some l, a :: (arguments ++ z :: (tags ++ n :: rest))⟩ ≠
      some .comma := by
    rw [Place.peek?_cons, opening]
    exact nofun
  have names := (ReadsNames.done noComma).run (Nat.le_refl _)
  have looksNamed : endsEmbedded
      (Place.mk last (l :: a :: (arguments ++ z :: (tags ++ n :: rest)))).peekSecond? = false := by
    rw [show Place.peekSecond? _ = some a.token from rfl, opening]
    rfl
  have named := field_refused hl looksNamed ((bind_after (identifier_run hl)).trans
    ((bind_after rfl).trans ((bind_after names).trans (bind_refused refused)))) doc
  refine ⟨text, position, ?_⟩
  rw [whole, Parser.structFields, bind_after hdoc, bind_after peek_run, Place.peek?_cons, hl]
  exact bind_refused named

/-! ### A source with such a struct -/

/-- Lines of a struct and their fields, each below any comments and in front of its newline. -/
inductive WritesLines : List Lexeme → List Field → Prop where
  | done {lead : List Lexeme} : (∀ k ∈ lead, isAbove k.token = true) → WritesLines lead []
  | line {lead line rest : List Lexeme} {n : Lexeme} {field : Field} {fields : List Field} :
      (∀ k ∈ lead, isAbove k.token = true) → StandsAlone line field → n.token = .newline →
      WritesLines (n :: rest) fields →
      WritesLines (lead ++ (line ++ n :: rest)) (field :: fields)

/-- A package clause and a type declaration up to the opening brace of its struct. -/
inductive OpensStruct (package name : String) : List Lexeme → Prop where
  | intro {above lead : List Lexeme} {a b c d e f : Lexeme} :
      (∀ k ∈ above, isAbove k.token = true) → (∀ k ∈ lead, isAbove k.token = true) →
      a.token = .package → b.token = .identifier package → c.token = .type →
      d.token = .identifier name → e.token = .struct → f.token = .leftBrace →
      OpensStruct package name (above ++ a :: b :: (lead ++ [c, d, e, f]))

/-- A field without the comments above it. -/
def Field.undocumented (field : Field) : Field := { field with doc := [] }

variable {before after lexemes : List Lexeme} {fields others : List Field} {close : Lexeme}

theorem WritesLines.append (h : WritesLines before fields) (h' : WritesLines after others) :
    WritesLines (before ++ after) (fields ++ others) := by
  induction h with
  | done above =>
    cases h' with
    | done more => exact .done (List.forall_mem_append.2 ⟨above, more⟩)
    | line more alone newline rest =>
      rw [← List.append_assoc]
      exact .line (List.forall_mem_append.2 ⟨above, more⟩) alone newline rest
  | line above alone newline _ ih =>
    rw [List.append_assoc, List.append_assoc, List.cons_append]
    exact .line above alone newline ih

/-- The fields of the lines are read up to the closing brace. -/
theorem WritesLines.reads (h : WritesLines lexemes fields) (closing : close.token = .rightBrace)
    (previous : Option Lexeme) (rest : List Lexeme) :
    ∃ found, Reads ⟨previous, lexemes ++ close :: rest⟩ (.fields found) ⟨some close, rest⟩ ∧
      found.map Field.undocumented = fields.map Field.undocumented := by
  induction h generalizing previous with
  | done above =>
    obtain ⟨doc, last, hdoc⟩ := leadingComments_before previous above (by rw [closing]; rfl) rest
    exact ⟨[], .closed hdoc closing, rfl⟩
  | @line lead line more n field fields above alone newline _ ih =>
    obtain ⟨found, reads, same⟩ := ih line.getLast?
    have joined : lead ++ (line ++ n :: more) ++ close :: rest =
        lead ++ (line ++ n :: (more ++ close :: rest)) := by simp
    obtain ⟨doc, last, hdoc, first⟩ := alone.above above newline previous (more ++ close :: rest)
    refine ⟨{ field with doc := doc } :: found, ?_, congrArg (field.undocumented :: ·) same⟩
    rw [joined]
    exact .more hdoc first (trailingComment_newline newline _) (endOfItem_newline newline _) reads

/-- The source has a package clause, then a struct with these lexemes between its braces, and then
other items. -/
def HasStruct (source : List Char) (package name : String) (body : List Lexeme)
    (items : List Item) : Prop :=
  ∃ start close n behind, lex source = .ok (start ++ (body ++ close :: n :: behind)) ∧
    OpensStruct package name start ∧ close.token = .rightBrace ∧ n.token = .newline ∧
    ReadsItems ⟨some close, n :: behind⟩ items

theorem Item.exists_lastPackage (package : String) (is : List Item) :
    ∃ last, Item.lastPackage (some package) is = some last := by
  induction is generalizing package with
  | nil => exact ⟨package, rfl⟩
  | cons item is ih =>
    rw [lastPackage]
    cases item.package? with
    | none => exact ih package
    | some other => exact ih other

/-- A struct of such lines is read with the fields of the lines. -/
theorem WritesLines.parse {source : List Char} {package name : String} {items : List Item}
    (lines : WritesLines lexemes fields) (h : HasStruct source package name lexemes items) :
    ∃ file decl found, SourceFile.parse source = .ok file ∧
      file.decls = decl :: items.flatMap Item.decls ∧ decl.name = name ∧
      decl.type = .struct found ∧
      found.map Field.undocumented = fields.map Field.undocumented := by
  obtain ⟨start, close, n, behind, hlex, opens, closing, newline, rest⟩ := h
  cases opens with
  | @intro above lead a b c d e f first second ha hb hc hd he hf =>
    obtain ⟨found, reads, same⟩ := lines.reads closing (some f) (n :: behind)
    obtain ⟨doc, last, hdoc⟩ := leadingComments_before none first (by rw [ha]; rfl)
      (b :: (lead ++ c :: d :: e :: f :: (lexemes ++ close :: n :: behind)))
    obtain ⟨doc', last', hdoc'⟩ := leadingComments_before (some b) second (by rw [hc]; rfl)
      (d :: e :: f :: (lexemes ++ close :: n :: behind))
    have declared : ReadsDecls doc' ⟨some c, d :: e :: f :: (lexemes ++ close :: n :: behind)⟩
        [⟨name, none, false, .struct found, doc', d.position⟩] ⟨some close, n :: behind⟩ :=
      .struct hd he (.struct he hf reads) newline
    have read : ReadsItems ⟨none, above ++ a :: b :: (lead ++ c :: d :: e :: f ::
        (lexemes ++ close :: n :: behind))⟩ (.package package :: .types _ :: items) :=
      .next (.package hdoc ha hb) (.next (.types hdoc' hc declared.run) rest)
    have whole : above ++ a :: b :: (lead ++ [c, d, e, f]) ++ (lexemes ++ close :: n :: behind) =
        above ++ a :: b :: (lead ++ c :: d :: e :: f :: (lexemes ++ close :: n :: behind)) := by
      simp
    rw [whole] at hlex
    obtain ⟨last, hlast⟩ := Item.exists_lastPackage package items
    exact ⟨⟨last, _⟩, _, found, parse_iff.2 ⟨_, _, hlex, read, hlast, rfl⟩, rfl, rfl, rfl, same⟩

/-- An embedded field that stands on a line of its own is read from that line in every struct, and a
source whose struct has the line among others is read with the field among theirs.  The lines of a
name with type arguments, without a package and a star, are the exception: they are refused. -/
theorem embedded_field_read (h : WritesField line field) :
    (field.type.isLocalInstance = false →
      (∀ previous lead (n : Lexeme) rest fuel, (∀ k ∈ lead, isAbove k.token = true) →
        n.token = .newline → 2 * (line ++ n :: rest).length ≤ fuel →
        ∃ doc, structFields (fuel + 1) ⟨previous, lead ++ (line ++ n :: rest)⟩ =
          (({ field with doc := doc } :: ·) <$> structFields fuel) ⟨line.getLast?, n :: rest⟩) ∧
      ∀ source package name before (n : Lexeme) after fields others items,
        WritesLines before fields → n.token = .newline → WritesLines (n :: after) others →
        HasStruct source package name (before ++ (line ++ n :: after)) items →
        ∃ file decl found, SourceFile.parse source = .ok file ∧
          file.decls = decl :: items.flatMap Item.decls ∧ decl.name = name ∧
          decl.type = .struct found ∧ found.map Field.undocumented =
            (fields ++ field :: others).map Field.undocumented) ∧
    (field.type.isLocalInstance = true →
      ∀ previous lead (n : Lexeme) rest fuel, (∀ k ∈ lead, isAbove k.token = true) →
        n.token = .newline →
        ∃ text position, structFields (fuel + 2) ⟨previous, lead ++ (line ++ n :: rest)⟩ =
          .error (.unexpected .type text position)) := by
  refine ⟨fun plain => ⟨?_, ?_⟩, fun generic => ?_⟩
  · intro previous lead n rest fuel above newline enough
    exact (h.standsAlone plain).structFields above newline enough previous
  · intro source package name before n after fields others items lines newline more struct
    have here : WritesLines ([] ++ (line ++ n :: after)) (field :: others) :=
      .line nofun (h.standsAlone plain) newline more
    exact (lines.append here).parse struct
  · intro previous lead n rest fuel above newline
    exact h.refused generic above newline fuel previous

end

/-- A source of a package `p` with one struct `T`, by its tokens. -/
theorem hasStruct_of_tokens (tokens : List Token) {source : String} {chars : List Char}
    (spelled : source = String.ofList chars)
    (h : ((lex chars).toOption.any fun lexemes => lexemes.map (·.token) ==
      [.package, .identifier "p", .newline, .type, .identifier "T", .struct, .leftBrace] ++
        (tokens ++ [.rightBrace, .newline])) = true) :
    ∃ body, body.map (·.token) = tokens ∧ HasStruct source.toList "p" "T" body [] := by
  subst spelled
  rw [String.toList_ofList]
  cases hlex : lex chars with
  | error e =>
    rw [hlex] at h
    cases h
  | ok lexemes =>
    rw [hlex] at h
    obtain ⟨start, more, rfl, hstart, hmore⟩ := List.map_eq_append_iff.1 (beq_iff_eq.1 h)
    obtain ⟨body, ending, rfl, hbody, hending⟩ := List.map_eq_append_iff.1 hmore
    simp only [List.map_eq_cons_iff, List.map_eq_nil_iff] at hstart hending
    obtain ⟨a, _, rfl, ha, b, _, rfl, hb, k, _, rfl, hk, c, _, rfl, hc, d, _, rfl, hd, e, _, rfl,
      he, f, _, rfl, hf, rfl⟩ := hstart
    obtain ⟨close, _, rfl, closing, n, _, rfl, newline, rfl⟩ := hending
    obtain ⟨doc, last, hdoc⟩ := leadingComments_end (some close) (isAbove_newline newline)
    have opens := OpensStruct.intro (List.forall_mem_nil _) (isAbove_newline hk) ha hb hc hd he hf
    exact ⟨body, hbody, _, close, n, [], hlex, opens, closing, newline, .done hdoc⟩

/-- A source with an embedded pointer to an instance of a type of a package. -/
def starred : String := "package p\ntype T struct \x7b\n\t*q.Box[int] \"a\"\n\x7d\n"

theorem embedded_field_read_starred :
    ∃ file decl found, SourceFile.parse starred.toList = .ok file ∧ file.decls = [decl] ∧
      decl.type = .struct [found] ∧ found.names = ["Box"] ∧ found.embedded = true ∧
      (∃ arguments, found.type = .pointer (.instantiated (.qualified "q" "Box") arguments)) ∧
      found.tag = some "\"a\"" := by
  obtain ⟨body, hbody, struct⟩ := hasStruct_of_tokens
    [.newline, .star, .identifier "q", .dot, .identifier "Box", .leftBracket, .identifier "int",
      .rightBracket, .string "\"a\"", .newline] (rfl : starred = _) (by decide +kernel)
  simp only [List.map_eq_cons_iff, List.map_eq_nil_iff] at hbody
  obtain ⟨m, _, rfl, hm, s, _, rfl, hs, l, _, rfl, hl, d, _, rfl, hd, b, _, rfl, hb, o, _, rfl, ho,
    i, _, rfl, hi, c, _, rfl, hc, t, _, rfl, ht, n, _, rfl, hn, rfl⟩ := hbody
  have name : WritesName [l, d, b] "Box" (.qualified "q" "Box") := .qualified hl hd hb
  have balanced : IsBalanced [i] := .plain (by rw [hi]; rfl) (by rw [hi]; rfl) .nil
  have tag : WritesTag [t] (some "\"a\"") := .present (by rw [ht]; rfl)
  have written : WritesField [s, l, d, b, o, i, c, t] ⟨["Box"], true,
      .pointer (.instantiated (.qualified "q" "Box") (String.ofList (spanText [o, i, c]))),
      some "\"a\"", [], s.position⟩ := .pointer hs (.applied name ho balanced hc) tag
  obtain ⟨file, decl, found, parsed, decls, -, htype, same⟩ :=
    ((embedded_field_read written).1 rfl).2 starred.toList "p" "T" [m] n [] [] [] []
      (.done (isAbove_newline hm)) hn (.done (isAbove_newline hn)) struct
  obtain ⟨f, rfl, same⟩ := List.map_eq_singleton_iff.1 same
  obtain ⟨names, embedded, type, tag, doc, position⟩ := f
  cases same
  exact ⟨file, decl, _, parsed, decls, htype, rfl, rfl, ⟨_, rfl⟩, rfl⟩

/-- A source with an embedded instance of a type of its own package. -/
def boxed : String := "package p\ntype T struct \x7b\n\tBox[int]\n\x7d\n"

/-- An embedded instance of a type of the same package is none of the fields that are read. -/
theorem embedded_field_read_boxed :
    ∃ lead line n field, WritesField line field ∧ field.names = ["Box"] ∧
      (∀ k ∈ lead, isAbove k.token = true) ∧ n.token = .newline ∧
      HasStruct boxed.toList "p" "T" (lead ++ (line ++ [n])) [] ∧
      ∀ file, SourceFile.parse boxed.toList ≠ .ok file := by
  obtain ⟨body, hbody, struct⟩ := hasStruct_of_tokens
    [.newline, .identifier "Box", .leftBracket, .identifier "int", .rightBracket, .newline]
    (rfl : boxed = _) (by decide +kernel)
  simp only [List.map_eq_cons_iff, List.map_eq_nil_iff] at hbody
  obtain ⟨m, _, rfl, hm, l, _, rfl, hl, o, _, rfl, ho, i, _, rfl, hi, c, _, rfl, hc, n, _, rfl, hn,
    rfl⟩ := hbody
  have name : WritesName [l] "Box" (.named "Box") := .plain hl
  have balanced : IsBalanced [i] := .plain (by rw [hi]; rfl) (by rw [hi]; rfl) .nil
  have written : WritesField [l, o, i, c] ⟨["Box"], true,
      .instantiated (.named "Box") (String.ofList (spanText [o, i, c])), none, [], l.position⟩ :=
    .direct (.applied name ho balanced hc) .absent
  refine ⟨[m], [l, o, i, c], n, _, written, rfl, isAbove_newline hm, hn, struct, ?_⟩
  intro file parsed
  have refused : (SourceFile.parse boxed.toList).toOption.isNone = true := by decide +kernel
  rw [parsed] at refused
  cases refused

end Go
end FieldRules
