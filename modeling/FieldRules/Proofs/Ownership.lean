/-
Which comments the declarations of a source own.

Comments are collected at the start of the source, behind an opening bracket, and
behind a field or declaration with at most one comment of its own.  At all these
places the group is rightly owned by what follows, as far as its comments stand
plainly (`parse_docs`).  A second comment behind a field does not, and goes to the
next field (`parse_docs_secondComment`).
-/
import FieldRules.Proofs.Comments
import FieldRules.Proofs.Parsing

namespace FieldRules
namespace Go

open Text

/-! ### Fields -/

/-- The place is within the lexemes, behind an item. -/
def Enters (lexemes : List Lexeme) (place : Place) : Prop :=
  ∃ passed, lexemes = passed ++ place.rest ∧ place.previous = passed.getLast? ∧
    (EndsItem passed ∨ place.rest = [])

/-- The field stands among the lexemes and has a doc that it owns there. -/
def OwnsDocIn (lexemes : List Lexeme) (field : Field) : Prop :=
  ∃ before l ahead, lexemes = before ++ l :: ahead ∧ l.position = field.position ∧
    OwnsDoc before field.doc

def Tree.OwnsDocsIn (lexemes : List Lexeme) : Tree → Prop
  | .type t => ∀ field : Field, field.IsIn t → OwnsDocIn lexemes field
  | .field f => ∀ field : Field, field.IsIn f.type → OwnsDocIn lexemes field
  | .fields fs => ∀ f ∈ fs, OwnsDocIn lexemes f ∧ ∀ field : Field, field.IsIn f.type →
      OwnsDocIn lexemes field

theorem CommentGroup.holds_collect (passed ls : List Lexeme) {found : CommentGroup × Place}
    (h : collect ⟨[], 0, sharedBy passed⟩ passed.getLast? ls = found) :
    ∃ taken, ls = taken ++ found.2.rest ∧ found.2.previous = (passed ++ taken).getLast? ∧
      (∀ l ∈ taken, isAbove l.token = true) ∧
      found.1.Holds passed (sharedBy passed) taken := by
  have start : (CommentGroup.mk [] 0 (sharedBy passed)).Holds passed (sharedBy passed) [] :=
    ⟨rfl, rfl, rfl⟩
  obtain ⟨taken, split, last, above, holds⟩ := start.collect (fun _ hl => nomatch hl) ls
  rw [List.append_nil, h] at split last holds
  exact ⟨taken, split, last, above, holds⟩

/-- Comments are collected behind an item: they are owned by what follows. -/
theorem Enters.leadingComments {lexemes : List Lexeme} {place mid : Place} {doc : List Comment}
    (laid : Laid lexemes) (enters : Enters lexemes place)
    (h : Parser.leadingComments place = .ok (doc, mid)) :
    ∃ before, lexemes = before ++ mid.rest ∧ mid.previous = before.getLast? ∧
      (mid.rest ≠ [] → OwnsDoc before doc) := by
  obtain ⟨passed, split, last, ends⟩ := enters
  obtain ⟨previous, rest⟩ := place
  obtain rfl : previous = passed.getLast? := last
  cases h
  obtain ⟨taken, behind, last, above, holds⟩ := CommentGroup.holds_collect passed rest rfl
  have whole := split.trans (congrArg (passed ++ ·) behind)
  rw [← List.append_assoc] at whole
  refine ⟨passed ++ taken, whole, last, fun more => ?_⟩
  rcases ends with ends | nothing
  · have owned := ends.ownsDoc (whole ▸ laid) above
    rw [← holds.comments] at owned
    exact owned
  · obtain rfl : rest = [] := nothing
    exact absurd rfl more

section

variable {lexemes ls : List Lexeme} {place next behind last : Place}

theorem Enters.of_takes (within : ls <:+ lexemes) (h : Takes ls next) : Enters lexemes next := by
  obtain ⟨above, rfl⟩ := within
  obtain ⟨taken, l, rfl, previous, plain⟩ := h
  refine ⟨above ++ (taken ++ [l]), by simp, ?_, .inl ?_⟩
  · rw [previous, ← List.append_assoc, List.getLast?_concat]
  · rw [← List.append_assoc]
    exact endsItem_last plain

/-- Behind an item and the comment that belongs to it. -/
theorem Enters.of_trailing (within : ls <:+ lexemes) (h : Takes ls behind)
    (trailing : Parser.trailingComment behind = .ok ((), last)) : Enters lexemes last := by
  unfold Parser.trailingComment at trailing
  split at trailing
  · next line c cs _ rest =>
    split at trailing
    · next comment =>
      cases trailing
      obtain ⟨above, rfl⟩ := within
      obtain ⟨taken, l, rfl, -, plain⟩ := h
      rw [rest]
      exact ⟨above ++ taken ++ [l, c], by simp, by simp,
        .inl (.inr ⟨_, l, [c], rfl, plain, fun _ hc => nomatch hc⟩)⟩
    · cases trailing
      exact .of_takes within h
  · cases trailing
    exact .of_takes within h

theorem Takes.within (h : Takes ls next) (within : ls <:+ lexemes) : next.rest <:+ lexemes := by
  obtain ⟨taken, l, rfl, -, -⟩ := h
  exact List.IsSuffix.trans ⟨taken ++ [l], by simp⟩ within

/-- The place is where the tree can stand. -/
def Tree.StandsIn (lexemes : List Lexeme) (place : Place) : Tree → Prop
  | .fields _ => Enters lexemes place
  | _ => place.rest <:+ lexemes

theorem Field.IsIn.within {field : Field} {outer inner : TypeExpr} (h : field.IsIn outer)
    (parts : ∀ fields, .struct fields ∈ outer.parts → .struct fields ∈ inner.parts) :
    field.IsIn inner := by
  obtain ⟨fields, hfields, hfield⟩ := h
  exact ⟨fields, parts fields hfields, hfield⟩

theorem suffix_of_cons {l : Lexeme} (within : l :: ls <:+ lexemes) : ls <:+ lexemes :=
  (List.suffix_cons l ls).trans within

theorem not_isIn {field : Field} {t : TypeExpr} (h : ∀ fields, .struct fields ∉ t.parts) :
    ¬ field.IsIn t := by
  rintro ⟨fields, hfields, -⟩
  exact h fields hfields

theorem ReadsBase.parts {word : String} {base : TypeExpr} (h : ReadsBase word place base next) :
    ∀ fields, .struct fields ∉ base.parts := by
  cases h <;> simp [TypeExpr.parts]

/-- The fields of what is read own their docs. -/
theorem Reads.ownsDocs {tree : Tree} (laid : Laid lexemes) (h : Reads place tree next)
    (stands : tree.StandsIn lexemes place) : tree.OwnsDocsIn lexemes := by
  induction h with
  | name _ base _ => exact fun field inside => (not_isIn base.parts inside).elim
  | «instance» _ base _ _ =>
    refine fun field inside => (not_isIn (fun fields h => ?_) inside).elim
    simp only [TypeExpr.parts, List.mem_cons, reduceCtorEq, false_or] at h
    exact base.parts fields h
  | pointer _ _ ih =>
    intro field inside
    exact ih (suffix_of_cons stands) field (inside.within (by simp [TypeExpr.parts]))
  | slice _ _ _ ih =>
    intro field inside
    exact ih (suffix_of_cons (suffix_of_cons stands)) field
      (inside.within (by simp [TypeExpr.parts]))
  | @array _ l m size ls _ _ _ _ _ _ ih =>
    intro field inside
    have within : ls <:+ lexemes := List.IsSuffix.trans ⟨l :: (size ++ [m]), by simp⟩ stands
    exact ih within field (inside.within (by simp [TypeExpr.parts]))
  | map _ _ hkey _ _ key value =>
    rintro field ⟨fields, hfields, hfield⟩
    have start := suffix_of_cons (suffix_of_cons stands)
    simp only [TypeExpr.parts, List.mem_cons, reduceCtorEq, List.mem_append, false_or] at hfields
    rcases hfields with hfields | hfields
    · exact key start field ⟨fields, hfields, hfield⟩
    · exact value (suffix_of_cons (hkey.takes.within start)) field ⟨fields, hfields, hfield⟩
  | chan _ _ _ ih =>
    intro field inside
    exact ih (suffix_of_cons stands) field (inside.within (by simp [TypeExpr.parts]))
  | send _ _ _ ih | receive _ _ _ ih =>
    intro field inside
    exact ih (suffix_of_cons (suffix_of_cons stands)) field
      (inside.within (by simp [TypeExpr.parts]))
  | func | funcMany | funcOne | interface =>
    exact fun field inside => (not_isIn (by simp [TypeExpr.parts]) inside).elim
  | struct _ hm _ ih =>
    have enters := Enters.of_takes stands (.cons (.one (by rw [hm]; rfl)))
    have owned := ih enters
    rintro field ⟨fields, hfields, hfield⟩
    rw [TypeExpr.parts] at hfields
    rcases List.mem_cons.1 hfields with same | hfields
    · cases same
      exact (owned field hfield).1
    · obtain ⟨outer, houter, inside⟩ := TypeExpr.mem_partsOf.1 hfields
      exact (owned outer houter).2 field ⟨fields, inside, hfield⟩
  | paren _ _ _ ih => exact ih (suffix_of_cons stands)
  | embedded _ _ _ _ ih => exact ih stands
  | named htoken _ names _ _ ih =>
    exact ih ((names.takes (.one (isTrivia_of_name htoken))).within stands)
  | closed => exact fun f hf => nomatch hf
  | @more _ mid _ _ _ _ _ hdoc hfirst htrail _ _ first fields =>
    obtain ⟨before, split, -, owned⟩ := Enters.leadingComments laid stands hdoc
    obtain ⟨l, ls, rest, position⟩ := hfirst.field_position
    have within : mid.rest <:+ lexemes := ⟨before, split.symm⟩
    have enters := Enters.of_trailing within hfirst.takes htrail
    refine List.forall_mem_cons.2 ⟨⟨?_, first within⟩, fields enters⟩
    rw [rest] at split owned
    exact ⟨before, l, ls, split, position, owned (List.cons_ne_nil _ _)⟩

/-! ### Declarations that are passed over -/

theorem plain_of_not_isAbove {token : Token} (h : isAbove token = false) :
    token.isTrivia = false ∧ token ≠ .newline ∧ token ≠ .semicolon := by
  rw [isAbove, Bool.or_eq_false_iff] at h
  refine ⟨h.1, ?_, beq_eq_false_iff_ne.1 h.2⟩
  rintro rfl
  cases h.1

/-- Where a newline would end a declaration, only comments stand behind its last token. -/
def EndsSoon (depth : Nat) (passed : List Lexeme) : Prop :=
  depth = 0 → ∃ above l comments, passed = above ++ l :: comments ∧ l.token.isTrivia = false ∧
    ∀ c ∈ comments, c.token.isComment = true

theorem EndsSoon.of_last {depth : Nat} {above : List Lexeme} {l : Lexeme}
    (plain : l.token.isTrivia = false) : EndsSoon depth (above ++ [l]) :=
  fun _ => ⟨above, l, [], rfl, plain, fun _ hc => nomatch hc⟩

theorem EndsSoon.concat {depth : Nat} {passed : List Lexeme} (h : EndsSoon depth passed)
    {l : Lexeme} (other : ¬ ((l.token = .newline ∨ l.token = .semicolon) ∧ depth = 0)) :
    EndsSoon depth (passed ++ [l]) := by
  intro outside
  cases comment : l.token.isComment with
  | true =>
    obtain ⟨above, m, comments, rfl, plain, areComments⟩ := h outside
    refine ⟨above, m, comments ++ [l], by simp, plain, fun c hc => ?_⟩
    rcases List.mem_append.1 hc with hc | hc
    · exact areComments c hc
    · exact List.mem_singleton.1 hc ▸ comment
  | false =>
    have plain : l.token.isTrivia = false := by
      rw [Token.isTrivia, comment, Bool.or_false]
      exact beq_eq_false_iff_ne.2 fun newline => other ⟨.inl newline, outside⟩
    exact EndsSoon.of_last plain outside

/-- Passing over a declaration comes to the end of an item, or of the source. -/
theorem EndsSoon.passDeclaration {depth : Nat} {passed : List Lexeme} (h : EndsSoon depth passed)
    (ls : List Lexeme) {found : Place} (run : Go.passDeclaration depth passed.getLast? ls = found) :
    ∃ taken, ls = taken ++ found.rest ∧ found.previous = (passed ++ taken).getLast? ∧
      (EndsItem (passed ++ taken) ∨ found.rest = []) := by
  induction ls generalizing depth passed with
  | nil =>
    cases run
    exact ⟨[], rfl, congrArg List.getLast? (List.append_nil passed).symm, .inr rfl⟩
  | cons l ls ih =>
    unfold Go.passDeclaration at run
    split at run
    · next ends =>
      cases run
      refine ⟨[l], rfl, List.getLast?_concat.symm, .inl ?_⟩
      obtain ⟨above, m, comments, rfl, plain, areComments⟩ := h ends.2
      refine .inr ⟨above, m, comments ++ [l], by simp, plain, ?_⟩
      rw [List.dropLast_concat]
      exact areComments
    · next other =>
      have soon : EndsSoon (if l.token.isOpening then depth + 1
          else if l.token.isClosing then depth - 1 else depth) (passed ++ [l]) := by
        split
        · exact fun outside => absurd outside (Nat.succ_ne_zero _)
        · split
          · next closing => exact .of_last (isTrivia_of_isClosing closing)
          · exact h.concat other
      have last : some l = (passed ++ [l]).getLast? := List.getLast?_concat.symm
      rw [last] at run
      obtain ⟨taken, rfl, previous, ends⟩ := ih soon run
      rw [List.append_assoc] at previous ends
      exact ⟨l :: taken, rfl, previous, ends⟩

/-! ### Declarations -/

/-- The declaration stands among the lexemes, behind its keyword or in a group, and has a doc that
it owns there; so do all fields within it. -/
def TypeDecl.OwnsDocsIn (lexemes : List Lexeme) (decl : TypeDecl) : Prop :=
  (∃ before keyword l ahead, lexemes = before ++ keyword ++ l :: ahead ∧
    (keyword = [] ∨ ∃ t, keyword = [t] ∧ t.token = .type) ∧ l.token = .identifier decl.name ∧
    l.position = decl.position ∧ OwnsDoc before decl.doc) ∧
  ∀ field : Field, field.IsIn decl.type → OwnsDocIn lexemes field

open Go.Parser

/-- A declaration with the doc that is found before it and its keyword. -/
theorem ReadsDecl.owns (laid : Laid lexemes) {before keyword : List Lexeme} {doc : List Comment}
    (split : lexemes = before ++ keyword ++ place.rest)
    (isKeyword : keyword = [] ∨ ∃ t, keyword = [t] ∧ t.token = .type)
    (owned : OwnsDoc before doc) {decl : TypeDecl} (h : ReadsDecl doc place decl next) :
    decl.OwnsDocsIn lexemes ∧ Enters lexemes next := by
  cases h with
  | @mk _ l ls _ _ _ _ named start _ _ htoken parameters assign reads trail _ =>
    obtain ⟨taken, rest⟩ := parameters.within
    have passes : Passes ⟨some l, ls⟩ start [] [] :=
      (Passes.of_rest taken rest).after (accept_passes assign)
    have within : ls <:+ lexemes := ⟨before ++ keyword ++ [l], by rw [split]; simp⟩
    have inside : start.rest <:+ lexemes := passes.within within
    refine ⟨⟨⟨before, keyword, l, ls, split, isKeyword, htoken, rfl, owned⟩,
      reads.ownsDocs laid inside⟩, ?_⟩
    exact .of_trailing inside reads.takes trail

theorem ReadsGroup.owns (laid : Laid lexemes) {decls : List TypeDecl}
    (h : ReadsGroup place decls next) (enters : Enters lexemes place) :
    (∀ decl ∈ decls, decl.OwnsDocsIn lexemes) ∧ Enters lexemes next := by
  induction h with
  | closed hdoc closing =>
    obtain ⟨before, split, -, -⟩ := enters.leadingComments laid hdoc
    exact ⟨fun _ hdecl => (List.not_mem_nil hdecl).elim,
      .of_takes ⟨before, split.symm⟩ (.one (by rw [closing]; rfl))⟩
  | @more _ mid _ _ _ _ _ hdoc hdecl _ ih =>
    obtain ⟨before, split, -, owned⟩ := enters.leadingComments laid hdoc
    obtain ⟨l, ls, rest, -⟩ := hdecl.front
    rw [rest] at owned
    have alone : lexemes = before ++ [] ++ mid.rest := by rw [List.append_nil, split]
    obtain ⟨first, behind⟩ := hdecl.owns laid alone (.inl rfl) (owned (List.cons_ne_nil _ _))
    obtain ⟨others, ends⟩ := ih behind
    exact ⟨List.forall_mem_cons.2 ⟨first, others⟩, ends⟩

theorem ReadsDecls.owns (laid : Laid lexemes) {before : List Lexeme} {l : Lexeme}
    {doc : List Comment} (split : lexemes = before ++ l :: place.rest) (keyword : l.token = .type)
    (owned : OwnsDoc before doc) {decls : List TypeDecl} (h : ReadsDecls doc place decls next) :
    (∀ decl ∈ decls, decl.OwnsDocsIn lexemes) ∧ Enters lexemes next := by
  cases h with
  | @group _ m ms _ _ opens hgroup =>
    have within : m :: ms <:+ lexemes := ⟨before ++ [l], by rw [split]; simp⟩
    exact hgroup.owns laid (.of_takes within (.one (by rw [opens]; rfl)))
  | single hdecl =>
    have behindKeyword : lexemes = before ++ [l] ++ place.rest := by rw [split]; simp
    obtain ⟨owns, ends⟩ := hdecl.owns laid behindKeyword (.inr ⟨l, rfl, keyword⟩) owned
    exact ⟨fun _ hdecl => List.mem_singleton.1 hdecl ▸ owns, ends⟩

theorem passDeclaration_enters {before : List Lexeme} {previous : Option Lexeme} {l : Lexeme}
    (split : lexemes = before ++ l :: ls) (front : isAbove l.token = false) :
    Enters lexemes (Go.passDeclaration 0 previous (l :: ls)) := by
  obtain ⟨plain, noNewline, noSemicolon⟩ := plain_of_not_isAbove front
  rw [Go.passDeclaration, if_neg fun ends => ends.1.elim noNewline noSemicolon]
  have last : some l = (before ++ [l]).getLast? := List.getLast?_concat.symm
  rw [last]
  obtain ⟨taken, behind, previous, ends⟩ := (EndsSoon.of_last plain).passDeclaration ls rfl
  refine ⟨before ++ [l] ++ taken, ?_, previous, ends⟩
  rw [split, List.append_assoc, ← behind]
  simp

/-- Behind an item the next one is entered. -/
theorem ReadsItem.owns (laid : Laid lexemes) {item : Item} (h : ReadsItem place item next)
    (enters : Enters lexemes place) :
    (∀ decl ∈ item.decls, decl.OwnsDocsIn lexemes) ∧ Enters lexemes next := by
  cases h with
  | package hdoc _ hm =>
    obtain ⟨before, split, -, -⟩ := enters.leadingComments laid hdoc
    exact ⟨fun _ hdecl => (List.not_mem_nil hdecl).elim,
      .of_takes ⟨before, split.symm⟩ (.cons (.one (isTrivia_of_name hm)))⟩
  | types hdoc htoken hdecls =>
    obtain ⟨before, split, -, owned⟩ := enters.leadingComments laid hdoc
    exact (typeDecls_reads hdecls).owns laid split htoken (owned (List.cons_ne_nil _ _))
  | other hdoc =>
    obtain ⟨before, split, -, -⟩ := enters.leadingComments laid hdoc
    obtain ⟨-, -, -, stops⟩ := leadingComments_above hdoc
    exact ⟨fun _ hdecl => (List.not_mem_nil hdecl).elim,
      passDeclaration_enters split (stops _ rfl)⟩

theorem ReadsItems.own (laid : Laid lexemes) {is : List Item} (h : ReadsItems place is)
    (enters : Enters lexemes place) :
    ∀ decl ∈ is.flatMap Item.decls, decl.OwnsDocsIn lexemes := by
  induction h with
  | done => exact fun _ hdecl => (List.not_mem_nil hdecl).elim
  | next here _ ih =>
    obtain ⟨owns, ends⟩ := here.owns laid enters
    rw [List.flatMap_cons]
    exact List.forall_mem_append.2 ⟨owns, ih ends⟩

end

theorem parse_owns {source : List Char} {file : SourceFile}
    (parsed : SourceFile.parse source = .ok file) :
    ∃ lexemes, lex source = .ok lexemes ∧ ∀ decl ∈ file.decls, decl.OwnsDocsIn lexemes := by
  obtain ⟨lexemes, is, hlex, reads, -, decls⟩ := parse_iff.1 parsed
  have enters : Enters lexemes ⟨none, lexemes⟩ := ⟨[], rfl, rfl, .inl (.inl rfl)⟩
  exact ⟨lexemes, hlex, decls ▸ reads.own (lex_laid hlex) enters⟩

/-- Every declaration of a source that is read, and every field within one, has a doc that is made of
the comments directly above it, in their order.  A comment that begins its line is in the doc, and
one directly behind a token that starts on the same line is not.  Where all comments above stand in
one of these ways, the doc is exactly those that do not share their line with a token to their
left. -/
theorem parse_docs {source : List Char} {file : SourceFile}
    (parsed : SourceFile.parse source = .ok file) :
    ∃ lexemes, lex source = .ok lexemes ∧ ∀ decl ∈ file.decls,
      (∃ before keyword l ahead, lexemes = before ++ keyword ++ l :: ahead ∧
        (keyword = [] ∨ ∃ t, keyword = [t] ∧ t.token = .type) ∧ l.token = .identifier decl.name ∧
        l.position = decl.position ∧ OwnsDoc before decl.doc ∧
        (IsPlainAbove before → decl.doc = docAbove before)) ∧
      ∀ field : Field, field.IsIn decl.type →
        ∃ before l ahead, lexemes = before ++ l :: ahead ∧ l.position = field.position ∧
          OwnsDoc before field.doc ∧ (IsPlainAbove before → field.doc = docAbove before) := by
  obtain ⟨lexemes, hlex, owned⟩ := parse_owns parsed
  refine ⟨lexemes, hlex, fun decl hdecl => ⟨?_, fun field inside => ?_⟩⟩
  · obtain ⟨before, keyword, l, ahead, split, isKeyword, token, position, owns⟩ :=
      (owned decl hdecl).1
    exact ⟨before, keyword, l, ahead, split, isKeyword, token, position, owns, owns.eq_docAbove⟩
  · obtain ⟨before, l, ahead, split, position, owns⟩ := (owned decl hdecl).2 field inside
    exact ⟨before, l, ahead, split, position, owns, owns.eq_docAbove⟩

/-- A source that can be read, with what evaluation shows of its lexemes and of the file. -/
theorem exists_read {source : String} {chars : List Char} (spelled : source = String.ofList chars)
    {p : List Lexeme → SourceFile → Bool}
    (h : (match lex chars, SourceFile.parse chars with
      | .ok lexemes, .ok file => p lexemes file
      | _, _ => false) = true) :
    ∃ lexemes file, lex source.toList = .ok lexemes ∧
      SourceFile.parse source.toList = .ok file ∧ p lexemes file = true := by
  subst spelled
  rw [String.toList_ofList]
  split at h
  · next lexemes file hlex parsed => exact ⟨lexemes, file, hlex, parsed, h⟩
  · cases h

/-- A source with comments above, behind and between its fields. -/
def commented : String :=
  "package p // first
  // above T
  type T struct \x7b // behind
    // apart

    // above A
    A int // behind A
    /* above B */ B []struct \x7b
      // above C
      C int
    \x7d
  \x7d
  "

/-- The names of all fields with the texts of their docs. -/
def TypeExpr.fieldDocs (t : TypeExpr) : List (List String × List String) :=
  t.parts.flatMap fun part =>
    match part with
    | struct fields => fields.map fun field => (field.names, field.doc.map (·.text))
    | _ => []

set_option maxRecDepth 4000 in
theorem parse_docs_commented :
    ∃ file, SourceFile.parse commented.toList = .ok file ∧
      file.decls.map (fun decl => (decl.doc.map (·.text), decl.type.fieldDocs)) =
        [([" above T"], [(["A"], [" above A"]), (["B"], [" above B "]), (["C"], [" above C"])])] ∧
      ∃ lexemes, lex commented.toList = .ok lexemes ∧ ∀ decl ∈ file.decls,
        (∃ before keyword l ahead, lexemes = before ++ keyword ++ l :: ahead ∧
          (keyword = [] ∨ ∃ t, keyword = [t] ∧ t.token = .type) ∧
          l.token = .identifier decl.name ∧ l.position = decl.position ∧
          OwnsDoc before decl.doc ∧ (IsPlainAbove before → decl.doc = docAbove before)) ∧
        ∀ field : Field, field.IsIn decl.type →
          ∃ before l ahead, lexemes = before ++ l :: ahead ∧ l.position = field.position ∧
            OwnsDoc before field.doc ∧ (IsPlainAbove before → field.doc = docAbove before) := by
  obtain ⟨file, parsed, docs⟩ := exists_parse (rfl : commented = _)
    (p := fun file =>
      file.decls.map (fun decl => (decl.doc.map (·.text), decl.type.fieldDocs)) ==
        [([" above T"], [(["A"], [" above A"]), (["B"], [" above B "]), (["C"], [" above C"])])])
    (by decide +kernel)
  exact ⟨file, parsed, beq_iff_eq.1 docs, parse_docs parsed⟩

/-- A source with two comments behind a field. -/
def secondComment : String := "package p\ntype T struct \x7b\n\tA int /* a */ // b\n\tB int\n\x7d\n"

set_option maxRecDepth 4000 in
/-- Of two comments behind a field the second is taken for the doc of the next field. -/
theorem parse_docs_secondComment :
    ∃ lexemes file, lex secondComment.toList = .ok lexemes ∧
      SourceFile.parse secondComment.toList = .ok file ∧
      ∃ decl ∈ file.decls, ∃ field : Field, field.IsIn decl.type ∧
        ∃ before l ahead, lexemes = before ++ l :: ahead ∧ l.position = field.position ∧
          docAbove before = [] ∧ field.doc = [⟨" b", ⟨3, 16⟩⟩] := by
  obtain ⟨lexemes, file, hlex, parsed, facts⟩ := exists_read (rfl : secondComment = _)
    (p := fun lexemes file => file.decls.any fun decl =>
      match decl.type with
      | .struct fields => fields.any fun field =>
          ((lexemes.drop 13).head?.map (·.position)) == some field.position &&
            docAbove (lexemes.take 13) == [] && field.doc == [⟨" b", ⟨3, 16⟩⟩]
      | _ => false)
    (by decide +kernel)
  obtain ⟨decl, hdecl, facts⟩ := List.any_eq_true.1 facts
  split at facts
  · next fields htype =>
    obtain ⟨field, hfield, facts⟩ := List.any_eq_true.1 facts
    simp only [Bool.and_eq_true, beq_iff_eq] at facts
    obtain ⟨⟨position, above⟩, doc⟩ := facts
    obtain ⟨l, hl, position⟩ := Option.map_eq_some_iff.1 position
    obtain ⟨ahead, hahead⟩ := List.head?_eq_some_iff.1 hl
    have inside : field.IsIn decl.type := ⟨fields, by rw [htype, TypeExpr.parts]; simp, hfield⟩
    refine ⟨lexemes, file, hlex, parsed, decl, hdecl, field, inside, lexemes.take 13, l, ahead, ?_,
      position, above, doc⟩
    rw [← hahead, List.take_append_drop]
  · cases facts

end Go
end FieldRules
