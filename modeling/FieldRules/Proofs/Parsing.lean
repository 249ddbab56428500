/-
Where the comments and names of parsed declarations come from.

What is read keeps the order of what is taken.  So the doc comments of fields are
comments of the source in source order, each used once at most, and every name is an
identifier of the source (`parse_traces`).
-/
import FieldRules.Proofs.TopLevel

namespace FieldRules
namespace Go

open Text
open Go.Parser

/-! ### What is followed -/

namespace TypeExpr

mutual

/-- The doc comments of the fields of a struct, or of what a pointer leads to, in source order. -/
def comments : TypeExpr → List Comment
  | struct fields => commentsOf fields
  | pointer target => target.comments
  | _ => []

def commentsIn : Field → List Comment
  | ⟨_, _, type, _, doc, _⟩ => doc ++ type.comments

def commentsOf : List Field → List Comment
  | [] => []
  | field :: fields => commentsIn field ++ commentsOf fields

end

mutual

/-- The names of a type and of its fields. -/
def names : TypeExpr → List String
  | named name => [name]
  | qualified _ name => [name]
  | instantiated base _ => base.names
  | pointer target => target.names
  | struct fields => namesOf fields
  | _ => []

def namesIn : Field → List String
  | ⟨names, _, type, _, _, _⟩ => names ++ type.names

def namesOf : List Field → List String
  | [] => []
  | field :: fields => namesIn field ++ namesOf fields

end

theorem commentsIn_eq (field : Field) : commentsIn field = field.doc ++ field.type.comments := by
  cases field
  rfl

theorem namesIn_eq (field : Field) : namesIn field = field.names ++ field.type.names := by
  cases field
  rfl

end TypeExpr

/-- The doc comments within a tree; the doc of a field itself is read before it. -/
def Tree.comments : Tree → List Comment
  | .type t => t.comments
  | .field f => f.type.comments
  | .fields fs => TypeExpr.commentsOf fs

def Tree.names : Tree → List String
  | .type t => t.names
  | .field f => f.names ++ f.type.names
  | .fields fs => TypeExpr.namesOf fs

section

variable {place next : Place} {l : Lexeme} {ls : List Lexeme} {word : String}

/-! ### Types -/

theorem passes_name {previous : Option Lexeme} (h : l.token = .identifier word) :
    Passes ⟨previous, l :: ls⟩ ⟨some l, ls⟩ [] [word] :=
  ⟨[l], rfl, List.nil_sublist _, by simp [Lexeme.name?, h]⟩

theorem ReadsBase.passes {previous : Option Lexeme} {base : TypeExpr}
    (htoken : l.token = .identifier word) (h : ReadsBase word ⟨some l, ls⟩ base next) :
    Passes ⟨previous, l :: ls⟩ next base.comments base.names := by
  cases h with
  | plain => exact passes_name htoken
  | dotted _ hm => exact Passes.one.after (Passes.one.after (passes_name hm))

theorem ReadsNames.passes {names : List String} (h : ReadsNames place names next) :
    Passes place next [] names := by
  induction h with
  | done => exact .of_same_rest rfl
  | more _ hm _ ih => exact Passes.one.after ((passes_name hm).trans ih)

theorem ReadsTag.passes {tag : Option String} (h : ReadsTag place tag next) :
    Passes place next [] [] := by
  cases h with
  | absent => exact .of_same_rest rfl
  | present => exact .of_rest [_] rfl

theorem passes_group {previous : Option Lexeme} {taken rest : List Lexeme}
    (h : takeGroup 0 ls = some (taken, rest)) :
    Passes ⟨previous, ls⟩ ⟨taken.getLast?, rest⟩ [] [] :=
  .of_rest taken (takeGroup_append h)

theorem embeddedName?_mem {t : TypeExpr} {name : String} (h : embeddedName? t = some name) :
    name ∈ t.names := by
  fun_induction embeddedName? t with
  | case1 | case2 => cases h; simp [TypeExpr.names]
  | case3 target ih => simpa [TypeExpr.names] using ih h
  | case4 base _ ih => simpa [TypeExpr.names] using ih h
  | case5 => cases h

/-- The comments and names of what is read are met on the way. -/
theorem Reads.passes {tree : Tree} (h : Reads place tree next) :
    Passes place next tree.comments tree.names := by
  induction h with
  | name htoken base _ => exact base.passes htoken
  | «instance» htoken base _ htaken =>
    refine ((base.passes htoken).before (passes_group htaken)).mono ?_ (List.Subset.refl _)
    exact List.nil_sublist _
  | pointer _ _ ih => exact Passes.one.after ih
  | slice _ _ _ ih => exact Passes.one.after (Passes.one.after ih.forget)
  | @array _ l m size ls _ _ _ _ _ _ ih =>
    exact (Passes.of_rest (l :: (size ++ [m])) (by simp)).after ih.forget
  | map _ _ _ _ _ key value =>
    have pair := key.forget.after (Passes.one.after value.forget)
    exact Passes.one.after (Passes.one.after pair)
  | chan _ _ _ ih => exact Passes.one.after ih.forget
  | send _ _ _ ih | receive _ _ _ ih => exact Passes.one.after (Passes.one.after ih.forget)
  | func _ _ htaken _ => exact Passes.one.after (passes_group htaken)
  | funcMany _ _ htaken _ hmany =>
    exact Passes.one.after ((passes_group htaken).after (passes_group hmany))
  | funcOne _ _ htaken _ _ ih =>
    exact Passes.one.after ((passes_group htaken).after ih.forget)
  | interface _ _ htaken => exact Passes.one.after (passes_group htaken)
  | struct _ _ _ ih => exact Passes.one.after (Passes.one.after ih)
  | paren _ _ _ ih => exact Passes.one.after (ih.before .one)
  | embedded _ _ hname htag ih =>
    refine (ih.before htag.passes).mono (List.Sublist.refl _) ?_
    exact List.cons_subset.2 ⟨embeddedName?_mem hname, List.Subset.refl _⟩
  | named htoken _ hnames _ htag ih =>
    exact (((passes_name htoken).trans hnames.passes).trans ih).before htag.passes
  | closed hdoc _ => exact (leadingComments_passes hdoc).forget.before .one
  | more hdoc _ htrail _ _ first fields =>
    have behind := (trailingComment_passes htrail).after fields
    rw [Tree.comments, Tree.names, TypeExpr.commentsOf, TypeExpr.namesOf, TypeExpr.commentsIn_eq,
      TypeExpr.namesIn_eq]
    exact ((leadingComments_passes hdoc).trans first).trans behind

/-! ### Declarations and items -/

def PassesDecls (place next : Place) (decls : List TypeDecl) : Prop :=
  Passes place next (decls.flatMap (·.type.comments)) (decls.flatMap (·.type.names))

theorem ReadsDecl.passes {doc : List Comment} {decl : TypeDecl}
    (h : ReadsDecl doc place decl next) :
    Passes place next decl.type.comments decl.type.names := by
  cases h with
  | mk _ parameters assign reads trail _ =>
    obtain ⟨taken, split⟩ := parameters.within
    have start := (Passes.of_rest taken split).after (accept_passes assign)
    have seen := start.after (reads.passes.before (trailingComment_passes trail))
    exact Passes.one.after seen

theorem ReadsGroup.passes {decls : List TypeDecl} (h : ReadsGroup place decls next) :
    PassesDecls place next decls := by
  induction h with
  | closed hdoc _ => exact (leadingComments_passes hdoc).forget.before .one
  | more hdoc hdecl _ ih => exact (leadingComments_passes hdoc).forget.after (hdecl.passes.trans ih)

theorem ReadsDecls.passes {doc : List Comment} {decls : List TypeDecl}
    (h : ReadsDecls doc place decls next) : PassesDecls place next decls := by
  cases h with
  | group _ hgroup => exact Passes.one.after hgroup.passes
  | single hdecl =>
    unfold PassesDecls
    rw [List.flatMap_singleton, List.flatMap_singleton]
    exact hdecl.passes

theorem ReadsItem.passes {item : Item} (h : ReadsItem place item next) :
    PassesDecls place next item.decls := by
  cases h with
  | package hdoc => exact (leadingComments_passes hdoc).forget.before (Passes.one.after .one)
  | types hdoc _ hdecls =>
    have keyword := (leadingComments_passes hdoc).forget.before .one
    exact keyword.after (typeDecls_reads hdecls).passes
  | other hdoc =>
    obtain ⟨taken, split⟩ := passDeclaration_append 0 _ _
    exact (leadingComments_passes hdoc).forget.before (.of_rest taken split)

theorem ReadsItems.passes {is : List Item} (h : ReadsItems place is) :
    ∃ last, PassesDecls place last (is.flatMap Item.decls) := by
  induction h with
  | done hdoc => exact ⟨_, (leadingComments_passes hdoc).forget⟩
  | next here _ ih =>
    obtain ⟨last, behind⟩ := ih
    refine ⟨last, ?_⟩
    unfold PassesDecls
    rw [List.flatMap_cons, List.flatMap_append, List.flatMap_append]
    exact Passes.trans here.passes behind

end

/-- The field docs of a source, in source order. -/
def SourceFile.comments (file : SourceFile) : List Comment :=
  file.decls.flatMap (·.type.comments)

/-- The comments of fields are comments of the text in order, and the names of fields and of their
types are names of the text. -/
theorem parse_traces {source : List Char} {file : SourceFile}
    (h : SourceFile.parse source = .ok file) :
    ∃ lexemes, lex source = .ok lexemes ∧
      file.comments.Sublist (lexemes.filterMap Lexeme.comment?) ∧
      file.decls.flatMap (·.type.names) ⊆ lexemes.filterMap Lexeme.name? := by
  obtain ⟨lexemes, is, hlex, reads, -, decls⟩ := parse_iff.1 h
  obtain ⟨last, taken, split, comments, names⟩ := reads.passes
  have front : taken.Sublist lexemes := by
    rw [show lexemes = taken ++ last.rest from split]
    exact List.sublist_append_left _ _
  refine ⟨lexemes, hlex, ?_, ?_⟩
  · rw [SourceFile.comments, ← decls]
    exact comments.trans (front.filterMap _)
  · rw [← decls]
    exact fun name hname => (front.filterMap _).subset (names hname)

/-- A source that can be parsed, with what evaluation shows of the file.  The characters are given
apart from the text, as taking them out of a literal is slow. -/
theorem exists_parse {source : String} {chars : List Char} (spelled : source = String.ofList chars)
    {p : SourceFile → Bool}
    (h : (match SourceFile.parse chars with | .ok file => p file | .error _ => false) = true) :
    ∃ file, SourceFile.parse source.toList = .ok file ∧ p file = true := by
  subst spelled
  rw [String.toList_ofList]
  cases hparse : SourceFile.parse chars with
  | error e => rw [hparse] at h; cases h
  | ok file => rw [hparse] at h; exact ⟨file, rfl, h⟩

end Go
end FieldRules
