/-
The grammar of declarations and items, without a bound on their number.

`ReadsDecls` says what is declared behind the word `type`: one type, or a group of them in
parentheses.  A text is a run of items, each behind its comments: a package clause, type
declarations, or anything else up to the end of its line (`ReadsItems`).  The parser finds
what stands there, and nothing else (`typeDecls_iff`, `parse_iff`): what holds of all
declarations of a source is proved along the grammar.
-/
import FieldRules.Proofs.Completeness

namespace FieldRules
namespace Go

open Text
open Go.Parser

/-- The type parameters behind the name of a declaration, if there are any. -/
inductive ReadsParameters : Place → Option String → Place → Prop where
  | absent {place : Place} : opensTypeParameters place = false → ReadsParameters place none place
  | present {previous : Option Lexeme} {ls taken rest : List Lexeme} :
      opensTypeParameters ⟨previous, ls⟩ = true → takeGroup 0 ls = some (taken, rest) →
      ReadsParameters ⟨previous, ls⟩ (some (String.ofList (spanText taken)))
        ⟨taken.getLast?, rest⟩

/-- The declaration of a type, with the comment that trails it. -/
inductive ReadsDecl (doc : List Comment) : Place → TypeDecl → Place → Prop where
  | mk {previous : Option Lexeme} {l : Lexeme} {ls : List Lexeme} {word : String}
      {parameters : Option String} {isAlias : Bool} {t : TypeExpr}
      {named start behind next : Place} :
      l.token = .identifier word → ReadsParameters ⟨some l, ls⟩ parameters named →
      accept .assign named = .ok (isAlias, start) → Reads start (.type t) behind →
      trailingComment behind = .ok ((), next) →
      endOfItem .endOfTypeDeclaration next = .ok ((), next) →
      ReadsDecl doc ⟨previous, l :: ls⟩ ⟨word, parameters, isAlias, t, doc, l.position⟩ next

/-- The declarations of a group, up to its closing parenthesis. -/
inductive ReadsGroup : Place → List TypeDecl → Place → Prop where
  | closed {place : Place} {last : Option Lexeme} {l : Lexeme} {ls : List Lexeme}
      {doc : List Comment} :
      leadingComments place = .ok (doc, ⟨last, l :: ls⟩) → l.token = .rightParen →
      ReadsGroup place [] ⟨some l, ls⟩
  | more {place mid behind next : Place} {doc : List Comment} {decl : TypeDecl}
      {decls : List TypeDecl} :
      leadingComments place = .ok (doc, mid) → ReadsDecl doc mid decl behind →
      ReadsGroup behind decls next → ReadsGroup place (decl :: decls) next

/-- What is declared behind the word `type`. -/
inductive ReadsDecls (doc : List Comment) : Place → List TypeDecl → Place → Prop where
  | group {previous : Option Lexeme} {l : Lexeme} {ls : List Lexeme} {decls : List TypeDecl}
      {next : Place} :
      l.token = .leftParen → ReadsGroup ⟨some l, ls⟩ decls next →
      ReadsDecls doc ⟨previous, l :: ls⟩ decls next
  | single {place next : Place} {decl : TypeDecl} :
      ReadsDecl doc place decl next → ReadsDecls doc place [decl] next

section

variable {place named next : Place} {doc : List Comment} {decl : TypeDecl} {decls : List TypeDecl}

/-! ### What declarations take -/

theorem ReadsParameters.within {parameters : Option String}
    (h : ReadsParameters place parameters next) : ∃ taken, place.rest = taken ++ next.rest := by
  cases h with
  | absent => exact ⟨[], rfl⟩
  | present _ htaken => exact ⟨_, takeGroup_append htaken⟩

/-- A declaration starts with its name. -/
theorem ReadsDecl.front (h : ReadsDecl doc place decl next) :
    ∃ l ls, place.rest = l :: ls ∧ l.token = .identifier decl.name ∧
      l.position = decl.position ∧ decl.doc = doc := by
  cases h with
  | mk htoken => exact ⟨_, _, rfl, htoken, rfl, rfl⟩

theorem ReadsDecl.peek? (h : ReadsDecl doc place decl next) :
    place.peek? = some (.identifier decl.name) := by
  obtain ⟨l, ls, rest, htoken, -⟩ := h.front
  rw [Place.peek?, rest, ← htoken]
  rfl

theorem ReadsDecl.length_lt (h : ReadsDecl doc place decl next) :
    next.rest.length < place.rest.length := by
  cases h with
  | mk _ parameters assign reads trail _ =>
    obtain ⟨taken, split⟩ := parameters.within
    obtain ⟨taken', split', -⟩ := accept_passes assign
    obtain ⟨taken'', split'', -⟩ := trailingComment_passes trail
    have shorter := reads.takes.length_lt
    have whole := congrArg List.length split
    rw [split', List.length_append, List.length_append] at whole
    rw [split'', List.length_append] at shorter
    rw [List.length_cons]
    dsimp only at whole
    omega

theorem ReadsGroup.length_lt (h : ReadsGroup place decls next) :
    next.rest.length < place.rest.length := by
  have lead {place mid : Place} {doc : List Comment}
      (hdoc : leadingComments place = .ok (doc, mid)) :
      mid.rest.length ≤ place.rest.length := by
    obtain ⟨taken, split, -⟩ := leadingComments_passes hdoc
    rw [split, List.length_append]
    exact Nat.le_add_left _ _
  induction h with
  | closed hdoc =>
    exact lead hdoc
  | more hdoc hdecl _ ih =>
    exact Nat.lt_trans ih (Nat.lt_of_lt_of_le hdecl.length_lt (lead hdoc))

theorem ReadsDecls.length_lt (h : ReadsDecls doc place decls next) :
    next.rest.length < place.rest.length := by
  cases h with
  | group _ hgroup => exact Nat.lt_trans hgroup.length_lt (Nat.lt_succ_self _)
  | single hdecl => exact hdecl.length_lt

namespace Parser

/-! ### What is read stands there -/

theorem typeItem_reads (h : typeItem doc place = .ok (decl, next)) :
    ReadsDecl doc place decl next := by
  obtain ⟨spec, mid, hspec, hrest⟩ := bind_ok h
  obtain ⟨u, trailed, htrail, hitem⟩ := bind_ok hrest
  obtain ⟨v, ended, hend, hpure⟩ := bind_ok hitem
  obtain ⟨rfl, rfl⟩ := pure_ok hpure
  obtain rfl := endOfItem_ok hend
  obtain ⟨⟨word, position⟩, named, hname, hbehind⟩ := bind_ok hspec
  obtain ⟨here, start, hget, hparts⟩ := bind_ok hbehind
  cases hget
  obtain ⟨previous, rest⟩ := place
  obtain ⟨l, ls, rfl, htoken, rfl, rfl⟩ := identifier_ok hname
  have afterParameters {parameters : Option String} {named : Place}
      (found : ReadsParameters ⟨some l, ls⟩ parameters named)
      (hlast : (accept .assign >>= fun isAlias => typeExpr >>= fun t =>
        pure ⟨word, parameters, isAlias, t, doc, l.position⟩ : Parser TypeDecl) named
        = .ok (decl, mid)) : ReadsDecl doc ⟨previous, l :: ls⟩ decl next := by
    obtain ⟨isAlias, behind, hassign, hread⟩ := bind_ok hlast
    obtain ⟨t, last, htype, hpure⟩ := bind_ok hread
    obtain ⟨rfl, rfl⟩ := pure_ok hpure
    exact .mk htoken found hassign (typeExpr_reads htype) htrail hend
  split at hparts
  · next opens =>
    obtain ⟨parameters, behind, hparameters, hlast⟩ := bind_ok hparts
    obtain ⟨text, hgroup, rfl⟩ := map_ok hparameters
    obtain ⟨taken, left, htaken, rfl, rfl⟩ := group_ok hgroup
    exact afterParameters (.present opens htaken) hlast
  · next other => exact afterParameters (.absent (Bool.not_eq_true _ ▸ other)) hparts

theorem typeGroup_reads {fuel : Nat} (h : typeGroup fuel place = .ok (decls, next)) :
    ReadsGroup place decls next := by
  induction fuel generalizing place decls with
  | zero => exact (missing_ok h).elim
  | succ fuel ih =>
    obtain ⟨doc, mid, hdoc, hrest⟩ := bind_ok h
    obtain ⟨token, same, hpeek, hbody⟩ := bind_ok hrest
    obtain ⟨rfl, hfront⟩ := peek_ok hpeek
    obtain ⟨previous, rest⟩ := same
    split at hbody
    · obtain ⟨u, last, hadvance, hend⟩ := seq_ok hbody
      obtain ⟨rfl, rfl⟩ := pure_ok hend
      obtain ⟨l, ls, rfl, closing, rfl⟩ := advance_ok hfront.symm hadvance
      exact .closed hdoc closing
    · exact (missing_ok hbody).elim
    · obtain ⟨decl, behind, hdecl, hlast⟩ := bind_ok hbody
      obtain ⟨others, last, hmore, hpure⟩ := bind_ok hlast
      obtain ⟨rfl, rfl⟩ := pure_ok hpure
      exact .more hdoc (typeItem_reads hdecl) (ih hmore)

theorem typeDecls_reads (h : typeDecls doc place = .ok (decls, next)) :
    ReadsDecls doc place decls next := by
  obtain ⟨opened, mid, hopen, hrest⟩ := bind_ok h
  obtain ⟨previous, rest⟩ := place
  rcases accept_ok hopen with ⟨l, ls, rfl, opens, rfl, rfl⟩ | ⟨-, rfl, rfl⟩
  · obtain ⟨here, start, hget, hgroup⟩ := bind_ok hrest
    cases hget
    exact .group opens (typeGroup_reads hgroup)
  · obtain ⟨decl, behind, hdecl, hpure⟩ := bind_ok hrest
    obtain ⟨rfl, rfl⟩ := pure_ok hpure
    exact .single (typeItem_reads hdecl)

end Parser

/-! ### What stands there is read -/

theorem ReadsDecl.run (h : ReadsDecl doc place decl next) :
    typeItem doc place = .ok (decl, next) := by
  cases h with
  | mk htoken parameters assign reads trail ends =>
    refine bind_run (bind_run (identifier_run htoken) (bind_run rfl ?_))
      (bind_run trail (bind_run ends rfl))
    cases parameters with
    | absent other =>
      rw [other]
      exact bind_run rfl (bind_run assign (bind_run reads.run rfl))
    | present opens htaken =>
      rw [if_pos opens]
      exact bind_run (map_run (group_run htaken)) (bind_run assign (bind_run reads.run rfl))

theorem ReadsGroup.run (h : ReadsGroup place decls next) {fuel : Nat}
    (enough : place.rest.length < fuel) : typeGroup fuel place = .ok (decls, next) := by
  induction h generalizing fuel with
  | closed hdoc closing =>
    obtain ⟨fuel, rfl⟩ : ∃ n, fuel = n + 1 := ⟨fuel - 1, by omega⟩
    refine bind_run hdoc (bind_run peek_run ?_)
    rw [Place.peek?_cons, closing]
    rfl
  | more hdoc hdecl _ ih =>
    obtain ⟨fuel, rfl⟩ : ∃ n, fuel = n + 1 := ⟨fuel - 1, by omega⟩
    obtain ⟨taken, split, -⟩ := leadingComments_passes hdoc
    have shorter := hdecl.length_lt
    rw [split, List.length_append] at enough
    refine bind_run hdoc (bind_run peek_run ?_)
    rw [hdecl.peek?]
    exact bind_run hdecl.run (bind_run (ih (by omega)) rfl)

theorem ReadsDecls.run (h : ReadsDecls doc place decls next) :
    typeDecls doc place = .ok (decls, next) := by
  cases h with
  | group opens hgroup =>
    exact bind_run (accept_run opens) (bind_run rfl (hgroup.run (Nat.lt_succ_self _)))
  | single hdecl =>
    refine bind_run (accept_other ?_) (bind_run hdecl.run rfl)
    rw [hdecl.peek?]
    exact nofun

theorem typeDecls_iff : typeDecls doc place = .ok (decls, next) ↔ ReadsDecls doc place decls next :=
  ⟨typeDecls_reads, ReadsDecls.run⟩

end

/-! ### Items -/

inductive Item where
  | package (name : String)
  | types (decls : List TypeDecl)
  /-- Something that is passed over, with the lexemes from its first one on. -/
  | other (lexemes : List Lexeme)

namespace Item

def package? : Item → Option String
  | package name => some name
  | _ => none

def decls : Item → List TypeDecl
  | types decls => decls
  | _ => []

def other? : Item → Option (List Lexeme)
  | other lexemes => some lexemes
  | _ => none

/-- The package that is named last, if one is. -/
def lastPackage (before : Option String) : List Item → Option String
  | [] => before
  | item :: items => lastPackage (item.package?.or before) items

end Item

/-- An item stands between two places. -/
inductive ReadsItem : Place → Item → Place → Prop where
  | package {place : Place} {previous : Option Lexeme} {l m : Lexeme} {ls : List Lexeme}
      {name : String} {doc : List Comment} :
      leadingComments place = .ok (doc, ⟨previous, l :: m :: ls⟩) → l.token = .package →
      m.token = .identifier name → ReadsItem place (.package name) ⟨some m, ls⟩
  | types {place next : Place} {previous : Option Lexeme} {l : Lexeme} {ls : List Lexeme}
      {doc : List Comment} {decls : List TypeDecl} :
      leadingComments place = .ok (doc, ⟨previous, l :: ls⟩) → l.token = .type →
      typeDecls doc ⟨some l, ls⟩ = .ok (decls, next) → ReadsItem place (.types decls) next
  | other {place : Place} {previous : Option Lexeme} {l : Lexeme} {ls : List Lexeme}
      {doc : List Comment} :
      leadingComments place = .ok (doc, ⟨previous, l :: ls⟩) → l.token ≠ .package →
      l.token ≠ .type →
      ReadsItem place (.other (l :: ls)) (passDeclaration 0 previous (l :: ls))

/-- Items stand between a place and the end of the text. -/
inductive ReadsItems : Place → List Item → Prop where
  | done {place : Place} {previous : Option Lexeme} {doc : List Comment} :
      leadingComments place = .ok (doc, ⟨previous, []⟩) → ReadsItems place []
  | next {place mid : Place} {item : Item} {items : List Item} :
      ReadsItem place item mid → ReadsItems mid items → ReadsItems place (item :: items)

section

variable {place mid next : Place} {item : Item} {is : List Item}

/-- An item takes its first lexeme. -/
theorem ReadsItem.length_lt (h : ReadsItem place item next) :
    next.rest.length < place.rest.length := by
  have lead {doc : List Comment} {mid : Place} (hdoc : leadingComments place = .ok (doc, mid)) :
      mid.rest.length ≤ place.rest.length := by
    obtain ⟨taken, split, -⟩ := leadingComments_passes hdoc
    rw [split, List.length_append]
    exact Nat.le_add_left _ _
  cases h with
  | package hdoc =>
    have := lead hdoc
    simp only [List.length_cons] at this ⊢
    omega
  | types hdoc _ hdecls =>
    have := lead hdoc
    have shorter := (typeDecls_reads hdecls).length_lt
    simp only [List.length_cons] at this shorter
    omega
  | @other previous l ls _ hdoc _ _ =>
    have := lead hdoc
    have shorter : (passDeclaration 0 previous (l :: ls)).rest.length ≤ ls.length := by
      have suffix (depth : Nat) : (passDeclaration depth (some l) ls).rest.length ≤ ls.length := by
        obtain ⟨taken, split⟩ := passDeclaration_append depth (some l) ls
        have lengths := congrArg List.length split
        rw [List.length_append] at lengths
        omega
      unfold passDeclaration
      split
      · exact Nat.le_refl _
      · exact suffix _
    simp only [List.length_cons] at this
    omega

/-- What the parser makes of items. -/
def Item.found (package : Option String) (is : List Item) : Option String × List TypeDecl :=
  (Item.lastPackage package is, is.flatMap Item.decls)

namespace Parser

theorem items_reads {fuel : Nat} (enough : place.rest.length ≤ fuel) {package : Option String}
    {found : Option String × List TypeDecl} (h : items fuel package place = .ok (found, next)) :
    ∃ is, ReadsItems place is ∧ found = Item.found package is := by
  induction fuel generalizing place package found with
  | zero =>
    obtain ⟨previous, rest⟩ := place
    obtain rfl := List.length_eq_zero_iff.1 (Nat.le_zero.1 enough)
    exact ⟨[], .done rfl, (pure_ok h).1⟩
  | succ fuel ih =>
    obtain ⟨doc, mid, hdoc, hrest⟩ := bind_ok h
    obtain ⟨token, same, hpeek, hbody⟩ := bind_ok hrest
    obtain ⟨rfl, hfront⟩ := peek_ok hpeek
    obtain ⟨previous, rest⟩ := same
    have fewer {item : Item} {behind : Place} (here : ReadsItem place item behind) :
        behind.rest.length ≤ fuel := by
      have := here.length_lt
      omega
    split at hbody
    · obtain ⟨rfl, rfl⟩ := pure_ok hbody
      cases rest with
      | nil => exact ⟨[], .done hdoc, rfl⟩
      | cons l ls => cases hfront
    · obtain ⟨u, behind, hadvance, hlast⟩ := bind_ok hbody
      obtain ⟨l, ls, rfl, htoken, rfl⟩ := advance_ok hfront.symm hadvance
      obtain ⟨name, last, hname, hmore⟩ := bind_ok hlast
      obtain ⟨m, ms, rfl, hm, rfl, -⟩ := identifier_ok hname
      have here := ReadsItem.package hdoc htoken hm
      obtain ⟨is, reads, rfl⟩ := ih (fewer here) hmore
      exact ⟨_, .next here reads, rfl⟩
    · obtain ⟨u, behind, hadvance, hlast⟩ := bind_ok hbody
      obtain ⟨l, ls, rfl, htoken, rfl⟩ := advance_ok hfront.symm hadvance
      obtain ⟨decls, afterDecls, hdecls, hend⟩ := bind_ok hlast
      obtain ⟨more, final, hmore, hpure⟩ := bind_ok hend
      obtain ⟨rfl, rfl⟩ := pure_ok hpure
      have here := ReadsItem.types hdoc htoken hdecls
      obtain ⟨is, reads, rfl⟩ := ih (fewer here) hmore
      exact ⟨_, .next here reads, rfl⟩
    · next token noPackage noType =>
      obtain ⟨u, behind, hskip, hmore⟩ := bind_ok hbody
      cases hskip
      cases rest with
      | nil => cases hfront
      | cons l ls =>
        cases hfront
        have here := ReadsItem.other hdoc noPackage noType
        obtain ⟨is, reads, rfl⟩ := ih (fewer here) hmore
        exact ⟨_, .next here reads, rfl⟩

theorem items_run (h : ReadsItems place is) {fuel : Nat} (enough : place.rest.length ≤ fuel)
    (package : Option String) :
    ∃ next, items fuel package place = .ok (Item.found package is, next) := by
  induction h generalizing fuel package with
  | @done place previous doc hdoc =>
    cases fuel with
    | zero => exact ⟨_, rfl⟩
    | succ fuel => exact ⟨_, bind_run hdoc (bind_run peek_run rfl)⟩
  | @next place mid item is here _ ih =>
    have fewer := here.length_lt
    obtain ⟨fuel, rfl⟩ : ∃ n, fuel = n + 1 := ⟨fuel - 1, by omega⟩
    have left : mid.rest.length ≤ fuel := by omega
    cases here with
    | package hdoc htoken hm =>
      obtain ⟨next, hmore⟩ := ih left _
      refine ⟨next, bind_run hdoc (bind_run peek_run ?_)⟩
      rw [Place.peek?_cons, htoken]
      exact bind_run rfl (bind_run (identifier_run hm) hmore)
    | types hdoc htoken hdecls =>
      obtain ⟨next, hmore⟩ := ih left package
      refine ⟨next, bind_run hdoc (bind_run peek_run ?_)⟩
      rw [Place.peek?_cons, htoken]
      exact bind_run rfl (bind_run hdecls (bind_run hmore rfl))
    | @other previous l ls doc hdoc noPackage noType =>
      obtain ⟨next, hmore⟩ := ih left package
      refine ⟨next, bind_run hdoc (bind_run peek_run ?_)⟩
      rw [Place.peek?_cons]
      cases htoken : l.token <;> first
        | exact bind_run rfl hmore
        | exact absurd htoken noPackage
        | exact absurd htoken noType

end Parser

/-- The lexemes of a file are items, the last package clause of which names the package. -/
theorem ofLexemes_iff {lexemes : List Lexeme} {file : SourceFile} :
    SourceFile.ofLexemes lexemes = .ok file ↔ ∃ is, ReadsItems ⟨none, lexemes⟩ is ∧
      Item.lastPackage none is = some file.package ∧ is.flatMap Item.decls = file.decls := by
  unfold SourceFile.ofLexemes
  constructor
  · intro h
    split at h
    · cases h
    · cases h
    · next package decls last hitems =>
      cases h
      obtain ⟨is, reads, found⟩ :=
        items_reads (show (Place.mk none lexemes).rest.length ≤ _ from Nat.le_refl _) hitems
      obtain ⟨package, decls⟩ := Prod.mk.inj found
      exact ⟨is, reads, package.symm, decls.symm⟩
  · rintro ⟨is, reads, package, decls⟩
    obtain ⟨next, hitems⟩ := items_run reads (Nat.le_refl _) none
    rw [Item.found, package, decls] at hitems
    simp only [hitems]

theorem parse_iff {source : List Char} {file : SourceFile} :
    SourceFile.parse source = .ok file ↔ ∃ lexemes is, lex source = .ok lexemes ∧
      ReadsItems ⟨none, lexemes⟩ is ∧ Item.lastPackage none is = some file.package ∧
        is.flatMap Item.decls = file.decls := by
  unfold SourceFile.parse
  cases lex source with
  | error e => simp
  | ok lexemes => simp [ofLexemes_iff]

end

end Go
end FieldRules
