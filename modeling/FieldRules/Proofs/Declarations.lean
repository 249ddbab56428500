/-
Declarations do not notice how a text is written.

What is declared behind the word `type` is declared in the echo, texts and places
apart (`ReadsDecls.echoed`).
-/
import FieldRules.Proofs.Following
import FieldRules.Proofs.TopLevel

namespace FieldRules
namespace Go

open Text
open Go.Parser

section

variable {drops : Char → Bool} {down : Nat} {tail : List Lexeme} {place place' next next' : Place}
  {l m : Lexeme} {ls ms : List Lexeme}

/-- Of two lexemes of which the first is a bracket only the brackets of a slice can start a type. -/
theorem Reads.slice_of_two {previous : Option Lexeme} {a b : Lexeme} {t : TypeExpr}
    (h : Reads ⟨previous, [a, b]⟩ (.type t) next) (opens : a.token = .leftBracket) :
    b.token = .rightBracket := by
  generalize start : Place.mk previous [a, b] = place at h
  generalize read : Tree.type t = tree at h
  cases h with
  | slice _ hm => cases start; exact hm
  | array _ sized =>
    injection start with _ start
    injection start with _ start
    obtain ⟨c, size, rfl⟩ := List.exists_cons_of_ne_nil sized
    injection start with _ start
    exact absurd start.symm (List.append_ne_nil_of_right_ne_nil size (List.cons_ne_nil _ _))
  | closed => cases read
  | more => cases read
  | embedded => cases read
  | named => cases read
  | name htoken | «instance» htoken | pointer htoken | map htoken | chan htoken | send htoken
  | receive htoken | func htoken | funcMany htoken | funcOne htoken | interface htoken
  | struct htoken | paren htoken =>
    cases start
    rw [opens] at htoken
    cases htoken

/-- Further lines behind a text do not make a bracket one of type parameters, unless it stands with a
name at the end of the text. -/
theorem Place.Echoes.opensTypeParameters (lines : StartsLine tail)
    (e : place.Echoes drops down tail place')
    (complete : ∀ a b, place.rest = [a, b] → a.token = .leftBracket → b.token = .rightBracket) :
    Parser.opensTypeParameters place' = Parser.opensTypeParameters place := by
  obtain ⟨-, ms, split, echoed⟩ := e
  obtain ⟨previous, rest⟩ := place
  unfold Parser.opensTypeParameters
  rw [split]
  rcases echoed with
    _ | @⟨a, a', _, _, hereA, _ | @⟨b, b', _, _, hereB, _ | @⟨c, c', _, _, hereC, -⟩⟩⟩
  · rcases tail with _ | ⟨n, _ | ⟨n₂, _ | ⟨n₃, tail⟩⟩⟩ <;> try rfl
    simp only [List.nil_append, lines n rfl]
  · rcases tail with _ | ⟨n, _ | ⟨n₂, tail⟩⟩ <;> try rfl
    simp only [List.cons_append, List.nil_append, lines n rfl]
    cases a'.token <;> rfl
  · rcases tail with _ | ⟨n, tail⟩
    · rfl
    simp only [List.cons_append, List.nil_append]
    split
    · next ha hb =>
      have closing := complete a b rfl ((hereA.token_iff rfl).1 ha)
      rw [hereB.token_eq closing rfl] at hb
      cases hb
    · rfl
  · simp only [List.cons_append]
    have last : (c'.token != .rightBracket) = (c.token != .rightBracket) := by
      rw [Bool.eq_iff_iff, bne_iff_ne, bne_iff_ne, Ne, hereC.token_iff rfl]
    rw [hereA.token, hereB.token, last]
    cases a'.token <;> try rfl
    cases b'.token <;> rfl

theorem Parser.accept_echoed (lines : StartsLine tail) (token : Token)
    (plain : token.isComment = false) (inline : token ≠ .newline) {found : Bool}
    (e : place.Echoes drops down tail place') (h : accept token place = .ok (found, next)) :
    ∃ next', accept token place' = .ok (found, next') ∧ next.Echoes drops down tail next' := by
  obtain ⟨previous, rest⟩ := place
  rcases accept_ok h with ⟨l, ls, rfl, htoken, rfl, rfl⟩ | ⟨other, rfl, rfl⟩
  · obtain ⟨_, m, ms, rfl, here, behind⟩ := e.front
    exact ⟨_, accept_run (here.token_eq htoken plain), behind⟩
  · exact ⟨place', accept_other (e.peek?_ne lines plain inline other), e⟩

theorem ReadsParameters.echoed {parameters : Option String} (lines : StartsLine tail)
    (h : ReadsParameters place parameters next) (e : place.Echoes drops down tail place')
    (complete : ∀ a b, place.rest = [a, b] → a.token = .leftBracket → b.token = .rightBracket) :
    ∃ parameters' next', ReadsParameters place' parameters' next' ∧
      parameters = parameters'.map (without drops) ∧ next.Echoes drops down tail next' := by
  have opens := e.opensTypeParameters lines complete
  cases h with
  | absent other => exact ⟨none, place', .absent (opens.trans other), rfl, e⟩
  | present found htaken =>
    obtain ⟨taken', rest', found', echoed, behind⟩ := e.group htaken
    exact ⟨_, _, .present (opens.trans found) found', congrArg some echoed.text, behind⟩

/-- A declaration stands in the echo with the docs that are collected there. -/
theorem ReadsDecl.echoed {doc doc' : List Comment} {decl : TypeDecl}
    (blank : ∀ c, drops c = true → isBlank c = true) (lines : StartsLine tail)
    (h : ReadsDecl doc place decl next) (e : place.Echoes drops down tail place')
    (docs : doc.map (Recast.below down).comment = doc'.map (Recast.without drops).comment) :
    ∃ decl' next', ReadsDecl doc' place' decl' next' ∧
      (Recast.below down).decl decl = (Recast.without drops).decl decl' ∧
      next.Echoes drops down tail next' := by
  cases h with
  | @mk _ l ls word parameters isAlias t named start behind _ htoken parameters assign reads trail
      ends =>
    obtain ⟨_, m, ms, rfl, here, afterName⟩ := e.front
    have inline : l.token ≠ .newline := fun newline => by cases newline.symm.trans htoken
    -- Two lexemes behind a name are too few for type parameters, so they start the type.
    have complete : ∀ a b, ls = [a, b] → a.token = .leftBracket → b.token = .rightBracket := by
      rintro a b rfl bracket
      cases parameters with
      | present opens => cases opens
      | absent =>
        rcases accept_ok assign with ⟨a, rest, pair, htoken, -⟩ | ⟨-, rfl, -⟩
        · cases pair
          cases bracket.symm.trans htoken
        · exact reads.slice_of_two bracket
    obtain ⟨parameters', named', readsParameters, sameParameters, afterParameters⟩ :=
      parameters.echoed lines afterName complete
    obtain ⟨start', assign', afterAssign⟩ :=
      accept_echoed lines .assign rfl nofun afterParameters assign
    obtain ⟨behind', afterType, u, reads', sameType⟩ := reads.echoed blank lines afterAssign
    obtain ⟨next', trail', reached⟩ := trailingComment_echoed lines afterType trail
    refine ⟨_, next', .mk (here.token_eq htoken rfl) readsParameters assign' reads' trail'
      (endOfItem_echoed lines reached ends), ?_, reached⟩
    simp only [Recast.decl, sameType, docs, sameParameters, here.position inline]
    cases parameters' <;> rfl

theorem ReadsGroup.echoed {decls : List TypeDecl} (blank : ∀ c, drops c = true → isBlank c = true)
    (lines : StartsLine tail) (h : ReadsGroup place decls next)
    (e : place.Echoes drops down tail place') :
    ∃ decls' next', ReadsGroup place' decls' next' ∧
      decls.map (Recast.below down).decl = decls'.map (Recast.without drops).decl ∧
      next.Echoes drops down tail next' := by
  induction h generalizing place' with
  | closed hdoc closing =>
    obtain ⟨doc', mid', hdoc', -, middle⟩ :=
      leadingComments_echoed e hdoc (.inl (List.cons_ne_nil _ _))
    obtain ⟨_, m, ms, rfl, here, behind⟩ := middle.front
    exact ⟨[], _, .closed hdoc' (here.token_eq closing rfl), rfl, behind⟩
  | more hdoc hdecl _ ih =>
    obtain ⟨l, ls, rest, -⟩ := hdecl.front
    obtain ⟨doc', mid', hdoc', docs, middle⟩ :=
      leadingComments_echoed e hdoc (.inl (rest ▸ List.cons_ne_nil _ _))
    obtain ⟨decl', behind', hdecl', same, afterDecl⟩ := hdecl.echoed blank lines middle docs
    obtain ⟨decls', next', hdecls', sameMore, reached⟩ := ih afterDecl
    refine ⟨decl' :: decls', next', .more hdoc' hdecl' hdecls', ?_, reached⟩
    rw [List.map_cons, List.map_cons, same, sameMore]

/-- The declarations behind the word `type` stand in its echo, too. -/
theorem ReadsDecls.echoed {doc doc' : List Comment} {decls : List TypeDecl}
    (blank : ∀ c, drops c = true → isBlank c = true) (lines : StartsLine tail)
    (h : ReadsDecls doc place decls next) (e : place.Echoes drops down tail place')
    (docs : doc.map (Recast.below down).comment = doc'.map (Recast.without drops).comment) :
    ∃ decls' next', ReadsDecls doc' place' decls' next' ∧
      decls.map (Recast.below down).decl = decls'.map (Recast.without drops).decl ∧
      next.Echoes drops down tail next' := by
  cases h with
  | group opens hgroup =>
    obtain ⟨_, m, ms, rfl, here, behind⟩ := e.front
    obtain ⟨decls', next', hgroup', same, reached⟩ := hgroup.echoed blank lines behind
    exact ⟨decls', next', .group (here.token_eq opens rfl) hgroup', same, reached⟩
  | single hdecl =>
    obtain ⟨decl', next', hdecl', same, reached⟩ := hdecl.echoed blank lines e docs
    exact ⟨[decl'], next', .single hdecl', congrArg (fun d => [d]) same, reached⟩

end

end Go
end FieldRules
