/-
Types of a source are read back from their texts.

A definite type of a source is written as text from which it is read as the type of
a field again (`parse_render`).  A channel of receive-only channels is not definite:
the channels of `chan (<-chan int)` come back as `chan<- (chan int)`.
-/
import FieldRules.Proofs.Parsing
import FieldRules.Proofs.Rendering

namespace FieldRules
namespace Go

open Text
open Go.Parser

/-! ### The types of a source -/

/-- The type of a declaration is read from some of the lexemes. -/
def TypeDecl.IsReadIn (lexemes : List Lexeme) (decl : TypeDecl) : Prop :=
  ∃ place next, place.rest <:+ lexemes ∧ Reads place (.type decl.type) next

section

variable {lexemes : List Lexeme} {place next : Place} {doc : List Comment} {decl : TypeDecl}
  {decls : List TypeDecl}

theorem ReadsDecl.isReadIn (h : ReadsDecl doc place decl next) (within : place.rest <:+ lexemes) :
    decl.IsReadIn lexemes := by
  cases h with
  | mk _ parameters assign reads _ _ =>
    obtain ⟨taken, split⟩ := parameters.within
    have start := (Passes.of_rest taken split).after (accept_passes assign)
    exact ⟨_, _, (Passes.one.after start).within within, reads⟩

theorem ReadsGroup.isReadIn (h : ReadsGroup place decls next) (within : place.rest <:+ lexemes) :
    ∀ decl ∈ decls, decl.IsReadIn lexemes := by
  induction h with
  | closed => exact List.forall_mem_nil _
  | more hdoc hdecl _ ih =>
    have start := (leadingComments_passes hdoc).within within
    exact List.forall_mem_cons.2 ⟨hdecl.isReadIn start, ih (hdecl.passes.within start)⟩

theorem ReadsDecls.isReadIn (h : ReadsDecls doc place decls next)
    (within : place.rest <:+ lexemes) : ∀ decl ∈ decls, decl.IsReadIn lexemes := by
  cases h with
  | group _ hgroup => exact hgroup.isReadIn (Passes.one.within within)
  | single hdecl => exact List.forall_mem_singleton.2 (hdecl.isReadIn within)

theorem ReadsItem.isReadIn {item : Item} (h : ReadsItem place item next)
    (within : place.rest <:+ lexemes) : ∀ decl ∈ item.decls, decl.IsReadIn lexemes := by
  cases h with
  | package => exact List.forall_mem_nil _
  | other => exact List.forall_mem_nil _
  | types hdoc _ hdecls =>
    have keyword := ((leadingComments_passes hdoc).forget.after .one).within within
    exact (typeDecls_reads hdecls).isReadIn keyword

theorem ReadsItems.isReadIn {is : List Item} (h : ReadsItems place is)
    (within : place.rest <:+ lexemes) : ∀ decl ∈ is.flatMap Item.decls, decl.IsReadIn lexemes := by
  induction h with
  | done => exact List.forall_mem_nil _
  | next here _ ih =>
    exact List.forall_mem_append.2 ⟨here.isReadIn within, ih (here.passes.within within)⟩

end

/-- The types of a source are read from its lexemes. -/
theorem parse_isReadIn {source : List Char} {file : SourceFile}
    (parsed : SourceFile.parse source = .ok file) :
    ∃ lexemes, lex source = .ok lexemes ∧ ∀ decl ∈ file.decls, decl.IsReadIn lexemes := by
  obtain ⟨lexemes, is, hlex, reads, -, declared⟩ := parse_iff.1 parsed
  exact ⟨lexemes, hlex, declared ▸ reads.isReadIn (List.suffix_refl lexemes)⟩

theorem isLexed_of_suffix {source : List Char} {lexemes rest : List Lexeme}
    (hlex : lex source = .ok lexemes) (within : rest <:+ lexemes) : IsLexed rest := by
  obtain ⟨before, rfl⟩ := within
  have lexed : IsLexed (before ++ rest) := ⟨_, _, lex_lexed hlex⟩
  exact lexed.behind

/-- What is definite of the types of a source is written so that it is read back. -/
theorem parse_allPrint {source : List Char} {file : SourceFile}
    (parsed : SourceFile.parse source = .ok file) : ∀ decl ∈ file.decls, decl.type.AllPrint := by
  obtain ⟨lexemes, hlex, read⟩ := parse_isReadIn parsed
  intro decl hdecl
  obtain ⟨place, last, within, reads⟩ := read decl hdecl
  exact reads.allPrint (isLexed_of_suffix hlex within)

/-! ### A source around a type -/

/-- A source with a field of the type that is written so. -/
def fieldSource (text : String) : String :=
  "package p\n\ntype T struct \x7b F " ++ text ++ " \x7d\n"

/-- What a text is cut into by itself it is also cut into in front of a rest. -/
theorem lexes_alone {text : List Char} {tokens : List Token}
    (h : (lex text).toOption.any (fun lexemes =>
      spanText lexemes == text && lexemes.map (·.token) == tokens) = true)
    (filled : tokens ≠ []) (closed : ∀ comment, tokens.getLast? ≠ some (.lineComment comment)) :
    Lexes text continuesToken fun ls => ls.map (·.token) = tokens := by
  cases hlex : lex text with
  | error e =>
    rw [hlex] at h
    cases h
  | ok lexemes =>
    rw [hlex] at h
    obtain ⟨whole, found⟩ := Bool.and_eq_true_iff.1 h
    have whole := beq_iff_eq.1 whole
    have found := beq_iff_eq.1 found
    subst found
    cases lexemes with
    | nil => exact absurd rfl filled
    | cons l ls =>
      have lexed : IsLexed (l :: (ls ++ [])) :=
        ⟨_, _, by rw [List.append_nil]; exact lex_lexed hlex⟩
      rw [← whole]
      refine (lexed.lexes fun k hk comment comments => closed comment ?_).imp
        (fun _ ends => ends) ?_
      · rw [List.getLast?_map, Option.mem_def.1 hk]
        exact congrArg some comments
      · rintro ms ⟨down, copies⟩
        exact copies.tokens

/-- The text of a field source, around the struct with the field. -/
theorem lexes_fieldSource {t : TypeExpr} (h : t.Prints) (position : Position) :
    Lexes (fieldSource t.render).toList continuesToken fun ls => ∃ before ms n,
      ls = before ++ (ms ++ [n]) ∧
      before.map (·.token) =
        [.package, .identifier "p", .newline, .newline, .type, .identifier "T"] ∧
      ReadAs (.struct [⟨["F"], false, t, none, [], position⟩]) ms ∧ n.token = .newline := by
  have first : "package p\n\ntype T struct \x7b F ".toList =
      "package p\n\ntype T".toList ++ ' ' :: "struct \x7b F ".toList := by decide +kernel
  have last : " \x7d\n".toList = [' ', '\x7d'] ++ ['\n'] := rfl
  have inner : (TypeExpr.struct [⟨["F"], false, t, none, [], position⟩]).render.toList =
      "struct \x7b F ".toList ++ (t.render.toList ++ [' ', '\x7d']) := by
    simp [TypeExpr.render, TypeExpr.renderField, TypeExpr.renderMore]
  have text : (fieldSource t.render).toList = "package p\n\ntype T".toList ++ ' ' ::
      ((TypeExpr.struct [⟨["F"], false, t, none, [], position⟩]).render.toList ++ ['\n']) := by
    unfold fieldSource
    rw [inner, String.toList_append, String.toList_append, first, last]
    simp only [List.append_assoc, List.cons_append]
  have field : Field.Prints ⟨["F"], false, t, none, [], position⟩ :=
    h.field ⟨by decide, by decide⟩ (fun _ hname => (List.not_mem_nil hname).elim)
      (fun _ hquoted => (Option.not_mem_none _ hquoted).elim) [] position
  have closing : Lexes ['\n'] continuesToken fun ls => ∃ n, ls = [n] ∧ n.token = .newline :=
    lexes_token fun rest _ => .mark rfl
  have opening : Lexes "package p\n\ntype T".toList continuesToken fun ls =>
      ls.map (·.token) =
        [.package, .identifier "p", .newline, .newline, .type, .identifier "T"] :=
    lexes_alone (by decide +kernel) (List.cons_ne_nil _ _) fun comment same => by cases same
  rw [text]
  have struct := (prints_struct (List.forall_mem_singleton.2 field)).append closing
    (R := fun ls => ∃ ms n, ls = ms ++ [n] ∧
      ReadAs (.struct [⟨["F"], false, t, none, [], position⟩]) ms ∧ n.token = .newline)
    (fun rest _ c hc => by cases hc; rfl) (by
      rintro ms _ hms ⟨n, rfl, newline⟩
      exact ⟨ms, n, rfl, hms, newline⟩)
  refine opening.append struct.space (fun rest _ c hc => by cases hc; rfl) ?_
  rintro before _ hbefore ⟨ms, n, rfl, hms, newline⟩
  exact ⟨before, ms, n, rfl, hbefore, hms, newline⟩

/-- A struct behind a name is declared with that name. -/
theorem ReadsDecls.struct {previous last : Option Lexeme} {l m n : Lexeme} {ls ns : List Lexeme}
    {word : String} {t : TypeExpr} {doc : List Comment} (hl : l.token = .identifier word)
    (hm : m.token = .struct) (h : Reads ⟨some l, m :: ls⟩ (.type t) ⟨last, n :: ns⟩)
    (newline : n.token = .newline) :
    ReadsDecls doc ⟨previous, l :: m :: ls⟩ [⟨word, none, false, t, doc, l.position⟩]
      ⟨last, n :: ns⟩ := by
  have plain : opensTypeParameters ⟨some l, m :: ls⟩ = false := by
    unfold opensTypeParameters
    split <;> simp_all
  have noAssign : (Place.mk (some l) (m :: ls)).peek? ≠ some .assign := by
    rw [Place.peek?_cons, hm]
    exact nofun
  exact .single (.mk hl (.absent plain) (accept_other noAssign) h
    (trailingComment_newline newline last) (endOfItem_newline newline last))

/-- A struct that is read starts with its keyword. -/
theorem Reads.struct_front {place next : Place} {fs : List Field}
    (h : Reads place (.type (.struct fs)) next) (bare : place.peek? ≠ some .leftParen) :
    place.peek? = some .struct := by
  cases h with
  | name _ base => cases base
  | struct hl => exact congrArg some hl
  | paren hl => exact absurd (congrArg some hl) bare

/-- The declaration of a field source is read. -/
theorem ofLexemes_fieldSource {fs : List Field} {before ms : List Lexeme} {n : Lexeme}
    (hbefore : before.map (·.token) =
      [.package, .identifier "p", .newline, .newline, .type, .identifier "T"])
    (hms : ReadAs (.struct fs) ms) (hn : n.token = .newline) :
    ∃ decl, SourceFile.ofLexemes (before ++ (ms ++ [n])) = .ok ⟨"p", [decl]⟩ ∧ decl.name = "T" ∧
      (TypeExpr.struct fs).same decl.type := by
  simp only [List.map_eq_cons_iff, List.map_eq_nil_iff] at hbefore
  obtain ⟨a, _, rfl, ha, b, _, rfl, hb, c, _, rfl, hc, d, _, rfl, hd, e, _, rfl, he, l, _, rfl,
    hl, rfl⟩ := hbefore
  obtain ⟨m, more, rfl, starts⟩ := hms.starts
  obtain ⟨last, u, reads, same⟩ := hms.reads (some l) [n] (by rw [front_cons, hn]; rfl)
  have hm : m.token = .struct := by
    cases u with
    | struct gs =>
      refine Option.some.inj (reads.struct_front fun paren => ?_)
      exact (startsResult_plain starts).2.2 (Option.some.inj paren)
    | _ => cases same
  have blank : ∀ k ∈ [c, d], isAbove k.token = true := by
    simp [hc, hd, isAbove, Token.isTrivia]
  obtain ⟨above, first, hdoc⟩ := leadingComments_before none (List.forall_mem_nil _)
    (by rw [ha]; rfl) (b :: c :: d :: e :: l :: (m :: more ++ [n]))
  obtain ⟨doc, second, hdoc'⟩ := leadingComments_before (some b) blank (by rw [he]; rfl)
    (l :: (m :: more ++ [n]))
  obtain ⟨_, _, hend⟩ := leadingComments_end last (isAbove_newline hn)
  have declared : ReadsDecls doc ⟨some e, l :: (m :: more ++ [n])⟩
      [⟨"T", none, false, u, doc, l.position⟩] ⟨last, [n]⟩ := .struct hl hm reads hn
  have items : ReadsItems ⟨none, [a, b, c, d, e, l] ++ (m :: more ++ [n])⟩
      [.package "p", .types [⟨"T", none, false, u, doc, l.position⟩]] :=
    .next (.package hdoc ha hb) (.next (.types hdoc' he declared.run) (.done hend))
  exact ⟨_, ofLexemes_iff.2 ⟨_, items, rfl, rfl⟩, rfl, same⟩

theorem TypeExpr.sameField_iff {f g : Field} : sameField f g = true ↔
    f.names = g.names ∧ f.embedded = g.embedded ∧ f.type.same g.type = true ∧ f.tag = g.tag := by
  cases f
  cases g
  simp [sameField, and_assoc]

/-- A type that is the same as a struct with one field. -/
theorem TypeExpr.same_struct {f : Field} {t : TypeExpr} (h : (struct [f]).same t = true) :
    ∃ g, t = struct [g] ∧ sameField f g = true := by
  cases t with
  | struct gs =>
    cases gs with
    | nil => cases h
    | cons g gs =>
      obtain ⟨first, more⟩ := Bool.and_eq_true_iff.1 h
      cases gs with
      | nil => exact ⟨g, rfl, first⟩
      | cons => cases more
  | _ => cases h

/-- A source with a field of a type that is read back. -/
theorem parse_fieldSource {t : TypeExpr} (h : t.Prints) :
    ∃ decl field, SourceFile.parse (fieldSource t.render).toList = .ok ⟨"p", [decl]⟩ ∧
      decl.name = "T" ∧ decl.type = .struct [field] ∧ field.names = ["F"] ∧
      field.embedded = false ∧ field.tag = none ∧ t.same field.type = true := by
  obtain ⟨ls, lexed, before, ms, n, rfl, hbefore, hms, hn⟩ :=
    (lexes_fieldSource h Spot.first.position).lex
  obtain ⟨decl, parsed, name, same⟩ := ofLexemes_fieldSource hbefore hms hn
  have whole : SourceFile.parse (fieldSource t.render).toList = .ok ⟨"p", [decl]⟩ := by
    unfold SourceFile.parse
    rw [lexed]
    exact parsed
  obtain ⟨field, htype, sameField⟩ := TypeExpr.same_struct same
  obtain ⟨names, embedded, sameType, tag⟩ := TypeExpr.sameField_iff.1 sameField
  exact ⟨decl, field, whole, name, htype, names.symm, embedded.symm, tag.symm, sameType⟩

/-- Every definite type within a declaration of a source that is read, written as text and read from
it as the type of a field, is the same type again. -/
theorem parse_render {source : List Char} {file : SourceFile}
    (parsed : SourceFile.parse source = .ok file) :
    ∀ decl ∈ file.decls, ∀ t ∈ decl.type.parts, t.IsDefinite →
      ∃ other field, SourceFile.parse (fieldSource t.render).toList = .ok ⟨"p", [other]⟩ ∧
        other.name = "T" ∧ other.type = .struct [field] ∧ field.names = ["F"] ∧
        field.embedded = false ∧ field.tag = none ∧ t.same field.type = true :=
  fun decl hdecl t ht definite => parse_fieldSource (parse_allPrint parsed decl hdecl t ht definite)

/-- A source with types of every form. -/
def nested : String :=
  "package p
  type T struct \x7b
    A, B map[string]chan<- (<-chan *int)
    C [ 2 * (n + 1) ]func(a int, b ...q.X) (c []int)
    D []struct \x7b E, F Pair[int, string] \x60json:\"f\"\x60; *q.Y \"y\" \x7d
    G interface\x7b M(); ~int | string \x7d
    q.List[map[string]int]
  \x7d
  type S struct\x7b\x7d
  "

/-- The names of all fields with what their types are written as. -/
def TypeExpr.fieldTypes (t : TypeExpr) : List (List String × String) :=
  t.parts.flatMap fun part =>
    match part with
    | struct fields => fields.map fun field => (field.names, field.type.render)
    | _ => []

def nestedTypes : List (List (List String × String)) :=
  [[(["A", "B"], "map[string]chan<- <-chan *int"),
    (["C"], "[2 * (n + 1)]func(a int, b ...q.X) (c []int)"),
    (["D"], "[]struct \x7b E, F Pair[int, string] \x60json:\"f\"\x60; *q.Y \"y\" \x7d"),
    (["G"], "interface\x7b M(); ~int | string \x7d"),
    (["List"], "q.List[map[string]int]"),
    (["E", "F"], "Pair[int, string]"),
    (["Y"], "*q.Y")], []]

set_option maxRecDepth 4000 in
theorem parse_render_nested :
    ∃ file, SourceFile.parse nested.toList = .ok file ∧
      file.decls.map (·.type.fieldTypes) = nestedTypes ∧
      ∀ decl ∈ file.decls, ∀ t ∈ decl.type.parts, t.IsDefinite ∧
        ∃ other field, SourceFile.parse (fieldSource t.render).toList = .ok ⟨"p", [other]⟩ ∧
          other.name = "T" ∧ other.type = .struct [field] ∧ field.names = ["F"] ∧
          field.embedded = false ∧ field.tag = none ∧ t.same field.type = true := by
  obtain ⟨file, parsed, facts⟩ := exists_parse (rfl : nested = _)
    (p := fun file => file.decls.map (·.type.fieldTypes) == nestedTypes &&
      file.decls.all fun decl => decl.type.parts.all fun t => t.parts.all fun u => !u.isAmbiguous)
    (by decide +kernel)
  obtain ⟨types, definite⟩ := Bool.and_eq_true_iff.1 facts
  refine ⟨file, parsed, beq_iff_eq.1 types, fun decl hdecl t ht => ?_⟩
  have isDefinite : t.IsDefinite := fun u hu => by
    have inDecl := List.all_eq_true.1 definite decl hdecl
    simpa using List.all_eq_true.1 (List.all_eq_true.1 inDecl t ht) u hu
  exact ⟨isDefinite, parse_render parsed decl hdecl t ht isDefinite⟩

/-- A source with a channel of receive-only channels. -/
def receivers : String := "package p\n\ntype T struct \x7b F chan (<-chan int) \x7d\n"

/-- The same source with the type as it is written. -/
def receiversWritten : String := "package p\n\ntype T struct \x7b F chan <-chan int \x7d\n"

/-- A channel of receive-only channels is none of the types that come back. -/
theorem parse_render_receivers :
    ∃ file, SourceFile.parse receivers.toList = .ok file ∧
      ∃ decl ∈ file.decls, ∃ t ∈ decl.type.parts, t.render = "chan <-chan int" ∧
        ∃ again, SourceFile.parse (fieldSource t.render).toList = .ok again ∧
          ∀ other ∈ again.decls, ∀ u ∈ other.type.parts, t.same u = false := by
  obtain ⟨file, parsed, facts⟩ := exists_parse (rfl : receivers = _)
    (p := fun file => (SourceFile.parse receiversWritten.toList).toOption.any fun again =>
      file.decls.any fun decl => decl.type.parts.any fun t => t.render == "chan <-chan int" &&
        again.decls.all fun other => other.type.parts.all fun u => !t.same u)
    (by decide +kernel)
  have written : fieldSource "chan <-chan int" = receiversWritten := by decide +kernel
  cases parsedAgain : SourceFile.parse receiversWritten.toList with
  | error e =>
    rw [parsedAgain] at facts
    cases facts
  | ok again =>
    rw [parsedAgain] at facts
    obtain ⟨decl, hdecl, facts⟩ := List.any_eq_true.1 facts
    obtain ⟨t, ht, facts⟩ := List.any_eq_true.1 facts
    obtain ⟨text, others⟩ := Bool.and_eq_true_iff.1 facts
    have text := beq_iff_eq.1 text
    refine ⟨file, parsed, decl, hdecl, t, ht, text, again, ?_, fun other hother u hu => ?_⟩
    · rw [text, written]
      exact parsedAgain
    · have different := List.all_eq_true.1 (List.all_eq_true.1 others other hother) u hu
      rwa [Bool.not_eq_true'] at different

end Go
end FieldRules
