/-
One text behind another, with a blank line between them.

Lexing starts afresh at the newline behind a text, and a blank line parts the
comments at its end from those that follow.  So items are read from both texts as
they are from each by itself, unless the first one ends inside a declaration that is
passed over; those of the second are further down (`parse_append`).
-/
import FieldRules.Proofs.Items
import FieldRules.Proofs.Parsing

namespace FieldRules
namespace Go

open Text
open Go.Parser

/-! ### Declarations that do not end -/

namespace Parser

/-- The lexemes from each declaration on that is passed over; `fuel` bounds the number of items. -/
def passedOver : Nat → Parser (List (List Lexeme))
  | 0 => pure []
  | fuel + 1 => do
    let doc ← leadingComments
    match ← peek with
    | none => pure []
    | some .package => do
      advance
      let _ ← identifier .packageName
      passedOver fuel
    | some .type => do
      advance
      let _ ← typeDecls doc
      passedOver fuel
    | some _ => do
      let place ← get
      skipDeclaration
      let more ← passedOver fuel
      pure (place.rest :: more)

end Parser

/-- Whether a declaration that is passed over runs to the end of the text with a bracket open. -/
def SourceFile.endsOpen (source : List Char) : Bool :=
  match lex source with
  | .error _ => false
  | .ok lexemes =>
    match passedOver lexemes.length ⟨none, lexemes⟩ with
    | .error _ => false
    | .ok (declarations, _) => declarations.any fun declaration => openDepth 0 declaration != 0

theorem ReadsItems.passedOver {place : Place} {is : List Item} (h : ReadsItems place is)
    {fuel : Nat} (enough : place.rest.length ≤ fuel) :
    ∃ next, passedOver fuel place = .ok (is.filterMap Item.other?, next) := by
  induction h generalizing fuel with
  | done hdoc =>
    cases fuel with
    | zero => exact ⟨_, rfl⟩
    | succ fuel => exact ⟨_, bind_run hdoc (bind_run peek_run rfl)⟩
  | @next place mid item is here _ ih =>
    have fewer := here.length_lt
    obtain ⟨fuel, rfl⟩ : ∃ n, fuel = n + 1 := ⟨fuel - 1, by omega⟩
    obtain ⟨next, more⟩ := ih (show mid.rest.length ≤ fuel by omega)
    cases here with
    | package hdoc htoken hm =>
      refine ⟨next, bind_run hdoc (bind_run peek_run ?_)⟩
      rw [Place.peek?_cons, htoken]
      exact bind_run rfl (bind_run (identifier_run hm) more)
    | types hdoc htoken hdecls =>
      refine ⟨next, bind_run hdoc (bind_run peek_run ?_)⟩
      rw [Place.peek?_cons, htoken]
      exact bind_run rfl (bind_run hdecls more)
    | @other previous l ls doc hdoc noPackage noType =>
      refine ⟨next, bind_run hdoc (bind_run peek_run ?_)⟩
      rw [Place.peek?_cons]
      cases htoken : l.token <;> first
        | exact bind_run rfl (bind_run rfl (bind_run more rfl))
        | exact absurd htoken noPackage
        | exact absurd htoken noType

/-! ### Lexemes of two texts -/

theorem Position.below_advance (p : Position) (down : Nat) (cs : List Char) :
    (p.below down).advance cs = (p.advance cs).below down := by
  induction cs generalizing p with
  | nil => rfl
  | cons c cs ih =>
    have step : (p.below down).after c = (p.after c).below down := by
      unfold Text.Position.after Text.Position.below
      split
      · simp only [Nat.add_right_comm]
      · rfl
    show ((p.below down).after c).advance cs = _
    rw [step, ih]
    rfl

/-- No character counts for nothing. -/
def dropsNone (_ : Char) : Bool := false

theorem filter_dropsNone (cs : List Char) : cs.filter (fun c => !dropsNone c) = cs :=
  List.filter_eq_self.2 fun _ _ => rfl

theorem without_dropsNone (s : String) : Text.without dropsNone s = s := by
  rw [Text.without, filter_dropsNone, String.ofList_toList]

theorem Token.without_dropsNone (token : Token) : token.without dropsNone = token := by
  cases token <;> first
    | rfl
    | exact congrArg _ (Go.without_dropsNone _)

/-- A text is cut into the same lexemes some lines further down. -/
theorem Lexed.moved {spot : Spot} {cs : List Char} {ls : List Lexeme} (h : Lexed spot cs ls)
    {spot' : Spot} {down : Nat} (moved : spot'.position = spot.position.below down) :
    ∃ ms, Lexed spot' cs ms ∧ AreEchoed dropsNone down ls ms := by
  induction h generalizing spot' with
  | done blank => exact ⟨[], .done blank, .nil⟩
  | @next spot gap more c scanned ls blank plain hscan _ ih =>
    have here : (spot'.position.advance gap) = (spot.position.advance gap).below down := by
      rw [moved, Position.below_advance]
    have behind : ((spot'.advance gap).advance scanned.text).position =
        ((spot.advance gap).advance scanned.text).position.below down := by
      show (spot'.position.advance gap).advance scanned.text = _
      rw [here, Position.below_advance]
      rfl
    obtain ⟨ms, lexed, echoed⟩ := ih behind
    refine ⟨_, .next blank plain hscan lexed, .cons ⟨(Token.without_dropsNone _).symm,
      (filter_dropsNone _).symm, (filter_dropsNone _).symm, ?_, fun _ => ?_⟩ echoed⟩
    · show (spot'.position.advance gap).line = (spot.position.advance gap).line + down
      rw [here]
      rfl
    · show (spot'.position.advance gap).column = (spot.position.advance gap).column
      rw [here]
      rfl

/-- A newline, and what is behind it, goes on a text. -/
theorem Lexed.append_line {spot : Spot} {cs : List Char} {ls : List Lexeme} (h : Lexed spot cs ls)
    {more : List Char} {ms : List Lexeme} (hms : Lexed (spot.advance (cs ++ ['\n'])) more ms) :
    ∃ n, n.token = .newline ∧ Lexed spot (cs ++ '\n' :: more) (ls ++ n :: ms) := by
  have newline (rest : List Char) : Scans .newline ['\n'] rest := .mark rfl
  induction h with
  | @done spot gap blank =>
    rw [Spot.advance_append] at hms
    exact ⟨_, rfl, (newline more).lexed blank hms⟩
  | @next spot gap inner c scanned ls blank plain hscan _ ih =>
    have whole := (scan_heads hscan).append_rest
    have split : gap ++ c :: inner ++ ['\n'] =
        gap ++ (scanned.text ++ (scanned.rest ++ ['\n'])) := by
      rw [← whole]
      simp
    rw [split, Spot.advance_append, Spot.advance_append] at hms
    obtain ⟨n, token, lexed⟩ := ih hms
    have scans : Scans scanned.token scanned.text (scanned.rest ++ '\n' :: more) := by
      have agrees : Agrees 2 (scanned.rest ++ []) (scanned.rest ++ '\n' :: more) := by
        refine Agrees.append (.of_stop fun d hd => ?_) _
        cases hd
        rfl
      rw [List.append_nil] at agrees
      refine (scan_scans hscan).again agrees fun text comment => ?_
      have ends := (scan_scans hscan).comment_ends comment
      cases hrest : scanned.rest with
      | nil => exact fun d hd => by cases hd; rfl
      | cons d ds => rw [hrest] at ends; exact ends
    have text : gap ++ c :: inner ++ '\n' :: more =
        gap ++ (scanned.text ++ (scanned.rest ++ '\n' :: more)) := by
      rw [← whole]
      simp
    rw [text]
    exact ⟨n, token, scans.lexed blank lexed⟩

/-- Two texts with a blank line between them are cut into the lexemes of both. -/
theorem lex_append {a b : List Char} {as bs : List Lexeme} (ha : lex a = .ok as)
    (hb : lex b = .ok bs) :
    ∃ n₁ n₂ ms, n₁.token = .newline ∧ n₂.token = .newline ∧
      lex (a ++ '\n' :: '\n' :: b) = .ok (as ++ n₁ :: n₂ :: ms) ∧
      AreEchoed dropsNone (a.count '\n' + 2) bs ms := by
  have moved : ((Spot.first.advance (a ++ ['\n'])).advance ['\n']).position =
      Spot.first.position.below (a.count '\n' + 2) := by
    show (Position.first.advance (a ++ ['\n'])).after '\n' = _
    have line := advance_line Position.first (a ++ ['\n'])
    rw [List.count_append] at line
    unfold Text.Position.after Text.Position.below
    rw [if_pos rfl, line]
    simp [Spot.first, Position.first]
    omega
  obtain ⟨ms, lexed, echoed⟩ := (lex_lexed hb).moved moved
  have newline : Scans .newline ['\n'] b := .mark rfl
  obtain ⟨n₁, token, whole⟩ := (lex_lexed ha).append_line (newline.lexed isGap_nil lexed)
  exact ⟨n₁, _, ms, token, rfl, Lexed.lex whole, echoed⟩

/-! ### Comments at the end of a text -/

section

variable {previous : Option Lexeme} {n n₁ n₂ : Lexeme} {lead ms : List Lexeme}

theorem Place.previousLine?_newline (h : n.token = .newline) :
    (Place.mk (some n) ms).previousLine? = none := by
  unfold Place.previousLine?
  simp only [h]
  rfl

/-- Without a comment in the group the newlines before it do not count. -/
theorem CommentGroup.collect_newlines (k k' : Nat) (previous : Option Lexeme) (ls : List Lexeme) :
    (CommentGroup.collect ⟨[], k, none⟩ previous ls).1.comments =
        (CommentGroup.collect ⟨[], k', none⟩ previous ls).1.comments ∧
      (CommentGroup.collect ⟨[], k, none⟩ previous ls).2 =
        (CommentGroup.collect ⟨[], k', none⟩ previous ls).2 := by
  have bare (k : Nat) : CommentGroup.newline ⟨[], k, none⟩ = ⟨[], k + 1, none⟩ := by
    unfold newline
    split <;> rfl
  induction ls generalizing k k' previous with
  | nil => exact ⟨rfl, rfl⟩
  | cons l ls ih =>
    unfold collect take?
    cases l.token <;> dsimp only <;> first
      | exact ⟨rfl, rfl⟩
      | rw [bare, bare]; exact ih _ _ _

/-- No comment is kept behind two newlines. -/
theorem leadingComments_blank (above : ∀ l ∈ lead, isAbove l.token = true)
    (first : n₁.token = .newline) (second : n₂.token = .newline) :
    leadingComments ⟨previous, lead ++ n₁ :: n₂ :: ms⟩ = leadingComments ⟨some n₂, ms⟩ := by
  have behind (g : CommentGroup) (previous : Option Lexeme) :
      (g.collect previous (lead ++ n₁ :: n₂ :: ms)).1.comments =
          (CommentGroup.collect ⟨[], 0, none⟩ (some n₂) ms).1.comments ∧
        (g.collect previous (lead ++ n₁ :: n₂ :: ms)).2 =
          (CommentGroup.collect ⟨[], 0, none⟩ (some n₂) ms).2 := by
    induction lead generalizing g previous with
    | nil =>
      have two : g.newline.newline = ⟨[], g.newlines + 1 + 1, none⟩ := by
        unfold CommentGroup.newline
        simp
      rw [List.nil_append, CommentGroup.collect, CommentGroup.take?, first]
      dsimp only
      rw [CommentGroup.collect, CommentGroup.take?, second]
      dsimp only
      rw [two]
      exact CommentGroup.collect_newlines _ _ _ _
    | cons l lead ih =>
      obtain ⟨here, more⟩ := List.forall_mem_cons.1 above
      obtain ⟨next, taken⟩ := (g.take?_above l).2 here
      rw [List.cons_append, CommentGroup.collect, taken]
      exact ih more next (some l)
  unfold leadingComments
  obtain ⟨comments, place⟩ :=
    behind ⟨[], 0, (Place.mk previous (lead ++ n₁ :: n₂ :: ms)).previousLine?⟩ previous
  simp only [Place.previousLine?_newline second, comments, place]

/-- Neither does a newline behind a newline. -/
theorem leadingComments_newline (first : n₁.token = .newline) (second : n₂.token = .newline) :
    leadingComments ⟨some n₁, n₂ :: ms⟩ = leadingComments ⟨some n₂, ms⟩ := by
  unfold leadingComments
  rw [Place.previousLine?_newline first, Place.previousLine?_newline second, CommentGroup.collect,
    CommentGroup.take?, second]
  dsimp only
  obtain ⟨comments, place⟩ := CommentGroup.collect_newlines 1 0 (some n₂) ms
  rw [show CommentGroup.newline ⟨[], 0, none⟩ = ⟨[], 1, none⟩ from rfl]
  simp only [comments, place]

end

theorem AreEchoed.isAbove {drops : Char → Bool} {down : Nat} {ls ms : List Lexeme}
    (e : AreEchoed drops down ls ms) (above : ∀ l ∈ ls, isAbove l.token = true) :
    ∀ m ∈ ms, isAbove m.token = true := by
  induction e with
  | nil => exact fun m hm => nomatch hm
  | @cons l m ls ms here _ ih =>
    obtain ⟨first, more⟩ := List.forall_mem_cons.1 above
    refine List.forall_mem_cons.2 ⟨?_, ih more⟩
    rw [here.token] at first
    cases htoken : m.token <;> rw [htoken] at first <;> first
      | rfl
      | cases first

/-! ### Items of two texts -/

theorem ReadsItems.congr {place place' : Place} {is : List Item} (h : ReadsItems place is)
    (same : leadingComments place' = leadingComments place) : ReadsItems place' is := by
  cases h with
  | done hdoc => exact .done (same.trans hdoc)
  | next here more =>
    refine .next ?_ more
    cases here with
    | package hdoc htoken hm => exact .package (same.trans hdoc) htoken hm
    | types hdoc htoken hdecls => exact .types (same.trans hdoc) htoken hdecls
    | other hdoc noPackage noType => exact .other (same.trans hdoc) noPackage noType

theorem ReadsItems.eq_nil {place : Place} {is : List Item} (h : ReadsItems place is)
    (ended : place.rest = []) : is = [] := by
  cases h with
  | done => rfl
  | next here =>
    have fewer := here.length_lt
    rw [ended] at fewer
    exact absurd fewer (Nat.not_lt_zero _)

/-- Where no character is dropped the declarations of an echo are the same, further down. -/
theorem Recast.decls_eq {down : Nat} {as bs : List TypeDecl}
    (same : as.map (below down).decl = bs.map (without dropsNone).decl) :
    bs = as.map (below down).decl := by
  have kept : (without dropsNone).decl = id :=
    funext fun d => decl_id without_dropsNone (fun _ => rfl) d
  rw [same, kept, List.map_id]

/-- Items behind a blank line go on those of a text that does not end inside a declaration. -/
theorem ReadsItems.append {n₁ n₂ : Lexeme} {ms : List Lexeme} {place place' : Place}
    {is js : List Item} (h : ReadsItems place is) (first : n₁.token = .newline)
    (second : n₂.token = .newline) (behind : ReadsItems ⟨some n₂, ms⟩ js)
    (closed : ∀ rest ∈ is.filterMap Item.other?, openDepth 0 rest = 0)
    (e : place.Echoes dropsNone 0 (n₁ :: n₂ :: ms) place') :
    ∃ is', ReadsItems place' (is' ++ js) ∧ is'.flatMap Item.decls = is.flatMap Item.decls := by
  have blank : ∀ c, dropsNone c = true → isBlank c = true := fun c dropped => nomatch dropped
  have lines : StartsLine (n₁ :: n₂ :: ms) := fun l hl => by cases hl; exact first
  induction h generalizing place' with
  | @done place previous doc hdoc =>
    obtain ⟨lead, split, above, -⟩ := leadingComments_above hdoc
    rw [List.append_nil] at split
    obtain ⟨-, lead', rest, echoed⟩ := e
    rw [split] at echoed
    have above' := echoed.isAbove above
    obtain ⟨previous', rest'⟩ := place'
    obtain rfl : rest' = lead' ++ n₁ :: n₂ :: ms := rest
    exact ⟨[], behind.congr (leadingComments_blank above' first second), rfl⟩
  | @next place mid item is here more ih =>
    have closedHere : ∀ rest ∈ item.other?, openDepth 0 rest = 0 ∨ n₁ :: n₂ :: ms = [] :=
      fun rest hrest => .inl (closed rest (List.mem_filterMap.2 ⟨item, List.mem_cons_self, hrest⟩))
    have closedMore : ∀ rest ∈ is.filterMap Item.other?, openDepth 0 rest = 0 := by
      intro rest hrest
      obtain ⟨other, hother, found⟩ := List.mem_filterMap.1 hrest
      exact closed rest (List.mem_filterMap.2 ⟨other, List.mem_cons_of_mem _ hother, found⟩)
    obtain ⟨item', mid', here', -, same, after | ⟨ended, n, others, tail, rfl⟩⟩ :=
      here.echoed blank lines closedHere e
    · obtain ⟨is', reads, sameMore⟩ := ih closedMore after
      refine ⟨item' :: is', .next here' reads, ?_⟩
      rw [List.flatMap_cons, List.flatMap_cons, sameMore, Recast.decls_eq same, Recast.map_below_zero]
    · cases tail
      obtain rfl := more.eq_nil ended
      refine ⟨[item'], .next here' (behind.congr (leadingComments_newline first second)), ?_⟩
      rw [List.flatMap_cons, List.flatMap_cons, Recast.decls_eq same, Recast.map_below_zero]

theorem Item.lastPackage_append (package : Option String) (is js : List Item) :
    lastPackage package (is ++ js) = lastPackage (lastPackage package is) js := by
  induction is generalizing package with
  | nil => rfl
  | cons item is ih => exact ih _

/-- A package that is named does not depend on one before. -/
theorem Item.lastPackage_some {is : List Item} {name : String}
    (h : lastPackage none is = some name) (package : Option String) :
    lastPackage package is = some name := by
  induction is generalizing package with
  | nil => cases h
  | cons item is ih =>
    unfold lastPackage at h ⊢
    cases found : item.package? with
    | none => rw [found] at h; exact ih h _
    | some named => rw [found] at h; exact h

namespace SourceFile

/-- Two texts that can be parsed, with a blank line between them, are parsed to the declarations of
both, those of the second moved down below the first, and to the package of the second. -/
theorem parse_append {a b : List Char} {fileA fileB : SourceFile} (parsedA : parse a = .ok fileA)
    (parsedB : parse b = .ok fileB) (closed : endsOpen a = false) :
    parse (a ++ '\n' :: '\n' :: b) = .ok
      ⟨fileB.package,
        fileA.decls ++ fileB.decls.map (Recast.below (a.count '\n' + 2)).decl⟩ := by
  obtain ⟨as, is, hlexA, readsA, -, declsA⟩ := parse_iff.1 parsedA
  obtain ⟨bs, js, hlexB, readsB, package, declsB⟩ := parse_iff.1 parsedB
  obtain ⟨n₁, n₂, ms, first, second, hlex, echoed⟩ := lex_append hlexA hlexB
  have blank : ∀ c, dropsNone c = true → isBlank c = true := fun c dropped => nomatch dropped
  have start : (Place.mk none bs).Echoes dropsNone (a.count '\n' + 2) [] ⟨some n₂, ms⟩ := by
    exact ⟨Place.previousLine?_newline second, ms, (List.append_nil ms).symm, echoed⟩
  obtain ⟨js', behind, packages, same⟩ := readsB.echoed blank start
  have whole : (Place.mk none as).Echoes dropsNone 0 (n₁ :: n₂ :: ms)
      ⟨none, as ++ n₁ :: n₂ :: ms⟩ :=
    ⟨rfl, as, rfl, List.forall₂_same.2 fun l _ => ⟨(Token.without_dropsNone _).symm,
      (filter_dropsNone _).symm, (filter_dropsNone _).symm, rfl, fun _ => rfl⟩⟩
  have inside : ∀ rest ∈ is.filterMap Item.other?, openDepth 0 rest = 0 := by
    obtain ⟨next, found⟩ :=
      readsA.passedOver (show (Place.mk none as).rest.length ≤ as.length from Nat.le_refl _)
    unfold endsOpen at closed
    rw [hlexA] at closed
    simp only [found, List.any_eq_false] at closed
    exact fun rest hrest => by simpa using closed rest hrest
  obtain ⟨is', reads, sameA⟩ := readsA.append first second behind inside whole
  refine parse_iff.2 ⟨_, is' ++ js', hlex, reads, ?_, ?_⟩
  · rw [Item.lastPackage_append, packages]
    exact Item.lastPackage_some package _
  · rw [List.flatMap_append, sameA, Recast.decls_eq same, declsA, declsB]

/-- A text that ends with a comment behind a declaration that is passed over. -/
def passing : String := "package a\n\nimport (\n\t\"x\"\n)

// T comes first.
type T struct \x7b F int \x7d // t

func f(p []int) \x7b
\x7d // end"

/-- A text that starts with a comment. -/
def documented : String := "// Comes last.
package b

// U has one field.
type U struct \x7b
\t// G is above it.
\tG [2]int \x60json:\"g\"\x60
\x7d"

set_option maxRecDepth 4000 in
theorem parse_append_passing :
    ∃ fileA fileB, parse passing.toList = .ok fileA ∧ parse documented.toList = .ok fileB ∧
      endsOpen passing.toList = false ∧
      fileA.decls.map (fun decl => (decl.name, decl.position)) = [("T", ⟨8, 6⟩)] ∧
      fileB.decls.map (fun decl => (decl.name, decl.position)) = [("U", ⟨5, 6⟩)] ∧
      passing.toList.count '\n' = 10 ∧
      parse (passing.toList ++ '\n' :: '\n' :: documented.toList) = .ok
        ⟨fileB.package, fileA.decls ++
          fileB.decls.map (Recast.below (passing.toList.count '\n' + 2)).decl⟩ := by
  obtain ⟨fileA, parsedA, declsA⟩ := exists_parse (rfl : passing = _)
    (p := fun file => file.decls.map (fun decl => (decl.name, decl.position)) == [("T", ⟨8, 6⟩)])
    (by decide +kernel)
  obtain ⟨fileB, parsedB, declsB⟩ := exists_parse (rfl : documented = _)
    (p := fun file => file.decls.map (fun decl => (decl.name, decl.position)) == [("U", ⟨5, 6⟩)])
    (by decide +kernel)
  have closed : endsOpen passing.toList = false := by
    rw [show passing = String.ofList _ from rfl, String.toList_ofList]
    decide +kernel
  have lines : passing.toList.count '\n' = 10 := by
    rw [show passing = String.ofList _ from rfl, String.toList_ofList]
    decide +kernel
  exact ⟨fileA, fileB, parsedA, parsedB, closed, beq_iff_eq.1 declsA, beq_iff_eq.1 declsB, lines,
    parse_append parsedA parsedB closed⟩

end SourceFile

end Go
end FieldRules
