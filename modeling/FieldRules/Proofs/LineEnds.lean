/-
Carriage returns at the ends of lines do not count.

No marker sees the return that may end its line (`onLine?_return`), and the texts
that types keep have none in them, if they have no newline.  So a source compiles to
the same with a return before each newline (`compile_withReturns`).
-/
import FieldRules.Proofs.Items
import FieldRules.Proofs.MarkerLines
import FieldRules.Proofs.Returns
import FieldRules.Proofs.Verbatim
import FieldRules.Proofs.Written

namespace FieldRules

open Go Text

/-! ### Marker lines before a return -/

namespace Text

variable {cs : List Char}

/-- What is trimmed does not end with white space. -/
theorem trim_last (cs : List Char) : ∀ c ∈ (trim cs).getLast?, isBlank c = false := by
  obtain ⟨front, core, behind, rfl, blankFront, blankBehind, head, last⟩ := exists_core isBlank cs
  rwa [trim_eq blankFront blankBehind head last]

/-- Characters that are no separators can be left out of the pieces. -/
theorem splitAt_filter {p q : Char → Bool} (keeps : ∀ c, p c = true → q c = true) (cs : List Char) :
    splitAt p (cs.filter q) = (splitAt p cs).map (List.filter q) := by
  induction cs with
  | nil => rfl
  | cons c cs ih =>
    obtain ⟨first, more, pieces⟩ := List.exists_cons_of_ne_nil (splitAt_ne_nil p cs)
    by_cases separates : p c = true
    · rw [List.filter_cons_of_pos (keeps c separates), splitAt, splitAt, if_pos separates,
        if_pos separates, ih]
      rfl
    · by_cases keep : q c = true
      · rw [List.filter_cons_of_pos keep, splitAt, splitAt, if_neg separates, if_neg separates, ih,
          pieces]
        simp only [List.map_cons, consFirst, List.filter_cons_of_pos keep]
      · rw [List.filter_cons_of_neg keep, splitAt, if_neg separates, ih, pieces]
        simp only [List.map_cons, consFirst, List.filter_cons_of_neg keep]

theorem splitAt_within {p : Char → Bool} {piece : List Char} (h : piece ∈ splitAt p cs) :
    piece <:+: cs := by
  -- The first piece is a prefix: a character may still come in front of it.
  have pieces : ∃ first more, splitAt p cs = first :: more ∧ first <+: cs ∧
      ∀ piece ∈ more, piece <:+: cs := by
    clear h
    induction cs with
    | nil => exact ⟨[], [], rfl, List.nil_prefix, fun _ hpiece => nomatch hpiece⟩
    | cons c cs ih =>
      obtain ⟨first, more, split, before, inside⟩ := ih
      have further : ∀ piece ∈ more, piece <:+: c :: cs :=
        fun piece hpiece => (inside piece hpiece).trans (List.suffix_cons c cs).isInfix
      rw [splitAt, split]
      by_cases separates : p c = true
      · rw [if_pos separates]
        exact ⟨[], _, rfl, List.nil_prefix, List.forall_mem_cons.2
          ⟨before.isInfix.trans (List.suffix_cons c cs).isInfix, further⟩⟩
      · rw [if_neg separates]
        exact ⟨_, more, rfl, List.cons_prefix_cons.2 ⟨rfl, before⟩, further⟩
  obtain ⟨first, more, split, before, inside⟩ := pieces
  rw [split] at h
  rcases List.mem_cons.1 h with rfl | h
  · exact before.isInfix
  · exact inside piece h

theorem isBlank_return : ∀ c ∈ ['\r'], isBlank c = true := List.forall_mem_singleton.2 rfl

theorem trimStart_return (cs : List Char) :
    trimStart (cs ++ ['\r']) = if trimStart cs = [] then [] else trimStart cs ++ ['\r'] := by
  unfold trimStart
  rw [List.dropWhile_append]
  simp only [List.isEmpty_iff]
  rfl

theorem trim_return (cs : List Char) : trim (cs ++ ['\r']) = trim cs := by
  unfold trim
  rw [trimStart_return]
  split
  · next none => rw [none]
  · exact trimEnd_blank isBlank_return _

theorem isAllBlank_return (cs : List Char) : isAllBlank (cs ++ ['\r']) = isAllBlank cs := by
  simp only [isAllBlank, List.all_append, Bool.and_eq_left_iff_imp]
  exact fun _ => rfl

end Text

namespace Marker

/-- The text with a return behind it, unless there is none. -/
def returned (cs : List Char) : List Char := if cs = [] then [] else cs ++ ['\r']

theorem lineBody_return (index : Nat) (line : List Char) :
    lineBody index (line ++ ['\r']) = returned (lineBody index line) := by
  unfold lineBody returned
  simp only [trimStart_return]
  by_cases none : trimStart line = []
  · simp only [none, if_true]
    split <;> rfl
  · rw [if_neg none]
    split
    · rfl
    · rw [List.dropWhile_append]
      split
      · next stars =>
        rw [List.isEmpty_iff.1 stars]
        rfl
      · exact trimStart_return _

theorem behind?_return {start : List Char} (plain : '\r' ∉ start) (text : List Char) :
    behind? start (text ++ ['\r']) = (behind? start text).map (· ++ ['\r']) := by
  induction start generalizing text with
  | nil => cases text <;> rfl
  | cons p ps ih =>
    obtain ⟨other, more⟩ := not_or.1 (mt List.mem_cons.2 plain)
    cases text with
    | nil => exact if_neg (Ne.symm other)
    | cons c cs =>
      rw [List.cons_append, behind?, behind?]
      split
      · exact ih more cs
      · rfl

theorem behind?_eq_some {start text body : List Char} (h : behind? start text = some body) :
    text = start ++ body := by
  induction start generalizing text with
  | nil =>
    cases h
    rfl
  | cons p ps ih =>
    cases text with
    | nil => cases h
    | cons c cs =>
      unfold behind? at h
      split at h
      · next same => rw [same, ih h, List.cons_append]
      · cases h

theorem ruleName_return (body : List Char) : ruleName (body ++ ['\r']) = ruleName body := by
  cases body with
  | nil => rfl
  | cons c cs =>
    have stops : (cs ++ ['\r']).takeWhile continuesRule = cs.takeWhile continuesRule := by
      rw [List.takeWhile_append]
      split
      · next whole =>
        rw [(List.takeWhile_prefix continuesRule).eq_of_length whole]
        exact List.append_nil _
      · rfl
    unfold ruleName
    rw [List.cons_append]
    simp only [stops]

theorem readArgument_return (rule rest : List Char) :
    readArgument rule (rest ++ ['\r']) = readArgument rule rest := by
  cases rest with
  | nil => rfl
  | cons c cs =>
    by_cases equals : c = '='
    · subst equals
      exact congrArg (fun argument => Except.ok (some (String.ofList argument)))
        (trimEnd_blank isBlank_return cs)
    · have blanks (cs : List Char) : readArgument rule (c :: cs) =
          if isAllBlank (c :: cs) then .ok none
          else .error (.unexpected (String.ofList (trim (c :: cs))) (String.ofList rule)) := by
        unfold readArgument
        split
        · next same =>
          cases same
          exact absurd rfl equals
        · rfl
      rw [List.cons_append, blanks, blanks, ← List.cons_append, isAllBlank_return, trim_return]

theorem read_return {text : List Char} (start : (behind? markerStart text).isSome)
    (inline : '\n' ∉ text) : read (text ++ ['\r']) = read text := by
  obtain ⟨body, found⟩ := Option.isSome_iff_exists.1 start
  have inside : '\n' ∉ body := fun h => inline (behind?_eq_some found ▸ List.mem_append_right _ h)
  have inside' : '\n' ∉ body ++ ['\r'] := by simpa using inside
  have rest : (body ++ ['\r']).drop (ruleName body).length =
      body.drop (ruleName body).length ++ ['\r'] :=
    List.drop_append_of_le_length (ruleName_front body).length_le
  unfold read
  simp only [behind?_return (show '\r' ∉ markerStart by decide), found, Option.map_some,
    List.contains_iff_mem, inside, inside', if_false, ruleName_return, rest, readArgument_return,
    trimEnd_blank isBlank_return]

/-- A return at its end does not count for a marker line. -/
theorem onLine?_return (comment : Position) (index : Nat) {line : List Char} (inline : '\n' ∉ line) :
    onLine? comment index (line ++ ['\r']) = onLine? comment index line := by
  unfold onLine?
  simp only [lineBody_return, returned]
  split
  · next none => rw [none]; rfl
  · rw [behind?_return (by decide), Option.isSome_map]
    split
    · next start =>
      obtain ⟨front, split⟩ := lineBody_suffix index line
      have inside : '\n' ∉ lineBody index line :=
        fun h => inline (split ▸ List.mem_append_right _ h)
      unfold parse
      rw [read_return start inside, List.length_append, List.length_append,
        Nat.add_sub_add_right]
    · rfl

theorem onLines_map_filter {comment : Position} {index : Nat} {lines : List (List Char)}
    (inline : ∀ line ∈ lines, '\n' ∉ line) (ends : ∀ line ∈ lines, ReturnsEndLines line) :
    onLines comment index (lines.map fun line => line.filter fun c => !isReturn c) =
      onLines comment index lines := by
  induction lines generalizing index with
  | nil => rfl
  | cons line lines ih =>
    obtain ⟨inFirst, inMore⟩ := List.forall_mem_cons.1 inline
    obtain ⟨endsFirst, endsMore⟩ := List.forall_mem_cons.1 ends
    rw [List.map_cons, onLines, onLines, ih inMore endsMore]
    congr 2
    rcases endsFirst.line inFirst with plain | ⟨front, rfl, plain⟩
    · rw [filter_isReturn plain]
    · have kept : (front ++ ['\r']).filter (fun c => !isReturn c) = front := by
        rw [List.filter_append, filter_isReturn plain]
        exact List.append_nil _
      rw [kept, onLine?_return comment index fun h => inFirst (List.mem_append_left _ h)]

/-- The markers of a comment do not change with the returns at the ends of its lines. -/
theorem ofComment_without {comment : Comment} (ends : ReturnsEndLines comment.text.toList) :
    ofComment ((Recast.without isReturn).comment comment) = ofComment comment := by
  have lines := splitAt_filter (p := (· == '\n')) (q := fun c => !isReturn c)
    (fun c hc => by rw [beq_iff_eq.1 hc]; rfl) comment.text.toList
  unfold ofComment
  show onLines comment.position 0 (splitAt (· == '\n')
    (String.ofList (comment.text.toList.filter fun c => !isReturn c)).toList) = _
  rw [String.toList_ofList, lines]
  exact onLines_map_filter (fun line hline => not_mem_of_mem_splitAt hline)
    fun line hline => ends.within (splitAt_within hline)

end Marker

/-! ### Sources -/

namespace Go

/-- Whether every raw string of a source stays on its line. -/
def rawStringsStayOnLine (source : List Char) : Bool :=
  match lex source with
  | .error _ => true
  | .ok lexemes => lexemes.all fun l =>
    match l.token with
    | .rawString quoted => !quoted.toList.contains '\n'
    | _ => true

section

variable {source : List Char} {file : SourceFile}

/-- A source with returns is parsed to the same, texts of comments and kept texts apart. -/
theorem parse_withReturns (parsed : SourceFile.parse source = .ok file) (plain : '\r' ∉ source)
    (raw : rawStringsStayOnLine source = true) :
    ∃ decls, SourceFile.parse (withReturns source) = .ok ⟨file.package, decls⟩ ∧
      file.decls = decls.map (Recast.without isReturn).decl := by
  obtain ⟨lexemes, is, hlex, reads, package, declared⟩ := parse_iff.1 parsed
  have onLine : ∀ l ∈ lexemes, ∀ quoted, l.token = .rawString quoted → '\n' ∉ l.text := by
    intro l hl quoted token
    unfold rawStringsStayOnLine at raw
    rw [hlex] at raw
    have stays := List.all_eq_true.1 raw l hl
    have spells := ((lex_lexed hlex).sound l hl).1
    simp only [token] at stays
    rw [token] at spells
    rw [show l.text = quoted.toList from spells]
    simpa using stays
  obtain ⟨ms, hlex', echoed⟩ := lex_withReturns hlex plain onLine
  have blank : ∀ c, isReturn c = true → isBlank c = true := by
    intro c hc
    rw [beq_iff_eq.1 hc]
    rfl
  have start : (Place.mk none lexemes).Echoes isReturn 0 [] ⟨none, ms⟩ :=
    ⟨rfl, ms, (List.append_nil ms).symm, echoed⟩
  obtain ⟨is', reads', packages, same⟩ := reads.echoed blank start
  rw [Recast.map_below_zero, declared] at same
  exact ⟨is'.flatMap Item.decls,
    parse_iff.2 ⟨ms, is', hlex', reads', (packages none).trans package, rfl⟩, same⟩

/-- A kept text that has no newline without its returns has no returns. -/
theorem without_isReturn_kept {lexemes : List Lexeme} {text : String}
    (hlex : lex (withReturns source) = .ok lexemes) (plain : '\r' ∉ source)
    (piece : IsPiece lexemes text) (inline : '\n' ∉ (without isReturn text).toList) :
    without isReturn text = text := by
  obtain ⟨run, inside, rfl⟩ := piece
  have ends := (returnsEndLines_withReturns plain).within
    ((trim_within _).trans ((lex_lexed hlex).run_within inside))
  rw [without, String.toList_ofList] at inline ⊢
  rw [String.toList_ofList] at inline
  have onLine : '\n' ∉ trim (spanText run) :=
    fun newline => inline (List.mem_filter.2 ⟨newline, rfl⟩)
  rcases ends.line onLine with none | ⟨front, last, -⟩
  · rw [filter_isReturn none]
  · have blank := trim_last (spanText run) '\r' (by rw [last, List.getLast?_concat]; rfl)
    cases blank

/-- The comments of a source with returns have them at the ends of lines only. -/
theorem comment_returns {lexemes : List Lexeme} (hlex : lex (withReturns source) = .ok lexemes)
    (plain : '\r' ∉ source) {comment : Comment}
    (listed : comment ∈ lexemes.filterMap Lexeme.comment?) :
    ReturnsEndLines comment.text.toList := by
  obtain ⟨l, hl, hcomment⟩ := List.mem_filterMap.1 listed
  have lexed := lex_lexed hlex
  obtain ⟨before, after, split, -⟩ := lexed.piece hl
  obtain ⟨-, second, rest, -, opens⟩ := Lexeme.comment?_text (lexed.sound l hl) hcomment
  refine (returnsEndLines_withReturns plain).within ⟨before ++ ['/', second], rest ++ after, ?_⟩
  rw [split, opens]
  simp

theorem rereads_withReturns {decls : List TypeDecl}
    (parsed : SourceFile.parse (withReturns source) = .ok ⟨file.package, decls⟩)
    (same : file.decls = decls.map (Recast.without isReturn).decl) (plain : '\r' ∉ source)
    (kept : ∀ decl ∈ file.decls, ∀ text ∈ decl.type.kept, '\n' ∉ text.toList) :
    Plan.Rereads (Recast.without isReturn) decls where
  place _ := rfl
  kept decl hdecl text htext := by
    obtain ⟨lexemes, hlex, pieces⟩ := parse_kept parsed
    refine without_isReturn_kept hlex plain (pieces decl hdecl text htext) ?_
    have recast : (Recast.without isReturn).decl decl ∈ file.decls := by
      rw [same]
      exact List.mem_map_of_mem hdecl
    refine kept _ recast _ ?_
    show _ ∈ ((Recast.without isReturn).type decl.type).kept
    rw [Recast.kept_type]
    exact List.mem_map_of_mem htext
  docs decl hdecl site hsite := by
    obtain ⟨lexemes, hlex, listed, -⟩ := parse_traces parsed
    unfold Marker.ofDoc
    rw [List.flatMap_map]
    refine List.flatMap_congr fun comment hcomment => ?_
    have above : comment ∈ SourceFile.comments ⟨file.package, decls⟩ := by
      rw [← SourceFile.nodes_docs]
      exact List.mem_flatMap.2 ⟨site.node, Site.node_mem hdecl hsite, hcomment⟩
    exact Marker.ofComment_without (comment_returns hlex plain (listed.subset above))

end

end Go

namespace CompiledUnit

/-- A source without returns compiles to the same with one before each newline, if no raw string and
no text that a type keeps goes over lines. -/
theorem compile_withReturns {source : String} {file : SourceFile}
    (parsed : SourceFile.parse source.toList = .ok file) (plain : '\r' ∉ source.toList)
    (raw : rawStringsStayOnLine source.toList = true)
    (kept : ∀ decl ∈ file.decls, ∀ text ∈ decl.type.kept, '\n' ∉ text.toList)
    (options : Emission.Options) (sourceName : String) :
    ∃ unit, compile options sourceName source = .ok unit ∧
      compile options sourceName (String.ofList (withReturns source.toList)) = .ok unit := by
  obtain ⟨decls, parsed', same⟩ := parse_withReturns parsed plain raw
  have rereads := rereads_withReturns parsed' same plain kept
  refine ⟨_, compile_of_parse parsed, ?_⟩
  rw [← String.toList_ofList (l := withReturns source.toList)] at parsed'
  rw [compile_of_parse parsed', ← ofFile_recast rereads, ← same]

/-- Markers in both kinds of comments, one of them not well formed, and texts that are kept. -/
def returnless : String :=
  "package p
type A struct \x7b
\t// +govalid:required
\tName string \x60json:\"name\"\x60
\t/* +govalid:gte=1
\t * +govalid:lte= 9
\t * +govalid:nope
\t * +govalid:gt 3 */
\tN, M int // both
\tL [ 2 ]Pair[int, string]
\tF func(p []int) error
\x7d
"

set_option maxRecDepth 4000 in
theorem compile_withReturns_returnless :
    ∃ file, SourceFile.parse returnless.toList = .ok file ∧ '\r' ∉ returnless.toList ∧
      rawStringsStayOnLine returnless.toList = true ∧
      (∀ decl ∈ file.decls, ∀ text ∈ decl.type.kept, '\n' ∉ text.toList) ∧
      file.decls.flatMap (·.type.kept) = ["2", "[int, string]", "func(p []int) error"] ∧
      (Plan.ofFile file).1.map (fun plan => plan.checks.map (·.position)) =
        [[⟨3, 5⟩, ⟨5, 5⟩, ⟨6, 5⟩, ⟨5, 5⟩, ⟨6, 5⟩]] ∧
      (Plan.ofFile file).2.map (·.position) = [⟨8, 5⟩, ⟨8, 5⟩, ⟨7, 5⟩, ⟨7, 5⟩] ∧
      ∃ unit, compile .default "a.go" returnless = .ok unit ∧
        compile .default "a.go" (String.ofList (withReturns returnless.toList)) = .ok unit := by
  obtain ⟨file, parsed, facts⟩ := exists_parse (rfl : returnless = _)
    (p := fun file =>
      (file.decls.all fun decl => decl.type.kept.all fun text => !text.toList.contains '\n') &&
        (file.decls.flatMap (·.type.kept) == ["2", "[int, string]", "func(p []int) error"] &&
          ((Plan.ofFile file).1.map (fun plan => plan.checks.map (·.position)) ==
              [[⟨3, 5⟩, ⟨5, 5⟩, ⟨6, 5⟩, ⟨5, 5⟩, ⟨6, 5⟩]] &&
            (Plan.ofFile file).2.map (·.position) == [⟨8, 5⟩, ⟨8, 5⟩, ⟨7, 5⟩, ⟨7, 5⟩])))
    (by decide +kernel)
  simp only [Bool.and_eq_true, beq_iff_eq] at facts
  obtain ⟨inline, texts, checks, found⟩ := facts
  have kept : ∀ decl ∈ file.decls, ∀ text ∈ decl.type.kept, '\n' ∉ text.toList := by
    simpa using inline
  have plain : '\r' ∉ returnless.toList := by
    rw [show returnless = String.ofList _ from rfl, String.toList_ofList]
    decide +kernel
  have raw : rawStringsStayOnLine returnless.toList = true := by
    rw [show returnless = String.ofList _ from rfl, String.toList_ofList]
    decide +kernel
  exact ⟨file, parsed, plain, raw, kept, texts, checks, found,
    compile_withReturns parsed plain raw kept .default "a.go"⟩

end CompiledUnit

end FieldRules
