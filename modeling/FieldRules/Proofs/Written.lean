/-
Where markers are written.

The place of a piece of a text is told by what stands before it: it has as many
lines as there are newlines, and as many characters as there are behind the last
of them (`Position.behind`).  A marker line is a piece of its comment, the comment
of its lexeme, and the lexeme of the source.  So the place of every check and of
every diagnostic is one where the source goes on with `+govalid:`, and the line
that starts there is what its marker was read from (`compile_written`).
-/
import FieldRules.Proofs.Delegates
import FieldRules.Proofs.Independence
import FieldRules.Proofs.Relexing
import FieldRules.Proofs.Unmarked
import Mathlib.Data.List.DropRight

namespace FieldRules

open Go Text

/-! ### Places in a text -/

namespace Text

namespace Position

/-- The place of what follows a text. -/
def behind (before : List Char) : Position :=
  ⟨before.count '\n' + 1, (before.rtakeWhile (· != '\n')).length + 1⟩

theorem first_advance (before : List Char) : first.advance before = behind before := by
  induction before using List.reverseRecOn with
  | nil => rfl
  | append_singleton before c ih =>
    rw [advance_append, ih]
    show (behind before).after c = behind (before ++ [c])
    unfold behind after
    by_cases newline : c = '\n'
    · simp [newline]
    · simp [newline]

end Position

/-- At a place of a source stands a text, and maybe more behind it. -/
def Continues (source : List Char) (place : Position) (text : List Char) : Prop :=
  ∃ before after, source = before ++ (text ++ after) ∧ place = Position.behind before

end Text

/-! ### Lines of comments -/

namespace Marker

theorem lineBody_suffix (index : Nat) (line : List Char) : lineBody index line <:+ line := by
  unfold lineBody trimStart
  simp only
  split
  · exact List.dropWhile_suffix _
  · exact (List.dropWhile_suffix _).trans
      ((List.dropWhile_suffix _).trans (List.dropWhile_suffix _))

/-- A marker line is read from what is left of it, at the place where that stands. -/
theorem onLine?_written {comment : Position} {index : Nat} {line : List Char}
    (newlines : '\n' ∉ line) {reading : Except Malformed Marker}
    (h : onLine? comment index line = some reading) :
    ∃ front text, line = front ++ text ∧ markerStart <+: text ∧
      reading = parse text ((lineStart comment index).advance front) := by
  obtain ⟨front, split⟩ := lineBody_suffix index line
  unfold onLine? at h
  simp only at h
  split at h
  · next start =>
    rw [behind?_isSome, List.isPrefixOf_iff_prefix] at start
    have indent : line.length - (lineBody index line).length = front.length := by
      have lengths := congrArg List.length split
      rw [List.length_append] at lengths
      omega
    have onFront : '\n' ∉ front := fun hmem => newlines (split ▸ List.mem_append_left _ hmem)
    refine ⟨front, lineBody index line, split.symm, start, ?_⟩
    rw [← Option.some.inj h, indent, linePosition_eq, Position.advance_on_line _ onFront]
  · cases h

/-- A marker line among some lines is a piece of their text. -/
theorem onLines_written {comment : Position} {index : Nat} {lines : List (List Char)}
    (newlines : ∀ line ∈ lines, '\n' ∉ line) {reading : Except Malformed Marker}
    (h : reading ∈ onLines comment index lines) :
    ∃ before text after, joinWith '\n' lines = before ++ (text ++ after) ∧ markerStart <+: text ∧
      '\n' ∉ text ∧ reading = parse text ((lineStart comment index).advance before) := by
  induction lines generalizing index with
  | nil => cases h
  | cons line lines ih =>
    have onLine := newlines line List.mem_cons_self
    rw [onLines] at h
    rcases List.mem_append.1 h with here | later
    · obtain ⟨front, text, rfl, start, read⟩ :=
        onLine?_written onLine (Option.mem_toList.1 here)
      have clear : '\n' ∉ text := fun hmem => onLine (List.mem_append_right _ hmem)
      cases lines with
      | nil => exact ⟨front, text, [], by simp [joinWith], start, clear, read⟩
      | cons next lines =>
        refine ⟨front, text, '\n' :: joinWith '\n' (next :: lines), ?_, start, clear, read⟩
        rw [joinWith_cons_cons, List.append_assoc]
    · cases lines with
      | nil => cases later
      | cons next lines =>
        obtain ⟨before, text, after, split, start, clear, read⟩ :=
          ih (fun l hl => newlines l (List.mem_cons_of_mem _ hl)) later
        refine ⟨line ++ '\n' :: before, text, after, ?_, start, clear, ?_⟩
        · rw [joinWith_cons_cons, split, List.append_assoc, List.cons_append]
        · rw [read, lineStart_succ, Position.advance_append,
            Position.advance_on_line _ onLine]
          rfl

end Marker

/-! ### Comments of a source -/

namespace Go

/-- The text of some lexemes, with the blanks in front of each. -/
def written (lexemes : List Lexeme) : List Char := lexemes.flatMap fun l => l.gap ++ l.text

/-- Behind the lexemes before it, and its blanks, a lexeme stands in the text. -/
theorem Lexed.stands {spot : Spot} {cs : List Char} {front behind : List Lexeme} {l : Lexeme}
    (h : Lexed spot cs (front ++ l :: behind)) :
    written front ++ (l.gap ++ l.text) <+: cs ∧
      spot.advance (written front ++ l.gap) = ⟨l.position, l.start⟩ := by
  induction front generalizing spot cs with
  | nil =>
    cases h with
    | @next _ gap more c scanned _ _ _ hscan =>
      have whole := (scan_heads hscan).append_rest
      exact ⟨⟨scanned.rest, by rw [← whole]; simp [written]⟩, rfl⟩
  | cons m front ih =>
    obtain ⟨rest, rfl, -, -, -, more⟩ := Lexed.first h
    obtain ⟨⟨tail, within⟩, place⟩ := ih more
    constructor
    · exact ⟨tail, by rw [← within]; simp [written]⟩
    · rw [← place, ← Spot.advance_append, ← Spot.advance_append]
      simp [written]

/-- A lexeme is a piece of the text, at its place. -/
theorem Lexed.piece {spot : Spot} {cs : List Char} {lexemes : List Lexeme}
    (h : Lexed spot cs lexemes) {l : Lexeme} (hl : l ∈ lexemes) :
    ∃ before after, cs = before ++ (l.text ++ after) ∧
      l.position = spot.position.advance before := by
  obtain ⟨front, behind, rfl⟩ := List.append_of_mem hl
  obtain ⟨⟨after, within⟩, place⟩ := h.stands
  exact ⟨written front ++ l.gap, after, by rw [← within]; simp,
    (congrArg Spot.position place).symm⟩

/-- A marker line of a comment is a piece of the source. -/
theorem comment_written {source : List Char} {lexemes : List Lexeme}
    (lexed : Lexed Spot.first source lexemes) {comment : Comment}
    (listed : comment ∈ lexemes.filterMap Lexeme.comment?) {reading : Except Malformed Marker}
    (h : reading ∈ Marker.ofComment comment) :
    ∃ place text, Continues source place text ∧ markerStart <+: text ∧ '\n' ∉ text ∧
      reading = Marker.parse text place := by
  obtain ⟨l, hl, hcomment⟩ := List.mem_filterMap.1 listed
  obtain ⟨before, after, split, place⟩ := lexed.piece hl
  obtain ⟨hposition, second, rest, hsecond, opens⟩ :=
    Lexeme.comment?_text (lexed.sound l hl) hcomment
  obtain ⟨front, text, back, pieces, start, clear, read⟩ :=
    Marker.onLines_written (fun line hline => not_mem_of_mem_splitAt hline) h
  rw [joinWith_splitAt] at pieces
  -- Two characters behind the start of the lexeme is where the first line starts.
  have opened : l.position.advance ['/', second] = Marker.lineStart comment.position 0 := by
    rw [hposition]
    exact Position.advance_on_line l.position (by simpa using Ne.symm hsecond)
  refine ⟨Position.behind (before ++ (['/', second] ++ front)), text,
    ⟨before ++ (['/', second] ++ front), back ++ rest ++ after, ?_, rfl⟩, start, clear, ?_⟩
  · rw [split, opens, pieces]
    simp
  · rw [read, ← opened, place, ← Position.first_advance, Position.advance_append,
      Position.advance_append]
    rfl

end Go

/-! ### Markers of records -/

namespace Occurrence

/-- A marker line is read from a text that starts as markers do, stands on one line of the source
and has its place there. -/
def IsWritten (occurrence : Occurrence) (source text : List Char) (place : Position) : Prop :=
  Continues source place text ∧ markerStart <+: text ∧ '\n' ∉ text ∧
    occurrence.reading = Marker.parse text place

/-- Every marker line of a record is written in the source, at its place. -/
theorem exists_written {source : List Char} {file : SourceFile}
    (parsed : SourceFile.parse source = .ok file) {decl : TypeDecl} (hdecl : decl ∈ file.decls)
    {occurrence : Occurrence} (found : occurrence ∈ inRecord decl) :
    ∃ text, occurrence.IsWritten source text (Marker.placeOf occurrence.reading) := by
  obtain ⟨lexemes, hlex, listed, -⟩ := parse_traces parsed
  rw [Site.inRecord_occurrences] at found
  obtain ⟨site, hsite, found⟩ := List.mem_flatMap.1 found
  obtain ⟨reading, read, rfl⟩ := List.mem_map.1 found
  obtain ⟨comment, hcomment, read⟩ := List.mem_flatMap.1 read
  have above : comment ∈ file.comments := by
    rw [← SourceFile.nodes_docs]
    exact List.mem_flatMap.2 ⟨site.node, Site.node_mem hdecl hsite, hcomment⟩
  obtain ⟨place, text, continues, start, clear, made⟩ :=
    comment_written (lex_lexed hlex) (listed.subset above) read
  have here : Marker.placeOf reading = place := by rw [made, Marker.placeOf_parse]
  exact ⟨text, here ▸ continues, start, clear, here ▸ made⟩

end Occurrence

namespace Plan

open Mark

/-- Every diagnostic is about a marker line of a record, whether names are different or not. -/
theorem ofFile_reported {file : SourceFile} {d : Diagnostic} (hd : d ∈ (ofFile file).2) :
    ∃ decl ∈ file.decls, ∃ occurrence ∈ Occurrence.inRecord decl,
      IsReportedBy d (ofOccurrence decl.name occurrence) := by
  have settled := settle_settles (ofRecords file.decls [] (file.decls.filter (·.isRecord))).1
  rcases List.mem_append.1 hd with found | dropped
  · obtain ⟨decl, hdecl, found⟩ := mem_ofRecords_snd found
    obtain ⟨rejected, reported, perm⟩ := ofRecord_accounts file.decls decl
    obtain ⟨mark, hmark, about⟩ := reported.exists_mark found
    have listed := perm.mem_iff.1 (List.mem_append_right _ hmark)
    rw [Mark.inRecord_eq] at listed
    obtain ⟨occurrence, hoccurrence, rfl⟩ := List.mem_map.1 listed
    exact ⟨decl, (List.mem_filter.1 hdecl).1, occurrence, hoccurrence, about⟩
  · obtain ⟨lost, reported, perm⟩ := settled.accounts
    obtain ⟨mark, hmark, about⟩ := reported.exists_mark dropped
    obtain ⟨plan, hplan, check, hcheck, rfl⟩ :=
      mem_ofChecks.1 (perm.mem_iff.1 (List.mem_append_right _ hmark))
    rcases mem_ofRecords hplan with hnone | ⟨decl, hdecl, made⟩
    · cases hnone
    · obtain ⟨occurrence, hoccurrence, marker, read, hmade⟩ := mem_ofRecord_checks made hcheck
      obtain ⟨path, -, -, -, position, -⟩ := checkOf_ok hmade
      have name : plan.record = decl.name := congrArg Plan.record (ofRecord_some made).2
      have same : ofCheck plan.record check = ofOccurrence decl.name occurrence := by
        unfold ofCheck ofOccurrence
        rw [name, path, position, read]
        rfl
      exact ⟨decl, (List.mem_filter.1 hdecl).1, occurrence, hoccurrence, same ▸ about⟩

end Plan

namespace CompiledUnit

/-- A source that can be read compiles.  Where a check or a diagnostic has its place, the source goes
on with `+govalid:`: a marker line of the record and of the field that it is about is written there,
and a check has the rule which that line asks for. -/
theorem compile_written {source : String} {file : SourceFile}
    (parsed : SourceFile.parse source.toList = .ok file) (options : Emission.Options)
    (sourceName : String) :
    ∃ unit, compile options sourceName source = .ok unit ∧
      (∀ plan ∈ unit.plans, ∀ check ∈ plan.checks,
        ∃ decl ∈ file.decls, decl.name = plan.record ∧
          ∃ occurrence ∈ Occurrence.inRecord decl, occurrence.path = check.path ∧
            (∃ text, occurrence.IsWritten source.toList text check.position) ∧
            ∃ marker, occurrence.reading = .ok marker ∧
              Rule.ofSpelling? marker.rule = some check.rule) ∧
      ∀ d ∈ unit.diagnostics, ∃ decl ∈ file.decls, decl.name = d.record ∧
        ∃ occurrence ∈ Occurrence.inRecord decl, occurrence.path.render = d.path ∧
          ∃ text, occurrence.IsWritten source.toList text d.position := by
  refine ⟨_, compile_of_parse parsed, fun plan hplan check hcheck => ?_, fun d hd => ?_⟩
  · obtain ⟨decl, hdecl, named, occurrence, found, marker, made, read, hmade, settled⟩ :=
      Plan.mem_ofFile_marker hplan hcheck
    obtain ⟨path, -, -, -, position, -⟩ := Plan.checkOf_ok hmade
    have samePath : check.path = made.path := by rw [settled]
    have sameRule : check.rule = made.rule := by rw [settled]
    have place : check.position = Marker.placeOf occurrence.reading := by
      rw [settled, read]
      exact position
    refine ⟨decl, hdecl, named, occurrence, found, (samePath.trans path).symm, ?_, marker, read, ?_⟩
    · rw [place]
      exact Occurrence.exists_written parsed hdecl found
    · rw [sameRule]
      exact Plan.checkOf_rule hmade
  · have found : d ∈ (Plan.ofFile file).2 := (Diagnostic.sort_perm _).mem_iff.1 hd
    obtain ⟨decl, hdecl, occurrence, hoccurrence, name, path, position⟩ :=
      Plan.ofFile_reported found
    refine ⟨decl, hdecl, name.symm, occurrence, hoccurrence, path.symm, ?_⟩
    rw [position]
    exact Occurrence.exists_written parsed hdecl hoccurrence

/-- Markers in both kinds of comments: behind another comment and a tab, on the line that opens a
comment, and behind a gutter. -/
def spreadMarkers : String :=
  "package p
type A struct \x7b
\t/* \u00e9t\u00e9 */ // +govalid:required
\tName string
\t/* +govalid:gte=1
\t *  +govalid:lte=\u00e9
\t ** +govalid:nope */
\tN int
\x7d
"

set_option maxRecDepth 4000 in
theorem compile_written_spreadMarkers :
    ∃ file, SourceFile.parse spreadMarkers.toList = .ok file ∧
      (Plan.ofFile file).1.map (fun plan => plan.checks.map (·.position)) =
        [[⟨3, 15⟩, ⟨5, 5⟩]] ∧
      (Plan.ofFile file).2.map (·.position) = [⟨6, 6⟩, ⟨7, 6⟩] ∧
      ∃ unit, compile .default "a.go" spreadMarkers = .ok unit ∧
        (∀ plan ∈ unit.plans, ∀ check ∈ plan.checks,
          ∃ decl ∈ file.decls, decl.name = plan.record ∧
            ∃ occurrence ∈ Occurrence.inRecord decl, occurrence.path = check.path ∧
              (∃ text, occurrence.IsWritten spreadMarkers.toList text check.position) ∧
              ∃ marker, occurrence.reading = .ok marker ∧
                Rule.ofSpelling? marker.rule = some check.rule) ∧
        ∀ d ∈ unit.diagnostics, ∃ decl ∈ file.decls, decl.name = d.record ∧
          ∃ occurrence ∈ Occurrence.inRecord decl, occurrence.path.render = d.path ∧
            ∃ text, occurrence.IsWritten spreadMarkers.toList text d.position := by
  obtain ⟨file, parsed, facts⟩ := exists_parse (rfl : spreadMarkers = _)
    (p := fun file =>
      (Plan.ofFile file).1.map (fun plan => plan.checks.map (·.position)) ==
          [[⟨3, 15⟩, ⟨5, 5⟩]] &&
        (Plan.ofFile file).2.map (·.position) == [⟨6, 6⟩, ⟨7, 6⟩])
    (by decide +kernel)
  rw [Bool.and_eq_true, beq_iff_eq, beq_iff_eq] at facts
  exact ⟨file, parsed, facts.1, facts.2, compile_written parsed .default "a.go"⟩

end CompiledUnit

end FieldRules
