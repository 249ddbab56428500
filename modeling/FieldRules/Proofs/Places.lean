/-
Marker lines stand in different places.

The lines of a comment follow each other down the text of its lexeme, lexemes do
not overlap, and the doc comments of fields are comments of the text in order.
So the places of all marker lines of a source are in strict reading order
(`parse_places`), and a place tells which field a marker line belongs to
(`node_unique`).
-/
import FieldRules.Proofs.Parsing
import FieldRules.Proofs.Lexemes
import FieldRules.Proofs.Sites
import Mathlib.Data.List.Flatten
import Mathlib.Data.List.Nodup
import Mathlib.Data.List.Pairwise

namespace FieldRules

open Go Text

/-! ### Pieces between separators -/

namespace Text

section

variable {p : Char → Bool} {separator : Char} {piece : List Char}

theorem splitAt_pieces {cs : List Char} (h : piece ∈ splitAt p cs) : ∀ c ∈ piece, p c = false := by
  induction cs generalizing piece with
  | nil =>
    rw [List.mem_singleton.1 h]
    exact fun c hc => nomatch hc
  | cons c cs ih =>
    rw [splitAt] at h
    split at h
    · rcases List.mem_cons.1 h with rfl | h
      · exact fun c hc => nomatch hc
      · exact ih h
    · next hc =>
      obtain ⟨first, rest, hsplit⟩ := List.exists_cons_of_ne_nil (splitAt_ne_nil p cs)
      rw [hsplit] at h ih
      rcases List.mem_cons.1 h with rfl | h
      · exact List.forall_mem_cons.2 ⟨Bool.eq_false_iff.2 hc, ih List.mem_cons_self⟩
      · exact ih (List.mem_cons_of_mem _ h)

theorem splitAt_append_separator (cut : p separator = true) (h : ∀ c ∈ piece, p c = false)
    (cs : List Char) : splitAt p (piece ++ separator :: cs) = piece :: splitAt p cs := by
  induction piece with
  | nil => rw [List.nil_append, splitAt, if_pos cut]
  | cons c piece ih =>
    obtain ⟨first, more⟩ := List.forall_mem_cons.1 h
    rw [List.cons_append, splitAt, if_neg (Bool.eq_false_iff.1 first), ih more]
    rfl

theorem splitAt_single (h : ∀ c ∈ piece, p c = false) : splitAt p piece = [piece] := by
  induction piece with
  | nil => rfl
  | cons c piece ih =>
    obtain ⟨first, more⟩ := List.forall_mem_cons.1 h
    rw [splitAt, if_neg (Bool.eq_false_iff.1 first), ih more]
    rfl

/-- Pieces that are parted by what parts them are split into the same pieces. -/
theorem splitAt_parted (cut : p separator = true) {pieces : List (List Char)} (ne : pieces ≠ [])
    (h : ∀ piece ∈ pieces, ∀ c ∈ piece, p c = false) :
    splitAt p (joinWith separator pieces) = pieces := by
  match pieces with
  | [] => exact absurd rfl ne
  | [piece] => exact splitAt_single (h piece List.mem_cons_self)
  | piece :: next :: pieces =>
    rw [joinWith, splitAt_append_separator cut (h piece List.mem_cons_self),
      splitAt_parted cut (List.cons_ne_nil _ _) fun p hp => h p (List.mem_cons_of_mem _ hp)]
    · exact List.cons_ne_nil _ _

theorem apart_of_not_mem (h : separator ∉ piece) : ∀ c ∈ piece, (c == separator) = false := by
  intro c hc
  refine beq_eq_false_iff_ne.2 ?_
  rintro rfl
  exact h hc

theorem not_mem_of_mem_splitAt {cs : List Char} (h : piece ∈ splitAt (· == separator) cs) :
    separator ∉ piece := by
  intro found
  have apart := splitAt_pieces h separator found
  rw [beq_self_eq_true] at apart
  cases apart

theorem splitAt_joinWith {pieces : List (List Char)} (ne : pieces ≠ [])
    (h : ∀ piece ∈ pieces, separator ∉ piece) :
    splitAt (· == separator) (joinWith separator pieces) = pieces :=
  splitAt_parted (p := (· == separator)) (beq_self_eq_true separator) ne fun piece hpiece =>
    apart_of_not_mem (h piece hpiece)

end

theorem joinWith_cons_cons (separator : Char) (piece next : List Char) (rest : List (List Char)) :
    joinWith separator (piece :: next :: rest) =
      piece ++ separator :: joinWith separator (next :: rest) :=
  rfl

theorem toList_intercalate {separator : String} {c : Char} (single : separator.toList = [c])
    (pieces : List String) :
    (String.intercalate separator pieces).toList = joinWith c (pieces.map String.toList) := by
  rw [String.toList_intercalate, single]
  induction pieces with
  | nil => rfl
  | cons piece pieces ih =>
    cases pieces with
    | nil => simp [joinWith]
    | cons next pieces =>
      simp only [List.map_cons] at ih ⊢
      rw [joinWith_cons_cons, ← ih]
      simp [List.intercalate, List.intersperse]

end Text

/-! ### Lines of one comment -/

namespace Marker

/-- The place of a line's first character. -/
def lineStart (comment : Position) (index : Nat) : Position := linePosition comment index 0

theorem linePosition_eq (comment : Position) (index indent : Nat) :
    linePosition comment index indent =
      ⟨(lineStart comment index).line, (lineStart comment index).column + indent⟩ := by
  unfold lineStart linePosition
  split
  · rfl
  · simp only [Nat.zero_add, Nat.add_comm]

theorem lineStart_succ (comment : Position) (index : Nat) :
    lineStart comment (index + 1) = ⟨(lineStart comment index).line + 1, 1⟩ := by
  unfold lineStart linePosition
  rw [if_neg (Nat.succ_ne_zero _)]
  split
  · next h => rw [h]
  · rfl

theorem lineBody_length_le (index : Nat) (line : List Char) :
    (lineBody index line).length ≤ line.length := by
  have shorter (p : Char → Bool) (cs : List Char) : (cs.dropWhile p).length ≤ cs.length :=
    (List.dropWhile_sublist p).length_le
  unfold lineBody trimStart
  simp only
  split
  · exact shorter _ _
  · exact Nat.le_trans (shorter _ _) (Nat.le_trans (shorter _ _) (shorter _ _))

theorem lineBody_ne_nil {index : Nat} {line : List Char} (h : isMarkerLine index line = true) :
    0 < (lineBody index line).length := by
  unfold isMarkerLine at h
  have start : 0 < markerStart.length := by decide
  exact Nat.lt_of_lt_of_le start (List.isPrefixOf_iff_prefix.1 h).length_le

/-- A marker stands on its line, before the end. -/
theorem placeOnLine_bounds (comment : Position) {index : Nat} {line : List Char}
    (h : isMarkerLine index line = true) :
    (placeOnLine comment index line).line = (lineStart comment index).line ∧
      (lineStart comment index).column ≤ (placeOnLine comment index line).column ∧
      (placeOnLine comment index line).column <
        (lineStart comment index).column + line.length := by
  have nonempty := lineBody_ne_nil h
  have le := lineBody_length_le index line
  unfold placeOnLine
  rw [linePosition_eq]
  refine ⟨rfl, Nat.le_add_right _ _, Nat.add_lt_add_left ?_ _⟩
  omega

/-- The places of marker lines among some lines, of which the first has an index. -/
def placesOnLines (comment : Position) (index : Nat) (lines : List (List Char)) : List Position :=
  ((lines.zipIdx index).filter fun (line, i) => isMarkerLine i line).map fun (line, i) =>
    placeOnLine comment i line

theorem placesOnLines_cons (comment : Position) (index : Nat) (line : List Char)
    (lines : List (List Char)) :
    placesOnLines comment index (line :: lines) =
      (if isMarkerLine index line then [placeOnLine comment index line] else []) ++
        placesOnLines comment (index + 1) lines := by
  unfold placesOnLines
  rw [List.zipIdx_cons, List.filter_cons]
  by_cases h : isMarkerLine index line = true
  · simp [h]
  · simp [h]

/-- The text behind a line, if there is any, starts on the next one. -/
theorem lineStart_advance (comment : Position) (index : Nat) {line : List Char}
    (newline : '\n' ∉ line) (lines : List (List Char)) :
    (lineStart comment index).advance (joinWith '\n' (line :: lines)) =
      if lines = [] then
        ⟨(lineStart comment index).line, (lineStart comment index).column + line.length⟩
      else (lineStart comment (index + 1)).advance (joinWith '\n' lines) := by
  have onLine := Position.advance_on_line (lineStart comment index) newline
  cases lines with
  | nil => exact onLine
  | cons next lines =>
    rw [if_neg (List.cons_ne_nil _ _), joinWith, Position.advance_append, onLine, lineStart_succ]
    · rfl
    · exact List.cons_ne_nil _ _

/-- The places lie inside the text of the lines, in strict order. -/
theorem placesOnLines_ordered (comment : Position) (index : Nat) {lines : List (List Char)}
    (newlines : ∀ line ∈ lines, '\n' ∉ line) :
    (placesOnLines comment index lines).Pairwise Position.Before ∧
      ∀ place ∈ placesOnLines comment index lines,
        (lineStart comment index).le place = true ∧
          Position.Before place ((lineStart comment index).advance (joinWith '\n' lines)) := by
  induction lines generalizing index with
  | nil => exact ⟨List.Pairwise.nil, fun place h => nomatch h⟩
  | cons line lines ih =>
    obtain ⟨ordered, inside⟩ := ih (index + 1) fun l hl => newlines l (List.mem_cons_of_mem _ hl)
    have later := lineStart_advance comment index (newlines line List.mem_cons_self) lines
    have below (place : Position) (h : place ∈ placesOnLines comment (index + 1) lines) :
        (lineStart comment index).line < place.line := by
      have start := (inside place h).1
      rw [lineStart_succ, Position.le_iff] at start
      simp only at start
      omega
    have behind (place : Position) (h : place ∈ placesOnLines comment (index + 1) lines) :
        (lineStart comment index).le place = true ∧
          Position.Before place
            ((lineStart comment index).advance (joinWith '\n' (line :: lines))) := by
      have nonempty : lines ≠ [] := by
        rintro rfl
        cases h
      refine ⟨(Position.le_iff _ _).2 (Or.inl (below place h)), ?_⟩
      rw [later, if_neg nonempty]
      exact (inside place h).2
    have ending (hne : lines ≠ []) : (lineStart comment (index + 1)).le
        ((lineStart comment index).advance (joinWith '\n' (line :: lines))) = true := by
      rw [later, if_neg hne]
      exact Position.le_advance _ _
    rw [placesOnLines_cons]
    by_cases hmarker : isMarkerLine index line = true
    · obtain ⟨hline, hleft, hright⟩ := placeOnLine_bounds comment hmarker
      rw [if_pos hmarker]
      refine ⟨?_, ?_⟩
      · refine List.pairwise_cons.2 ⟨fun place hplace => Or.inl ?_, ordered⟩
        rw [hline]
        exact below place hplace
      · intro place hplace
        rcases List.mem_cons.1 hplace with rfl | hplace
        · refine ⟨(Position.le_iff _ _).2 (Or.inr ⟨hline.symm, hleft⟩), ?_⟩
          by_cases hne : lines = []
          · rw [later, if_pos hne]
            exact Or.inr ⟨hline, hright⟩
          · refine Position.Before.trans_le (Or.inl ?_) (ending hne)
            rw [lineStart_succ, hline]
            exact Nat.lt_succ_self _
        · exact behind place hplace
    · rw [if_neg hmarker]
      exact ⟨ordered, behind⟩

end Marker

/-! ### Comments of a text -/

namespace Go

/-- A comment lexeme opens with two characters of its line. -/
theorem Lexeme.comment?_text {l : Lexeme} {comment : Comment} (sound : l.IsSound)
    (h : l.comment? = some comment) :
    comment.position = l.position ∧ ∃ second rest, second ≠ '\n' ∧
      l.text = '/' :: second :: (comment.text.toList ++ rest) := by
  unfold comment? at h
  split at h
  · next text htoken =>
    cases h
    have spells := sound.1
    rw [htoken] at spells
    exact ⟨rfl, '/', [], by decide, by rw [List.append_nil]; exact spells⟩
  · next text htoken =>
    cases h
    have spells := sound.1
    rw [htoken] at spells
    exact ⟨rfl, '*', ['*', '/'], by decide, spells⟩
  · cases h

/-- The marker lines of a comment lie inside its lexeme, in strict order. -/
theorem Lexeme.comment?_places {l : Lexeme} {comment : Comment} (sound : l.IsSound)
    (h : l.comment? = some comment) :
    (Marker.placesIn comment).Pairwise Position.Before ∧
      ∀ place ∈ Marker.placesIn comment, l.position.le place = true ∧
        Position.Before place (l.position.advance l.text) := by
  obtain ⟨hposition, second, rest, hsecond, htext⟩ := comment?_text sound h
  obtain ⟨ordered, inside⟩ := Marker.placesOnLines_ordered comment.position 0
    fun line (hline : line ∈ splitAt (· == '\n') comment.text.toList) =>
      not_mem_of_mem_splitAt hline
  refine ⟨ordered, fun place hplace => ?_⟩
  obtain ⟨hstart, hend⟩ := inside place hplace
  rw [joinWith_splitAt] at hend
  -- Two characters behind the start of the lexeme is where the first line starts.
  have opened : l.position.advance ['/', second] = Marker.lineStart comment.position 0 := by
    rw [hposition]
    exact Position.advance_on_line l.position (by simpa using Ne.symm hsecond)
  refine ⟨Position.le_trans ?_ hstart, hend.trans_le ?_⟩
  · rw [← opened]
    exact Position.le_advance _ _
  · rw [htext, show '/' :: second :: (comment.text.toList ++ rest) =
      ['/', second] ++ comment.text.toList ++ rest by simp, Position.advance_append,
      Position.advance_append, opened]
    exact Position.le_advance _ _

/-- The marker lines of all comments of a text are in strict reading order. -/
theorem Ordered.places {start : Position} {lexemes : List Lexeme} (ordered : Ordered start lexemes)
    (sound : ∀ l ∈ lexemes, l.IsSound) :
    ((lexemes.filterMap Lexeme.comment?).flatMap Marker.placesIn).Pairwise Position.Before ∧
      ∀ place ∈ (lexemes.filterMap Lexeme.comment?).flatMap Marker.placesIn,
        start.le place = true := by
  induction lexemes generalizing start with
  | nil => exact ⟨List.Pairwise.nil, fun place h => nomatch h⟩
  | cons l lexemes ih =>
    obtain ⟨hstart, hrest⟩ := ordered
    obtain ⟨restOrdered, restAfter⟩ := ih hrest fun m hm => sound m (List.mem_cons_of_mem _ hm)
    have behind : start.le (l.position.advance l.text) = true :=
      Position.le_trans hstart (Position.le_advance _ _)
    cases hcomment : l.comment? with
    | none =>
      rw [List.filterMap_cons_none hcomment]
      exact ⟨restOrdered, fun place hplace => Position.le_trans behind (restAfter place hplace)⟩
    | some comment =>
      obtain ⟨here, inside⟩ := Lexeme.comment?_places (sound l List.mem_cons_self) hcomment
      rw [List.filterMap_cons_some hcomment, List.flatMap_cons]
      refine ⟨List.pairwise_append.2 ⟨here, restOrdered, fun p hp q hq => ?_⟩,
        fun place hplace => ?_⟩
      · exact (inside p hp).2.trans_le (restAfter q hq)
      · rcases List.mem_append.1 hplace with hplace | hplace
        · exact Position.le_trans hstart (inside place hplace).1
        · exact Position.le_trans behind (restAfter place hplace)

/-- The marker lines of the fields of a parsed source are in strict reading order. -/
theorem parse_places {source : List Char} {file : SourceFile}
    (parsed : SourceFile.parse source = .ok file) :
    (file.comments.flatMap Marker.placesIn).Pairwise Position.Before := by
  obtain ⟨lexemes, hlex, hcomments, -⟩ := parse_traces parsed
  have lexed := lex_lexed hlex
  have ordered := (lexed.ordered.places lexed.sound).1
  exact ordered.sublist (hcomments.flatMap Marker.placesIn)

/-! ### Fields and their docs -/

/-- A field as its markers see it. -/
structure Node where
  type : TypeExpr
  doc : List Comment

namespace TypeExpr

mutual

/-- The fields that a type has inside, in source order, as `comments` meets them. -/
def nodes : TypeExpr → List Node
  | struct fields => nodesOf fields
  | pointer target => target.nodes
  | _ => []

def nodesIn : Field → List Node
  | ⟨_, _, type, _, doc, _⟩ => ⟨type, doc⟩ :: type.nodes

def nodesOf : List Field → List Node
  | [] => []
  | field :: fields => nodesIn field ++ nodesOf fields

end

mutual

theorem nodes_docs (t : TypeExpr) : t.nodes.flatMap Node.doc = t.comments := by
  match t with
  | struct fields => exact nodesOf_docs fields
  | pointer target => exact target.nodes_docs
  | named _ | qualified _ _ | instantiated _ _ | slice _ | array _ _ | map _ _ | chan _ _ | func _
  | interface _ => rfl

theorem nodesIn_docs (field : Field) : (nodesIn field).flatMap Node.doc = commentsIn field := by
  match field with
  | ⟨_, _, type, _, doc, _⟩ => rw [nodesIn, commentsIn, List.flatMap_cons, type.nodes_docs]

theorem nodesOf_docs (fields : List Field) :
    (nodesOf fields).flatMap Node.doc = commentsOf fields := by
  match fields with
  | [] => rfl
  | field :: fields =>
    rw [nodesOf, commentsOf, List.flatMap_append, nodesIn_docs field, nodesOf_docs fields]

end

end TypeExpr

def SourceFile.nodes (file : SourceFile) : List Node := file.decls.flatMap (·.type.nodes)

theorem SourceFile.nodes_docs (file : SourceFile) :
    file.nodes.flatMap Node.doc = file.comments := by
  unfold nodes comments
  rw [List.flatMap_assoc]
  congr 1
  funext decl
  exact decl.type.nodes_docs

def Node.places (node : Node) : List Position := node.doc.flatMap Marker.placesIn

/-- A place tells the field, and is used once above it. -/
theorem nodes_places {source : List Char} {file : SourceFile}
    (parsed : SourceFile.parse source = .ok file) : (file.nodes.flatMap Node.places).Nodup := by
  have ordered := parse_places parsed
  rw [← SourceFile.nodes_docs, List.flatMap_assoc] at ordered
  exact ordered.imp fun h => h.ne

theorem node_unique {file : SourceFile} (distinct : (file.nodes.flatMap Node.places).Nodup)
    {a b : Node} (ha : a ∈ file.nodes) (hb : b ∈ file.nodes) {place : Position}
    (hpa : place ∈ a.places) (hpb : place ∈ b.places) : a = b := by
  by_contra hne
  have symmetric : Std.Symm (Function.onFun List.Disjoint Node.places) :=
    ⟨fun x y h place hy hx => h hx hy⟩
  have apart := (List.nodup_flatMap.1 distinct).2
  exact apart.forall ha hb hne hpa hpb

end Go

end FieldRules
