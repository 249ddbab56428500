/-
Which lines are markers, and what they say.

A line of a comment is meant as a marker if `+govalid:` is what it has behind white
space or, below the first line of the comment, behind a gutter of stars as well
(`Marks`).  It is one if an identifier follows, and then nothing but white space or an
equals sign with whatever text (`IsReading`).  Neither goes on with an identifier, so
the identifier is the longest one there.  Each line that is meant as a marker gives one
result, in the order of the comments and their lines (`ofDoc_readings`).
-/
import FieldRules.Proofs.Places
import FieldRules.Proofs.Trimming

namespace FieldRules

open Go Text

namespace Marker

/-! ### What a marker is -/

/-- A line has `text` in it as a marker, whether or not it can be read. -/
def Marks (index : Nat) (line text : List Char) : Prop :=
  markerStart <+: text ∧ ∃ indent stars space, line = indent ++ (stars ++ (space ++ text)) ∧
    (∀ c ∈ indent, isBlank c = true) ∧ (∀ c ∈ stars, c = '*') ∧ (∀ c ∈ space, isBlank c = true) ∧
    (index = 0 → stars = [])

/-- A letter of ASCII or an underscore, then letters, digits and underscores. -/
def IsIdentifier (cs : List Char) : Prop :=
  ∃ c rest, cs = c :: rest ∧ startsRule c = true ∧ ∀ d ∈ rest, continuesRule d = true

/-- What is left of a text without the white space at its end. -/
def IsWithoutEnd (text shorter : List Char) : Prop :=
  ∃ blanks, text = shorter ++ blanks ∧ (∀ c ∈ blanks, isBlank c = true) ∧
    ∀ c ∈ shorter.getLast?, isBlank c = false

/-- What may follow the name of a rule, with the argument that it is. -/
inductive EndsMarker : List Char → Option String → Prop where
  | blank {rest : List Char} : (∀ c ∈ rest, isBlank c = true) → EndsMarker rest none
  | argument {text : List Char} {argument : String} : IsWithoutEnd text argument.toList →
      EndsMarker ('=' :: text) (some argument)

/-- What the text of a marker line is read as: a marker exactly if an identifier follows the start
and what follows that may end a marker; with the longest identifier, and its argument. -/
structure IsReading (text : List Char) (reading : Except Malformed Marker) : Prop where
  isMarker : (∃ marker, reading = .ok marker) ↔ ∃ name rest argument,
    text = markerStart ++ (name ++ rest) ∧ IsIdentifier name ∧ EndsMarker rest argument
  carries : ∀ marker, reading = .ok marker → ∃ rest,
    text = markerStart ++ (marker.rule.toList ++ rest) ∧ IsIdentifier marker.rule.toList ∧
      EndsMarker rest marker.argument
  longest : ∀ marker, reading = .ok marker → ∀ name, IsIdentifier name →
    markerStart ++ name <+: text → name <+: marker.rule.toList

/-- One result for each line that is meant as a marker, in the order of the lines. -/
inductive AreReadings : List (List Char × Nat) → List (Except Malformed Marker) → Prop where
  | done : AreReadings [] []
  | marked {index : Nat} {line text : List Char} {lines : List (List Char × Nat)}
      {reading : Except Malformed Marker} {readings : List (Except Malformed Marker)} :
      Marks index line text → IsReading text reading → AreReadings lines readings →
      AreReadings ((line, index) :: lines) (reading :: readings)
  | other {index : Nat} {line : List Char} {lines : List (List Char × Nat)}
      {readings : List (Except Malformed Marker)} :
      (∀ text, ¬ Marks index line text) → AreReadings lines readings →
      AreReadings ((line, index) :: lines) readings

/-- The lines of some comments, each with its number in its comment. -/
def linesOf (doc : List Comment) : List (List Char × Nat) :=
  doc.flatMap fun comment => (splitAt (· == '\n') comment.text.toList).zipIdx

/-! ### White space and gutters -/

section

variable {index : Nat} {line text : List Char}

/-- A marker starts with neither white space nor a star. -/
theorem ends_of_start {p : Char → Bool} (other : p '+' = false) (start : markerStart <+: text) :
    Ends p text := by
  obtain ⟨behind, rfl⟩ := start
  intro c hc
  cases hc
  exact other

/-- What a line has in it as a marker is what is left of the line. -/
theorem Marks.lineBody_eq (h : Marks index line text) : lineBody index line = text := by
  obtain ⟨start, indent, stars, space, rfl, blank, star, white, first⟩ := h
  have behind : trimStart (space ++ text) = text :=
    dropWhile_run white (ends_of_start rfl start)
  have indented : trimStart (indent ++ (stars ++ (space ++ text))) =
      trimStart (stars ++ (space ++ text)) := List.dropWhile_append_of_pos blank
  unfold lineBody
  simp only
  rw [indented]
  cases stars with
  | nil =>
    have starless : text.dropWhile (· == '*') = text := dropWhile_stopped (ends_of_start rfl start)
    have clear : trimStart text = text := dropWhile_stopped (ends_of_start rfl start)
    rw [List.nil_append, behind, starless, clear, ite_self]
  | cons c stars =>
    have gutter : trimStart (c :: stars ++ (space ++ text)) = c :: stars ++ (space ++ text) := by
      rw [star c List.mem_cons_self]
      exact List.dropWhile_cons_of_neg (by decide)
    have ends : Ends (· == '*') (space ++ text) := by
      cases space with
      | nil => exact ends_of_start rfl start
      | cons d space =>
        intro c hc
        cases hc
        refine beq_eq_false_iff_ne.2 ?_
        rintro rfl
        exact absurd (white '*' List.mem_cons_self) (by decide)
    rw [if_neg fun zero => List.cons_ne_nil _ _ (first zero), gutter,
      dropWhile_run (fun c hc => beq_iff_eq.2 (star c hc)) ends, behind]

theorem marks_lineBody (start : markerStart <+: lineBody index line) :
    Marks index line (lineBody index line) := by
  have blanks (cs : List Char) : ∀ c ∈ cs.takeWhile isBlank, isBlank c = true :=
    List.all_eq_true.1 List.all_takeWhile
  have indented : line.takeWhile isBlank ++ trimStart line = line := List.takeWhile_append_dropWhile
  refine ⟨start, line.takeWhile isBlank, ?_⟩
  by_cases first : index = 0
  · have body : lineBody index line = trimStart line := if_pos first
    exact ⟨[], [], by simp [body, indented], blanks line, nofun, nofun, fun _ => rfl⟩
  · have body : lineBody index line = trimStart ((trimStart line).dropWhile (· == '*')) :=
      if_neg first
    have starred : (trimStart line).takeWhile (· == '*') ++
        (trimStart line).dropWhile (· == '*') = trimStart line := List.takeWhile_append_dropWhile
    have spaced : ((trimStart line).dropWhile (· == '*')).takeWhile isBlank ++
        lineBody index line = (trimStart line).dropWhile (· == '*') := by
      rw [body]
      exact List.takeWhile_append_dropWhile
    refine ⟨(trimStart line).takeWhile (· == '*'),
      ((trimStart line).dropWhile (· == '*')).takeWhile isBlank, ?_, blanks line, fun c hc => ?_,
      blanks _, fun zero => absurd zero first⟩
    · rw [spaced, starred, indented]
    · exact beq_iff_eq.1 (List.all_eq_true.1 List.all_takeWhile c hc)

/-! ### Identifiers -/

theorem ruleName_front (body : List Char) : ruleName body <+: body := by
  cases body with
  | nil => exact List.nil_prefix
  | cons c cs =>
    show (if startsRule c then c :: cs.takeWhile continuesRule else []) <+: _
    split
    · exact List.cons_prefix_cons.2 ⟨rfl, List.takeWhile_prefix _⟩
    · exact List.nil_prefix

variable {body name rest : List Char}

theorem isIdentifier_ruleName (filled : ruleName body ≠ []) : IsIdentifier (ruleName body) := by
  cases body with
  | nil => exact absurd rfl filled
  | cons c cs =>
    rw [ruleName] at filled ⊢
    split at filled
    · next starts =>
      rw [if_pos starts]
      exact ⟨c, _, rfl, starts, List.all_eq_true.1 List.all_takeWhile⟩
    · exact absurd rfl filled

/-- An identifier is the name of a rule as far as it goes. -/
theorem IsIdentifier.ruleName_append (h : IsIdentifier name) (rest : List Char) :
    ruleName (name ++ rest) = name ++ rest.takeWhile continuesRule := by
  obtain ⟨c, cs, rfl, starts, continues⟩ := h
  rw [List.cons_append, ruleName, if_pos starts, List.takeWhile_append_of_pos continues]
  rfl

/-- The name of a rule is the longest identifier. -/
theorem IsIdentifier.prefix_ruleName (h : IsIdentifier name) (front : name <+: body) :
    name <+: ruleName body := by
  obtain ⟨rest, rfl⟩ := front
  rw [h.ruleName_append]
  exact List.prefix_append _ _

theorem continuesRule_not_blank {c : Char} (h : continuesRule c = true) : isBlank c = false := by
  refine solid_not_blank ?_
  have number : continuesNumber c = true := by
    simp only [continuesRule, startsRule, continuesNumber, Bool.or_eq_true] at h ⊢
    tauto
  simp [isSolid, number]

/-- What ends a marker does not go on with an identifier. -/
theorem EndsMarker.ends {argument : Option String} (h : EndsMarker rest argument) :
    Ends continuesRule rest := by
  intro c hc
  refine Bool.eq_false_iff.2 fun continues => ?_
  cases h with
  | blank blank =>
    have other := continuesRule_not_blank continues
    rw [blank c (List.mem_of_mem_head? hc)] at other
    cases other
  | argument =>
    cases hc
    cases continues

/-! ### Reading a marker -/

theorem behind?_append (start body : List Char) : behind? start (start ++ body) = some body := by
  induction start with
  | nil => cases body <;> rfl
  | cons c start ih => rw [List.cons_append, behind?, if_pos rfl, ih]

theorem isWithoutEnd_trimEnd (text : List Char) : IsWithoutEnd text (trimEnd text) :=
  trimEnd_append text

theorem IsWithoutEnd.eq_trimEnd {shorter : List Char} (h : IsWithoutEnd text shorter) :
    trimEnd text = shorter := by
  obtain ⟨blanks, rfl, blank, last⟩ := h
  rw [trimEnd_blank blank, trimEnd_of_last last]

theorem readArgument_eq_ok {rule : List Char} {argument : Option String} :
    readArgument rule rest = .ok argument ↔ EndsMarker rest argument := by
  constructor
  · intro h
    unfold readArgument at h
    split at h
    · next text =>
      cases h
      exact .argument (by rw [String.toList_ofList]; exact isWithoutEnd_trimEnd text)
    · split at h
      · next blank =>
        cases h
        exact .blank (List.all_eq_true.1 blank)
      · cases h
  · intro h
    cases h with
    | blank blank =>
      unfold readArgument
      split
      · exact absurd (blank '=' List.mem_cons_self) (by decide)
      · exact if_pos (List.all_eq_true.2 blank)
    | argument h =>
      show Except.ok (some (String.ofList (trimEnd _))) = _
      rw [h.eq_trimEnd, String.ofList_toList]

/-- A text is read as a marker in the one way in which it can be taken apart. -/
theorem read_append (inline : '\n' ∉ body) {rule : String} {argument : Option String} :
    read (markerStart ++ body) = .ok (rule, argument) ↔ ∃ rest, body = rule.toList ++ rest ∧
      IsIdentifier rule.toList ∧ EndsMarker rest argument := by
  have onLine : body.contains '\n' = false := by simpa using inline
  unfold read
  rw [behind?_append]
  simp only [onLine, Bool.false_eq_true, if_false]
  constructor
  · intro h
    split at h
    · cases h
    · next filled =>
      have split : ruleName body ++ body.drop (ruleName body).length = body :=
        List.prefix_iff_eq_append.1 (ruleName_front body)
      cases hargument : readArgument (ruleName body) (body.drop (ruleName body).length) with
      | error fault => rw [hargument] at h; cases h
      | ok found =>
        rw [hargument] at h
        cases h
        rw [String.toList_ofList]
        exact ⟨_, split.symm, isIdentifier_ruleName (by simpa using filled),
          readArgument_eq_ok.1 hargument⟩
  · rintro ⟨rest, rfl, identifier, ends⟩
    have whole : ruleName (rule.toList ++ rest) = rule.toList := by
      rw [identifier.ruleName_append, takeWhile_stopped ends.ends, List.append_nil]
    have filled : rule.toList.isEmpty = false := by
      obtain ⟨c, cs, found, -⟩ := identifier
      rw [found]
      rfl
    rw [whole, filled, List.drop_left, readArgument_eq_ok.2 ends]
    exact congrArg (fun name => Except.ok (name, argument)) String.ofList_toList

theorem parse_eq_ok {position : Position} {marker : Marker} :
    parse text position = .ok marker ↔
      read text = .ok (marker.rule, marker.argument) ∧ marker.position = position := by
  unfold parse
  cases read text with
  | error fault => simp
  | ok found =>
    constructor
    · intro h
      cases h
      exact ⟨rfl, rfl⟩
    · rintro ⟨same, rfl⟩
      cases same
      rfl

/-- The text of a marker line is read as it should be. -/
theorem isReading_parse (start : markerStart <+: text) (inline : '\n' ∉ text)
    (position : Position) : IsReading text (parse text position) := by
  obtain ⟨body, rfl⟩ := start
  have clear : '\n' ∉ body := fun found => inline (List.mem_append_right _ found)
  have taken (marker : Marker) (h : parse (markerStart ++ body) position = .ok marker) :=
    (read_append clear).1 (parse_eq_ok.1 h).1
  constructor
  case isMarker =>
    constructor
    · rintro ⟨marker, h⟩
      obtain ⟨rest, hbody, identifier, ends⟩ := taken marker h
      exact ⟨marker.rule.toList, rest, marker.argument, by rw [hbody], identifier, ends⟩
    · rintro ⟨name, rest, argument, split, identifier, ends⟩
      refine ⟨⟨String.ofList name, argument, position⟩, parse_eq_ok.2 ⟨?_, rfl⟩⟩
      rw [read_append clear, String.toList_ofList]
      exact ⟨rest, List.append_cancel_left split, identifier, ends⟩
  case carries =>
    intro marker h
    obtain ⟨rest, hbody, identifier, ends⟩ := taken marker h
    exact ⟨rest, by rw [hbody], identifier, ends⟩
  case longest =>
    intro marker h name identifier front
    obtain ⟨rest, rfl, rule, ends⟩ := taken marker h
    have longest := identifier.prefix_ruleName ((List.prefix_append_right_inj _).1 front)
    rwa [rule.ruleName_append, takeWhile_stopped ends.ends, List.append_nil] at longest

/-! ### Lines and comments -/

theorem onLine?_of_marks (comment : Position) (h : Marks index line text) (inline : '\n' ∉ line) :
    ∃ reading, onLine? comment index line = some reading ∧ IsReading text reading := by
  have within : '\n' ∉ text := by
    obtain ⟨-, indent, stars, space, rfl, -⟩ := h
    simp only [List.mem_append, not_or] at inline
    exact inline.2.2.2
  have start : (behind? markerStart text).isSome = true := by
    obtain ⟨body, rfl⟩ := h.1
    rw [behind?_append]
    rfl
  have found : onLine? comment index line =
      some (parse text (linePosition comment index (line.length - text.length))) := by
    unfold onLine?
    simp only [h.lineBody_eq]
    exact if_pos start
  exact ⟨_, found, isReading_parse h.1 within _⟩

theorem onLine?_of_not_marks {comment : Position} (h : ∀ text, ¬ Marks index line text) :
    onLine? comment index line = none := by
  refine if_neg fun start => h _ (marks_lineBody ?_)
  rwa [behind?_isSome, List.isPrefixOf_iff_prefix] at start

theorem areReadings_onLines (comment : Position) {lines : List (List Char)}
    (inline : ∀ line ∈ lines, '\n' ∉ line) (index : Nat) :
    AreReadings (lines.zipIdx index) (onLines comment index lines) := by
  induction lines generalizing index with
  | nil => exact .done
  | cons line lines ih =>
    obtain ⟨here, later⟩ := List.forall_mem_cons.1 inline
    rw [List.zipIdx_cons, onLines]
    by_cases marked : ∃ text, Marks index line text
    · obtain ⟨text, marks⟩ := marked
      obtain ⟨reading, found, read⟩ := onLine?_of_marks comment marks here
      rw [found]
      exact .marked marks read (ih later (index + 1))
    · have plain := not_exists.1 marked
      rw [onLine?_of_not_marks plain]
      exact .other plain (ih later (index + 1))

theorem AreReadings.append {as bs : List (List Char × Nat)}
    {ns ms : List (Except Malformed Marker)} (h : AreReadings as ns) (h' : AreReadings bs ms) :
    AreReadings (as ++ bs) (ns ++ ms) := by
  induction h with
  | done => exact h'
  | marked marks read _ ih => exact .marked marks read ih
  | other plain _ ih => exact .other plain ih

/-- For every group of comments the lines that are meant as markers, and no others, are read, one
after the other, each as a marker exactly if it is written as one. -/
theorem ofDoc_readings (doc : List Comment) : AreReadings (linesOf doc) (ofDoc doc) := by
  induction doc with
  | nil => exact .done
  | cons comment doc ih =>
    have first :
        AreReadings ((splitAt (· == '\n') comment.text.toList).zipIdx) (ofComment comment) :=
      areReadings_onLines comment.position (fun line hline => not_mem_of_mem_splitAt hline) 0
    exact first.append ih

end

end Marker
end FieldRules
