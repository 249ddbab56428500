/-
Types with their brackets in pairs.

A type that was read from a source is written with its brackets in pairs, whatever
comments, tags and type arguments are in it (`Reads.allNested`).  Two texts are taken
over as they stand and may have a bracket too many: the length of an array, in which
braces are not counted, and a function type, as its result may be such an array
(`TypeExpr.loose`).
-/
import FieldRules.Proofs.Balance
import FieldRules.Proofs.Rendering

namespace FieldRules
namespace Go

open Text

/-- Whether the text is cut into lexemes with their brackets in pairs, and not ended by a comment. -/
def isClosedText (text : List Char) : Bool :=
  !endsComment text && (lex text).toOption.any fun ls => areClosed 0 (ls.map (·.token))

namespace TypeExpr

/-- The text that a type takes over and that need not have its brackets in pairs. -/
def loose? : TypeExpr → Option String
  | array length _ => some length
  | func text => some text
  | _ => none

/-- Such texts in a type. -/
def loose (t : TypeExpr) : List String := t.parts.filterMap loose?

/-- Every such text has its brackets in pairs. -/
def IsClosed (t : TypeExpr) : Prop := ∀ text ∈ t.loose, isClosedText text.toList = true

instance (t : TypeExpr) : Decidable t.IsClosed :=
  inferInstanceAs (Decidable (∀ text ∈ t.loose, isClosedText text.toList = true))

/-- The characters with which the text of a type may go on. -/
def goesOn : TypeExpr → Char → Bool
  | named _ => continuesName
  | struct _ => fun _ => false
  | _ => continuesToken

/-- In brackets, the type is written with its own in pairs. -/
def IsNested (t : TypeExpr) : Prop := Lexes t.render.toList t.goesOn Go.IsNested

end TypeExpr

def Field.IsNested (f : Field) : Prop :=
  Lexes (TypeExpr.renderField f).toList continuesToken Go.IsNested

/-- A text in brackets that does not go on with what stands behind types. -/
def NestedText (text : List Char) : Prop := Lexes text continuesToken IsNested

section

variable {text behind : List Char} {c : Char} {token : Token} {w name : String}
  {t u : TypeExpr} {fs : List Field}

namespace NestedText

theorem mark (hc : mark? c = some token) (plain : token.isInner = true) (h : NestedText behind) :
    NestedText (c :: behind) := by
  refine Lexes.mark hc h ?_
  rintro l ms rfl hms
  exact (isLevel_singleton plain).isNested.append hms

theorem behind_word (isWord : isName text = true) (h : NestedText behind)
    (parts : ∀ rest, Ends continuesToken rest → Ends continuesName (behind ++ rest)) :
    NestedText (text ++ behind) := by
  refine Lexes.word isWord h parts ?_
  intro l ms hl hms
  exact (isLevel_singleton (by rw [hl]; exact ofWord_inner text)).isNested.append hms

/-- A text in brackets in front of another one. -/
theorem enclosed {inner : List Char} {o e : Char} {opening closing : Token}
    (ho : mark? o = some opening) (opens : opening.isOpening = true) (he : mark? e = some closing)
    (closes : closing.isClosing = true) (hinner : NestedText inner)
    (stops : continuesToken e = false) (h : NestedText behind) :
    NestedText (o :: (inner ++ [e]) ++ behind) := by
  have group : Lexes (o :: (inner ++ [e])) (fun _ => false) IsLevel :=
    Lexes.enclosed ho opens he closes hinner (fun _ hls => hls) fun rest d hd => by
      cases hd
      exact stops
  exact group.append h (fun _ _ _ _ => rfl) fun _ _ hls hms => hls.isNested.append hms

end NestedText

namespace TypeExpr

theorem IsNested.written (h : t.IsNested) : NestedText t.render.toList := by
  refine h.imp (fun rest ends => ?_) fun _ hls => hls
  cases t with
  | named =>
    have apart : Ends continuesName rest := ends.of_stop (by decide +kernel)
    exact apart
  | struct => exact fun _ _ => rfl
  | _ => exact ends

theorem isNested_named (h : isName w.toList = true) : (named w).IsNested :=
  (primaryText_word h).lexes.imp (fun _ ends => ends) fun _ hls => hls.isNested

theorem primaryText_qualified (h : isName w.toList = true) (h' : isName name.toList = true) :
    PrimaryText (qualified w name).render.toList := by
  have text : (qualified w name).render.toList = w.toList ++ '.' :: name.toList := by
    simp [render]
  rw [text]
  exact (primaryText_word h).select h'

theorem isNested_qualified (h : isName w.toList = true) (h' : isName name.toList = true) :
    (qualified w name).IsNested :=
  (primaryText_qualified h h').lexes.imp (fun _ ends => ends.of_stop (by decide +kernel))
    fun _ hls => hls.isNested

theorem IsNested.pointer (h : t.IsNested) : (pointer t).IsNested := by
  have text : (TypeExpr.pointer t).render.toList = '*' :: t.render.toList := by simp [render]
  rw [IsNested, text]
  exact NestedText.mark rfl rfl h.written

/-- An array, the length of which may be nothing. -/
theorem IsNested.array (h : t.IsNested) {length : String}
    (hlength : length = "" ∨ NestedText length.toList) : (array length t).IsNested := by
  have text : (TypeExpr.array length t).render.toList =
      '[' :: (length.toList ++ [']']) ++ t.render.toList := by simp [render]
  rw [IsNested, text]
  rcases hlength with rfl | hlength
  · have brackets : Lexes ['[', ']'] (fun _ => false) IsLevel := lexes_brackets rfl rfl rfl rfl
    exact brackets.append h.written (fun _ _ _ _ => rfl) fun _ _ hls hms => hls.isNested.append hms
  · exact NestedText.enclosed rfl rfl rfl rfl hlength (by decide) h.written

theorem IsNested.slice (h : t.IsNested) : (slice t).IsNested := by
  have same : (TypeExpr.slice t).render = (TypeExpr.array "" t).render := by simp [render]
  rw [IsNested, same]
  exact h.array (.inl rfl)

theorem IsNested.map (h : t.IsNested) (h' : u.IsNested) : (map t u).IsNested := by
  have text : (TypeExpr.map t u).render.toList =
      "map".toList ++ ('[' :: (t.render.toList ++ [']']) ++ u.render.toList) := by simp [render]
  rw [IsNested, text]
  refine NestedText.behind_word (by decide) ?_ fun rest _ c hc => by cases hc; rfl
  exact NestedText.enclosed rfl rfl rfl rfl h.written (by decide) h'.written

theorem IsNested.chan (h : t.IsNested) (direction : ChanDirection) :
    (chan direction t).IsNested := by
  have behind : NestedText ("chan".toList ++ ' ' :: t.render.toList) :=
    NestedText.behind_word (by decide) h.written.space fun rest _ c hc => by cases hc; rfl
  have arrow {text : List Char} (h : NestedText text)
      (apart : ∀ rest, Ends continuesToken rest → Ends isOperatorChar (text ++ rest)) :
      NestedText ('<' :: '-' :: text) := by
    refine Lexes.arrow h apart ?_
    intro l ms hl hms
    exact (isLevel_singleton (by rw [hl]; rfl)).isNested.append hms
  cases direction with
  | both =>
    have text : (TypeExpr.chan .both t).render.toList = "chan".toList ++ ' ' :: t.render.toList := by
      simp [render]
    rw [IsNested, text]
    exact behind
  | send =>
    have text : (TypeExpr.chan .send t).render.toList =
        "chan".toList ++ '<' :: '-' :: ' ' :: t.render.toList := by simp [render]
    rw [IsNested, text]
    refine NestedText.behind_word (by decide) (arrow h.written.space fun rest _ c hc => ?_)
      fun rest _ c hc => by cases hc; rfl
    cases hc
    rfl
  | receive =>
    have text : (TypeExpr.chan .receive t).render.toList =
        '<' :: '-' :: ("chan".toList ++ ' ' :: t.render.toList) := by simp [render]
    rw [IsNested, text]
    exact arrow behind fun rest _ c hc => by cases hc; rfl

/-! ### Fields and structs -/

theorem IsNested.tagged (h : t.IsNested) {tag : Option String} (htag : IsTag tag) :
    NestedText (t.render.toList ++ tagText tag) := by
  cases tag with
  | none =>
    rw [tagText, List.append_nil]
    exact h.written
  | some quoted =>
    refine Lexes.append h.written (Lexes.space (htag quoted rfl))
      (fun rest _ c hc => by cases hc; rfl) ?_
    rintro ls _ hls ⟨l, rfl, hl⟩
    refine hls.append (isLevel_singleton ?_).isNested
    rcases Token.tag?_eq_some hl with found | found <;> rw [found] <;> rfl

theorem nested_names {names : List String} (words : ∀ name ∈ names, isName name.toList = true)
    (h : NestedText behind) : NestedText (namesText names ++ ' ' :: behind) := by
  induction names with
  | nil => exact Lexes.space h
  | cons name names ih =>
    obtain ⟨isWord, more⟩ := List.forall_mem_cons.1 words
    have text : namesText (name :: names) ++ ' ' :: behind =
        ',' :: ' ' :: (name.toList ++ (namesText names ++ ' ' :: behind)) := by simp [namesText]
    have named : NestedText (name.toList ++ (namesText names ++ ' ' :: behind)) :=
      NestedText.behind_word isWord (ih more) fun rest _ c hc => by
        cases names <;> cases hc <;> rfl
    rw [text]
    exact NestedText.mark rfl rfl (Lexes.space named)

theorem IsNested.field (h : t.IsNested) {names : List String} (hw : isName w.toList = true)
    (words : ∀ name ∈ names, isName name.toList = true) {tag : Option String} (htag : IsTag tag)
    (doc : List Comment) (position : Position) :
    Field.IsNested ⟨w :: names, false, t, tag, doc, position⟩ := by
  have text : (renderField ⟨w :: names, false, t, tag, doc, position⟩).toList =
      w.toList ++ (namesText names ++ ' ' :: (t.render.toList ++ tagText tag)) := by
    cases tag <;> simp [renderField, tagText, intercalate_names]
  rw [Field.IsNested, text]
  exact NestedText.behind_word hw (nested_names words (h.tagged htag)) fun rest _ c hc => by
    cases names <;> cases hc <;> rfl

theorem IsNested.embedded (h : t.IsNested) {tag : Option String} (htag : IsTag tag) (name : String)
    (doc : List Comment) (position : Position) :
    Field.IsNested ⟨[name], true, t, tag, doc, position⟩ := by
  have text : (renderField ⟨[name], true, t, tag, doc, position⟩).toList =
      t.render.toList ++ tagText tag := by
    cases tag <;> simp [renderField, tagText]
  rw [Field.IsNested, text]
  exact h.tagged htag

/-- A field with those behind it. -/
theorem nested_fields {f : Field} (h : f.IsNested) (more : ∀ g ∈ fs, g.IsNested) :
    NestedText ((renderField f).toList ++ (renderMore fs).toList) := by
  induction fs generalizing f with
  | nil =>
    rw [show (renderMore []).toList = [] from rfl, List.append_nil]
    exact h
  | cons g fs ih =>
    obtain ⟨first, others⟩ := List.forall_mem_cons.1 more
    have text : (renderMore (g :: fs)).toList =
        ';' :: ' ' :: ((renderField g).toList ++ (renderMore fs).toList) := by simp [renderMore]
    have behind : NestedText (';' :: ' ' :: ((renderField g).toList ++ (renderMore fs).toList)) := by
      refine Lexes.mark rfl (Lexes.space (ih first others)) ?_
      intro l ms hl hms depth inside
      rw [List.map_cons, hl]
      exact (hms depth inside).plain rfl rfl fun _ => inside
    rw [text]
    exact Lexes.append h behind (fun rest _ c hc => by cases hc; rfl)
      fun _ _ hls hms => hls.append hms

theorem isNested_struct (h : ∀ f ∈ fs, f.IsNested) : (struct fs).IsNested := by
  have keyword {p : Char → Bool} {text : List Char} (h : Lexes text p IsLevel)
      (apart : ∀ rest, Ends p rest → Ends continuesName (text ++ rest)) :
      Lexes ("struct".toList ++ text) p Go.IsNested := by
    refine Lexes.word (by decide) h apart ?_
    intro l ms hl hms
    exact ((isLevel_singleton (by rw [hl]; exact ofWord_inner _)).append hms).isNested
  cases fs with
  | nil =>
    have text : (struct []).render.toList = "struct".toList ++ ['\x7b', '\x7d'] := by simp [render]
    rw [IsNested, text]
    exact keyword (lexes_brackets rfl rfl rfl rfl) fun rest _ c hc => by cases hc; rfl
  | cons f fs =>
    obtain ⟨first, more⟩ := List.forall_mem_cons.1 h
    have text : (struct (f :: fs)).render.toList = "struct".toList ++ ' ' :: '\x7b' ::
        (' ' :: ((renderField f).toList ++ (renderMore fs).toList) ++ ([' '] ++ ['\x7d'])) := by
      simp [render]
    have inner : NestedText (' ' :: ((renderField f).toList ++ (renderMore fs).toList)) :=
      Lexes.space (nested_fields first more)
    have blank : IsGap [' '] := List.forall_mem_singleton.2 rfl
    have group : Lexes ('\x7b' :: (' ' :: ((renderField f).toList ++ (renderMore fs).toList) ++
        ([' '] ++ ['\x7d']))) (fun _ => false) IsLevel :=
      Lexes.enclosed_gap rfl rfl rfl rfl inner (fun _ hls => hls) blank fun rest c hc => by
        cases hc
        rfl
    rw [IsNested, text]
    exact keyword group.space fun rest _ c hc => by cases hc; rfl

/-! ### Types that were read -/

/-- All types within the type are written with their brackets in pairs, as far as they are
closed. -/
def AllNested (t : TypeExpr) : Prop := ∀ u ∈ t.parts, u.IsClosed → u.IsNested

end TypeExpr

def Field.AllNested (f : Field) : Prop := f.type.AllNested ∧ (f.type.IsClosed → f.IsNested)

def Tree.AllNested : Tree → Prop
  | .type t => t.AllNested
  | .field f => f.AllNested
  | .fields fs => ∀ f ∈ fs, f.AllNested

theorem AllNested.leaf (parts : t.parts = [t]) (h : t.IsClosed → t.IsNested) : t.AllNested := by
  intro v hv closed
  rw [parts, List.mem_singleton] at hv
  subst hv
  exact h closed

/-- What is closed in a type is closed in a type within it. -/
theorem TypeExpr.IsClosed.within (h : t.IsClosed) (parts : ∀ v ∈ u.parts, v ∈ t.parts) :
    u.IsClosed := by
  intro text htext
  obtain ⟨v, hv, found⟩ := List.mem_filterMap.1 htext
  exact h text (List.mem_filterMap.2 ⟨v, parts v hv, found⟩)

/-- A type with one other within it. -/
theorem AllNested.node (parts : t.parts = t :: u.parts) (h : u.AllNested)
    (whole : t.IsClosed → u.IsNested → t.IsNested) : t.AllNested := by
  intro v hv closed
  rw [parts] at hv
  rcases List.mem_cons.1 hv with rfl | hv
  · refine whole closed (h u u.self_mem_parts (closed.within fun v hv => ?_))
    rw [parts]
    exact List.mem_cons_of_mem _ hv
  · exact h v hv closed

theorem allNested_map (h : t.AllNested) (h' : u.AllNested) : (TypeExpr.map t u).AllNested := by
  intro v hv closed
  rw [TypeExpr.parts] at hv
  rcases List.mem_cons.1 hv with rfl | hv
  · have inside {e : TypeExpr} (within : ∀ v ∈ e.parts, v ∈ t.parts ++ u.parts) : e.IsClosed :=
      closed.within fun v hv => by
        rw [TypeExpr.parts]
        exact List.mem_cons_of_mem _ (within v hv)
    exact (h t t.self_mem_parts (inside fun _ => List.mem_append_left _)).map
      (h' u u.self_mem_parts (inside fun _ => List.mem_append_right _))
  · rcases List.mem_append.1 hv with hv | hv
    · exact h v hv closed
    · exact h' v hv closed

theorem allNested_struct (h : ∀ f ∈ fs, f.AllNested) : (TypeExpr.struct fs).AllNested := by
  intro v hv closed
  rw [TypeExpr.parts] at hv
  rcases List.mem_cons.1 hv with rfl | hv
  · refine TypeExpr.isNested_struct fun f hf => (h f hf).2 (closed.within fun v hv => ?_)
    rw [TypeExpr.parts]
    exact List.mem_cons_of_mem _ (TypeExpr.mem_partsOf.2 ⟨f, hf, hv⟩)
  · obtain ⟨f, hf, inside⟩ := TypeExpr.mem_partsOf.1 hv
    exact (h f hf).1 v inside closed

variable {l : Lexeme} {ls run rest : List Lexeme} {next : Place}

/-- Lexemes with their brackets in pairs are found again in the text that they were. -/
theorem IsLexed.nested (lexed : IsLexed (l :: (run ++ rest)))
    (ends : ∀ k ∈ (l :: run).getLast?, ∀ comment, k.token ≠ .lineComment comment)
    (closed : areClosed 0 ((l :: run).map (·.token)) = true) : NestedText (spanText (l :: run)) := by
  refine (lexed.lexes ends).imp (fun _ stops => stops) ?_
  rintro ms ⟨down, copies⟩
  rw [← copies.tokens] at closed
  exact isNested_of_areClosed closed

theorem IsLexed.areClosed (lexed : IsLexed (l :: (run ++ rest)))
    (ends : ∀ k ∈ (l :: run).getLast?, ∀ comment, k.token ≠ .lineComment comment)
    (closed : isClosedText (spanText (l :: run)) = true) :
    Go.areClosed 0 ((l :: run).map (·.token)) = true := by
  obtain ⟨ms, hlex, down, copies⟩ := (lexed.lexes ends).lex
  rw [isClosedText, hlex, Bool.and_eq_true_iff] at closed
  rw [← copies.tokens]
  exact closed.2

/-- A function type is written as it was. -/
theorem Reads.nested_func {previous : Option Lexeme} {text : String}
    (h : Reads ⟨previous, l :: ls⟩ (.type (.func text)) next)
    (written : text = Place.textTo ⟨previous, l :: ls⟩ next) (lexed : IsLexed (l :: ls)) :
    (TypeExpr.func text).AllNested := by
  obtain ⟨taken, rfl, spelled, ends⟩ := h.taken
  refine AllNested.leaf rfl fun closed => ?_
  have loose : text ∈ (TypeExpr.func text).loose := List.mem_singleton.2 rfl
  have closedText := closed text loose
  rw [written, spelled, String.toList_ofList] at closedText
  rw [TypeExpr.IsNested, TypeExpr.render, written, spelled, String.toList_ofList]
  exact lexed.nested ends (lexed.areClosed ends closedText)

/-- A bracketed group is found with its brackets in pairs. -/
theorem IsLexed.nested_group {taken : List Lexeme} (lexed : IsLexed (l :: ls))
    (opening : l.token.isOpening = true) (htaken : takeGroup 0 (l :: ls) = some (taken, rest)) :
    NestedText (spanText taken) := by
  refine (lexed.group htaken).imp (fun _ stops => stops) ?_
  rintro ms ⟨down, copies⟩
  have closed := takeGroup_isClosed opening htaken
  rw [← copies.tokens] at closed
  exact isNested_of_areClosed closed

/-- An interface type ends with its group of methods. -/
theorem Reads.nested_interface {previous : Option Lexeme} {m : Lexeme} {body : List Lexeme}
    (hl : l.token = .interface) (hm : m.token = .leftBrace)
    (htaken : takeGroup 0 (m :: ls) = some (body, rest)) (lexed : IsLexed (l :: m :: ls)) :
    (TypeExpr.interface
      (Place.textTo ⟨previous, l :: m :: ls⟩ ⟨body.getLast?, rest⟩)).AllNested := by
  have reads : Reads ⟨previous, l :: m :: ls⟩ (.type (.interface _)) ⟨body.getLast?, rest⟩ :=
    .interface hl hm htaken
  obtain ⟨taken, split, spelled, ends⟩ := reads.taken
  rw [takeGroup_append htaken] at split
  obtain rfl := List.append_cancel_right split
  have closed : Go.areClosed 0 ((l :: body).map (·.token)) = true := by
    rw [List.map_cons, hl]
    exact takeGroup_isClosed (by rw [hm]; rfl) htaken
  refine AllNested.leaf rfl fun _ => ?_
  rw [TypeExpr.IsNested, TypeExpr.render, spelled, String.toList_ofList]
  rw [takeGroup_append htaken] at lexed
  exact lexed.nested ends closed

theorem ReadsBase.primary {base : TypeExpr} (h : ReadsBase w ⟨some l, ls⟩ base next)
    (hl : l.token = .identifier w) (lexed : IsLexed (l :: ls)) :
    PrimaryText base.render.toList := by
  have isWord := (lexed.isWord hl).name
  cases h with
  | plain => exact primaryText_word isWord
  | dotted _ hm => exact TypeExpr.primaryText_qualified isWord (lexed.tail.tail.isWord hm).name

theorem ReadsBase.nested {base : TypeExpr} (h : ReadsBase w ⟨some l, ls⟩ base next)
    (hl : l.token = .identifier w) (lexed : IsLexed (l :: ls)) : base.AllNested := by
  have isWord := (lexed.isWord hl).name
  cases h with
  | plain => exact AllNested.leaf rfl fun _ => TypeExpr.isNested_named isWord
  | dotted _ hm =>
    exact AllNested.leaf rfl fun _ =>
      TypeExpr.isNested_qualified isWord (lexed.tail.tail.isWord hm).name

/-- A name with type arguments. -/
theorem ReadsBase.nested_instance {n : Lexeme} {ns taken : List Lexeme} {base : TypeExpr}
    {last : Option Lexeme} (h : ReadsBase w ⟨some l, ls⟩ base ⟨last, n :: ns⟩)
    (hl : l.token = .identifier w) (lexed : IsLexed (l :: ls)) (bracket : n.token = .leftBracket)
    (htaken : takeGroup 0 (n :: ns) = some (taken, rest)) :
    (TypeExpr.instantiated base (String.ofList (spanText taken))).AllNested := by
  refine AllNested.node (by simp [TypeExpr.parts]) (h.nested hl lexed) fun _ _ => ?_
  have behind : IsLexed (n :: ns) := (h.takes hl).isLexed lexed
  have bracketText : n.text = ['['] := by
    obtain ⟨cs, scans⟩ := behind.scans
    exact scans.mark_text (by rw [bracket]; rfl)
  obtain ⟨cs, front⟩ := takeGroup_text htaken bracketText
  have text : (TypeExpr.instantiated base (String.ofList (spanText taken))).render.toList =
      base.render.toList ++ spanText taken := by simp [TypeExpr.render]
  rw [TypeExpr.IsNested, text]
  refine (h.primary hl lexed).lexes.append
    (behind.nested_group (by rw [bracket]; rfl) htaken) (fun rest _ c hc => ?_)
    fun _ _ hls hms => hls.isNested.append hms
  rw [front] at hc
  cases hc
  rfl

/-- The length of an array is nothing, or found again as it was but for newlines around it. -/
theorem IsLexed.nested_array {m : Lexeme} {size : List Lexeme} {e : TypeExpr}
    (lexed : IsLexed (size ++ m :: ls)) (h : e.AllNested) :
    (TypeExpr.array (String.ofList (trim (spanText size))) e).AllNested := by
  refine AllNested.node (by simp [TypeExpr.parts]) h fun closed element => element.array ?_
  have loose : String.ofList (trim (spanText size)) ∈
      (TypeExpr.array (String.ofList (trim (spanText size))) e).loose := by
    simp [TypeExpr.loose, TypeExpr.parts, TypeExpr.loose?]
  have closedText := closed _ loose
  rw [String.toList_ofList] at closedText ⊢
  have noComment : endsComment (trim (spanText size)) = false := by
    rw [isClosedText, Bool.and_eq_true_iff, Bool.not_eq_true'] at closedText
    exact closedText.1
  obtain ⟨spot, cs, hlex⟩ := lexed
  obtain ⟨before, core, back, rfl, -, -, text, plain⟩ := hlex.trimmed noComment
  rw [← text] at closedText ⊢
  cases core with
  | nil => exact .inl rfl
  | cons k core =>
    have lexedCore : IsLexed (k :: (core ++ (back ++ m :: ls))) := by
      have whole : IsLexed (before ++ (k :: core ++ (back ++ m :: ls))) :=
        ⟨spot, cs, by simpa using hlex⟩
      exact whole.behind
    exact .inr (lexedCore.nested plain (lexedCore.areClosed plain closedText))

/-- What was read from a source is written with its brackets in pairs, as far as it is closed. -/
theorem Reads.allNested {place : Place} {tree : Tree} (h : Reads place tree next)
    (lexed : IsLexed place.rest) : tree.AllNested := by
  induction h with
  | name hl base => exact base.nested hl lexed
  | «instance» hl base bracket htaken => exact base.nested_instance hl lexed bracket htaken
  | pointer _ _ ih =>
    exact AllNested.node (by simp [TypeExpr.parts]) (ih lexed.tail) fun _ target => target.pointer
  | slice _ _ _ ih =>
    exact AllNested.node (by simp [TypeExpr.parts]) (ih lexed.tail.tail) fun _ element =>
      element.slice
  | array _ _ _ _ ih => exact lexed.tail.nested_array (ih lexed.tail.behind.tail)
  | map _ _ hkey _ _ key value =>
    have behind := hkey.takes.isLexed lexed.tail.tail
    exact allNested_map (key lexed.tail.tail) (value behind.tail)
  | chan _ _ _ ih =>
    exact AllNested.node (by simp [TypeExpr.parts]) (ih lexed.tail) fun _ element =>
      element.chan .both
  | send _ _ _ ih =>
    exact AllNested.node (by simp [TypeExpr.parts]) (ih lexed.tail.tail) fun _ element =>
      element.chan .send
  | receive _ _ _ ih =>
    exact AllNested.node (by simp [TypeExpr.parts]) (ih lexed.tail.tail) fun _ element =>
      element.chan .receive
  | func hl hm htaken ends => exact (Reads.func hl hm htaken ends).nested_func rfl lexed
  | funcMany hl hm htaken hn hmany =>
    exact (Reads.funcMany hl hm htaken hn hmany).nested_func rfl lexed
  | funcOne hl hm htaken starts result =>
    exact (Reads.funcOne hl hm htaken starts result).nested_func rfl lexed
  | interface hl hm htaken => exact Reads.nested_interface hl hm htaken lexed
  | struct _ _ _ ih => exact allNested_struct (ih lexed.tail.tail)
  | paren _ _ _ ih => exact ih lexed.tail
  | embedded _ htype _ htag ih =>
    refine ⟨ih lexed, fun closed => ?_⟩
    have whole := ih lexed _ (TypeExpr.self_mem_parts _) closed
    exact whole.embedded (htag.isTag (htype.takes.isLexed lexed)) _ _ _
  | named hl _ names htype htag ih =>
    have takes := names.takes (.one (isTrivia_of_name hl))
    have behind := takes.isLexed lexed
    refine ⟨ih behind, fun closed => ?_⟩
    have whole := ih behind _ (TypeExpr.self_mem_parts _) closed
    exact whole.field (lexed.isWord hl).name
      (fun name hname => (names.words lexed.tail name hname).name)
      (htag.isTag (htype.takes.isLexed behind)) _ _
  | closed => exact fun _ hf => (List.not_mem_nil hf).elim
  | more hdoc hfirst htrail _ _ first fields =>
    obtain ⟨above, split, -, -⟩ := Parser.leadingComments_passes hdoc
    obtain ⟨trailing, split', -, -⟩ := Parser.trailingComment_passes htrail
    rw [split] at lexed
    have lexedBehind := hfirst.takes.isLexed lexed.behind
    rw [split'] at lexedBehind
    exact List.forall_mem_cons.2 ⟨first lexed.behind, fields lexedBehind.behind⟩

end

end Go
end FieldRules
