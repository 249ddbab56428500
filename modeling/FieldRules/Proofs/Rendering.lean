/-
What a type is written as, and what is read from it.

The text of every type that was read from a source is cut into lexemes that are
read as that type again (`Reads.prints`), if neither the type nor a part of it is
ambiguous.
-/
import FieldRules.Proofs.Printing

namespace FieldRules
namespace Go

open Text
open Go.Parser

/-- A word that is no keyword. -/
structure IsWord (word : String) : Prop where
  name : isName word.toList = true
  token : Token.ofWord word.toList = .identifier word

theorem Scans.isWord {token : Token} {text rest : List Char} (h : Scans token text rest)
    {word : String} (found : token = .identifier word) : IsWord word := by
  cases h with
  | mark h => exact absurd found ((mark_plain h).1 word)
  | operator => exact absurd found ((operator_plain _).1 word)
  | @word c cs _ starts all =>
    have name : isName (c :: cs) = true :=
      Bool.and_eq_true_iff.2 ⟨starts, List.all_eq_true.2 all⟩
    have spells := ofWord_spells name
    rw [found] at spells
    rw [spells.1] at found name
    exact ⟨name, found⟩
  | _ => cases found

/-! ### Texts of types -/

/-- The text of a type is cut into lexemes that are read as it. -/
def TypeExpr.Prints (t : TypeExpr) : Prop := Lexes t.render.toList continuesToken (ReadAs t)

def Field.Prints (f : Field) : Prop :=
  Lexes (TypeExpr.renderField f).toList continuesToken (FieldAs f)

theorem Ends.of_stop {p : Char → Bool} {rest : List Char} (h : Ends continuesToken rest)
    (none : [' ', '\n', ']', ';', ','].any p = false) : Ends p rest := by
  intro c hc
  have stop := h c hc
  rw [continuesToken, Bool.not_eq_false'] at stop
  exact endsToken_not none stop

section

variable {t u e : TypeExpr} {word name : String}

theorem IsWord.prints (h : IsWord word) : (TypeExpr.named word).Prints := by
  refine (lexes_word h.name).imp (fun rest ends => ends.of_stop (by decide +kernel)) ?_
  rintro ls ⟨l, rfl, hl⟩
  exact (BaseAs.named word).readAs (hl.trans h.token)

/-- A word does not start with a point. -/
theorem IsWord.noDot (h : IsWord word) (rest : List Char) :
    Ends (· == '.') (word.toList ++ rest) := by
  have name := h.name
  cases hword : word.toList with
  | nil => rw [hword] at name; cases name
  | cons c cs =>
    rw [hword] at name
    intro d hd
    cases hd
    refine beq_eq_false_iff_ne.2 ?_
    rintro rfl
    cases name

/-- The name of a package in front of another name. -/
theorem IsWord.dotted (h : IsWord word) {behind : List Char} {p : Char → Bool}
    {P Q : List Lexeme → Prop} (hbehind : Lexes behind p P)
    (noDot : ∀ rest, Ends (· == '.') (behind ++ rest))
    (more : ∀ k l ms, k.token = .identifier word → l.token = .dot → P ms → Q (k :: l :: ms)) :
    Lexes (word.toList ++ '.' :: behind) p Q := by
  have dot : Lexes ('.' :: behind) p fun ms => ∀ k, k.token = .identifier word → Q (k :: ms) :=
    Lexes.dot hbehind (fun rest _ => noDot rest) fun l ms hl hms k hk => more k l ms hk hl hms
  exact Lexes.word h.name dot (fun rest _ c hc => by cases hc; rfl)
    fun k ms hk hms => hms k (hk.trans h.token)

theorem IsWord.prints_qualified (h : IsWord word) (h' : IsWord name) :
    (TypeExpr.qualified word name).Prints := by
  have text : (TypeExpr.qualified word name).render.toList =
      word.toList ++ '.' :: name.toList := by simp [TypeExpr.render]
  rw [TypeExpr.Prints, text]
  have second : Lexes name.toList continuesToken fun ls => ∃ l, ls = [l] ∧
      l.token = Token.ofWord name.toList :=
    (lexes_word h'.name).imp (fun rest ends => ends.of_stop (by decide +kernel)) fun _ hls => hls
  refine h.dotted second h'.noDot ?_
  rintro k l ms hk hl ⟨m, rfl, hm⟩
  exact (BaseAs.qualified word hl (hm.trans h'.token)).readAs hk

section

variable {n : Lexeme} {ns taken rest : List Lexeme}

/-- Type arguments, in front of which a name ends. -/
theorem takeGroup_text (htaken : takeGroup 0 (n :: ns) = some (taken, rest))
    (text : n.text = ['[']) : ∃ cs, spanText taken = '[' :: cs := by
  obtain ⟨inner, rfl, -⟩ := takeGroup_front htaken
  rw [spanText_cons, text]
  exact ⟨_, rfl⟩

theorem IsWord.prints_instance (h : IsWord word) (bracket : n.token = .leftBracket)
    (text : n.text = ['[']) (htaken : takeGroup 0 (n :: ns) = some (taken, rest))
    (arguments : Lexes (spanText taken) continuesToken fun ls => ∃ down, Copies down taken ls) :
    (TypeExpr.instantiated (.named word) (String.ofList (spanText taken))).Prints := by
  obtain ⟨cs, hcs⟩ := takeGroup_text htaken text
  have whole : (TypeExpr.instantiated (.named word)
      (String.ofList (spanText taken))).render.toList =
        word.toList ++ spanText taken := by simp [TypeExpr.render]
  rw [TypeExpr.Prints, whole]
  refine Lexes.word h.name arguments (fun rest _ c hc => ?_) ?_
  · rw [hcs] at hc
    cases hc
    rfl
  · rintro l ms hl ⟨down, copies⟩
    exact (BaseAs.named word).instance (hl.trans h.token) bracket htaken copies

theorem IsWord.prints_qualified_instance (h : IsWord word) (h' : IsWord name)
    (bracket : n.token = .leftBracket) (text : n.text = ['['])
    (htaken : takeGroup 0 (n :: ns) = some (taken, rest))
    (arguments : Lexes (spanText taken) continuesToken fun ls => ∃ down, Copies down taken ls) :
    (TypeExpr.instantiated (.qualified word name) (String.ofList (spanText taken))).Prints := by
  obtain ⟨cs, hcs⟩ := takeGroup_text htaken text
  have whole : (TypeExpr.instantiated (.qualified word name)
      (String.ofList (spanText taken))).render.toList =
        word.toList ++ '.' :: (name.toList ++ spanText taken) := by simp [TypeExpr.render]
  rw [TypeExpr.Prints, whole]
  have second : Lexes (name.toList ++ spanText taken) continuesToken fun ms => ∀ k l,
      k.token = .identifier word → l.token = .dot →
      ReadAs (.instantiated (.qualified word name) (String.ofList (spanText taken)))
        (k :: l :: ms) := by
    refine Lexes.word h'.name arguments (fun rest _ c hc => ?_) ?_
    · rw [hcs] at hc
      cases hc
      rfl
    · rintro m ms hm ⟨down, copies⟩ k l hk hl
      exact (BaseAs.qualified word hl (hm.trans h'.token)).instance hk bracket htaken copies
  exact h.dotted second (fun rest => by rw [List.append_assoc]; exact h'.noDot _)
    fun k l ms hk hl hms => hms k l hk hl

end

theorem TypeExpr.Prints.pointer (h : t.Prints) : (TypeExpr.pointer t).Prints := by
  have text : (TypeExpr.pointer t).render.toList = '*' :: t.render.toList := by simp [render]
  rw [Prints, text]
  exact Lexes.mark rfl h fun l ms hl hms => hms.pointer hl

theorem TypeExpr.Prints.slice (h : t.Prints) : (TypeExpr.slice t).Prints := by
  have text : (TypeExpr.slice t).render.toList = '[' :: ']' :: t.render.toList := by simp [render]
  rw [Prints, text]
  have behind : Lexes (']' :: t.render.toList) continuesToken fun ms =>
      ∀ l, l.token = .leftBracket → ReadAs (.slice t) (l :: ms) :=
    Lexes.mark rfl h fun m ms hm hms l hl => hms.slice hl hm
  exact Lexes.mark rfl behind fun l ms hl hms => hms l hl

theorem TypeExpr.Prints.map (h : t.Prints) (h' : u.Prints) : (TypeExpr.map t u).Prints := by
  have text : (TypeExpr.map t u).render.toList =
      "map".toList ++ '[' :: (t.render.toList ++ ']' :: u.render.toList) := by simp [render]
  rw [Prints, text]
  have value : Lexes (']' :: u.render.toList) continuesToken fun ms => ∀ k l ks, k.token = .map →
      l.token = .leftBracket → ReadAs t ks → ReadAs (.map t u) (k :: l :: (ks ++ ms)) :=
    Lexes.mark rfl h' fun m ms hm hms k l ks hk hl hks => hks.map hms hk hl hm
  have key : Lexes (t.render.toList ++ ']' :: u.render.toList) continuesToken fun ms =>
      ∀ k l, k.token = .map → l.token = .leftBracket → ReadAs (.map t u) (k :: l :: ms) :=
    h.append value (fun rest _ c hc => by cases hc; rfl) fun ks ms hks hms k l hk hl =>
      hms k l ks hk hl hks
  have bracket : Lexes ('[' :: (t.render.toList ++ ']' :: u.render.toList)) continuesToken fun ms =>
      ∀ k, k.token = .map → ReadAs (.map t u) (k :: ms) :=
    Lexes.mark rfl key fun l ms hl hms k hk => hms k l hk hl
  exact Lexes.word (by decide) bracket (fun rest _ c hc => by cases hc; rfl) fun k ms hk hms =>
    hms k (hk.trans (by decide))

theorem TypeExpr.Prints.chan (h : t.Prints) (other : ∀ e, t ≠ .chan .receive e) :
    (TypeExpr.chan .both t).Prints := by
  have text : (TypeExpr.chan .both t).render.toList = "chan".toList ++ ' ' :: t.render.toList := by
    simp [render]
  rw [Prints, text]
  exact Lexes.word (by decide) (Lexes.space h) (fun rest _ c hc => by cases hc; rfl)
    fun l ms hl hms => hms.chan (hl.trans (by decide)) other

theorem TypeExpr.Prints.send (h : t.Prints) : (TypeExpr.chan .send t).Prints := by
  have text : (TypeExpr.chan .send t).render.toList =
      "chan".toList ++ '<' :: '-' :: ' ' :: t.render.toList := by simp [render]
  rw [Prints, text]
  have arrow : Lexes ('<' :: '-' :: ' ' :: t.render.toList) continuesToken fun ms =>
      ∀ l, l.token = .chan → ReadAs (.chan .send t) (l :: ms) :=
    Lexes.arrow (Lexes.space h) (fun rest _ c hc => by cases hc; rfl)
      fun m ms hm hms l hl => hms.send hl hm
  exact Lexes.word (by decide) arrow (fun rest _ c hc => by cases hc; rfl)
    fun l ms hl hms => hms l (hl.trans (by decide))

theorem TypeExpr.Prints.receive (h : t.Prints) : (TypeExpr.chan .receive t).Prints := by
  have text : (TypeExpr.chan .receive t).render.toList =
      '<' :: '-' :: ("chan".toList ++ ' ' :: t.render.toList) := by simp [render]
  rw [Prints, text]
  have word : Lexes ("chan".toList ++ ' ' :: t.render.toList) continuesToken fun ms =>
      ∀ l, l.token = .arrow → ReadAs (.chan .receive t) (l :: ms) :=
    Lexes.word (by decide) (Lexes.space h) (fun rest _ c hc => by cases hc; rfl)
      fun m ms hm hms l hl => hms.receive hl (hm.trans (by decide))
  exact Lexes.arrow word (fun rest _ c hc => by cases hc; rfl) fun l ms hl hms => hms l hl

theorem TypeExpr.Prints.array (h : e.Prints) {core : List Lexeme}
    (hsize : Lexes (spanText core) continuesToken fun ls => ∃ down, Copies down core ls)
    (sized : core ≠ []) (isLength : IsLength 0 (core.map (·.token)))
    (trimmed : trim (spanText core) = spanText core) :
    (TypeExpr.array (String.ofList (spanText core)) e).Prints := by
  have text : (TypeExpr.array (String.ofList (spanText core)) e).render.toList =
      '[' :: (spanText core ++ ']' :: e.render.toList) := by simp [render]
  rw [Prints, text]
  have element : Lexes (']' :: e.render.toList) continuesToken fun ms => ∀ l down size,
      l.token = .leftBracket → Copies down core size →
      ReadAs (.array (String.ofList (spanText core)) e) (l :: (size ++ ms)) := by
    refine Lexes.mark rfl h fun m ms hm hms l down size hl copies => ?_
    rw [← copies.spanText_eq] at trimmed ⊢
    rw [← copies.tokens] at isLength
    exact hms.array hl (copies.ne_nil sized) isLength trimmed hm
  have size : Lexes (spanText core ++ ']' :: e.render.toList) continuesToken fun ms => ∀ l,
      l.token = .leftBracket → ReadAs (.array (String.ofList (spanText core)) e) (l :: ms) :=
    hsize.append element (fun rest _ c hc => by cases hc; rfl) fun ls ms copied hms l hl =>
      copied.elim fun down copies => hms l down ls hl copies
  exact Lexes.mark rfl size fun l ms hl hms => hms l hl

/-! ### Texts of fields and structs -/

/-- The text of a tag behind a type. -/
def tagText : Option String → List Char
  | some quoted => ' ' :: quoted.toList
  | none => []

/-- A tag that was read. -/
def IsTag (tag : Option String) : Prop :=
  ∀ quoted ∈ tag, Lexes quoted.toList continuesToken fun ls =>
    ∃ l, ls = [l] ∧ l.token.tag? = some quoted

theorem TypeExpr.Prints.tagged (h : t.Prints) {tag : Option String} (htag : IsTag tag) :
    Lexes (t.render.toList ++ tagText tag) continuesToken fun ls =>
      ∃ as ts, ls = as ++ ts ∧ ReadAs t as ∧ TagAs tag ts := by
  cases tag with
  | none =>
    rw [tagText, List.append_nil]
    exact h.imp (fun _ ends => ends) fun ls hls => ⟨ls, [], (List.append_nil ls).symm, hls, .absent⟩
  | some quoted =>
    refine h.append (Lexes.space (htag quoted rfl)) (fun rest _ c hc => by cases hc; rfl) ?_
    rintro as ts has ⟨l, rfl, hl⟩
    exact ⟨as, [l], rfl, has, .present hl⟩

/-- The text of further names. -/
def namesText (names : List String) : List Char :=
  names.flatMap fun name => ',' :: ' ' :: name.toList

theorem intercalate_names (name : String) (names : List String) :
    [',', ' '].intercalate (name.toList :: names.map String.toList) =
      name.toList ++ namesText names := by
  induction names generalizing name with
  | nil => simp [namesText, List.intercalate]
  | cons second names ih =>
    have more := ih second
    simp only [List.map_cons, List.intercalate, List.intersperse, List.flatten_cons] at more ⊢
    rw [more]
    simp [namesText]

/-- Further names in front of a type. -/
theorem lexes_names {names : List String} (words : ∀ name ∈ names, IsWord name) {behind : List Char}
    {P : List Lexeme → Prop} (h : Lexes behind continuesToken P) :
    Lexes (namesText names ++ ' ' :: behind) continuesToken fun ls =>
      ∃ ns ms, ls = ns ++ ms ∧ NamesAs names ns ∧ P ms := by
  induction names with
  | nil => exact h.space.imp (fun _ ends => ends) fun ls hls => ⟨[], ls, rfl, .nil, hls⟩
  | cons name names ih =>
    obtain ⟨word, more⟩ := List.forall_mem_cons.1 words
    have text : namesText (name :: names) ++ ' ' :: behind =
        ',' :: ' ' :: (name.toList ++ (namesText names ++ ' ' :: behind)) := by simp [namesText]
    have named : Lexes (name.toList ++ (namesText names ++ ' ' :: behind)) continuesToken fun ls =>
        ∀ l, l.token = .comma →
          ∃ ns ms, l :: ls = ns ++ ms ∧ NamesAs (name :: names) ns ∧ P ms := by
      refine Lexes.word word.name (ih more) (fun rest _ c hc => ?_) ?_
      · cases names <;> cases hc <;> rfl
      · rintro m ls hm ⟨ns, ms, rfl, hns, hms⟩ l hl
        exact ⟨l :: m :: ns, ms, rfl, .cons hl (hm.trans word.token) hns, hms⟩
    rw [text]
    exact Lexes.mark rfl named.space fun l ls hl hls => hls l hl

theorem TypeExpr.Prints.field {names : List String} (h : t.Prints) (hw : IsWord word)
    (words : ∀ name ∈ names, IsWord name) {tag : Option String} (htag : IsTag tag)
    (doc : List Comment) (position : Position) :
    Field.Prints ⟨word :: names, false, t, tag, doc, position⟩ := by
  have text : (TypeExpr.renderField ⟨word :: names, false, t, tag, doc, position⟩).toList =
      word.toList ++ (namesText names ++ ' ' :: (t.render.toList ++ tagText tag)) := by
    cases tag <;> simp [renderField, tagText, intercalate_names]
  rw [Field.Prints, text]
  refine Lexes.word hw.name (lexes_names words (h.tagged htag)) (fun rest _ c hc => ?_) ?_
  · cases names <;> cases hc <;> rfl
  · rintro l _ hl ⟨ns, _, rfl, hns, as, ts, rfl, has, hts⟩
    exact .named (hl.trans hw.token) hns has hts doc position

theorem TypeExpr.Prints.embedded (h : t.Prints) (hname : embeddedName? t = some name)
    (plain : ∀ word arguments, t ≠ .instantiated (.named word) arguments) {tag : Option String}
    (htag : IsTag tag) (doc : List Comment) (position : Position) :
    Field.Prints ⟨[name], true, t, tag, doc, position⟩ := by
  have text : (TypeExpr.renderField ⟨[name], true, t, tag, doc, position⟩).toList =
      t.render.toList ++ tagText tag := by
    cases tag <;> simp [renderField, tagText]
  rw [Field.Prints, text]
  refine (h.tagged htag).imp (fun _ ends => ends) ?_
  rintro _ ⟨as, ts, rfl, has, hts⟩
  exact .embedded has hname plain hts doc position

/-- A field in front of others. -/
theorem Field.Prints.body {f : Field} (h : f.Prints) {fs : List Field} {R : List Lexeme → Prop}
    (h' : Lexes ((TypeExpr.renderMore fs).toList ++ [' ', '\x7d']) (fun _ => false) (FieldsAs fs))
    (both : ∀ ls ms, FieldAs f ls → FieldsAs fs ms → R (ls ++ ms)) :
    Lexes ((TypeExpr.renderField f).toList ++ ((TypeExpr.renderMore fs).toList ++ [' ', '\x7d']))
      (fun _ => false) R := by
  refine h.append h' (fun rest _ c hc => ?_) both
  cases fs <;> simp [TypeExpr.renderMore] at hc <;> cases hc <;> rfl

/-- Fields behind another one, up to the brace. -/
theorem lexes_fields {fs : List Field} (prints : ∀ f ∈ fs, f.Prints) :
    Lexes ((TypeExpr.renderMore fs).toList ++ [' ', '\x7d']) (fun _ => false) (FieldsAs fs) := by
  induction fs with
  | nil =>
    have brace : Lexes ['\x7d'] (fun _ => false) (FieldsAs []) := by
      refine (lexes_token fun rest _ => .mark rfl).imp (fun _ ends => ends) ?_
      rintro ls ⟨l, rfl, hl⟩
      exact .closed hl
    exact brace.space
  | cons f fs ih =>
    obtain ⟨first, more⟩ := List.forall_mem_cons.1 prints
    have text : (TypeExpr.renderMore (f :: fs)).toList ++ [' ', '\x7d'] =
        ';' :: ' ' :: ((TypeExpr.renderField f).toList ++
          ((TypeExpr.renderMore fs).toList ++ [' ', '\x7d'])) := by simp [TypeExpr.renderMore]
    have fields := first.body (ih more)
      (R := fun ms => ∀ l, l.token = .semicolon → FieldsAs (f :: fs) (l :: ms))
      fun ls ms hls hms l hl => .more hl hls hms
    rw [text]
    exact Lexes.mark rfl fields.space fun l ms hl hms => hms l hl

theorem prints_struct {fs : List Field} (prints : ∀ f ∈ fs, f.Prints) :
    (TypeExpr.struct fs).Prints := by
  cases fs with
  | nil =>
    have text : (TypeExpr.struct []).render.toList = "struct".toList ++ ['\x7b', '\x7d'] := by
      simp [TypeExpr.render]
    rw [TypeExpr.Prints, text]
    have brace : Lexes ['\x7d'] continuesToken fun ms => ∃ k, ms = [k] ∧ k.token = .rightBrace :=
      lexes_token fun rest _ => .mark rfl
    have braces : Lexes ['\x7b', '\x7d'] continuesToken fun ms =>
        ∀ l, l.token = .struct → ReadAs (.struct []) (l :: ms) := by
      refine Lexes.mark rfl brace ?_
      rintro m ms hm ⟨k, rfl, hk⟩ l hl
      exact .struct_nil hl hm hk
    exact Lexes.word (by decide) braces (fun rest _ c hc => by cases hc; rfl) fun l ms hl hms =>
      hms l (hl.trans (by decide))
  | cons f fs =>
    obtain ⟨first, more⟩ := List.forall_mem_cons.1 prints
    have text : (TypeExpr.struct (f :: fs)).render.toList =
        "struct".toList ++ ' ' :: '\x7b' :: ' ' :: ((TypeExpr.renderField f).toList ++
          ((TypeExpr.renderMore fs).toList ++ [' ', '\x7d'])) := by
      simp [TypeExpr.render]
    rw [TypeExpr.Prints, text]
    have fields := first.body (lexes_fields more)
      (R := fun ms => ∀ l m, l.token = .struct → m.token = .leftBrace →
        ReadAs (.struct (f :: fs)) (l :: m :: ms))
      fun ls ms hls hms l m hl hm => .struct hl hm hls hms
    have brace : Lexes _ _ fun ms => ∀ l, l.token = .struct →
        ReadAs (.struct (f :: fs)) (l :: ms) :=
      Lexes.mark (c := '\x7b') rfl fields.space fun m ms hm hms l hl => hms l m hl hm
    refine Lexes.word (by decide) (brace.space.imp (fun _ _ _ _ => rfl) fun _ hms => hms)
      (fun rest _ c hc => by cases hc; rfl) fun l ms hl hms => hms l (hl.trans (by decide))

/-! ### Types that were read -/

theorem TypeExpr.self_mem_parts (t : TypeExpr) : t ∈ t.parts := by
  cases t <;> simp [parts]

/-- Whatever is definite of a type is written so that it is read back. -/
def TypeExpr.AllPrint (t : TypeExpr) : Prop := ∀ u ∈ t.parts, u.IsDefinite → u.Prints

def Field.AllPrint (f : Field) : Prop := f.type.AllPrint ∧ (f.type.IsDefinite → f.Prints)

/-- Whatever is definite of a tree is written so that it is read back. -/
def Tree.AllPrint : Tree → Prop
  | .type t => t.AllPrint
  | .field f => f.AllPrint
  | .fields fs => ∀ f ∈ fs, f.AllPrint

section

variable {run rest : List Lexeme}

/-- Some lexemes at the end of a source text. -/
def IsLexed (ls : List Lexeme) : Prop := ∃ spot cs, Lexed spot cs ls

theorem IsLexed.behind {as bs : List Lexeme} (h : IsLexed (as ++ bs)) : IsLexed bs := by
  obtain ⟨spot, cs, lexed⟩ := h
  exact lexed.behind

theorem IsLexed.lexes {l : Lexeme} (h : IsLexed (l :: (run ++ rest)))
    (closed : ∀ k ∈ (l :: run).getLast?, ∀ text, k.token ≠ .lineComment text) :
    Lexes (spanText (l :: run)) continuesToken fun ls => ∃ down, Copies down (l :: run) ls := by
  obtain ⟨spot, cs, lexed⟩ := h
  obtain ⟨rest, -, -, recurs, -⟩ := Lexed.recurs lexed
  exact recurs.lexes closed

theorem IsLexed.scans {l : Lexeme} (h : IsLexed (l :: rest)) : ∃ cs, Scans l.token l.text cs := by
  obtain ⟨spot, cs, lexed⟩ := h
  obtain ⟨cs, -, -, scans, -⟩ := Lexed.first lexed
  exact ⟨cs, scans⟩

theorem IsLexed.isWord {l : Lexeme} (h : IsLexed (l :: rest)) (hl : l.token = .identifier word) :
    IsWord word := by
  obtain ⟨cs, scans⟩ := h.scans
  exact scans.isWord hl

theorem IsLexed.tail {l : Lexeme} (h : IsLexed (l :: rest)) : IsLexed rest :=
  IsLexed.behind (show IsLexed ([l] ++ rest) from h)

theorem Takes.isLexed {ls : List Lexeme} {next : Place} (h : Takes ls next) (lexed : IsLexed ls) :
    IsLexed next.rest := by
  obtain ⟨taken, l, rfl, -, -⟩ := h
  exact lexed.behind.tail

theorem AllPrint.leaf (parts : t.parts = [t]) (h : t.Prints) : t.AllPrint := by
  intro u hu _
  rw [parts, List.mem_singleton] at hu
  rw [hu]
  exact h

/-- A type with one other within it. -/
theorem AllPrint.node (parts : t.parts = t :: e.parts) (h : e.AllPrint)
    (whole : t.isAmbiguous = false → e.Prints → t.Prints) : t.AllPrint := by
  intro u hu definite
  rw [parts] at hu
  rcases List.mem_cons.1 hu with rfl | hu
  · refine whole (definite _ (TypeExpr.self_mem_parts _)) (h e (TypeExpr.self_mem_parts e) ?_)
    exact fun v hv => definite v (by rw [parts]; exact List.mem_cons_of_mem _ hv)
  · exact h u hu definite

/-- What is taken for a type is at least one lexeme, and no line comment is the last one. -/
theorem Reads.taken {previous : Option Lexeme} {l : Lexeme} {ls : List Lexeme} {next : Place}
    (h : Reads ⟨previous, l :: ls⟩ (.type t) next) :
    ∃ taken, ls = taken ++ next.rest ∧
      Place.textTo ⟨previous, l :: ls⟩ next = String.ofList (spanText (l :: taken)) ∧
      ∀ k ∈ (l :: taken).getLast?, ∀ comment, k.token ≠ .lineComment comment := by
  obtain ⟨before, k, split, -, plain⟩ := h.takes
  have whole : l :: ls = (before ++ [k]) ++ next.rest := by
    rw [show l :: ls = _ from split, List.append_assoc]
    rfl
  obtain ⟨m, taken, hmore⟩ := List.exists_cons_of_ne_nil
    (List.append_ne_nil_of_right_ne_nil before (List.cons_ne_nil k []))
  have text : Place.textTo ⟨previous, l :: ls⟩ next = _ := Place.textTo_eq whole
  rw [hmore] at whole text
  obtain ⟨rfl, rfl⟩ := List.cons.inj whole
  refine ⟨taken, rfl, text, ?_⟩
  rw [← hmore, List.getLast?_concat]
  rintro n hn comment found
  rw [Option.some.inj hn, found] at plain
  cases plain

/-- A type that is written as it was. -/
theorem Reads.verbatim {previous : Option Lexeme} {l : Lexeme} {ls : List Lexeme} {next : Place}
    (h : Reads ⟨previous, l :: ls⟩ (.type t) next) (lexed : IsLexed (l :: ls))
    (starts : startsResult l.token = true)
    (text : t.render = Place.textTo ⟨previous, l :: ls⟩ next) (parts : t.parts = [t]) :
    t.AllPrint := by
  obtain ⟨taken, rfl, spelled, closed⟩ := h.taken
  refine AllPrint.leaf parts ?_
  rw [TypeExpr.Prints, text, spelled, String.toList_ofList]
  refine (lexed.lexes closed).imp (fun _ ends => ends) ?_
  rintro ms ⟨down, copies⟩
  exact h.readAs rfl starts copies

theorem ReadsBase.allPrint {l : Lexeme} {ls : List Lexeme} {base : TypeExpr} {next : Place}
    (h : ReadsBase word ⟨some l, ls⟩ base next) (hl : l.token = .identifier word)
    (lexed : IsLexed (l :: ls)) : base.AllPrint := by
  have isWord := lexed.isWord hl
  cases h with
  | plain => exact AllPrint.leaf rfl isWord.prints
  | dotted _ hm => exact AllPrint.leaf rfl (isWord.prints_qualified (lexed.tail.tail.isWord hm))

theorem IsLexed.group {n : Lexeme} {ns taken : List Lexeme} (lexed : IsLexed (n :: ns))
    (htaken : takeGroup 0 (n :: ns) = some (taken, rest)) :
    Lexes (spanText taken) continuesToken fun ls => ∃ down, Copies down taken ls := by
  obtain ⟨inner, k, hlast, closing⟩ := takeGroup_closed htaken
  obtain ⟨more, rfl, rfl⟩ := takeGroup_front htaken
  refine lexed.lexes ?_
  rw [hlast, List.getLast?_concat]
  rintro m hm comment found
  cases hm
  rw [found] at closing
  cases closing

theorem ReadsBase.allPrint_instance {l n : Lexeme} {ls ns taken : List Lexeme} {base : TypeExpr}
    {last : Option Lexeme} (h : ReadsBase word ⟨some l, ls⟩ base ⟨last, n :: ns⟩)
    (hl : l.token = .identifier word) (lexed : IsLexed (l :: ls)) (bracket : n.token = .leftBracket)
    (htaken : takeGroup 0 (n :: ns) = some (taken, rest)) :
    (TypeExpr.instantiated base (String.ofList (spanText taken))).AllPrint := by
  refine AllPrint.node (by simp [TypeExpr.parts]) (h.allPrint hl lexed) fun _ _ => ?_
  have isWord := lexed.isWord hl
  have behind : IsLexed (n :: ns) := (h.takes hl).isLexed lexed
  have text : n.text = ['['] := by
    obtain ⟨cs, scans⟩ := behind.scans
    exact scans.mark_text (by rw [bracket]; rfl)
  cases h with
  | plain => exact isWord.prints_instance bracket text htaken (behind.group htaken)
  | dotted _ hm =>
    exact isWord.prints_qualified_instance (lexed.tail.tail.isWord hm) bracket text htaken
      (behind.group htaken)

/-- The length of an array that is not ambiguous. -/
theorem IsLexed.allPrint_array {m : Lexeme} {size ls : List Lexeme}
    (lexed : IsLexed (size ++ m :: ls))
    (htaken : takeLength 0 (size ++ m :: ls) = some (size, m :: ls)) (h : e.AllPrint) :
    (TypeExpr.array (String.ofList (trim (spanText size))) e).AllPrint := by
  refine AllPrint.node (by simp [TypeExpr.parts]) h fun definite element => ?_
  rw [TypeExpr.isAmbiguous, Bool.or_eq_false_iff, String.toList_ofList,
    beq_eq_false_iff_ne] at definite
  obtain ⟨filled, closed⟩ := definite
  obtain ⟨spot, cs, hlex⟩ := lexed
  obtain ⟨front, core, back, rfl, newlines, newlinesBehind, text, plain⟩ := hlex.trimmed closed
  rw [← text] at filled ⊢
  have sized : core ≠ [] := by
    rintro rfl
    exact filled rfl
  have isLength : IsLength 0 (core.map (·.token)) := by
    have whole := (takeLength_iff.1 htaken).1
    rw [← isLength_filter] at whole ⊢
    have none {xs : List Lexeme} (h : ∀ l ∈ xs, l.token = .newline) :
        (xs.map (·.token)).filter (· != .newline) = [] := by
      simpa using h
    simpa only [List.map_append, List.filter_append, none newlines, none newlinesBehind,
      List.nil_append, List.append_nil] using whole
  have lexedCore : IsLexed (core ++ (back ++ m :: ls)) := by
    have whole : IsLexed (front ++ (core ++ (back ++ m :: ls))) := ⟨spot, cs, by simpa using hlex⟩
    exact whole.behind
  obtain ⟨k, inner, rfl⟩ := List.exists_cons_of_ne_nil sized
  exact element.array (lexedCore.lexes plain) sized isLength (by rw [text, trim_trim])

end

/-! ### Fields and structs that were read -/

section

variable {place mid next : Place}

/-- Type arguments right behind the first word of a field do not belong to an embedded type. -/
theorem Reads.embedded_plain {previous : Option Lexeme} {l : Lexeme} {ls : List Lexeme}
    (h : Reads ⟨previous, l :: ls⟩ (.type t) mid)
    (front : l.token = .star ∨ ∃ word, l.token = .identifier word ∧
      endsEmbedded (Place.mk previous (l :: ls)).peekSecond? = true) (word arguments : String) :
    t ≠ .instantiated (.named word) arguments := by
  rintro rfl
  cases h with
  | name _ base => cases base
  | @«instance» _ _ _ n _ _ _ _ _ _ hl base bracket =>
    cases base with
    | plain other =>
      rcases front with star | ⟨word, -, ends⟩
      · rw [hl] at star
        cases star
      · have second : endsEmbedded (some n.token) = true := ends
        rw [bracket] at second
        cases second
  | paren hl =>
    rcases front with star | ⟨word, named, -⟩
    · rw [hl] at star
      cases star
    · rw [hl] at named
      cases named

theorem ReadsTag.isTag {tag : Option String} (h : ReadsTag mid tag next)
    (lexed : IsLexed mid.rest) : IsTag tag := by
  rintro quoted rfl
  cases h with
  | @present _ l ls _ htag =>
    have closed : ∀ k ∈ [l].getLast?, ∀ comment, k.token ≠ .lineComment comment := by
      rintro k hk comment found
      cases hk
      rw [show l.token = _ from found] at htag
      cases htag
    have lexed : IsLexed (l :: ([] ++ ls)) := lexed
    have tag := lexed.lexes closed
    obtain ⟨cs, scans⟩ := lexed.scans
    have text : quoted.toList = spanText [l] := by
      have spells := scans.spells
      rw [show spanText [l] = l.text from List.append_nil _]
      rcases Token.tag?_eq_some htag with found | found <;>
      · rw [found] at spells
        exact spells.symm
    rw [text]
    refine tag.imp (fun _ ends => ends) ?_
    rintro ms ⟨down, copies⟩
    obtain ⟨m, more, rfl, hm, hmore⟩ := copies.of_cons
    cases hmore
    exact ⟨m, rfl, by rw [hm.token]; exact htag⟩

theorem ReadsNames.words {names : List String} (h : ReadsNames mid names next)
    (lexed : IsLexed mid.rest) : ∀ name ∈ names, IsWord name := by
  induction h with
  | done => exact fun _ hname => (List.not_mem_nil hname).elim
  | more _ hm _ ih =>
    exact List.forall_mem_cons.2 ⟨lexed.tail.isWord hm, ih lexed.tail.tail⟩

theorem Reads.allPrint_embedded {previous : Option Lexeme} {l : Lexeme} {ls : List Lexeme}
    {name : String} {tag : Option String}
    (h : Reads ⟨previous, l :: ls⟩ (.type t) mid) (lexed : IsLexed (l :: ls))
    (front : l.token = .star ∨ ∃ word, l.token = .identifier word ∧
      endsEmbedded (Place.mk previous (l :: ls)).peekSecond? = true)
    (hname : embeddedName? t = some name) (htag : ReadsTag mid tag next) (prints : t.AllPrint)
    (doc : List Comment) (position : Position) :
    Field.AllPrint ⟨[name], true, t, tag, doc, position⟩ := by
  refine ⟨prints, fun definite => ?_⟩
  have whole : t.Prints := prints t t.self_mem_parts definite
  have isTag : IsTag tag := htag.isTag (h.takes.isLexed lexed)
  exact whole.embedded hname (h.embedded_plain front) isTag doc position

theorem Reads.allPrint_named {l : Lexeme} {ls : List Lexeme} {names : List String}
    {tag : Option String} {behind : Place} (h : Reads mid (.type t) behind)
    (lexed : IsLexed (l :: ls)) (hl : l.token = .identifier word)
    (hnames : ReadsNames ⟨some l, ls⟩ names mid) (htag : ReadsTag behind tag next)
    (prints : t.AllPrint) (doc : List Comment) (position : Position) :
    Field.AllPrint ⟨word :: names, false, t, tag, doc, position⟩ := by
  refine ⟨prints, fun definite => ?_⟩
  have whole : t.Prints := prints t t.self_mem_parts definite
  have takes : Takes (l :: ls) mid := hnames.takes (.one (isTrivia_of_name hl))
  have lexedBehind : IsLexed behind.rest := h.takes.isLexed (takes.isLexed lexed)
  have words := hnames.words lexed.tail
  exact whole.field (lexed.isWord hl) words (htag.isTag lexedBehind) doc position

theorem allPrint_struct {fs : List Field} (h : ∀ f ∈ fs, f.AllPrint) :
    (TypeExpr.struct fs).AllPrint := by
  intro u hu definite
  rw [TypeExpr.parts] at hu
  rcases List.mem_cons.1 hu with rfl | hu
  · refine prints_struct fun f hf => (h f hf).2 fun v hv => definite v ?_
    rw [TypeExpr.parts]
    exact List.mem_cons_of_mem _ (TypeExpr.mem_partsOf.2 ⟨f, hf, hv⟩)
  · obtain ⟨f, hf, inside⟩ := TypeExpr.mem_partsOf.1 hu
    exact (h f hf).1 u inside definite

theorem allPrint_map (h : t.AllPrint) (h' : u.AllPrint) : (TypeExpr.map t u).AllPrint := by
  intro v hv definite
  rw [TypeExpr.parts] at hv
  rcases List.mem_cons.1 hv with rfl | hv
  · have inside {e : TypeExpr} (within : ∀ w ∈ e.parts, w ∈ t.parts ++ u.parts) : e.IsDefinite :=
      fun w hw => definite w (by rw [TypeExpr.parts]; exact List.mem_cons_of_mem _ (within w hw))
    exact (h t t.self_mem_parts (inside fun _ => List.mem_append_left _)).map
      (h' u u.self_mem_parts (inside fun _ => List.mem_append_right _))
  · rcases List.mem_append.1 hv with hv | hv
    · exact h v hv definite
    · exact h' v hv definite

/-- What was read from a source is written so that it is read back, as far as it is definite. -/
theorem Reads.allPrint {tree : Tree} (h : Reads place tree next) (lexed : IsLexed place.rest) :
    tree.AllPrint := by
  induction h with
  | name hl base => exact base.allPrint hl lexed
  | «instance» hl base bracket htaken => exact base.allPrint_instance hl lexed bracket htaken
  | pointer _ _ ih =>
    exact AllPrint.node (by simp [TypeExpr.parts]) (ih lexed.tail) fun _ target => target.pointer
  | slice _ _ _ ih =>
    exact AllPrint.node (by simp [TypeExpr.parts]) (ih lexed.tail.tail) fun _ element =>
      element.slice
  | array _ _ htaken _ ih => exact lexed.tail.allPrint_array htaken (ih lexed.tail.behind.tail)
  | map _ _ hkey _ _ key value =>
    have behind := hkey.takes.isLexed lexed.tail.tail
    exact allPrint_map (key lexed.tail.tail) (value behind.tail)
  | chan _ _ _ ih =>
    refine AllPrint.node (by simp [TypeExpr.parts]) (ih lexed.tail) fun definite element => ?_
    refine element.chan ?_
    rintro e rfl
    cases definite
  | send _ _ _ ih =>
    exact AllPrint.node (by simp [TypeExpr.parts]) (ih lexed.tail.tail) fun _ element =>
      element.send
  | receive _ _ _ ih =>
    exact AllPrint.node (by simp [TypeExpr.parts]) (ih lexed.tail.tail) fun _ element =>
      element.receive
  | func hl hm htaken ends =>
    exact (Reads.func hl hm htaken ends).verbatim lexed (by rw [hl]; rfl) rfl rfl
  | funcMany hl hm htaken hn hmany =>
    exact (Reads.funcMany hl hm htaken hn hmany).verbatim lexed (by rw [hl]; rfl) rfl rfl
  | funcOne hl hm htaken starts result =>
    exact (Reads.funcOne hl hm htaken starts result).verbatim lexed (by rw [hl]; rfl) rfl rfl
  | interface hl hm htaken =>
    exact (Reads.interface hl hm htaken).verbatim lexed (by rw [hl]; rfl) rfl rfl
  | struct _ _ _ ih => exact allPrint_struct (ih lexed.tail.tail)
  | paren _ _ _ ih => exact ih lexed.tail
  | embedded front htype hname htag ih =>
    exact htype.allPrint_embedded lexed front hname htag (ih lexed) _ _
  | named hl _ names htype htag ih =>
    have takes := names.takes (.one (isTrivia_of_name hl))
    exact htype.allPrint_named lexed hl names htag (ih (takes.isLexed lexed)) _ _
  | closed => exact fun _ hf => (List.not_mem_nil hf).elim
  | more hdoc hfirst htrail _ _ first fields =>
    obtain ⟨above, split, -, -⟩ := leadingComments_passes hdoc
    obtain ⟨trailing, split', -, -⟩ := trailingComment_passes htrail
    rw [split] at lexed
    have lexedBehind := hfirst.takes.isLexed lexed.behind
    rw [split'] at lexedBehind
    exact List.forall_mem_cons.2 ⟨first lexed.behind, fields lexedBehind.behind⟩

end

end

end Go
end FieldRules
