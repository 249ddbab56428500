/-
Types that are read back from the text they are written as.

Each form of type is read from the lexemes of what `render` writes for it, if its
parts are (`ReadAs`).  Two forms are not: a channel of receive-only channels, whose
arrow goes to the wrong side, and an array whose length is only newlines or ends with
a line comment (`isAmbiguous`).
-/
import FieldRules.Proofs.Copying
import FieldRules.Proofs.Trimming

namespace FieldRules
namespace Go

open Text
open Go.Parser

/-- Whether a type by itself is written as something else than it is. -/
def TypeExpr.isAmbiguous : TypeExpr → Bool
  | chan .both (chan .receive _) => true
  | array length _ => length == "" || endsComment length.toList
  | _ => false

/-- Neither the type nor one within it is written as something else. -/
def TypeExpr.IsDefinite (t : TypeExpr) : Prop := ∀ u ∈ t.parts, u.isAmbiguous = false

/-! ### Lexemes that are read as a type -/

/-- Lexemes are read as a type, wherever they stand. -/
structure ReadAs (t : TypeExpr) (ls : List Lexeme) : Prop where
  starts : ∃ l more, ls = l :: more ∧ startsResult l.token = true
  reads : ∀ (previous : Option Lexeme) (rest : List Lexeme), endsType (front rest) = true →
    ∃ last u, Reads ⟨previous, ls ++ rest⟩ (.type u) ⟨last, rest⟩ ∧ t.same u = true

/-- Lexemes are read as what follows the first word of a type, but for type arguments. -/
structure BaseAs (word : String) (base : TypeExpr) (ls : List Lexeme) : Prop where
  same : base.same base = true
  reads : ∀ (previous : Option Lexeme) (rest : List Lexeme), front rest ≠ some .dot →
    ∃ last, ReadsBase word ⟨previous, ls ++ rest⟩ base ⟨last, rest⟩

/-- Lexemes are read as a field, in front of another one or of the end. -/
structure FieldAs (f : Field) (ls : List Lexeme) : Prop where
  starts : ∃ l more, ls = l :: more ∧ (l.token = .star ∨ ∃ word, l.token = .identifier word)
  reads : ∀ (previous : Option Lexeme) (rest : List Lexeme) (doc : List Comment),
    front rest = some .semicolon ∨ front rest = some .rightBrace →
    ∃ last g, Reads ⟨previous, ls ++ rest⟩ (.field g) ⟨last, rest⟩ ∧ g.doc = doc ∧
      TypeExpr.sameField f g = true

/-- Lexemes are read as the fields of a struct up to its brace. -/
structure FieldsAs (fs : List Field) (ls : List Lexeme) : Prop where
  starts : front ls = some .semicolon ∨ front ls = some .rightBrace
  reads : ∀ (previous : Option Lexeme) (rest : List Lexeme),
    ∃ last gs, Reads ⟨previous, ls ++ rest⟩ (.fields gs) ⟨last, rest⟩ ∧
      TypeExpr.sameFields fs gs = true

section

variable {l m n : Lexeme} {ls ms size : List Lexeme} {t u base : TypeExpr} {word : String}

theorem endsType_ne {rest : List Lexeme} (h : endsType (front rest) = true) {token : Token}
    (belongs : endsType (some token) = false) : front rest ≠ some token := by
  intro same
  rw [same, belongs] at h
  cases h

theorem BaseAs.named (word : String) : BaseAs word (.named word) [] :=
  ⟨by simp [TypeExpr.same], fun previous _ other => ⟨previous, .plain other⟩⟩

theorem BaseAs.qualified (word : String) {name : String} (hl : l.token = .dot)
    (hm : m.token = .identifier name) : BaseAs word (.qualified word name) [l, m] :=
  ⟨by simp [TypeExpr.same], fun _ _ _ => ⟨some m, .dotted hl hm⟩⟩

theorem BaseAs.readAs (h : BaseAs word base ls) (hl : l.token = .identifier word) :
    ReadAs base (l :: ls) := by
  refine ⟨⟨l, ls, rfl, by rw [hl]; rfl⟩, fun previous rest ends => ?_⟩
  obtain ⟨last, reads⟩ := h.reads (some l) rest (endsType_ne ends rfl)
  exact ⟨last, base, .name hl reads (endsType_ne ends rfl), h.same⟩

/-- A word with type arguments. -/
theorem BaseAs.instance (h : BaseAs word base ls) (hl : l.token = .identifier word) {down : Int}
    {taken rest : List Lexeme} (bracket : n.token = .leftBracket)
    (htaken : takeGroup 0 (n :: size) = some (taken, rest)) (copies : Copies down taken ms) :
    ReadAs (.instantiated base (String.ofList (spanText taken))) (l :: (ls ++ ms)) := by
  refine ⟨⟨l, ls ++ ms, rfl, by rw [hl]; rfl⟩, fun previous rest' _ => ?_⟩
  have text := copies.spanText_eq
  obtain ⟨inner, rfl, -⟩ := takeGroup_front htaken
  have taken := takeGroup_copies htaken copies rest'
  obtain ⟨n', inner', rfl, hn', -⟩ := copies.of_cons
  have isBracket : n'.token = .leftBracket := hn'.token.trans bracket
  have other : front (n' :: inner' ++ rest') ≠ some .dot := by
    intro dot
    rw [List.cons_append, front_cons, isBracket] at dot
    cases dot
  obtain ⟨last, reads⟩ := h.reads (some l) (n' :: inner' ++ rest') other
  simp only [List.cons_append, List.append_assoc]
  exact ⟨_, _, .instance hl reads isBracket taken, by simp [TypeExpr.same, h.same, text]⟩

theorem ReadAs.pointer (h : ReadAs t ls) (hl : l.token = .star) :
    ReadAs (.pointer t) (l :: ls) := by
  refine ⟨⟨l, ls, rfl, by rw [hl]; rfl⟩, fun previous rest ends => ?_⟩
  obtain ⟨last, u, reads, same⟩ := h.reads (some l) rest ends
  exact ⟨last, .pointer u, .pointer hl reads, same⟩

theorem ReadAs.slice (h : ReadAs t ls) (hl : l.token = .leftBracket)
    (hm : m.token = .rightBracket) : ReadAs (.slice t) (l :: m :: ls) := by
  refine ⟨⟨l, m :: ls, rfl, by rw [hl]; rfl⟩, fun previous rest ends => ?_⟩
  obtain ⟨last, u, reads, same⟩ := h.reads (some m) rest ends
  exact ⟨last, .slice u, .slice hl hm reads, same⟩

theorem ReadAs.array (h : ReadAs t ls) (hl : l.token = .leftBracket) (sized : size ≠ [])
    (isLength : IsLength 0 (size.map (·.token))) (trimmed : trim (spanText size) = spanText size)
    (hm : m.token = .rightBracket) :
    ReadAs (.array (String.ofList (spanText size)) t) (l :: (size ++ m :: ls)) := by
  refine ⟨⟨l, size ++ m :: ls, rfl, by rw [hl]; rfl⟩, fun previous rest ends => ?_⟩
  obtain ⟨last, u, reads, same⟩ := h.reads (some m) rest ends
  simp only [List.cons_append, List.append_assoc]
  exact ⟨last, _, .array hl sized (takeLength_iff.2 ⟨isLength, hm⟩) reads,
    by simp [TypeExpr.same, same, trimmed]⟩

theorem ReadAs.map (h : ReadAs t ls) (h' : ReadAs u ms) {k : Lexeme} (hk : k.token = .map)
    (hl : l.token = .leftBracket) (hm : m.token = .rightBracket) :
    ReadAs (.map t u) (k :: l :: (ls ++ m :: ms)) := by
  refine ⟨⟨k, _, rfl, by rw [hk]; rfl⟩, fun previous rest ends => ?_⟩
  have closes : endsType (front (m :: (ms ++ rest))) = true := by
    rw [front_cons, hm]
    rfl
  obtain ⟨lastKey, key, readsKey, sameKey⟩ := h.reads (some l) (m :: (ms ++ rest)) closes
  obtain ⟨last, value, readsValue, sameValue⟩ := h'.reads (some m) rest ends
  simp only [List.cons_append, List.append_assoc]
  exact ⟨last, _, .map hk hl readsKey hm readsValue, by simp [TypeExpr.same, sameKey, sameValue]⟩

/-- Only a receive-only channel starts with an arrow. -/
theorem ReadAs.receive_of_arrow (h : ReadAs t (l :: ls)) (hl : l.token = .arrow) :
    ∃ e, t = .chan .receive e := by
  obtain ⟨last, u, reads, same⟩ := h.reads none [] rfl
  rw [List.append_nil] at reads
  cases reads with
  | receive =>
    cases t with
    | chan direction e =>
      rw [TypeExpr.same, Bool.and_eq_true, beq_iff_eq] at same
      exact ⟨e, by rw [same.1]⟩
    | _ => simp [TypeExpr.same] at same
  | _ => simp_all

theorem ReadAs.chan (h : ReadAs t ls) (hl : l.token = .chan) (other : ∀ e, t ≠ .chan .receive e) :
    ReadAs (.chan .both t) (l :: ls) := by
  refine ⟨⟨l, ls, rfl, by rw [hl]; rfl⟩, fun previous rest ends => ?_⟩
  obtain ⟨last, u, reads, same⟩ := h.reads (some l) rest ends
  refine ⟨last, .chan .both u, .chan hl (fun arrow => ?_) reads, by simp [TypeExpr.same, same]⟩
  obtain ⟨m, more, rfl, -⟩ := h.starts
  obtain ⟨e, he⟩ := h.receive_of_arrow (Option.some.inj arrow)
  exact other e he

theorem ReadAs.send (h : ReadAs t ls) (hl : l.token = .chan) (hm : m.token = .arrow) :
    ReadAs (.chan .send t) (l :: m :: ls) := by
  refine ⟨⟨l, m :: ls, rfl, by rw [hl]; rfl⟩, fun previous rest ends => ?_⟩
  obtain ⟨last, u, reads, same⟩ := h.reads (some m) rest ends
  exact ⟨last, .chan .send u, .send hl hm reads, by simp [TypeExpr.same, same]⟩

theorem ReadAs.receive (h : ReadAs t ls) (hl : l.token = .arrow) (hm : m.token = .chan) :
    ReadAs (.chan .receive t) (l :: m :: ls) := by
  refine ⟨⟨l, m :: ls, rfl, by rw [hl]; rfl⟩, fun previous rest ends => ?_⟩
  obtain ⟨last, u, reads, same⟩ := h.reads (some m) rest ends
  exact ⟨last, .chan .receive u, .receive hl hm reads, by simp [TypeExpr.same, same]⟩

/-- A type that is written as it was. -/
theorem Reads.readAs {place next : Place} (h : Reads place (.type t) next) {down : Int}
    (split : place.rest = l :: ls ++ next.rest) (starts : startsResult l.token = true)
    (copies : Copies down (l :: ls) ms) : ReadAs t ms := by
  obtain ⟨taken, splitTaken, found⟩ := h.copied
  have same : taken = l :: ls := List.append_cancel_right (splitTaken.symm.trans split)
  subst same
  obtain ⟨l', more, rfl, hl', -⟩ := copies.of_cons
  refine ⟨⟨l', more, rfl, by rw [hl'.token]; exact starts⟩, fun previous rest ends => ?_⟩
  exact found down _ previous rest copies (.inr ends)

end

/-! ### Lexemes that are read as fields -/

/-- The lexemes of a tag, if there is one. -/
inductive TagAs : Option String → List Lexeme → Prop where
  | absent : TagAs none []
  | present {l : Lexeme} {quoted : String} : l.token.tag? = some quoted → TagAs (some quoted) [l]

/-- The lexemes of further names. -/
inductive NamesAs : List String → List Lexeme → Prop where
  | nil : NamesAs [] []
  | cons {l m : Lexeme} {ls : List Lexeme} {word : String} {names : List String} :
      l.token = .comma → m.token = .identifier word → NamesAs names ls →
      NamesAs (word :: names) (l :: m :: ls)

/-- What stands behind a field of a struct. -/
def EndsField (token : Option Token) : Prop := token = some .semicolon ∨ token = some .rightBrace

section

variable {l m : Lexeme} {ls ms ns ts rest : List Lexeme} {t : TypeExpr} {tag : Option String}
  {names : List String} {f : Field} {fs : List Field}

theorem TagAs.reads (h : TagAs tag ts) (ends : EndsField (front rest)) (previous : Option Lexeme) :
    ∃ last, ReadsTag ⟨previous, ts ++ rest⟩ tag ⟨last, rest⟩ := by
  cases h with
  | absent =>
    refine ⟨previous, .absent ?_⟩
    show (front rest).bind Token.tag? = none
    rcases ends with found | found <;> rw [found] <;> rfl
  | present hl => exact ⟨some _, .present hl⟩

/-- A type ends before a tag. -/
theorem TagAs.endsType (h : TagAs tag ts) (ends : EndsField (front rest)) :
    endsType (front (ts ++ rest)) = true ∧ endsEmbedded (front (ts ++ rest)) = true := by
  cases h with
  | absent =>
    show Go.endsType (front rest) = true ∧ endsEmbedded (front rest) = true
    rcases ends with found | found <;> rw [found] <;> exact ⟨rfl, rfl⟩
  | @present l quoted hl =>
    show Go.endsType (some l.token) = true ∧ endsEmbedded (some l.token) = true
    rcases Token.tag?_eq_some hl with found | found <;> rw [found] <;> exact ⟨rfl, rfl⟩

theorem NamesAs.reads (h : NamesAs names ns) (other : front rest ≠ some .comma)
    (previous : Option Lexeme) :
    ∃ last, ReadsNames ⟨previous, ns ++ rest⟩ names ⟨last, rest⟩ := by
  induction h generalizing previous with
  | nil => exact ⟨previous, .done other⟩
  | @cons l m _ _ _ hl hm _ ih =>
    obtain ⟨last, reads⟩ := ih (some m)
    exact ⟨last, .more hl hm reads⟩

theorem startsResult_plain {token : Token} (h : startsResult token = true) :
    endsEmbedded (some token) = false ∧ token ≠ .comma ∧ token ≠ .leftParen := by
  unfold startsResult at h
  split at h <;> first
    | cases h; done
    | exact ⟨rfl, nofun, nofun⟩

theorem FieldAs.named {word : String} (hl : l.token = .identifier word) (hns : NamesAs names ns)
    (h : ReadAs t ls) (hts : TagAs tag ts) (doc : List Comment) (position : Position) :
    FieldAs ⟨word :: names, false, t, tag, doc, position⟩ (l :: (ns ++ (ls ++ ts))) := by
  refine ⟨⟨l, _, rfl, .inr ⟨word, hl⟩⟩, fun previous rest doc' ends => ?_⟩
  obtain ⟨k, more, rfl, starts⟩ := h.starts
  obtain ⟨plain, noComma, -⟩ := startsResult_plain starts
  have other : front ((k :: more) ++ (ts ++ rest)) ≠ some .comma :=
    fun comma => noComma (Option.some.inj comma)
  obtain ⟨lastNames, readsNames⟩ := hns.reads other (some l)
  obtain ⟨lastType, u, reads, same⟩ := h.reads lastNames (ts ++ rest) (hts.endsType ends).1
  obtain ⟨last, readsTag⟩ := hts.reads ends lastType
  refine ⟨last, ⟨word :: names, false, u, tag, doc', l.position⟩, ?_, rfl,
    by simp [TypeExpr.sameField, same]⟩
  simp only [List.cons_append, List.append_assoc]
  refine .named hl ?_ readsNames reads readsTag
  cases hns with
  | nil => exact plain
  | cons hk => exact congrArg (fun token => endsEmbedded (some token)) hk

/-- The second token of an embedded type ends its name, unless it starts with a star. -/
theorem ReadAs.embeds {name : String} (h : ReadAs t (l :: ls)) (hname : embeddedName? t = some name)
    (plain : ∀ word arguments, t ≠ .instantiated (.named word) arguments)
    (endsT : endsType (front rest) = true) (ends : endsEmbedded (front rest) = true) :
    l.token = .star ∨
      ∃ word, l.token = .identifier word ∧ endsEmbedded (front (ls ++ rest)) = true := by
  obtain ⟨k, more, hk, starts⟩ := h.starts
  cases hk
  obtain ⟨last, u, reads, same⟩ := h.reads none rest endsT
  have named := (embeddedName?_same same).trans hname
  have plainCopy : ∀ word arguments, u ≠ .instantiated (.named word) arguments := by
    rintro word arguments rfl
    cases t with
    | «instantiated» base arguments' =>
      cases base with
      | named word' => exact plain word' arguments' rfl
      | _ => simp [TypeExpr.same] at same
    | _ => simp [TypeExpr.same] at same
  rw [List.cons_append] at reads
  generalize htree : Tree.type u = tree at reads
  generalize hnext : Place.mk last rest = next at reads
  generalize hls : ls ++ rest = behind at reads ⊢
  cases reads with
  | name hl base =>
    refine .inr ⟨_, hl, ?_⟩
    cases base with
    | plain =>
      cases hnext
      exact ends
    | dotted hdot => exact congrArg (fun token => endsEmbedded (some token)) hdot
  | «instance» hl base =>
    refine .inr ⟨_, hl, ?_⟩
    cases base with
    | plain =>
      cases htree
      exact absurd rfl (plainCopy _ _)
    | dotted hdot => exact congrArg (fun token => endsEmbedded (some token)) hdot
  | pointer hl => exact .inl hl
  | paren hl => exact absurd hl (startsResult_plain starts).2.2
  | _ => cases htree <;> cases named

theorem FieldAs.embedded {name : String} (h : ReadAs t ls) (hname : embeddedName? t = some name)
    (plain : ∀ word arguments, t ≠ .instantiated (.named word) arguments) (hts : TagAs tag ts)
    (doc : List Comment) (position : Position) :
    FieldAs ⟨[name], true, t, tag, doc, position⟩ (ls ++ ts) := by
  obtain ⟨l, more, rfl, -⟩ := h.starts
  have embeds {rest : List Lexeme} (ends : EndsField (front rest)) :=
    h.embeds hname plain (hts.endsType ends).1 (hts.endsType ends).2
  refine ⟨⟨l, more ++ ts, rfl, ?_⟩, fun previous rest doc' ends => ?_⟩
  · -- Which token comes first does not depend on what follows.
    have alone : endsType (front []) = true ∧ endsEmbedded (front []) = true := ⟨rfl, rfl⟩
    rcases h.embeds hname plain alone.1 alone.2 with star | ⟨word, hword, -⟩
    · exact .inl star
    · exact .inr ⟨word, hword⟩
  obtain ⟨lastType, u, reads, same⟩ := h.reads previous (ts ++ rest) (hts.endsType ends).1
  obtain ⟨last, readsTag⟩ := hts.reads ends lastType
  refine ⟨last, ⟨[name], true, u, tag, doc', l.position⟩, ?_, rfl,
    by simp [TypeExpr.sameField, same]⟩
  rw [List.append_assoc]
  exact .embedded (embeds ends) reads ((embeddedName?_same same).trans hname) readsTag

/-! ### Lexemes that are read as a struct -/

theorem FieldsAs.closed (hl : l.token = .rightBrace) : FieldsAs [] [l] := by
  refine ⟨.inr (congrArg some hl), fun previous rest => ⟨some l, [], ?_, rfl⟩⟩
  obtain ⟨doc, last, hlead⟩ :=
    leadingComments_before previous (List.forall_mem_nil _) (by rw [hl]; rfl) rest
  exact .closed hlead hl

theorem FieldsAs.endsField (h : FieldsAs fs ms) (rest : List Lexeme) :
    EndsField (front (ms ++ rest)) := by
  cases ms with
  | nil => rcases h.starts with none | none <;> cases none
  | cons m ms => exact h.starts

/-- A field in front of others. -/
theorem FieldAs.reads_fields (h : FieldAs f ls) (h' : FieldsAs fs ms) {lead : List Lexeme}
    (above : ∀ l ∈ lead, isAbove l.token = true) (previous : Option Lexeme) (rest : List Lexeme) :
    ∃ last gs, Reads ⟨previous, lead ++ (ls ++ (ms ++ rest))⟩ (.fields gs) ⟨last, rest⟩ ∧
      TypeExpr.sameFields (f :: fs) gs = true := by
  obtain ⟨l, more, rfl, starts⟩ := h.starts
  have ends : EndsField (front (ms ++ rest)) := h'.endsField rest
  have plain : isAbove l.token = false := by
    rcases starts with found | ⟨word, found⟩ <;> rw [found] <;> rfl
  obtain ⟨doc, lastLead, hlead⟩ :=
    leadingComments_before previous above plain (more ++ (ms ++ rest))
  obtain ⟨lastField, g, reads, rfl, same⟩ := h.reads lastLead (ms ++ rest) doc ends
  have trails : trailingComment ⟨lastField, ms ++ rest⟩ = .ok ((), ⟨lastField, ms ++ rest⟩) := by
    refine trailingComment_plain fun token found => ?_
    rcases ends with same | same <;> cases found.symm.trans same <;> rfl
  have item :
      endOfItem .endOfField ⟨lastField, ms ++ rest⟩ = .ok ((), ⟨lastField, ms ++ rest⟩) := by
    refine bind_run peek_run ?_
    rcases ends with found | found <;>
    · rw [show (Place.mk lastField (ms ++ rest)).peek? = _ from found]
      rfl
  obtain ⟨last, gs, readsFields, sameFields⟩ := h'.reads lastField rest
  exact ⟨last, g :: gs, .more hlead reads trails item readsFields,
    by simp [TypeExpr.sameFields, same, sameFields]⟩

theorem FieldsAs.more (hl : l.token = .semicolon) (h : FieldAs f ls) (h' : FieldsAs fs ms) :
    FieldsAs (f :: fs) (l :: (ls ++ ms)) := by
  refine ⟨.inl (congrArg some hl), fun previous rest => ?_⟩
  have above : ∀ k ∈ [l], isAbove k.token = true := by
    intro k hk
    rw [List.mem_singleton.1 hk, hl]
    rfl
  rw [List.cons_append, List.append_assoc]
  exact h.reads_fields h' above previous rest

theorem ReadAs.struct (hl : l.token = .struct) (hm : m.token = .leftBrace)
    (h : FieldAs f ls) (h' : FieldsAs fs ms) :
    ReadAs (.struct (f :: fs)) (l :: m :: (ls ++ ms)) := by
  refine ⟨⟨l, _, rfl, by rw [hl]; rfl⟩, fun previous rest _ => ?_⟩
  obtain ⟨last, gs, reads, same⟩ :=
    h.reads_fields h' (List.forall_mem_nil _) (some m) rest
  refine ⟨last, .struct gs, ?_, same⟩
  simp only [List.cons_append, List.append_assoc]
  exact .struct hl hm reads

theorem ReadAs.struct_nil {k : Lexeme} (hl : l.token = .struct) (hm : m.token = .leftBrace)
    (hk : k.token = .rightBrace) : ReadAs (.struct []) [l, m, k] := by
  refine ⟨⟨l, _, rfl, by rw [hl]; rfl⟩, fun previous rest _ => ?_⟩
  obtain ⟨last, gs, reads, same⟩ := (FieldsAs.closed hk).reads (some m) rest
  exact ⟨last, .struct gs, .struct hl hm reads, same⟩

end

end Go
end FieldRules
