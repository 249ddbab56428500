/-
The grammar of types, without a bound on their depth.

`Reads` says what stands between two places: a type, a field, or the fields of a
struct with the brace that closes them.  What a reader of the parser makes of the
lexemes between two places stands there (`typeExpr_reads`), and ends with a token
that is neither a comment nor a newline (`Reads.takes`).
-/
import FieldRules.Proofs.Readers

namespace FieldRules
namespace Go

namespace TypeExpr

mutual

/-- The type itself and all types within it. -/
def parts : TypeExpr → List TypeExpr
  | named name => [named name]
  | qualified package name => [qualified package name]
  | instantiated base arguments => instantiated base arguments :: base.parts
  | pointer target => pointer target :: target.parts
  | slice element => slice element :: element.parts
  | array length element => array length element :: element.parts
  | map key value => map key value :: (key.parts ++ value.parts)
  | chan direction element => chan direction element :: element.parts
  | struct fields => struct fields :: partsOf fields
  | func text => [func text]
  | interface text => [interface text]

def partsIn : Field → List TypeExpr
  | ⟨_, _, type, _, _, _⟩ => type.parts

def partsOf : List Field → List TypeExpr
  | [] => []
  | field :: fields => partsIn field ++ partsOf fields

end

theorem partsIn_eq (field : Field) : partsIn field = field.type.parts := by
  cases field
  rfl

theorem mem_partsOf {fields : List Field} {t : TypeExpr} :
    t ∈ partsOf fields ↔ ∃ field ∈ fields, t ∈ field.type.parts := by
  induction fields with
  | nil => simp [partsOf]
  | cons field fields ih => simp [partsOf, partsIn_eq, ih]

end TypeExpr

/-- The field is one of a struct within the type. -/
def Field.IsIn (field : Field) (t : TypeExpr) : Prop :=
  ∃ fields, .struct fields ∈ t.parts ∧ field ∈ fields

/-- What is read by the readers that call each other. -/
inductive Tree where
  | type (t : TypeExpr)
  | field (f : Field)
  /-- The fields of a struct, up to its closing brace. -/
  | fields (fs : List Field)

namespace Place

/-- The text from a place to a later one. -/
def textTo (place next : Place) : String := String.ofList (spanText (place.takenSince next))

theorem peek?_cons {previous : Option Lexeme} {l : Lexeme} {ls : List Lexeme} :
    (Place.mk previous (l :: ls)).peek? = some l.token := rfl

end Place

open Go.Parser

/-- What is named behind a first word: a type, or one of a package. -/
inductive ReadsBase (word : String) : Place → TypeExpr → Place → Prop where
  | plain {place : Place} : place.peek? ≠ some .dot → ReadsBase word place (.named word) place
  | dotted {previous : Option Lexeme} {l m : Lexeme} {ls : List Lexeme} {second : String} :
      l.token = .dot → m.token = .identifier second →
      ReadsBase word ⟨previous, l :: m :: ls⟩ (.qualified word second) ⟨some m, ls⟩

/-- Further names of a field. -/
inductive ReadsNames : Place → List String → Place → Prop where
  | done {place : Place} : place.peek? ≠ some .comma → ReadsNames place [] place
  | more {previous : Option Lexeme} {l m : Lexeme} {ls : List Lexeme} {word : String}
      {names : List String} {next : Place} :
      l.token = .comma → m.token = .identifier word → ReadsNames ⟨some m, ls⟩ names next →
      ReadsNames ⟨previous, l :: m :: ls⟩ (word :: names) next

/-- The tag that a token can be. -/
def Token.tag? : Token → Option String
  | string quoted => some quoted
  | rawString quoted => some quoted
  | _ => none

theorem Token.tag?_eq_some {token : Token} {quoted : String} (h : token.tag? = some quoted) :
    token = .string quoted ∨ token = .rawString quoted := by
  cases token <;> cases h
  · exact .inl rfl
  · exact .inr rfl

inductive ReadsTag : Place → Option String → Place → Prop where
  | absent {place : Place} : place.peek?.bind Token.tag? = none → ReadsTag place none place
  | present {previous : Option Lexeme} {l : Lexeme} {ls : List Lexeme} {quoted : String} :
      l.token.tag? = some quoted → ReadsTag ⟨previous, l :: ls⟩ (some quoted) ⟨some l, ls⟩

/-- Whether a token that follows the parameters of a function belongs to its type. -/
def startsResults : Option Token → Bool
  | none => false
  | some token => token == .leftParen || startsResult token

/-- A tree stands between two places. -/
inductive Reads : Place → Tree → Place → Prop where
  | name {previous : Option Lexeme} {l : Lexeme} {ls : List Lexeme} {word : String}
      {base : TypeExpr} {next : Place} :
      l.token = .identifier word → ReadsBase word ⟨some l, ls⟩ base next →
      next.peek? ≠ some .leftBracket → Reads ⟨previous, l :: ls⟩ (.type base) next
  | instance {previous last : Option Lexeme} {l n : Lexeme} {ls ns arguments rest : List Lexeme}
      {word : String} {base : TypeExpr} :
      l.token = .identifier word → ReadsBase word ⟨some l, ls⟩ base ⟨last, n :: ns⟩ →
      n.token = .leftBracket → takeGroup 0 (n :: ns) = some (arguments, rest) →
      Reads ⟨previous, l :: ls⟩
        (.type (.instantiated base (String.ofList (spanText arguments))))
        ⟨arguments.getLast?, rest⟩
  | pointer {previous : Option Lexeme} {l : Lexeme} {ls : List Lexeme} {t : TypeExpr}
      {next : Place} :
      l.token = .star → Reads ⟨some l, ls⟩ (.type t) next →
      Reads ⟨previous, l :: ls⟩ (.type (.pointer t)) next
  | slice {previous : Option Lexeme} {l m : Lexeme} {ls : List Lexeme} {t : TypeExpr}
      {next : Place} :
      l.token = .leftBracket → m.token = .rightBracket → Reads ⟨some m, ls⟩ (.type t) next →
      Reads ⟨previous, l :: m :: ls⟩ (.type (.slice t)) next
  | array {previous : Option Lexeme} {l m : Lexeme} {size ls : List Lexeme} {t : TypeExpr}
      {next : Place} :
      l.token = .leftBracket → size ≠ [] → takeLength 0 (size ++ m :: ls) = some (size, m :: ls) →
      Reads ⟨some m, ls⟩ (.type t) next →
      Reads ⟨previous, l :: (size ++ m :: ls)⟩
        (.type (.array (String.ofList (Text.trim (spanText size))) t)) next
  | map {previous last : Option Lexeme} {l m n : Lexeme} {ls rest : List Lexeme}
      {key value : TypeExpr} {next : Place} :
      l.token = .map → m.token = .leftBracket →
      Reads ⟨some m, ls⟩ (.type key) ⟨last, n :: rest⟩ → n.token = .rightBracket →
      Reads ⟨some n, rest⟩ (.type value) next →
      Reads ⟨previous, l :: m :: ls⟩ (.type (.map key value)) next
  | chan {previous : Option Lexeme} {l : Lexeme} {ls : List Lexeme} {t : TypeExpr}
      {next : Place} :
      l.token = .chan → (Place.mk (some l) ls).peek? ≠ some .arrow →
      Reads ⟨some l, ls⟩ (.type t) next →
      Reads ⟨previous, l :: ls⟩ (.type (.chan .both t)) next
  | send {previous : Option Lexeme} {l m : Lexeme} {ls : List Lexeme} {t : TypeExpr}
      {next : Place} :
      l.token = .chan → m.token = .arrow → Reads ⟨some m, ls⟩ (.type t) next →
      Reads ⟨previous, l :: m :: ls⟩ (.type (.chan .send t)) next
  | receive {previous : Option Lexeme} {l m : Lexeme} {ls : List Lexeme} {t : TypeExpr}
      {next : Place} :
      l.token = .arrow → m.token = .chan → Reads ⟨some m, ls⟩ (.type t) next →
      Reads ⟨previous, l :: m :: ls⟩ (.type (.chan .receive t)) next
  | func {previous : Option Lexeme} {l m : Lexeme} {ls parameters rest : List Lexeme} :
      l.token = .func → m.token = .leftParen →
      takeGroup 0 (m :: ls) = some (parameters, rest) →
      startsResults (Place.mk parameters.getLast? rest).peek? = false →
      Reads ⟨previous, l :: m :: ls⟩
        (.type (.func (Place.textTo ⟨previous, l :: m :: ls⟩ ⟨parameters.getLast?, rest⟩)))
        ⟨parameters.getLast?, rest⟩
  | funcMany {previous : Option Lexeme} {l m n : Lexeme}
      {ls ms parameters results rest : List Lexeme} :
      l.token = .func → m.token = .leftParen →
      takeGroup 0 (m :: ls) = some (parameters, n :: ms) → n.token = .leftParen →
      takeGroup 0 (n :: ms) = some (results, rest) →
      Reads ⟨previous, l :: m :: ls⟩
        (.type (.func (Place.textTo ⟨previous, l :: m :: ls⟩ ⟨results.getLast?, rest⟩)))
        ⟨results.getLast?, rest⟩
  | funcOne {previous : Option Lexeme} {l m n : Lexeme} {ls ms parameters : List Lexeme}
      {t : TypeExpr} {next : Place} :
      l.token = .func → m.token = .leftParen →
      takeGroup 0 (m :: ls) = some (parameters, n :: ms) → startsResult n.token = true →
      Reads ⟨parameters.getLast?, n :: ms⟩ (.type t) next →
      Reads ⟨previous, l :: m :: ls⟩
        (.type (.func (Place.textTo ⟨previous, l :: m :: ls⟩ next))) next
  | interface {previous : Option Lexeme} {l m : Lexeme} {ls body rest : List Lexeme} :
      l.token = .interface → m.token = .leftBrace →
      takeGroup 0 (m :: ls) = some (body, rest) →
      Reads ⟨previous, l :: m :: ls⟩
        (.type (.interface (Place.textTo ⟨previous, l :: m :: ls⟩ ⟨body.getLast?, rest⟩)))
        ⟨body.getLast?, rest⟩
  | struct {previous : Option Lexeme} {l m : Lexeme} {ls : List Lexeme} {fields : List Field}
      {next : Place} :
      l.token = .struct → m.token = .leftBrace → Reads ⟨some m, ls⟩ (.fields fields) next →
      Reads ⟨previous, l :: m :: ls⟩ (.type (.struct fields)) next
  | paren {previous last : Option Lexeme} {l n : Lexeme} {ls rest : List Lexeme} {t : TypeExpr} :
      l.token = .leftParen → Reads ⟨some l, ls⟩ (.type t) ⟨last, n :: rest⟩ →
      n.token = .rightParen →
      Reads ⟨previous, l :: ls⟩ (.type t) ⟨some n, rest⟩
  | embedded {previous : Option Lexeme} {l : Lexeme} {ls : List Lexeme} {t : TypeExpr}
      {name : String} {tag : Option String} {doc : List Comment} {mid next : Place} :
      (l.token = .star ∨ ∃ word, l.token = .identifier word ∧
        endsEmbedded (Place.mk previous (l :: ls)).peekSecond? = true) →
      Reads ⟨previous, l :: ls⟩ (.type t) mid → embeddedName? t = some name →
      ReadsTag mid tag next →
      Reads ⟨previous, l :: ls⟩ (.field ⟨[name], true, t, tag, doc, l.position⟩) next
  | named {previous : Option Lexeme} {l : Lexeme} {ls : List Lexeme} {word : String}
      {names : List String} {t : TypeExpr} {tag : Option String} {doc : List Comment}
      {mid behind next : Place} :
      l.token = .identifier word → endsEmbedded (Place.mk previous (l :: ls)).peekSecond? = false →
      ReadsNames ⟨some l, ls⟩ names mid → Reads mid (.type t) behind →
      ReadsTag behind tag next →
      Reads ⟨previous, l :: ls⟩ (.field ⟨word :: names, false, t, tag, doc, l.position⟩) next
  | closed {place : Place} {last : Option Lexeme} {l : Lexeme} {ls : List Lexeme}
      {doc : List Comment} :
      leadingComments place = .ok (doc, ⟨last, l :: ls⟩) → l.token = .rightBrace →
      Reads place (.fields []) ⟨some l, ls⟩
  | more {place mid behind last next : Place} {first : Field} {fields : List Field} :
      leadingComments place = .ok (first.doc, mid) → Reads mid (.field first) behind →
      trailingComment behind = .ok ((), last) → endOfItem .endOfField last = .ok ((), last) →
      Reads last (.fields fields) next → Reads place (.fields (first :: fields)) next

namespace Parser

variable {place next : Place}

/-! ### What the small readers take -/

theorem peek?_eq_some {token : Token} (h : place.peek? = some token) :
    ∃ l ls, place.rest = l :: ls ∧ l.token = token := by
  obtain ⟨l, hl, htoken⟩ := Option.map_eq_some_iff.1 h
  obtain ⟨ls, hls⟩ := List.head?_eq_some_iff.1 hl
  exact ⟨l, ls, hls, htoken⟩

theorem advance_ok {u : Unit} {token : Token} (front : place.peek? = some token)
    (h : advance place = .ok (u, next)) :
    ∃ l ls, place.rest = l :: ls ∧ l.token = token ∧ next = ⟨some l, ls⟩ := by
  obtain ⟨l, ls, hls, htoken⟩ := peek?_eq_some front
  unfold advance at h
  rw [hls] at h
  cases h
  exact ⟨l, ls, hls, htoken, rfl⟩

theorem accept_ok {token : Token} {found : Bool} (h : accept token place = .ok (found, next)) :
    (∃ l ls, place.rest = l :: ls ∧ l.token = token ∧ next = ⟨some l, ls⟩ ∧ found = true) ∨
      (place.peek? ≠ some token ∧ next = place ∧ found = false) := by
  obtain ⟨front, mid, hpeek, hrest⟩ := bind_ok h
  obtain ⟨rfl, rfl⟩ := peek_ok hpeek
  split at hrest
  · next found =>
    obtain ⟨u, last, hadvance, hend⟩ := bind_ok hrest
    obtain ⟨rfl, rfl⟩ := pure_ok hend
    obtain ⟨l, ls, hls, htoken, rfl⟩ := advance_ok found hadvance
    exact .inl ⟨l, ls, hls, htoken, rfl, rfl⟩
  · next other =>
    obtain ⟨rfl, rfl⟩ := pure_ok hrest
    exact .inr ⟨other, rfl, rfl⟩

theorem expect_ok {token : Token} {wanted : Wanted} {u : Unit}
    (h : expect token wanted place = .ok (u, next)) :
    ∃ l ls, place.rest = l :: ls ∧ l.token = token ∧ next = ⟨some l, ls⟩ := by
  obtain ⟨found, mid, haccept, hrest⟩ := bind_ok h
  rcases accept_ok haccept with ⟨l, ls, hls, htoken, rfl, rfl⟩ | ⟨-, rfl, rfl⟩
  · obtain ⟨-, rfl⟩ := pure_ok hrest
    exact ⟨l, ls, hls, htoken, rfl⟩
  · exact (missing_ok hrest).elim

theorem identifier_ok {wanted : Wanted} {found : String × Text.Position}
    (h : identifier wanted place = .ok (found, next)) :
    ∃ l ls, place.rest = l :: ls ∧ l.token = .identifier found.1 ∧ next = ⟨some l, ls⟩ ∧
      l.position = found.2 := by
  unfold identifier at h
  split at h
  · next l ls hrest =>
    split at h
    · next name htoken =>
      cases h
      exact ⟨l, ls, hrest, htoken, rfl, rfl⟩
    · exact (missing_ok h).elim
  · exact (missing_ok h).elim

end Parser

/-- A group is not empty and ends with a closing bracket. -/
theorem takeGroup_closed {depth : Nat} {ls taken rest : List Lexeme}
    (h : takeGroup depth ls = some (taken, rest)) :
    ∃ inner last, taken = inner ++ [last] ∧ last.token.isClosing = true := by
  induction ls generalizing depth taken with
  | nil => cases h
  | cons l ls ih =>
    unfold takeGroup at h
    split at h
    · next closing =>
      cases h
      exact ⟨[], l, rfl, closing.1⟩
    · obtain ⟨⟨more, left⟩, hmore, hpair⟩ := Option.map_eq_some_iff.1 h
      cases hpair
      obtain ⟨inner, last, rfl, closing⟩ := ih hmore
      exact ⟨l :: inner, last, rfl, closing⟩

/-- The length of an array ends before a closing bracket. -/
theorem takeLength_closed {depth : Nat} {ls taken rest : List Lexeme}
    (h : takeLength depth ls = some (taken, rest)) :
    ∃ m more, rest = m :: more ∧ m.token = .rightBracket := by
  induction ls generalizing depth taken with
  | nil => cases h
  | cons l ls ih =>
    unfold takeLength at h
    split at h
    · next closing =>
      cases h
      exact ⟨l, ls, rfl, closing.1⟩
    · obtain ⟨⟨more, left⟩, hmore, hpair⟩ := Option.map_eq_some_iff.1 h
      cases hpair
      exact ih hmore

/-- A length that is not empty does not start with a closing bracket. -/
theorem takeLength_head {previous : Option Lexeme} {ls taken rest : List Lexeme}
    (h : takeLength 0 ls = some (taken, rest)) (filled : taken ≠ []) :
    (Place.mk previous ls).peek? ≠ some .rightBracket := by
  cases ls with
  | nil => exact nofun
  | cons l ls =>
    intro front
    rw [takeLength, if_pos ⟨Option.some.inj front, rfl⟩] at h
    cases h
    exact filled rfl

theorem Place.moveTo_concat (place : Place) (inner : List Lexeme) (last : Lexeme)
    (rest : List Lexeme) : place.moveTo (inner ++ [last]) rest = ⟨some last, rest⟩ := by
  unfold moveTo
  rw [List.getLast?_concat]

namespace Parser

variable {place next : Place}

theorem group_ok {text : String} (h : group place = .ok (text, next)) :
    ∃ taken rest, takeGroup 0 place.rest = some (taken, rest) ∧
      text = String.ofList (spanText taken) ∧ next = ⟨taken.getLast?, rest⟩ := by
  unfold group at h
  split at h
  · cases h
  · next taken rest htaken =>
    obtain ⟨inner, last, rfl, -⟩ := takeGroup_closed htaken
    rw [Place.moveTo_concat] at h
    cases h
    exact ⟨_, rest, htaken, rfl, by rw [List.getLast?_concat]⟩

theorem arrayLength_ok {text : String} (h : arrayLength place = .ok (text, next)) :
    ∃ size m ls, place.rest = size ++ m :: ls ∧
      takeLength 0 (size ++ m :: ls) = some (size, m :: ls) ∧
      text = String.ofList (Text.trim (spanText size)) ∧ next.rest = m :: ls := by
  unfold arrayLength at h
  split at h
  · cases h
  · next size rest htaken =>
    obtain ⟨m, ls, rfl, -⟩ := takeLength_closed htaken
    have split := takeLength_append htaken
    cases h
    rw [split] at htaken
    exact ⟨size, m, ls, split, htaken, rfl, Place.moveTo_rest _ _ _⟩

theorem textOf_eq {reader : Parser Unit} {text : String}
    (h : textOf reader place = .ok (text, next)) :
    reader place = .ok ((), next) ∧ text = place.textTo next := by
  unfold textOf at h
  split at h
  · next mid hreader =>
    cases h
    exact ⟨hreader, rfl⟩
  · cases h

theorem endOfItem_ok {wanted : Wanted} {u : Unit} (h : endOfItem wanted place = .ok (u, next)) :
    next = place := by
  obtain ⟨front, mid, hpeek, hrest⟩ := bind_ok h
  obtain ⟨rfl, -⟩ := peek_ok hpeek
  split at hrest
  · exact (pure_ok hrest).2
  · split at hrest
    · exact (pure_ok hrest).2
    · exact (missing_ok hrest).elim

/-! ### Soundness -/

/-- A reader of types that keeps to the grammar. -/
def ReadsType (type : Parser TypeExpr) : Prop :=
  ∀ {place next : Place} {t : TypeExpr}, type place = .ok (t, next) → Reads place (.type t) next

theorem moreNames_reads {fuel : Nat} {names : List String} (enough : place.rest.length ≤ fuel)
    (h : moreNames fuel place = .ok (names, next)) : ReadsNames place names next := by
  induction fuel generalizing place names with
  | zero =>
    obtain ⟨rfl, rfl⟩ := pure_ok h
    refine .done ?_
    unfold Place.peek?
    rw [List.length_eq_zero_iff.1 (Nat.le_zero.1 enough)]
    exact nofun
  | succ fuel ih =>
    obtain ⟨comma, mid, haccept, hrest⟩ := bind_ok h
    obtain ⟨previous, rest⟩ := place
    rcases accept_ok haccept with ⟨l, ls, rfl, hl, rfl, rfl⟩ | ⟨other, rfl, rfl⟩
    · obtain ⟨name, behind, hname, hlast⟩ := bind_ok hrest
      obtain ⟨names, last, hmore, hend⟩ := bind_ok hlast
      obtain ⟨rfl, rfl⟩ := pure_ok hend
      obtain ⟨m, ms, rfl, hm, rfl, -⟩ := identifier_ok hname
      have fewer : ms.length ≤ fuel := by
        simp only [List.length_cons] at enough
        omega
      exact .more hl hm (ih fewer hmore)
    · obtain ⟨rfl, rfl⟩ := pure_ok hrest
      exact .done other

theorem tag_reads {tag : Option String} (h : tag? place = .ok (tag, next)) :
    ReadsTag place tag next := by
  obtain ⟨front, here, hpeek, hrest⟩ := bind_ok h
  obtain ⟨rfl, hfront⟩ := peek_ok hpeek
  -- A string of either kind is taken as it is.
  have taken {token : Token} {quoted : String} (found : here.peek? = some token)
      (htag : token.tag? = some quoted)
      (hrest : (advance *> pure (some quoted) : Parser (Option String)) here = .ok (tag, next)) :
      ReadsTag here tag next := by
    obtain ⟨previous, rest⟩ := here
    obtain ⟨u, mid, hadvance, hend⟩ := seq_ok hrest
    obtain ⟨l, ls, rfl, rfl, rfl⟩ := advance_ok found hadvance
    obtain ⟨rfl, rfl⟩ := pure_ok hend
    exact .present htag
  split at hrest
  · exact taken hfront.symm rfl hrest
  · exact taken hfront.symm rfl hrest
  · next noString noRaw =>
    obtain ⟨rfl, rfl⟩ := pure_ok hrest
    refine .absent ?_
    rw [← hfront]
    cases front with
    | none => rfl
    | some token =>
      cases token with
      | string quoted => exact absurd rfl (noString quoted)
      | rawString quoted => exact absurd rfl (noRaw quoted)
      | _ => rfl

theorem name_reads {previous : Option Lexeme} {l : Lexeme} {ls : List Lexeme} {word : String}
    {t : TypeExpr} (htoken : l.token = .identifier word)
    (h : nameType word ⟨some l, ls⟩ = .ok (t, next)) :
    Reads ⟨previous, l :: ls⟩ (.type t) next := by
  -- Type arguments behind what is named.
  have withArguments {base : TypeExpr} {mid : Place} (named : ReadsBase word ⟨some l, ls⟩ base mid)
      (hend : (peek >>= fun front =>
        if front = some .leftBracket then TypeExpr.instantiated base <$> group else pure base)
        mid = .ok (t, next)) : Reads ⟨previous, l :: ls⟩ (.type t) next := by
    obtain ⟨front, here, hpeek, hrest⟩ := bind_ok hend
    obtain ⟨rfl, rfl⟩ := peek_ok hpeek
    split at hrest
    · next found =>
      obtain ⟨text, hgroup, rfl⟩ := map_ok hrest
      obtain ⟨arguments, rest, htaken, rfl, rfl⟩ := group_ok hgroup
      obtain ⟨last, behind⟩ := here
      obtain ⟨n, ns, rfl, hbracket⟩ := peek?_eq_some found
      exact .instance htoken named hbracket htaken
    · next other =>
      obtain ⟨rfl, rfl⟩ := pure_ok hrest
      exact .name htoken named other
  obtain ⟨dot, afterDot, hdot, hbase⟩ := bind_ok h
  rcases accept_ok hdot with ⟨d, ds, rfl, hd, rfl, rfl⟩ | ⟨other, rfl, rfl⟩
  · obtain ⟨second, behind, hsecond, hend⟩ := bind_ok hbase
    simp only [pure_bind] at hend
    obtain ⟨m, ms, rfl, hm, rfl, -⟩ := identifier_ok hsecond
    exact withArguments (.dotted hd hm) hend
  · simp only [pure_bind] at hbase
    exact withArguments (.plain other) hbase

theorem field_reads {type : Parser TypeExpr} (types : ReadsType type) {doc : List Comment}
    {found : Field} (h : field type doc place = .ok (found, next)) :
    found.doc = doc ∧ Reads place (.field found) next := by
  obtain ⟨previous, rest⟩ := place
  obtain ⟨here, start, hget, hfield⟩ := bind_ok h
  cases hget
  cases rest with
  | nil => exact (missing_ok hfield).elim
  | cons l ls =>
    have asEmbedded (front : l.token = .star ∨ ∃ word, l.token = .identifier word ∧
          endsEmbedded (Place.mk previous (l :: ls)).peekSecond? = true)
        (hfrom : (embeddedField type l.position >>= fun read => tag? >>= fun tag =>
          pure ⟨read.1, true, read.2, tag, doc, l.position⟩ : Parser Field) ⟨previous, l :: ls⟩ =
            .ok (found, next)) :
        found.doc = doc ∧ Reads ⟨previous, l :: ls⟩ (.field found) next := by
      obtain ⟨read, mid, hread, hend⟩ := bind_ok hfrom
      obtain ⟨tag, last, htag, hpure⟩ := bind_ok hend
      obtain ⟨rfl, rfl⟩ := pure_ok hpure
      obtain ⟨t, behind, htype, hname⟩ := bind_ok hread
      cases name : embeddedName? t with
      | none =>
        rw [name] at hname
        cases hname
      | some word =>
        rw [name] at hname
        obtain ⟨rfl, rfl⟩ := pure_ok hname
        exact ⟨rfl, .embedded front (types htype) name (tag_reads htag)⟩
    cases htoken : l.token with
    | star =>
      simp only [htoken, pure_bind] at hfield
      exact asEmbedded (.inl htoken) hfield
    | identifier word =>
      simp only [htoken] at hfield
      obtain ⟨second, mid, hpeek, hrest⟩ := bind_ok hfield
      cases hpeek
      simp only [pure_bind] at hrest
      cases ends : endsEmbedded (Place.mk previous (l :: ls)).peekSecond? with
      | true =>
        rw [ends] at hrest
        exact asEmbedded (.inr ⟨word, htoken, ends⟩) hrest
      | false =>
        rw [ends] at hrest
        obtain ⟨read, mid, hread, hend⟩ := bind_ok hrest
        obtain ⟨tag, last, htag, hpure⟩ := bind_ok hend
        obtain ⟨rfl, rfl⟩ := pure_ok hpure
        obtain ⟨first, behind, hfirst, hmore⟩ := bind_ok hread
        unfold identifier at hfirst
        simp only [htoken] at hfirst
        cases hfirst
        obtain ⟨same, start, hget, hrest⟩ := bind_ok hmore
        cases hget
        obtain ⟨names, front, hnames, htypes⟩ := bind_ok hrest
        obtain ⟨t, last, htype, hpure⟩ := bind_ok htypes
        obtain ⟨rfl, rfl⟩ := pure_ok hpure
        exact ⟨rfl, .named htoken ends (moreNames_reads (Nat.le_refl _) hnames) (types htype)
          (tag_reads htag)⟩
    | _ =>
      simp only [htoken] at hfield
      obtain ⟨embedded, mid, hmissing, -⟩ := bind_ok hfield
      exact (missing_ok hmissing).elim

/-- A bracket that has to be in front of what is read. -/
theorem opening_ok {α : Type} {token : Token} {wanted : Wanted} {reader : Parser α} {a : α}
    (h : (do
      if place.peek? ≠ some token then missing wanted
      reader : Parser α) place = .ok (a, next)) :
    ∃ l ls, place.rest = l :: ls ∧ l.token = token ∧ reader place = .ok (a, next) := by
  split at h
  · obtain ⟨u, mid, hmissing, -⟩ := bind_ok h
    exact (missing_ok hmissing).elim
  · next found =>
    obtain ⟨l, ls, hls, htoken⟩ := peek?_eq_some (Decidable.not_not.1 found)
    exact ⟨l, ls, hls, htoken, h⟩

theorem func_reads {type : Parser TypeExpr} (types : ReadsType type) {previous : Option Lexeme}
    {l : Lexeme} {ls : List Lexeme} {u : Unit} (htoken : l.token = .func)
    (h : signature type ⟨some l, ls⟩ = .ok (u, next)) :
    Reads ⟨previous, l :: ls⟩ (.type (.func (Place.textTo ⟨previous, l :: ls⟩ next))) next := by
  obtain ⟨front, same, hpeek, hopen⟩ := bind_ok h
  cases hpeek
  obtain ⟨m, ms, rfl, hm, hgroups⟩ := opening_ok hopen
  obtain ⟨text, mid, hgroup, hresults⟩ := bind_ok hgroups
  obtain ⟨parameters, rest, htaken, -, rfl⟩ := group_ok hgroup
  -- Results stand behind the parameters, in parentheses or as one type.
  obtain ⟨front, here, hpeek, hrest⟩ := bind_ok hresults
  obtain ⟨rfl, hfront⟩ := peek_ok hpeek
  split at hrest
  · obtain ⟨text, last, hgroup, hend⟩ := bind_ok hrest
    obtain ⟨-, rfl⟩ := pure_ok hend
    obtain ⟨n, ns, rfl, hopens⟩ := peek?_eq_some hfront.symm
    obtain ⟨results, rest, hmany, -, rfl⟩ := group_ok hgroup
    exact .funcMany htoken hm htaken hopens hmany
  · next token other =>
    split at hrest
    · next starts =>
      obtain ⟨t, last, htype, hend⟩ := bind_ok hrest
      obtain ⟨-, rfl⟩ := pure_ok hend
      obtain ⟨n, ns, rfl, rfl⟩ := peek?_eq_some hfront.symm
      exact .funcOne htoken hm htaken starts (types htype)
    · next ends =>
      obtain ⟨-, rfl⟩ := pure_ok hrest
      refine .func htoken hm htaken ?_
      rw [← hfront]
      show (token == .leftParen || startsResult token) = false
      rw [Bool.or_eq_false_iff]
      exact ⟨beq_eq_false_iff_ne.2 other, Bool.eq_false_iff.2 ends⟩
  · obtain ⟨-, rfl⟩ := pure_ok hrest
    exact .func htoken hm htaken (congrArg startsResults hfront.symm)

/-- A reader of the fields of structs that keeps to the grammar. -/
def ReadsFields (fields : Parser (List Field)) : Prop :=
  ∀ {place next : Place} {fs : List Field}, fields place = .ok (fs, next) →
    Reads place (.fields fs) next

theorem type_succ_reads {fuel : Nat} (types : ReadsType (type fuel))
    (fields : ReadsFields (structFields fuel)) : ReadsType (type (fuel + 1)) := by
  rintro ⟨previous, rest⟩ next t h
  obtain ⟨here, start, hget, htype⟩ := bind_ok h
  cases hget
  cases rest with
  | nil => exact (missing_ok htype).elim
  | cons l ls =>
    cases htoken : l.token <;> simp only [htoken] at htype
    case identifier name =>
      obtain ⟨u, mid, hadvance, hname⟩ := seq_ok htype
      cases hadvance
      exact name_reads htoken hname
    case star =>
      obtain ⟨u, mid, hadvance, hpointer⟩ := seq_ok htype
      cases hadvance
      obtain ⟨target, htarget, rfl⟩ := map_ok hpointer
      exact .pointer htoken (types htarget)
    case leftBracket =>
      obtain ⟨u, mid, hadvance, hrest⟩ := bind_ok htype
      cases hadvance
      obtain ⟨closed, behind, hclosed, hlast⟩ := bind_ok hrest
      rcases accept_ok hclosed with ⟨m, ms, rfl, hm, rfl, rfl⟩ | ⟨other, rfl, rfl⟩
      · obtain ⟨element, helement, rfl⟩ := map_ok hlast
        exact .slice htoken hm (types helement)
      · obtain ⟨length, bracket, hlength, harray⟩ := bind_ok hlast
        obtain ⟨v, last, hbracket, hend⟩ := bind_ok harray
        obtain ⟨element, helement, rfl⟩ := map_ok hend
        obtain ⟨size, m, ms, rfl, htaken, rfl, hplace⟩ := arrayLength_ok hlength
        have sized : size ≠ [] := by
          rintro rfl
          obtain ⟨_, _, same, hm⟩ := takeLength_closed htaken
          cases same
          exact other (congrArg some hm)
        unfold advance at hbracket
        rw [hplace] at hbracket
        cases hbracket
        exact .array htoken sized htaken (types helement)
    case map =>
      obtain ⟨u, mid, hadvance, hrest⟩ := bind_ok htype
      cases hadvance
      obtain ⟨v, inner, hleft, hinner⟩ := bind_ok hrest
      obtain ⟨m, ms, rfl, hm, rfl⟩ := expect_ok hleft
      obtain ⟨key, ⟨last, rest⟩, hkey, hlast⟩ := bind_ok hinner
      obtain ⟨w, final, hright, hend⟩ := bind_ok hlast
      obtain ⟨n, ns, rfl, hn, rfl⟩ := expect_ok hright
      obtain ⟨value, hvalue, rfl⟩ := map_ok hend
      exact .map htoken hm (types hkey) hn (types hvalue)
    case chan =>
      obtain ⟨u, mid, hadvance, hrest⟩ := bind_ok htype
      cases hadvance
      obtain ⟨arrow, behind, harrow, hlast⟩ := bind_ok hrest
      obtain ⟨element, helement, rfl⟩ := map_ok hlast
      rcases accept_ok harrow with ⟨m, ms, rfl, hm, rfl, rfl⟩ | ⟨other, rfl, rfl⟩
      · exact .send htoken hm (types helement)
      · exact .chan htoken other (types helement)
    case arrow =>
      obtain ⟨u, mid, hadvance, hrest⟩ := bind_ok htype
      cases hadvance
      obtain ⟨v, behind, hchan, hlast⟩ := bind_ok hrest
      obtain ⟨m, ms, rfl, hm, rfl⟩ := expect_ok hchan
      obtain ⟨element, helement, rfl⟩ := map_ok hlast
      exact .receive htoken hm (types helement)
    case func =>
      obtain ⟨text, htext, rfl⟩ := map_ok htype
      obtain ⟨hread, rfl⟩ := textOf_eq htext
      obtain ⟨v, mid, hadvance, hsignature⟩ := seq_ok hread
      cases hadvance
      exact func_reads types htoken hsignature
    case interface =>
      obtain ⟨text, htext, rfl⟩ := map_ok htype
      obtain ⟨hread, rfl⟩ := textOf_eq htext
      obtain ⟨v, mid, hadvance, hbody⟩ := seq_ok hread
      cases hadvance
      obtain ⟨front, same, hpeek, hopen⟩ := bind_ok hbody
      cases hpeek
      obtain ⟨m, ms, rfl, hm, hgroup⟩ := opening_ok hopen
      obtain ⟨text, behind, hbody, hend⟩ := bind_ok hgroup
      obtain ⟨-, rfl⟩ := pure_ok hend
      obtain ⟨body, rest, htaken, -, rfl⟩ := group_ok hbody
      exact .interface htoken hm htaken
    case struct =>
      obtain ⟨u, mid, hadvance, hrest⟩ := bind_ok htype
      cases hadvance
      obtain ⟨v, behind, hbrace, hbody⟩ := bind_ok hrest
      obtain ⟨m, ms, rfl, hm, rfl⟩ := expect_ok hbrace
      obtain ⟨fs, hfields, rfl⟩ := map_ok hbody
      exact .struct htoken hm (fields hfields)
    case leftParen =>
      obtain ⟨u, mid, hadvance, hrest⟩ := bind_ok htype
      cases hadvance
      obtain ⟨inner, ⟨last, rest⟩, hinner, hlast⟩ := bind_ok hrest
      obtain ⟨v, final, hparen, hend⟩ := bind_ok hlast
      obtain ⟨n, ns, rfl, hn, rfl⟩ := expect_ok hparen
      obtain ⟨rfl, rfl⟩ := pure_ok hend
      exact .paren htoken (types hinner) hn
    all_goals exact (missing_ok htype).elim

theorem structFields_succ_reads {fuel : Nat} (types : ReadsType (type fuel))
    (fields : ReadsFields (structFields fuel)) : ReadsFields (structFields (fuel + 1)) := by
  intro place next fs h
  obtain ⟨doc, mid, hdoc, hrest⟩ := bind_ok h
  obtain ⟨front, same, hpeek, hbody⟩ := bind_ok hrest
  obtain ⟨rfl, hfront⟩ := peek_ok hpeek
  obtain ⟨previous, rest⟩ := same
  split at hbody
  · obtain ⟨u, last, hadvance, hend⟩ := seq_ok hbody
    obtain ⟨rfl, rfl⟩ := pure_ok hend
    obtain ⟨l, ls, rfl, htoken, rfl⟩ := advance_ok hfront.symm hadvance
    exact .closed hdoc htoken
  · exact (missing_ok hbody).elim
  · obtain ⟨first, behind, hfield, hafter⟩ := bind_ok hbody
    obtain ⟨u, trailed, htrail, hitem⟩ := bind_ok hafter
    obtain ⟨v, ended, hend, hlast⟩ := bind_ok hitem
    obtain ⟨others, last, hmore, hpure⟩ := bind_ok hlast
    cases hpure
    obtain ⟨rfl, hfirst⟩ := field_reads types hfield
    cases endOfItem_ok hend
    exact .more hdoc hfirst htrail hend (fields hmore)

theorem types_read (fuel : Nat) : ReadsType (type fuel) ∧ ReadsFields (structFields fuel) := by
  induction fuel with
  | zero => exact ⟨fun h => (missing_ok h).elim, fun h => (missing_ok h).elim⟩
  | succ fuel ih => exact ⟨type_succ_reads ih.1 ih.2, structFields_succ_reads ih.1 ih.2⟩

/-- What is read as a type is one in the grammar. -/
theorem typeExpr_reads : ReadsType typeExpr := by
  intro place next t h
  obtain ⟨here, start, hget, htype⟩ := bind_ok h
  cases hget
  exact (types_read _).1 htype

end Parser

/-! ### The last token -/

/-- Some lexemes go on to a place behind a token that is neither a comment nor a newline. -/
def Takes (ls : List Lexeme) (next : Place) : Prop :=
  ∃ taken l, ls = taken ++ l :: next.rest ∧ next.previous = some l ∧ l.token.isTrivia = false

section

variable {place mid next : Place} {l : Lexeme} {ls taken rest : List Lexeme} {word : String}

theorem Takes.one (plain : l.token.isTrivia = false) : Takes (l :: ls) ⟨some l, ls⟩ :=
  ⟨[], l, rfl, rfl, plain⟩

theorem Takes.after (split : ls = taken ++ rest) (h : Takes rest next) : Takes ls next := by
  obtain ⟨more, l, hrest, previous, plain⟩ := h
  exact ⟨taken ++ more, l, by rw [split, hrest, List.append_assoc], previous, plain⟩

theorem Takes.cons (h : Takes ls next) : Takes (l :: ls) next :=
  .after (show l :: ls = [l] ++ ls from rfl) h

theorem Takes.trans (h : Takes ls mid) (h' : Takes mid.rest next) : Takes ls next := by
  obtain ⟨taken, l, hrest, -, -⟩ := h
  have split : ls = (taken ++ [l]) ++ mid.rest := by
    rw [hrest, List.append_assoc]
    rfl
  exact .after split h'

theorem Takes.length_lt (h : Takes ls next) : next.rest.length < ls.length := by
  obtain ⟨taken, l, hrest, -, -⟩ := h
  rw [hrest, List.length_append, List.length_cons]
  omega

theorem isTrivia_of_isClosing {token : Token} (h : token.isClosing = true) :
    token.isTrivia = false := by
  cases token <;> first | rfl | cases h

theorem isTrivia_of_name {token : Token} (h : token = .identifier word) :
    token.isTrivia = false := by
  rw [h]
  rfl

theorem takes_group (h : takeGroup 0 ls = some (taken, rest)) :
    Takes ls ⟨taken.getLast?, rest⟩ := by
  have split := takeGroup_append h
  obtain ⟨inner, last, rfl, closing⟩ := takeGroup_closed h
  refine ⟨inner, last, ?_, List.getLast?_concat, isTrivia_of_isClosing closing⟩
  rw [split, List.append_assoc]
  rfl

theorem ReadsBase.takes {base : TypeExpr} (htoken : l.token = .identifier word)
    (h : ReadsBase word ⟨some l, ls⟩ base next) : Takes (l :: ls) next := by
  cases h with
  | plain => exact .one (isTrivia_of_name htoken)
  | dotted _ hm => exact .cons (.cons (.one (isTrivia_of_name hm)))

theorem ReadsNames.takes {names : List String} (h : Takes ls mid)
    (more : ReadsNames mid names next) : Takes ls next := by
  induction more with
  | done => exact h
  | more _ hm _ ih => exact ih (h.trans (.cons (.one (isTrivia_of_name hm))))

theorem ReadsTag.takes {tag : Option String} (h : Takes ls mid) (more : ReadsTag mid tag next) :
    Takes ls next := by
  cases more with
  | absent => exact h
  | present htag =>
    refine h.trans (.one ?_)
    rcases Token.tag?_eq_some htag with found | found <;> rw [found] <;> rfl

/-- What is read ends with a token that is neither a comment nor a newline. -/
theorem Reads.takes {tree : Tree} (h : Reads place tree next) : Takes place.rest next := by
  induction h with
  | name htoken base _ => exact base.takes htoken
  | «instance» htoken base _ htaken => exact (base.takes htoken).trans (takes_group htaken)
  | pointer _ _ ih => exact .cons ih
  | slice _ _ _ ih => exact .cons (.cons ih)
  | @array _ l m size ls _ _ _ _ _ _ ih =>
    have split : l :: (size ++ m :: ls) = (l :: (size ++ [m])) ++ ls := by simp
    exact .after split ih
  | map _ _ _ _ _ key value => exact .cons (.cons (key.trans (.cons value)))
  | chan _ _ _ ih => exact .cons ih
  | send _ _ _ ih => exact .cons (.cons ih)
  | receive _ _ _ ih => exact .cons (.cons ih)
  | func _ _ htaken _ => exact .cons (takes_group htaken)
  | funcMany _ _ htaken _ hmany => exact .cons ((takes_group htaken).trans (takes_group hmany))
  | funcOne _ _ htaken _ _ ih => exact .cons ((takes_group htaken).trans ih)
  | interface _ _ htaken => exact .cons (takes_group htaken)
  | struct _ _ _ ih => exact .cons (.cons ih)
  | paren _ _ hn ih => exact .cons (ih.trans (.one (by rw [hn]; rfl)))
  | embedded _ _ _ tag ih => exact tag.takes ih
  | named htoken _ names _ tag ih =>
    exact tag.takes ((names.takes (.one (isTrivia_of_name htoken))).trans ih)
  | closed hdoc hbrace =>
    obtain ⟨taken, split, -, -⟩ := leadingComments_passes hdoc
    exact .after split (.one (by rw [hbrace]; rfl))
  | more hdoc _ htrail _ _ first fields =>
    obtain ⟨taken, split, -, -⟩ := leadingComments_passes hdoc
    obtain ⟨trailed, split', -, -⟩ := trailingComment_passes htrail
    exact .after split (first.trans (.after split' fields))

end

/-- A field starts with a name or with the star of an embedded pointer. -/
theorem Reads.startsField {place next : Place} {f : Field} (h : Reads place (.field f) next) :
    place.peek? = some .star ∨ ∃ word, place.peek? = some (.identifier word) := by
  cases h with
  | embedded front =>
    rcases front with htoken | ⟨word, htoken, -⟩
    · exact .inl (congrArg some htoken)
    · exact .inr ⟨word, congrArg some htoken⟩
  | named htoken => exact .inr ⟨_, congrArg some htoken⟩

theorem Reads.field_position {place next : Place} {f : Field} (h : Reads place (.field f) next) :
    ∃ l ls, place.rest = l :: ls ∧ l.position = f.position := by
  cases h with
  | embedded => exact ⟨_, _, rfl, rfl⟩
  | named => exact ⟨_, _, rfl, rfl⟩

end Go
end FieldRules
