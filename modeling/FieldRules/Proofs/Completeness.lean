/-
The readers of the parser read what the grammar allows.

Where a type stands between two places, the bound on the depth does not matter as
long as it covers the tokens left: the reader comes to that type and to that place
(`Reads.run`).  Every step takes a token, so a bound that is enough for the whole
is enough for each part.
-/
import FieldRules.Proofs.Grammar

namespace FieldRules
namespace Go

open Go.Parser

namespace Parser

variable {α β : Type} {place mid next : Place}

theorem bind_after {p : Parser α} {f : α → Parser β} {a : α} (h : p place = .ok (a, mid)) :
    (p >>= f) place = f a mid := by
  change Except.bind (p place) (fun x => f x.1 x.2) = _
  rw [h]
  rfl

theorem bind_run {p : Parser α} {f : α → Parser β} {a : α} {b : β}
    (h : p place = .ok (a, mid)) (h' : f a mid = .ok (b, next)) :
    (p >>= f) place = .ok (b, next) :=
  (bind_after h).trans h'

theorem bind_refused {p : Parser α} {f : α → Parser β} {e : SyntaxError}
    (h : p place = .error e) : (p >>= f) place = .error e := by
  change Except.bind (p place) (fun x => f x.1 x.2) = _
  rw [h]
  rfl

theorem map_run {p : Parser α} {f : α → β} {a : α} (h : p place = .ok (a, next)) :
    (f <$> p) place = .ok (f a, next) := by
  change Except.bind (p place) (fun x => .ok (f x.1, x.2)) = _
  rw [h]
  rfl

theorem map_refused {p : Parser α} {f : α → β} {e : SyntaxError} (h : p place = .error e) :
    (f <$> p) place = .error e := by
  change Except.bind (p place) (fun x => .ok (f x.1, x.2)) = _
  rw [h]
  rfl

theorem peek_run : peek place = .ok (place.peek?, place) := rfl

theorem accept_run {token : Token} {previous : Option Lexeme} {l : Lexeme} {ls : List Lexeme}
    (h : l.token = token) : accept token ⟨previous, l :: ls⟩ = .ok (true, ⟨some l, ls⟩) := by
  refine bind_run peek_run ?_
  rw [Place.peek?_cons, if_pos (congrArg some h)]
  rfl

theorem accept_other {token : Token} (h : place.peek? ≠ some token) :
    accept token place = .ok (false, place) := by
  refine bind_run peek_run ?_
  rw [if_neg h]
  rfl

theorem expect_run {token : Token} {wanted : Wanted} {previous : Option Lexeme} {l : Lexeme}
    {ls : List Lexeme} (h : l.token = token) :
    expect token wanted ⟨previous, l :: ls⟩ = .ok ((), ⟨some l, ls⟩) :=
  bind_run (accept_run h) rfl

theorem identifier_run {wanted : Wanted} {previous : Option Lexeme} {l : Lexeme}
    {ls : List Lexeme} {word : String} (h : l.token = .identifier word) :
    identifier wanted ⟨previous, l :: ls⟩ = .ok ((word, l.position), ⟨some l, ls⟩) := by
  unfold identifier
  simp only [h]

theorem group_run {previous : Option Lexeme} {ls taken rest : List Lexeme}
    (h : takeGroup 0 ls = some (taken, rest)) :
    group ⟨previous, ls⟩ = .ok (String.ofList (spanText taken), ⟨taken.getLast?, rest⟩) := by
  unfold group
  simp only [h]
  obtain ⟨inner, last, rfl, -⟩ := takeGroup_closed h
  rw [Place.moveTo_concat, List.getLast?_concat]

theorem arrayLength_run {previous : Option Lexeme} {size ls : List Lexeme} {m : Lexeme}
    (h : takeLength 0 (size ++ m :: ls) = some (size, m :: ls)) :
    ∃ last, arrayLength ⟨previous, size ++ m :: ls⟩ =
      .ok (String.ofList (Text.trim (spanText size)), ⟨last, m :: ls⟩) := by
  unfold arrayLength
  simp only [h]
  unfold Place.moveTo
  split <;> exact ⟨_, rfl⟩

section

variable {type : Parser TypeExpr} {previous : Option Lexeme} {m n : Lexeme}
  {ls ms parameters results rest : List Lexeme}

theorem signature_bare (hm : m.token = .leftParen)
    (htaken : takeGroup 0 (m :: ls) = some (parameters, rest))
    (ends : startsResults (Place.mk parameters.getLast? rest).peek? = false) :
    signature type ⟨previous, m :: ls⟩ = .ok ((), ⟨parameters.getLast?, rest⟩) := by
  refine bind_run peek_run ?_
  rw [Place.peek?_cons, if_neg (Decidable.not_not.2 (congrArg some hm))]
  refine bind_run (group_run htaken) (bind_run peek_run ?_)
  cases front : (Place.mk parameters.getLast? rest).peek? with
  | none => rfl
  | some token =>
    rw [front] at ends
    cases token <;> first | rfl | cases ends

theorem signature_many (hm : m.token = .leftParen)
    (htaken : takeGroup 0 (m :: ls) = some (parameters, n :: ms)) (hn : n.token = .leftParen)
    (hmany : takeGroup 0 (n :: ms) = some (results, rest)) :
    signature type ⟨previous, m :: ls⟩ = .ok ((), ⟨results.getLast?, rest⟩) := by
  refine bind_run peek_run ?_
  rw [Place.peek?_cons, if_neg (Decidable.not_not.2 (congrArg some hm))]
  refine bind_run (group_run htaken) (bind_run peek_run ?_)
  rw [Place.peek?_cons, hn]
  exact bind_run (group_run hmany) rfl

theorem signature_one (hm : m.token = .leftParen)
    (htaken : takeGroup 0 (m :: ls) = some (parameters, n :: ms))
    (starts : startsResult n.token = true) {t : TypeExpr}
    (htype : type ⟨parameters.getLast?, n :: ms⟩ = .ok (t, next)) :
    signature type ⟨previous, m :: ls⟩ = .ok ((), next) := by
  refine bind_run peek_run ?_
  rw [Place.peek?_cons, if_neg (Decidable.not_not.2 (congrArg some hm))]
  refine bind_run (group_run htaken) (bind_run peek_run ?_)
  rw [Place.peek?_cons]
  cases front : n.token <;> rw [front] at starts <;> first
    | exact bind_run htype rfl
    | cases starts

end

theorem embeddedField_run {type : Parser TypeExpr} {position : Text.Position} {t : TypeExpr}
    {name : String} (htype : type place = .ok (t, next)) (hname : embeddedName? t = some name) :
    embeddedField type position place = .ok (([name], t), next) := by
  refine bind_run htype ?_
  rw [hname]
  rfl

theorem namedField_run {type : Parser TypeExpr} {previous : Option Lexeme} {l : Lexeme}
    {ls : List Lexeme} {word : String} {names : List String} {t : TypeExpr}
    (htoken : l.token = .identifier word)
    (hnames : moreNames ls.length ⟨some l, ls⟩ = .ok (names, mid))
    (htype : type mid = .ok (t, next)) :
    namedField type ⟨previous, l :: ls⟩ = .ok ((word :: names, t), next) :=
  bind_run (identifier_run htoken) (bind_run rfl (bind_run hnames (bind_run htype rfl)))

theorem field_embedded {type : Parser TypeExpr} {previous : Option Lexeme} {l : Lexeme}
    {ls : List Lexeme} {doc : List Comment} {names : List String} {t : TypeExpr}
    {tag : Option String}
    (front : l.token = .star ∨ ∃ word, l.token = .identifier word ∧
      endsEmbedded (Place.mk previous (l :: ls)).peekSecond? = true)
    (hread : embeddedField type l.position ⟨previous, l :: ls⟩ = .ok ((names, t), mid))
    (htag : tag? mid = .ok (tag, next)) :
    field type doc ⟨previous, l :: ls⟩ = .ok (⟨names, true, t, tag, doc, l.position⟩, next) := by
  refine bind_run rfl ?_
  rcases front with htoken | ⟨word, htoken, ends⟩
  · simp only [htoken]
    exact bind_run rfl (bind_run hread (bind_run htag rfl))
  · simp only [htoken]
    refine bind_run rfl ?_
    rw [ends]
    exact bind_run rfl (bind_run hread (bind_run htag rfl))

theorem field_named {type : Parser TypeExpr} {previous : Option Lexeme} {l : Lexeme}
    {ls : List Lexeme} {doc : List Comment} {word : String} {names : List String} {t : TypeExpr}
    {tag : Option String} (htoken : l.token = .identifier word)
    (other : endsEmbedded (Place.mk previous (l :: ls)).peekSecond? = false)
    (hread : namedField type ⟨previous, l :: ls⟩ = .ok ((names, t), mid))
    (htag : tag? mid = .ok (tag, next)) :
    field type doc ⟨previous, l :: ls⟩ = .ok (⟨names, false, t, tag, doc, l.position⟩, next) := by
  refine bind_run rfl ?_
  simp only [htoken]
  refine bind_run rfl ?_
  rw [other]
  exact bind_run rfl (bind_run hread (bind_run htag rfl))

theorem textOf_run {reader : Parser Unit} (h : reader place = .ok ((), next)) :
    textOf reader place = .ok (place.textTo next, next) := by
  unfold textOf
  rw [h]
  rfl

end Parser

section

variable {place next : Place}

theorem ReadsNames.run {names : List String} (h : ReadsNames place names next) {fuel : Nat}
    (enough : place.rest.length ≤ fuel) : moreNames fuel place = .ok (names, next) := by
  induction h generalizing fuel with
  | done other =>
    cases fuel with
    | zero => rfl
    | succ fuel => exact bind_run (accept_other other) rfl
  | @more _ _ _ ls _ _ _ hl hm _ ih =>
    simp only [List.length_cons] at enough
    cases fuel with
    | zero => omega
    | succ fuel =>
      have fewer : ls.length ≤ fuel := by omega
      exact bind_run (accept_run hl) (bind_run (identifier_run hm) (bind_run (ih fewer) rfl))

theorem ReadsTag.run {tag : Option String} (h : ReadsTag place tag next) :
    tag? place = .ok (tag, next) := by
  refine bind_run peek_run ?_
  cases h with
  | absent other =>
    cases front : place.peek? with
    | none => rfl
    | some token =>
      rw [front] at other
      cases token <;> first | rfl | cases other
  | present htag =>
    rw [Place.peek?_cons]
    rcases Token.tag?_eq_some htag with found | found <;> rw [found] <;> rfl

theorem ReadsBase.run {word : String} {base t : TypeExpr} {mid : Place}
    (h : ReadsBase word place base mid)
    (rest : (if mid.peek? = some .leftBracket then TypeExpr.instantiated base <$> group
      else pure base : Parser TypeExpr) mid = .ok (t, next)) :
    nameType word place = .ok (t, next) := by
  unfold nameType
  cases h with
  | plain other => exact bind_run (accept_other other) (bind_run rfl (bind_run peek_run rest))
  | dotted hl hm =>
    exact bind_run (accept_run hl) (bind_run (identifier_run hm)
      (bind_run rfl (bind_run peek_run rest)))

/-- With a bound that covers the tokens left, a reader comes to the tree. -/
def Tree.IsFound (place next : Place) : Tree → Prop
  | .type t => ∀ fuel, 2 * place.rest.length ≤ fuel → Parser.type fuel place = .ok (t, next)
  | .field f => ∀ fuel, 2 * place.rest.length ≤ fuel →
      Parser.field (Parser.type fuel) f.doc place = .ok (f, next)
  | .fields fs => ∀ fuel, 2 * place.rest.length < fuel → structFields fuel place = .ok (fs, next)

/-- A type is found if it is found at a smaller bound behind its first token. -/
theorem Tree.isFound_type {previous : Option Lexeme} {l : Lexeme} {ls : List Lexeme} {t : TypeExpr}
    (h : ∀ fuel, 2 * ls.length < fuel →
      Parser.type (fuel + 1) ⟨previous, l :: ls⟩ = .ok (t, next)) :
    Tree.IsFound ⟨previous, l :: ls⟩ next (.type t) := by
  intro fuel enough
  simp only [List.length_cons] at enough
  cases fuel with
  | zero => omega
  | succ fuel => exact h fuel (by omega)

theorem Reads.found {tree : Tree} (h : Reads place tree next) : tree.IsFound place next := by
  induction h with
  | name htoken base other =>
    refine Tree.isFound_type fun fuel _ => ?_
    unfold type
    refine bind_run rfl ?_
    simp only [htoken]
    refine bind_run rfl (base.run ?_)
    rw [if_neg other]
    rfl
  | «instance» htoken base bracket htaken =>
    refine Tree.isFound_type fun fuel _ => ?_
    unfold type
    refine bind_run rfl ?_
    simp only [htoken]
    refine bind_run rfl (base.run ?_)
    rw [Place.peek?_cons, if_pos (congrArg some bracket)]
    exact map_run (group_run htaken)
  | pointer htoken _ ih =>
    refine Tree.isFound_type fun fuel enough => ?_
    unfold Parser.type
    refine bind_run rfl ?_
    simp only [htoken]
    exact bind_run rfl (map_run (ih fuel (Nat.le_of_lt enough)))
  | slice htoken hm _ ih =>
    refine Tree.isFound_type fun fuel enough => ?_
    unfold Parser.type
    refine bind_run rfl ?_
    simp only [htoken]
    exact bind_run rfl (bind_run (accept_run hm) (map_run (ih fuel (by simp at enough ⊢; omega))))
  | @array _ _ m size ls _ _ htoken sized htaken _ ih =>
    refine Tree.isFound_type fun fuel enough => ?_
    unfold Parser.type
    refine bind_run rfl ?_
    simp only [htoken]
    refine bind_run rfl (bind_run (accept_other (takeLength_head htaken sized)) ?_)
    · obtain ⟨last, hsize⟩ := arrayLength_run htaken
      exact bind_run hsize (bind_run rfl (map_run (ih fuel (by simp at enough ⊢; omega))))
  | map htoken hm hkey hn _ key value =>
    refine Tree.isFound_type fun fuel enough => ?_
    unfold Parser.type
    refine bind_run rfl ?_
    simp only [htoken]
    have shorter := hkey.takes.length_lt
    simp only [List.length_cons] at enough shorter
    refine bind_run rfl (bind_run (expect_run hm) (bind_run (key fuel ?_) ?_))
    · dsimp only
      omega
    · refine bind_run (expect_run hn) (map_run (value fuel ?_))
      dsimp only
      omega
  | chan htoken other _ ih =>
    refine Tree.isFound_type fun fuel enough => ?_
    unfold Parser.type
    refine bind_run rfl ?_
    simp only [htoken]
    exact bind_run rfl (bind_run (accept_other other) (map_run (ih fuel (Nat.le_of_lt enough))))
  | send htoken hm _ ih =>
    refine Tree.isFound_type fun fuel enough => ?_
    unfold Parser.type
    refine bind_run rfl ?_
    simp only [htoken]
    exact bind_run rfl (bind_run (accept_run hm) (map_run (ih fuel (by simp at enough ⊢; omega))))
  | receive htoken hm _ ih =>
    refine Tree.isFound_type fun fuel enough => ?_
    unfold Parser.type
    refine bind_run rfl ?_
    simp only [htoken]
    exact bind_run rfl (bind_run (expect_run hm) (map_run (ih fuel (by simp at enough ⊢; omega))))
  | func htoken hm htaken ends =>
    refine Tree.isFound_type fun fuel _ => ?_
    unfold Parser.type
    refine bind_run rfl ?_
    simp only [htoken]
    exact map_run (textOf_run (bind_run rfl (signature_bare hm htaken ends)))
  | funcMany htoken hm htaken hn hmany =>
    refine Tree.isFound_type fun fuel _ => ?_
    unfold Parser.type
    refine bind_run rfl ?_
    simp only [htoken]
    exact map_run (textOf_run (bind_run rfl (signature_many hm htaken hn hmany)))
  | @funcOne _ _ m n ls ms _ _ _ htoken hm htaken starts _ ih =>
    refine Tree.isFound_type fun fuel enough => ?_
    unfold Parser.type
    refine bind_run rfl ?_
    simp only [htoken]
    have shorter := (takes_group htaken).length_lt
    simp only [List.length_cons] at enough shorter
    refine map_run (textOf_run (bind_run rfl (signature_one hm htaken starts (ih fuel ?_))))
    simp only [List.length_cons]
    omega
  | interface htoken hm htaken =>
    refine Tree.isFound_type fun fuel _ => ?_
    unfold Parser.type
    refine bind_run rfl ?_
    simp only [htoken]
    refine map_run (textOf_run (bind_run rfl (bind_run peek_run ?_)))
    rw [Place.peek?_cons, if_neg (Decidable.not_not.2 (congrArg some hm))]
    exact bind_run (group_run htaken) rfl
  | struct htoken hm _ ih =>
    refine Tree.isFound_type fun fuel enough => ?_
    unfold Parser.type
    refine bind_run rfl ?_
    simp only [htoken]
    exact bind_run rfl (bind_run (expect_run hm) (map_run (ih fuel (by simp at enough ⊢; omega))))
  | paren htoken _ hn ih =>
    refine Tree.isFound_type fun fuel enough => ?_
    unfold Parser.type
    refine bind_run rfl ?_
    simp only [htoken]
    exact bind_run rfl (bind_run (ih fuel (Nat.le_of_lt enough)) (bind_run (expect_run hn) rfl))
  | embedded front _ name tag ih =>
    exact fun fuel enough => field_embedded front (embeddedField_run (ih fuel enough) name) tag.run
  | named htoken other names htype tag ih =>
    intro fuel enough
    have shorter := (names.takes (.one (isTrivia_of_name htoken))).length_lt
    refine field_named htoken other (namedField_run htoken (names.run (Nat.le_refl _))
      (ih fuel ?_)) tag.run
    dsimp only at enough shorter
    omega
  | closed hdoc hbrace =>
    intro fuel enough
    cases fuel with
    | zero => omega
    | succ fuel =>
      refine bind_run hdoc (bind_run peek_run ?_)
      rw [Place.peek?_cons, hbrace]
      rfl
  | @more place mid behind last _ _ _ hdoc hfirst htrail hend _ first fields =>
    intro fuel enough
    cases fuel with
    | zero => omega
    | succ fuel =>
      obtain ⟨taken, split, -, -⟩ := leadingComments_passes hdoc
      obtain ⟨trailed, split', -, -⟩ := trailingComment_passes htrail
      have shorter := hfirst.takes.length_lt
      rw [split, List.length_append] at enough
      rw [split', List.length_append] at shorter
      have bound : 2 * mid.rest.length ≤ fuel := by omega
      have bound' : 2 * last.rest.length < fuel := by omega
      refine bind_run hdoc (bind_run peek_run ?_)
      rcases hfirst.startsField with front | ⟨word, front⟩ <;>
      · rw [front]
        exact bind_run (first fuel bound) (bind_run htrail (bind_run hend
          (bind_run (fields fuel bound') rfl)))

/-- A type of the grammar is read, wherever it stands. -/
theorem Reads.run {t : TypeExpr} (h : Reads place (.type t) next) :
    typeExpr place = .ok (t, next) :=
  bind_run rfl (h.found _ (Nat.le_refl _))

end

end Go
end FieldRules
