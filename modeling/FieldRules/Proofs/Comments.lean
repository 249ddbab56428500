/-
Comments above a declaration, and the group that is collected for it.

The comments directly above a declaration are those with nothing but comments and
newlines behind them, and no blank line.  The ones that share their line with a
token to their left belong to that token, and the others to the declaration
(`docAbove`).  The group is collected by the last token alone and by the line on
which it starts.  So it is right about a comment that begins its line, and about
one directly behind a token that starts on the same line (`EndsItem.ownsDoc`).
-/
import FieldRules.Proofs.Scanning
import FieldRules.Proofs.Skipping

namespace FieldRules
namespace Go

open Text

/-- The line on which a lexeme ends. -/
def Lexeme.lastLine (l : Lexeme) : Nat := (l.position.advance l.text).line

/-! ### The comments above a declaration -/

/-- Comments and newlines without a blank line. -/
def isUnbroken : List Lexeme → Bool
  | [] => true
  | [l] => l.token.isTrivia
  | l :: m :: ls =>
    l.token.isTrivia && !(l.token == .newline && m.token == .newline) && isUnbroken (m :: ls)

/-- The comments among some lexemes that reach their end, as far as they are kept where they stand:
behind which lexemes, and as which one. -/
def docOf (keep : List Lexeme → Lexeme → Bool) (passed : List Lexeme) :
    List Lexeme → List Comment
  | [] => []
  | l :: ls =>
    (if isUnbroken ls && keep passed l then l.comment?.toList else []) ++
      docOf keep (passed ++ [l]) ls

/-- Whether a token that is neither a comment nor a newline ends on the line where the lexeme behind
it starts. -/
def sharesLine (passed : List Lexeme) (l : Lexeme) : Bool :=
  passed.any fun m => !m.token.isTrivia && m.lastLine == l.position.line

/-- The comments directly above what follows some lexemes. -/
def docAbove (before : List Lexeme) : List Comment :=
  docOf (fun passed l => !sharesLine passed l) [] before

/-- There are at most comments between the start of the line and the lexeme. -/
def BeginsLine (passed : List Lexeme) : Prop :=
  ∃ above comments, passed = above ++ comments ∧ (∀ c ∈ comments, c.token.isComment = true) ∧
    ∀ l ∈ above.getLast?, l.token = .newline

/-- Apart from semicolons the lexeme is next to a token that starts on its line. -/
def StandsBehind (passed : List Lexeme) (l : Lexeme) : Prop :=
  ∃ above m semicolons, passed = above ++ m :: semicolons ∧ m.token.isTrivia = false ∧
    m.token ≠ .semicolon ∧ (∀ s ∈ semicolons, s.token = .semicolon) ∧
    m.position.line = l.position.line

def IsPlain (passed : List Lexeme) (l : Lexeme) : Prop := BeginsLine passed ∨ StandsBehind passed l

/-- The doc is made of comments above, in order, and rightly so as far as they stand plainly. -/
def OwnsDoc (before : List Lexeme) (doc : List Comment) : Prop :=
  ∃ keep : List Lexeme → Lexeme → Bool, doc = docOf keep [] before ∧
    ∀ passed l ahead, before = passed ++ l :: ahead → l.token.isComment = true →
      isUnbroken ahead = true → IsPlain passed l → keep passed l = !sharesLine passed l

/-- All comments above stand plainly. -/
def IsPlainAbove (before : List Lexeme) : Prop :=
  ∀ passed l ahead, before = passed ++ l :: ahead → l.token.isComment = true →
    isUnbroken ahead = true → IsPlain passed l

section

variable {keep other : List Lexeme → Lexeme → Bool} {passed ls : List Lexeme} {l : Lexeme}

theorem comment?_of_not_isComment (h : l.token.isComment = false) : l.comment? = none := by
  unfold Lexeme.comment?
  split
  · next found => rw [found] at h; cases h
  · next found => rw [found] at h; cases h
  · rfl

/-- Only what is kept of the comments that reach the end counts. -/
theorem docOf_congr (h : ∀ more l ahead, ls = more ++ l :: ahead → l.token.isComment = true →
    isUnbroken ahead = true → keep (passed ++ more) l = other (passed ++ more) l) :
    docOf keep passed ls = docOf other passed ls := by
  induction ls generalizing passed with
  | nil => rfl
  | cons l ls ih =>
    have rest : docOf keep (passed ++ [l]) ls = docOf other (passed ++ [l]) ls := by
      refine ih fun more m ahead split comment unbroken => ?_
      rw [List.append_assoc]
      exact h ([l] ++ more) m ahead (by rw [split]; rfl) comment unbroken
    rw [docOf, docOf, rest]
    cases unbroken : isUnbroken ls with
    | false => rfl
    | true =>
      cases comment : l.token.isComment with
      | false => rw [comment?_of_not_isComment comment]; split <;> split <;> rfl
      | true =>
        have same := h [] l ls rfl comment unbroken
        rw [List.append_nil] at same
        rw [same]

/-- Where all comments stand plainly, the doc is what stands above. -/
theorem OwnsDoc.eq_docAbove {before : List Lexeme} {doc : List Comment} (h : OwnsDoc before doc)
    (plain : IsPlainAbove before) : doc = docAbove before := by
  obtain ⟨keep, rfl, right⟩ := h
  exact docOf_congr fun more l ahead split comment unbroken =>
    right more l ahead split comment unbroken (plain more l ahead split comment unbroken)

/-- What is not kept leaves nothing. -/
theorem docOf_append (h : ∀ more l ahead, ls = more ++ l :: ahead → keep (passed ++ more) l = false)
    (behind : List Lexeme) :
    docOf keep passed (ls ++ behind) = docOf keep (passed ++ ls) behind := by
  induction ls generalizing passed with
  | nil => rw [List.append_nil]; rfl
  | cons l ls ih =>
    have dropped := h [] l ls rfl
    rw [List.append_nil] at dropped
    have rest : docOf keep (passed ++ [l]) (ls ++ behind) =
        docOf keep (passed ++ [l] ++ ls) behind := by
      refine ih fun more m ahead split => ?_
      rw [List.append_assoc]
      exact h ([l] ++ more) m ahead (by rw [split]; rfl)
    rw [List.cons_append, docOf, dropped, Bool.and_false, rest, List.append_assoc]
    rfl

end

/-! ### The group that the parser collects -/

/-- Whether the last lexeme is a newline. -/
def endsLine (ls : List Lexeme) : Bool := (ls.getLast?.map (·.token)) == some .newline

/-- A lexeme does not part the comments before it from what follows. -/
def continues (ls : List Lexeme) (l : Lexeme) : Bool :=
  l.token.isTrivia && !(endsLine ls && l.token == .newline)

theorem endsLine_cons (l m : Lexeme) (ls : List Lexeme) :
    endsLine (l :: m :: ls) = endsLine (m :: ls) := by
  unfold endsLine
  rw [List.getLast?_cons_cons]

theorem isUnbroken_concat (ls : List Lexeme) (l : Lexeme) :
    isUnbroken (ls ++ [l]) = (isUnbroken ls && continues ls l) := by
  induction ls with
  | nil => simp [isUnbroken, continues, endsLine]
  | cons m ls ih =>
    cases ls with
    | nil =>
      simp only [List.nil_append, List.cons_append, isUnbroken, continues, endsLine]
      cases m.token.isTrivia <;> simp [Bool.and_comm]
    | cons n ls =>
      rw [List.cons_append, List.cons_append] at *
      rw [isUnbroken, isUnbroken, ih]
      unfold continues
      rw [endsLine_cons]
      simp only [Bool.and_assoc]

variable {keep : List Lexeme → Lexeme → Bool}

/-- The comments that reach the end of one lexeme more. -/
theorem docOf_concat (passed ls : List Lexeme) (l : Lexeme) :
    docOf keep passed (ls ++ [l]) = (if continues ls l then docOf keep passed ls else []) ++
      if keep (passed ++ ls) l then l.comment?.toList else [] := by
  induction ls generalizing passed with
  | nil => simp [docOf, isUnbroken]
  | cons m ls ih =>
    have rest := ih (passed ++ [m])
    rw [List.append_assoc] at rest
    rw [List.cons_append, docOf, docOf, rest, isUnbroken_concat]
    cases ls with
    | nil =>
      -- Only a comment counts here, and it does not end its line.
      have first : continues [m] l = continues [] l ∨ m.comment? = none := by
        cases newline : m.token == .newline with
        | true => exact .inr (comment?_of_not_isComment (by rw [beq_iff_eq.1 newline]; rfl))
        | false => simp [continues, endsLine, newline]
      rcases first with same | none
      · rw [same]
        cases continues [] l <;> simp [docOf, isUnbroken]
      · rw [none]
        simp [docOf]
    | cons n ls =>
      have same : continues (m :: n :: ls) l = continues (n :: ls) l := by
        unfold continues
        rw [endsLine_cons]
      rw [same]
      cases continues (n :: ls) l <;> simp

/-- The line whose comments belong to an earlier token, behind some lexemes: none once a newline is
among them. -/
def sharedAt (shared : Option Nat) (taken : List Lexeme) : Option Nat :=
  if taken.any (·.token == .newline) then none else shared

/-- What is kept of the comments behind a place: those that are not on the shared line. -/
def keepFrom (passed : List Lexeme) (shared : Option Nat) (before : List Lexeme) (l : Lexeme) :
    Bool :=
  decide (passed.length ≤ before.length) &&
    sharedAt shared (before.drop passed.length) != some l.position.line

/-- What a group holds behind some lexemes. -/
structure CommentGroup.Holds (passed : List Lexeme) (shared : Option Nat) (taken : List Lexeme)
    (g : CommentGroup) : Prop where
  comments : g.comments.reverse = docOf (keepFrom passed shared) passed taken
  newlines : decide (0 < g.newlines) = endsLine taken
  sharedLine : g.sharedLine = sharedAt shared taken

theorem endsLine_concat (ls : List Lexeme) (l : Lexeme) :
    endsLine (ls ++ [l]) = (l.token == .newline) := by
  unfold endsLine
  rw [List.getLast?_concat]
  rfl

theorem sharedAt_concat {shared : Option Nat} {taken : List Lexeme} {l : Lexeme}
    (h : l.token ≠ .newline) : sharedAt shared (taken ++ [l]) = sharedAt shared taken := by
  unfold sharedAt
  simp [h]

theorem keepFrom_append (passed : List Lexeme) (shared : Option Nat) (taken : List Lexeme)
    (l : Lexeme) : keepFrom passed shared (passed ++ taken) l =
      (sharedAt shared taken != some l.position.line) := by
  simp [keepFrom]

theorem CommentGroup.Holds.comment {passed taken : List Lexeme} {shared : Option Nat}
    {g : CommentGroup} (h : g.Holds passed shared taken) {l : Lexeme} {text : String}
    (read : l.comment? = some ⟨text, l.position⟩) (token : l.token.isComment = true) :
    (g.comment text l.position).Holds passed shared (taken ++ [l]) := by
  have other : l.token ≠ .newline := by
    intro newline
    rw [newline] at token
    cases token
  have trivia : l.token.isTrivia = true := by
    rw [Token.isTrivia, token, Bool.or_true]
  refine ⟨?_, ?_, h.sharedLine.trans (sharedAt_concat other).symm⟩
  · rw [docOf_concat, keepFrom_append, ← h.sharedLine, ← h.comments, read]
    have goesOn : continues taken l = true := by
      rw [continues, trivia, beq_eq_false_iff_ne.2 other, Bool.and_false]
      rfl
    rw [goesOn]
    unfold CommentGroup.comment
    by_cases shares : g.sharedLine = some l.position.line <;> simp [shares]
  · rw [endsLine_concat, beq_eq_false_iff_ne.2 other]
    rfl

theorem CommentGroup.Holds.take {passed taken : List Lexeme} {shared : Option Nat}
    {g next : CommentGroup} (h : g.Holds passed shared taken) {l : Lexeme}
    (more : g.take? l = some next) : next.Holds passed shared (taken ++ [l]) := by
  unfold CommentGroup.take? at more
  split at more
  · next newline =>
    cases more
    have unread : l.comment? = none := comment?_of_not_isComment (by rw [newline]; rfl)
    refine ⟨?_, ?_, ?_⟩
    · -- A second newline parts the comments from what follows.
      have parts : continues taken l = !decide (0 < g.newlines) := by
        rw [continues, h.newlines, newline, beq_self_eq_true, Bool.and_true]
        rfl
      rw [docOf_concat, unread, parts, ← h.comments]
      unfold CommentGroup.newline
      cases g.newlines <;> simp
    · rw [endsLine_concat, newline]
      simp [CommentGroup.newline]
    · simp [CommentGroup.newline, sharedAt, newline]
  · next semicolon =>
    cases more
    have unread : l.comment? = none := comment?_of_not_isComment (by rw [semicolon]; rfl)
    have parts : continues taken l = false := by rw [continues, semicolon]; rfl
    have other : l.token ≠ .newline := by rw [semicolon]; exact nofun
    refine ⟨?_, ?_, h.sharedLine.trans (sharedAt_concat other).symm⟩
    · rw [docOf_concat, unread, parts]
      simp [CommentGroup.semicolon]
    · rw [endsLine_concat, beq_eq_false_iff_ne.2 other]
      rfl
  · next text comment =>
    cases more
    exact h.comment (by rw [Lexeme.comment?, comment]) (by rw [comment]; rfl)
  · next text comment =>
    cases more
    exact h.comment (by rw [Lexeme.comment?, comment]) (by rw [comment]; rfl)
  · cases more

theorem CommentGroup.Holds.collect {passed taken : List Lexeme} {shared : Option Nat}
    {g : CommentGroup} (h : g.Holds passed shared taken)
    (above : ∀ l ∈ taken, isAbove l.token = true) (ls : List Lexeme) :
    ∃ more, ls = more ++ (g.collect (passed ++ taken).getLast? ls).2.rest ∧
      (g.collect (passed ++ taken).getLast? ls).2.previous = (passed ++ (taken ++ more)).getLast? ∧
      (∀ l ∈ taken ++ more, isAbove l.token = true) ∧
      (g.collect (passed ++ taken).getLast? ls).1.Holds passed shared (taken ++ more) := by
  have nothing : taken = taken ++ [] := (List.append_nil taken).symm
  induction ls generalizing g taken with
  | nil =>
    exact ⟨[], rfl, congrArg (fun ls => (passed ++ ls).getLast?) nothing, nothing ▸ above,
      nothing ▸ h⟩
  | cons l ls ih =>
    unfold CommentGroup.collect
    cases htake : g.take? l with
    | none =>
      exact ⟨[], rfl, congrArg (fun ls => (passed ++ ls).getLast?) nothing, nothing ▸ above,
        nothing ▸ h⟩
    | some next =>
      have all : ∀ m ∈ taken ++ [l], isAbove m.token = true := by
        intro m hm
        rcases List.mem_append.1 hm with hm | hm
        · exact above m hm
        · rw [List.mem_singleton.1 hm]
          exact (g.take?_above l).1 ⟨next, htake⟩
      obtain ⟨more, split, last, aboves, holds⟩ :=
        ih (h.take htake) all (List.append_nil _).symm
      rw [← List.append_assoc, List.getLast?_concat] at split last holds
      simp only [List.append_assoc] at last aboves holds
      exact ⟨l :: more, congrArg (l :: ·) split, last, aboves, holds⟩

/-! ### Lines -/

/-- Only a line feed is read as a newline. -/
theorem scan_newline {c : Char} {cs : List Char} {scanned : Scanned}
    (h : scan c cs = .ok scanned) (newline : scanned.token = .newline) :
    scanned.text = ['\n'] :=
  (scan_scans h).mark_text (newline ▸ rfl)

theorem Lexed.newlines {spot : Spot} {cs : List Char} {lexemes : List Lexeme}
    (h : Lexed spot cs lexemes) : ∀ l ∈ lexemes, l.token = .newline → l.text = ['\n'] := by
  induction h with
  | done _ => exact fun l hl => nomatch hl
  | next _ _ hscan _ ih =>
    intro l hl
    rcases List.mem_cons.1 hl with rfl | hl
    · exact scan_newline hscan
    · exact ih l hl

/-- The lexemes stand in reading order, and a newline ends its line. -/
structure Laid (lexemes : List Lexeme) : Prop where
  ordered : Ordered Position.first lexemes
  newlines : ∀ l ∈ lexemes, l.token = .newline → l.text = ['\n']

theorem lex_laid {source : List Char} {lexemes : List Lexeme} (h : lex source = .ok lexemes) :
    Laid lexemes :=
  ⟨(lex_lexed h).ordered, (lex_lexed h).newlines⟩

theorem line_le_of_le {p q : Position} (h : p.le q = true) : p.line ≤ q.line := by
  rw [Position.le_iff] at h
  omega

theorem line_le_lastLine (l : Lexeme) : l.position.line ≤ l.lastLine :=
  line_le_of_le (Position.le_advance _ _)

theorem Ordered.line_le {p : Position} {passed ahead : List Lexeme} {l : Lexeme}
    (h : Ordered p (passed ++ l :: ahead)) :
    p.line ≤ l.position.line ∧ ∀ m ∈ passed, m.lastLine ≤ l.position.line := by
  induction passed generalizing p with
  | nil => exact ⟨line_le_of_le h.1, fun m hm => nomatch hm⟩
  | cons first passed ih =>
    obtain ⟨behind, earlier⟩ := ih h.2
    have start := line_le_of_le h.1
    have stop := line_le_lastLine first
    refine ⟨Nat.le_trans start (Nat.le_trans stop behind), fun m hm => ?_⟩
    rcases List.mem_cons.1 hm with rfl | hm
    · exact behind
    · exact earlier m hm

theorem Laid.lastLine_le {passed ahead : List Lexeme} {l m : Lexeme}
    (laid : Laid (passed ++ l :: ahead)) (hm : m ∈ passed) : m.lastLine ≤ l.position.line :=
  laid.ordered.line_le.2 m hm

/-- A comment that begins its line does not share it. -/
theorem Laid.sharesLine_of_beginsLine {passed ahead : List Lexeme} {l : Lexeme}
    (laid : Laid (passed ++ l :: ahead)) (begins : BeginsLine passed) :
    sharesLine passed l = false := by
  obtain ⟨above, comments, rfl, areComments, last⟩ := begins
  rw [sharesLine, List.any_append, Bool.or_eq_false_iff, List.any_eq_false, List.any_eq_false]
  constructor
  · intro m hm
    rcases List.eq_nil_or_concat above with rfl | ⟨before, newline, rfl⟩
    · cases hm
    · rw [List.concat_eq_append] at hm last laid
      have ends : newline.token = .newline := last newline List.getLast?_concat
      have split : before ++ [newline] ++ comments ++ l :: ahead =
          before ++ newline :: (comments ++ l :: ahead) := by simp
      rcases List.mem_append.1 hm with hm | hm
      · -- The newline is between the two.
        have earlier := (split ▸ laid).lastLine_le hm
        have later : newline.lastLine ≤ l.position.line := laid.lastLine_le (by simp)
        rw [Lexeme.lastLine, laid.newlines newline (by simp) ends] at later
        have next : (newline.position.advance ['\n']).line = newline.position.line + 1 := rfl
        have apart : m.lastLine ≠ l.position.line := by omega
        rw [beq_eq_false_iff_ne.2 apart, Bool.and_false]
        exact Bool.false_ne_true
      · rw [List.mem_singleton.1 hm, ends]
        exact Bool.false_ne_true
  · intro m hm
    rw [Token.isTrivia, areComments m hm, Bool.or_true]
    exact Bool.false_ne_true

/-- A comment directly behind a token that starts on its line shares it. -/
theorem Laid.sharesLine_of_standsBehind {passed ahead : List Lexeme} {l : Lexeme}
    (laid : Laid (passed ++ l :: ahead)) (behind : StandsBehind passed l) :
    sharesLine passed l = true := by
  obtain ⟨above, m, semicolons, rfl, plain, -, -, line⟩ := behind
  have hm : m ∈ above ++ m :: semicolons := List.mem_append_right _ List.mem_cons_self
  refine List.any_eq_true.2 ⟨m, hm, ?_⟩
  rw [plain, Bool.not_false, Bool.true_and, beq_iff_eq]
  exact Nat.le_antisymm (laid.lastLine_le hm) (line ▸ line_le_lastLine m)

/-! ### Where comments are collected -/

/-- Behind the last token that is neither a comment nor a newline there are only comments, but for
the last lexeme. -/
def EndsItem (passed : List Lexeme) : Prop :=
  passed = [] ∨ ∃ above l behind, passed = above ++ l :: behind ∧ l.token.isTrivia = false ∧
    ∀ c ∈ behind.dropLast, c.token.isComment = true

theorem endsItem_last {above : List Lexeme} {l : Lexeme} (plain : l.token.isTrivia = false) :
    EndsItem (above ++ [l]) :=
  .inr ⟨above, l, [], rfl, plain, fun _ hc => nomatch hc⟩

theorem isTrivia_of_isComment {token : Token} (h : token.isComment = true) :
    token.isTrivia = true := by
  rw [Token.isTrivia, h, Bool.or_true]

/-- A lexeme of two runs is in one of them. -/
theorem split_either {front back above behind : List Lexeme} {l : Lexeme}
    (split : front ++ back = above ++ l :: behind) :
    (∃ more, front = above ++ l :: more ∧ behind = more ++ back) ∨
      ∃ more, above = front ++ more ∧ back = more ++ l :: behind := by
  rcases List.append_eq_append_iff.1 split with ⟨more, rfl, rest⟩ | ⟨more, rfl, rest⟩
  · exact .inr ⟨more, rfl, rest⟩
  · cases more with
    | nil => exact .inr ⟨[], by simp, rest.symm⟩
    | cons first more =>
      cases rest
      exact .inl ⟨more, rfl, rfl⟩

theorem split_front {front back above behind : List Lexeme} {l : Lexeme}
    (split : front ++ back = above ++ l :: behind) (outside : l ∉ back) :
    ∃ more, front = above ++ l :: more ∧ behind = more ++ back := by
  rcases split_either split with found | ⟨more, -, rfl⟩
  · exact found
  · exact absurd (List.mem_append_right _ List.mem_cons_self) outside

/-- Between a token and a lexeme that begins its line there is a newline. -/
theorem BeginsLine.newline {above behind : List Lexeme} {l : Lexeme}
    (begins : BeginsLine (above ++ l :: behind)) (plain : l.token.isTrivia = false) :
    ∃ n ∈ behind, n.token = .newline := by
  obtain ⟨lines, comments, split, areComments, last⟩ := begins
  have outside : l ∉ comments := by
    intro hl
    rw [isTrivia_of_isComment (areComments l hl)] at plain
    cases plain
  obtain ⟨more, rfl, rfl⟩ := split_front split.symm outside
  rcases List.eq_nil_or_concat more with rfl | ⟨inner, n, rfl⟩
  · have ends := last l List.getLast?_concat
    rw [ends] at plain
    cases plain
  · rw [List.concat_eq_append] at last ⊢
    rw [← List.cons_append, ← List.append_assoc] at last
    exact ⟨n, by simp, last n List.getLast?_concat⟩

theorem isUnbroken_trivia {ls : List Lexeme} (h : isUnbroken ls = true) :
    ∀ l ∈ ls, l.token.isTrivia = true := by
  induction ls with
  | nil => exact fun l hl => nomatch hl
  | cons l ls ih =>
    cases ls with
    | nil => exact fun m hm => List.mem_singleton.1 hm ▸ h
    | cons m ls =>
      rw [isUnbroken, Bool.and_eq_true, Bool.and_eq_true] at h
      exact List.forall_mem_cons.2 ⟨h.1.1, ih h.2⟩

/-- A comment that was passed before comments are collected does not begin its line. -/
theorem EndsItem.not_beginsLine {before ahead : List Lexeme} {l : Lexeme}
    (ends : EndsItem (before ++ l :: ahead)) (comment : l.token.isComment = true)
    (unbroken : ∀ c ∈ ahead, c.token.isTrivia = true) : ¬ BeginsLine before := by
  intro begins
  rcases ends with nothing | ⟨above, m, behind, split, plain, areComments⟩
  · simp at nothing
  have trivia : ∀ c ∈ l :: ahead, c.token.isTrivia = true :=
    List.forall_mem_cons.2 ⟨isTrivia_of_isComment comment, unbroken⟩
  have outside : m ∉ l :: ahead := by
    intro hm
    rw [trivia m hm] at plain
    cases plain
  obtain ⟨more, rfl, rfl⟩ := split_front split outside
  obtain ⟨n, hn, newline⟩ := begins.newline plain
  have inner : n ∈ (more ++ l :: ahead).dropLast := by
    rw [List.dropLast_append_of_ne_nil (List.cons_ne_nil _ _)]
    exact List.mem_append_left _ hn
  have comment := areComments n inner
  rw [newline] at comment
  cases comment

/-- The line of the last lexeme, if its comments belong to it. -/
def sharedBy (passed : List Lexeme) : Option Nat := (Place.mk passed.getLast? []).previousLine?

theorem sharedBy_concat (above : List Lexeme) (l : Lexeme) :
    sharedBy (above ++ [l]) = if l.token.isTrivia then none else some l.position.line := by
  unfold sharedBy Place.previousLine?
  rw [List.getLast?_concat]

/-- No line is shared with a comment that begins its line. -/
theorem sharedAt_of_beginsLine {passed taken : List Lexeme}
    (begins : BeginsLine (passed ++ taken)) : sharedAt (sharedBy passed) taken = none := by
  unfold sharedAt
  rcases List.eq_nil_or_concat passed with rfl | ⟨above, l, rfl⟩
  · exact ite_self none
  · rw [List.concat_eq_append] at begins ⊢
    rw [sharedBy_concat]
    cases plain : l.token.isTrivia with
    | true => exact ite_self none
    | false =>
      rw [List.append_assoc] at begins
      obtain ⟨n, hn, newline⟩ := begins.newline plain
      exact if_pos (List.any_eq_true.2 ⟨n, hn, by rw [newline]; rfl⟩)

/-- The line is shared with a comment that stands behind a token of it. -/
theorem Laid.sharedAt_of_standsBehind {passed taken ahead : List Lexeme} {l : Lexeme}
    (laid : Laid (passed ++ taken ++ l :: ahead)) (above : ∀ m ∈ taken, isAbove m.token = true)
    (behind : StandsBehind (passed ++ taken) l) :
    sharedAt (sharedBy passed) taken = some l.position.line := by
  obtain ⟨front, m, semicolons, split, plain, other, areSemicolons, line⟩ := behind
  have outside : m ∉ taken := by
    intro hm
    have collected := above m hm
    rw [isAbove, plain, beq_eq_false_iff_ne.2 other] at collected
    cases collected
  obtain ⟨between, rfl, rfl⟩ := split_front split outside
  have noNewline : taken.any (·.token == .newline) = false := by
    refine List.any_eq_false.2 fun s hs => ?_
    rw [areSemicolons s (List.mem_append_right _ hs)]
    exact Bool.false_ne_true
  rw [sharedAt, noNewline]
  -- The last lexeme before the comments is the token or one of the semicolons behind it.
  rcases List.eq_nil_or_concat between with rfl | ⟨inner, s, rfl⟩
  · exact (sharedBy_concat front m).trans (by rw [plain, ← line]; rfl)
  · rw [List.concat_eq_append] at laid areSemicolons ⊢
    have semicolon : s.token = .semicolon := areSemicolons s (by simp)
    have later : s.lastLine ≤ l.position.line := laid.lastLine_le (by simp)
    have split : front ++ m :: (inner ++ [s]) ++ taken ++ l :: ahead =
        (front ++ m :: inner) ++ s :: (taken ++ l :: ahead) := by simp
    have earlier : m.lastLine ≤ s.position.line := (split ▸ laid).lastLine_le (by simp)
    have same : s.position.line = l.position.line := by
      have := line_le_lastLine m
      have := line_le_lastLine s
      omega
    rw [← List.cons_append, ← List.append_assoc, sharedBy_concat, semicolon, same]
    rfl

theorem keepFrom_short {passed before : List Lexeme} {shared : Option Nat} {l : Lexeme}
    (short : before.length < passed.length) : keepFrom passed shared before l = false := by
  rw [keepFrom, decide_eq_false (Nat.not_le.2 short), Bool.false_and]

/-- What is collected behind the end of an item is rightly owned by what follows. -/
theorem EndsItem.ownsDoc {passed taken ahead : List Lexeme} (ends : EndsItem passed)
    (laid : Laid (passed ++ taken ++ ahead)) (above : ∀ m ∈ taken, isAbove m.token = true) :
    OwnsDoc (passed ++ taken) (docOf (keepFrom passed (sharedBy passed)) passed taken) := by
  have passedNone : docOf (keepFrom passed (sharedBy passed)) [] (passed ++ taken) =
      docOf (keepFrom passed (sharedBy passed)) ([] ++ passed) taken := by
    refine docOf_append (fun more l rest split => keepFrom_short ?_) taken
    rw [split]
    simp
  refine ⟨keepFrom passed (sharedBy passed), passedNone.symm, ?_⟩
  intro before l rest split comment unbroken plain
  rw [split, List.append_assoc, List.cons_append] at laid
  rcases split_either split with ⟨more, rfl, rfl⟩ | ⟨more, rfl, rfl⟩
  · rw [keepFrom_short (by simp)]
    rcases plain with begins | stands
    · have trivia : ∀ c ∈ more, c.token.isTrivia = true :=
        fun c hc => isUnbroken_trivia unbroken c (List.mem_append_left _ hc)
      exact absurd begins (ends.not_beginsLine comment trivia)
    · rw [laid.sharesLine_of_standsBehind stands]
      rfl
  · rw [keepFrom_append]
    rcases plain with begins | stands
    · rw [sharedAt_of_beginsLine begins, laid.sharesLine_of_beginsLine begins]
      rfl
    · have collected : ∀ m ∈ more, isAbove m.token = true :=
        fun m hm => above m (List.mem_append_left _ hm)
      rw [laid.sharedAt_of_standsBehind collected stands, laid.sharesLine_of_standsBehind stands,
        bne_self_eq_false]
      rfl

end Go
end FieldRules
