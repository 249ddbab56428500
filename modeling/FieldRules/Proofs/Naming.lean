/-
When the names that are made for two records meet.

The file of a record is named for its words in small letters.  Words are cut at
underscores and before capitals, and both the cuts and the capitals are lost:
`User` and `user` share a file, as do `UserID` and `User_Id`.  The patterns are
named for the record with a small first letter, which loses less.  Nothing is
lost beyond that, so it is known exactly which records of a source meet
(`compile_names`).
-/
import FieldRules.CompiledUnit
import FieldRules.Proofs.Delegates
import FieldRules.Proofs.Ownership
import FieldRules.Proofs.Places

namespace FieldRules

open Text

/-! ### Small letters -/

namespace Text

/-- One character alone has a lower case of two. -/
theorem lowerOf_dotted {c : Char} (h : c.toNat = 0x130) : lowerOf c = ['i', Char.ofNat 0x307] := by
  unfold lowerOf mapCase
  rw [h]
  rfl

theorem lowerOf_single {c : Char} (h : c.toNat ≠ 0x130) : ∃ d, lowerOf c = [d] := by
  have unlisted : toLowerMany.find? (·.1 == c.toNat) = none := by
    simp [toLowerMany, Ne.symm h]
  unfold lowerOf mapCase
  rw [unlisted]
  simp only
  split
  · exact ⟨_, rfl⟩
  · exact ⟨_, rfl⟩

theorem ofNat_ne_underscore {n : Nat} (h : n ≠ 0x5F) : Char.ofNat n ≠ '_' := by
  intro same
  unfold Char.ofNat at same
  by_cases valid : n.isValidChar
  · rw [dif_pos valid] at same
    exact h (congrArg Char.toNat same)
  · rw [dif_neg valid] at same
    revert same
    decide

/-- Tables of which no entry leads to an underscore make one of nothing else. -/
theorem underscore_not_mapped {runs : List CaseRun} {many : List (Nat × List Nat)}
    (apart : ∀ entry ∈ runs, entry.run.last + entry.distance < 0x5F ∨
      0x5F < entry.run.first + entry.distance)
    (longer : ∀ entry ∈ many, '_' ∉ entry.2.map Char.ofNat) {c : Char} (ne : c ≠ '_') :
    '_' ∉ mapCase runs many c := by
  intro found
  unfold mapCase at found
  split at found
  · next entry hentry => exact longer entry (List.mem_of_find?_eq_some hentry) found
  · split at found
    · next entry hentry =>
      have inside := List.find?_some hentry
      have beside := apart entry (List.mem_of_find?_eq_some hentry)
      simp only [Run.contains, Bool.and_eq_true, decide_eq_true_eq] at inside
      exact ofNat_ne_underscore (by omega) (List.mem_singleton.1 found).symm
    · exact ne (List.mem_singleton.1 found).symm

theorem ne_underscore_of_upper {c : Char} (upper : isUpper c = true) : c ≠ '_' := by
  rintro rfl
  cases upper

/-- No capital becomes an underscore. -/
theorem underscore_not_lower {c : Char} (upper : isUpper c = true) : '_' ∉ lowerOf c :=
  underscore_not_mapped (by decide +kernel) (by decide) (ne_underscore_of_upper upper)

/-- Only the underscore has one in its upper case. -/
theorem underscore_not_upper {c : Char} (ne : c ≠ '_') : '_' ∉ upperOf c :=
  underscore_not_mapped (by decide +kernel) (by decide +kernel) ne

end Text

namespace Emission

/-! ### Names of files -/

/-- The name with an underscore before each capital that starts a word. -/
def underscored : Option Char → List Char → List Char
  | _, [] => []
  | previous, c :: cs =>
    if isUpper c && startsWord previous cs.head? then '_' :: c :: underscored (some c) cs
    else c :: underscored (some c) cs

/-- The words of a name: it is cut at underscores and before capitals that start a word. -/
def nameWords (name : String) : List (List Char) :=
  splitAt (· == '_') (underscored none name.toList)

/-- A word in small letters. -/
def small (word : List Char) : List Char :=
  word.flatMap fun c => if isUpper c then lowerOf c else [c]

/-- The names are made of the same words, but for capitals. -/
def SameWords (a b : String) : Prop := (nameWords a).map small = (nameWords b).map small

instance (a b : String) : Decidable (SameWords a b) :=
  inferInstanceAs (Decidable ((nameWords a).map small = (nameWords b).map small))

theorem small_cons (c : Char) (cs : List Char) :
    small (c :: cs) = (if isUpper c then lowerOf c else [c]) ++ small cs := rfl

theorem small_underscore (cs : List Char) : small ('_' :: cs) = '_' :: small cs := rfl

theorem small_append (as bs : List Char) : small (as ++ bs) = small as ++ small bs :=
  List.flatMap_append

theorem small_joinWith (pieces : List (List Char)) :
    small (joinWith '_' pieces) = joinWith '_' (pieces.map small) := by
  match pieces with
  | [] => rfl
  | [_] => rfl
  | piece :: next :: pieces =>
    show small (piece ++ '_' :: joinWith '_' (next :: pieces)) = _
    rw [small_append, small_underscore, small_joinWith (next :: pieces)]
    rfl

theorem underscore_not_small {word : List Char} (h : '_' ∉ word) : '_' ∉ small word := by
  intro found
  obtain ⟨c, hc, found⟩ := List.mem_flatMap.1 found
  by_cases upper : isUpper c = true
  · rw [if_pos upper] at found
    exact underscore_not_lower upper found
  · rw [if_neg upper, List.mem_singleton] at found
    exact h (found ▸ hc)

theorem snakeFrom_eq (previous : Option Char) (cs : List Char) :
    snakeFrom previous cs = small (underscored previous cs) := by
  induction cs generalizing previous with
  | nil => rfl
  | cons c cs ih =>
    unfold snakeFrom underscored
    rw [ih]
    by_cases upper : isUpper c = true
    · by_cases starts : startsWord previous cs.head? = true
      · simp [upper, starts, small_underscore, small_cons c]
      · simp [upper, starts, small_cons]
    · simp [upper, small_cons]

/-- The words in small letters, with underscores between them. -/
theorem snakeCase_toList (name : String) :
    (snakeCase name).toList = joinWith '_' ((nameWords name).map small) := by
  unfold snakeCase nameWords
  rw [String.toList_ofList, snakeFrom_eq, ← small_joinWith, joinWith_splitAt]

/-- The words can be read off again. -/
theorem splitAt_snakeCase (name : String) :
    splitAt (· == '_') (snakeCase name).toList = (nameWords name).map small := by
  rw [snakeCase_toList]
  apply splitAt_joinWith
  · simp [nameWords, splitAt_ne_nil]
  · intro piece hpiece
    obtain ⟨word, hword, rfl⟩ := List.mem_map.1 hpiece
    exact underscore_not_small (not_mem_of_mem_splitAt hword)

theorem fileName_eq_iff (options : Options) (a b : String) :
    options.fileName a = options.fileName b ↔ SameWords a b := by
  constructor
  · intro same
    have same := congrArg String.toList same
    simp only [Options.fileName, String.toList_append] at same
    have same := List.append_cancel_right same
    unfold SameWords
    rw [← splitAt_snakeCase, ← splitAt_snakeCase, same]
  · intro same
    have same : snakeCase a = snakeCase b := by
      apply String.toList_injective
      rw [snakeCase_toList, snakeCase_toList, show _ = _ from same]
    unfold Options.fileName
    rw [same]

/-! ### Names of patterns -/

/-- The names are equal, but that the first letter may be a capital in one and small in the
other. -/
def SameButFirst (a b : String) : Prop :=
  ∃ c d cs, a.toList = c :: cs ∧ b.toList = d :: cs ∧ lowerOf c = lowerOf d

theorem lowerFirst_toList {name : String} {c : Char} {cs : List Char}
    (h : name.toList = c :: cs) : (lowerFirst name).toList = lowerOf c ++ cs := by
  unfold lowerFirst
  rw [h]
  exact String.toList_ofList

/-- The second character of the one lower case that has two does not occur in names. -/
theorem lowerOf_append_inj {c d : Char} {cs ds : List Char}
    (hcs : ∀ e ∈ cs, Go.continuesName e = true) (hds : ∀ e ∈ ds, Go.continuesName e = true) :
    lowerOf c ++ cs = lowerOf d ++ ds ↔ lowerOf c = lowerOf d ∧ cs = ds := by
  have apart {c d : Char} {cs ds : List Char} (hds : ∀ e ∈ ds, Go.continuesName e = true)
      (hc : c.toNat = 0x130) (hd : d.toNat ≠ 0x130) : lowerOf c ++ cs ≠ lowerOf d ++ ds := by
    intro same
    obtain ⟨e, he⟩ := lowerOf_single hd
    rw [lowerOf_dotted hc, he] at same
    have accent : Char.ofNat 0x307 ∈ ds := by
      rw [← show _ :: cs = ds from (List.cons.inj same).2]
      exact List.mem_cons_self
    have plain := hds _ accent
    revert plain
    decide +kernel
  constructor
  · intro same
    by_cases hc : c.toNat = 0x130
    · by_cases hd : d.toNat = 0x130
      · rw [lowerOf_dotted hc, lowerOf_dotted hd] at same ⊢
        exact ⟨rfl, List.append_cancel_left same⟩
      · exact absurd same (apart hds hc hd)
    · by_cases hd : d.toNat = 0x130
      · exact absurd same.symm (apart hcs hd hc)
      · obtain ⟨c', hc'⟩ := lowerOf_single hc
        obtain ⟨d', hd'⟩ := lowerOf_single hd
        rw [hc', hd'] at same ⊢
        obtain ⟨rfl, rfl⟩ := List.cons.inj same
        exact ⟨rfl, rfl⟩
  · rintro ⟨first, rfl⟩
    rw [first]

theorem exists_of_isName {cs : List Char} (h : Go.isName cs = true) :
    ∃ first rest, cs = first :: rest ∧ ∀ e ∈ rest, Go.continuesName e = true := by
  unfold Go.isName at h
  split at h
  · cases h
  · next first rest =>
    exact ⟨first, rest, rfl, List.all_eq_true.1 (Bool.and_eq_true_iff.1 h).2⟩

theorem lowerFirst_eq_iff {a b : String} (ha : Go.isName a.toList = true)
    (hb : Go.isName b.toList = true) : lowerFirst a = lowerFirst b ↔ SameButFirst a b := by
  obtain ⟨c, cs, hcs, ha⟩ := exists_of_isName ha
  obtain ⟨d, ds, hds, hb⟩ := exists_of_isName hb
  rw [← String.toList_inj, lowerFirst_toList hcs, lowerFirst_toList hds, lowerOf_append_inj ha hb]
  constructor
  · rintro ⟨first, rfl⟩
    exact ⟨c, d, cs, hcs, hds, first⟩
  · rintro ⟨c', d', rest, ha', hb', first⟩
    obtain ⟨rfl, rfl⟩ := List.cons.inj (hcs.symm.trans ha')
    obtain ⟨rfl, rfl⟩ := List.cons.inj (hds.symm.trans hb')
    exact ⟨first, rfl⟩

theorem patternName_toList (record : String) (rule : Rule) :
    (patternName record rule).toList =
      (lowerFirst record).toList ++ (if rule = .email then "Email" else "UUID").toList ++
        "Regexp".toList := by
  unfold patternName
  rw [String.toList_append, String.toList_append]

theorem patternName_inj {a b : String} {rule : Rule} :
    patternName a rule = patternName b rule ↔ lowerFirst a = lowerFirst b := by
  constructor
  · intro same
    have same := congrArg String.toList same
    rw [patternName_toList, patternName_toList] at same
    exact String.toList_injective (List.append_cancel_right (List.append_cancel_right same))
  · intro same
    unfold patternName
    rw [same]

/-- The format is told from the end of the name. -/
theorem patternName_apart (a b : String) : patternName a .email ≠ patternName b .uuid := by
  intro same
  have same := congrArg String.toList same
  rw [patternName_toList, patternName_toList] at same
  have same := congrArg List.getLast? (List.append_cancel_right same)
  simp at same

/-- A plan has a variable for each of the two patterns that it uses. -/
theorem mem_patterns {plan : Plan} {v : String × Go.Expr} :
    v ∈ patterns plan ↔ ∃ rule pattern, (rule = .email ∧ pattern = Format.emailPattern ∨
        rule = .uuid ∧ pattern = Format.uuidPattern) ∧ plan.uses rule = true ∧
      v = (patternName plan.record rule,
        .call (.qualified .regexp "MustCompile") [.literal (some (.text pattern))]) := by
  unfold patterns
  simp only [List.mem_append]
  constructor
  · rintro (h | h)
    · split at h
      · next uses => exact ⟨_, _, .inl ⟨rfl, rfl⟩, uses, List.mem_singleton.1 h⟩
      · cases h
    · split at h
      · next uses => exact ⟨_, _, .inr ⟨rfl, rfl⟩, uses, List.mem_singleton.1 h⟩
      · cases h
  · rintro ⟨rule, pattern, ⟨rfl, rfl⟩ | ⟨rfl, rfl⟩, uses, rfl⟩
    · simp [uses]
    · simp [uses]

/-- Two variables meet when they hold one pattern and their records' names differ in the first
letter's case at most. -/
theorem patterns_meet_iff {p q : Plan} (hp : Go.isName p.record.toList = true)
    (hq : Go.isName q.record.toList = true) {v w : String × Go.Expr} (hv : v ∈ patterns p)
    (hw : w ∈ patterns q) : v.1 = w.1 ↔ v.2 = w.2 ∧ SameButFirst p.record q.record := by
  have patterns_differ : Format.emailPattern ≠ Format.uuidPattern := by decide
  obtain ⟨rule, pattern, hrule, -, rfl⟩ := mem_patterns.1 hv
  obtain ⟨rule', pattern', hrule', -, rfl⟩ := mem_patterns.1 hw
  rw [← lowerFirst_eq_iff hp hq]
  rcases hrule with ⟨rfl, rfl⟩ | ⟨rfl, rfl⟩ <;> rcases hrule' with ⟨rfl, rfl⟩ | ⟨rfl, rfl⟩
  · simp [patternName_inj]
  · simp [patternName_apart, patterns_differ]
  · simp [(patternName_apart _ _).symm, patterns_differ.symm]
  · simp [patternName_inj]

end Emission

/-! ### Records of one source -/

/-- What is declared has a name. -/
theorem Go.parse_isName {source : List Char} {file : SourceFile}
    (parsed : SourceFile.parse source = .ok file) :
    ∀ decl ∈ file.decls, isName decl.name.toList = true := by
  intro decl hdecl
  obtain ⟨lexemes, hlex, owned⟩ := parse_owns parsed
  obtain ⟨before, keyword, l, ahead, split, -, token, -, -⟩ := (owned decl hdecl).1
  have spells := ((lex_lexed hlex).sound l (by simp [split])).1
  rw [token] at spells
  obtain ⟨text, isName⟩ := spells
  rwa [← text]

namespace CompiledUnit

variable {options : Emission.Options} {sourceName source : String} {unit : CompiledUnit}

theorem compile_isName (compiled : compile options sourceName source = .ok unit) :
    ∀ plan ∈ unit.plans, Go.isName plan.record.toList = true := by
  intro plan hplan
  obtain ⟨file, parsed, rfl⟩ := compile_eq_ok.1 compiled
  obtain ⟨decl, hdecl, named⟩ := List.mem_map.1 (Plan.ofFile_record hplan)
  rw [← named]
  exact Go.parse_isName parsed decl (List.mem_filter.1 hdecl).1

/-- The files of two records of a source have one name exactly if the records' names are made of
the same words but for capitals.  The variables that hold the patterns of two records have one name
exactly if they hold the same pattern and the records' names are equal but for the case of the first
letter. -/
theorem compile_names (compiled : compile options sourceName source = .ok unit) :
    (∀ a ∈ unit.artifacts, ∀ b ∈ unit.artifacts,
      a.fileName = b.fileName ↔ Emission.SameWords a.record b.record) ∧
    ∀ p ∈ unit.plans, ∀ q ∈ unit.plans,
      ∀ v ∈ Emission.patterns p, ∀ w ∈ Emission.patterns q,
        v.1 = w.1 ↔ v.2 = w.2 ∧ Emission.SameButFirst p.record q.record := by
  have names := compile_isName compiled
  constructor
  · intro a ha b hb
    obtain ⟨file, parsed, rfl⟩ := compile_eq_ok.1 compiled
    obtain ⟨p, -, rfl⟩ := List.mem_map.1 ha
    obtain ⟨q, -, rfl⟩ := List.mem_map.1 hb
    exact Emission.fileName_eq_iff options p.record q.record
  · intro p hp q hq v hv w hw
    exact Emission.patterns_meet_iff (names p hp) (names q hq) hv hw

/-- A source with records whose names differ in capitals and in how their words are cut. -/
def namesakes : String :=
  "package p
  type User struct \x7b
    // +govalid:email
    A string
  \x7d
  type user struct \x7b
    // +govalid:email
    A string
  \x7d
  type UserID struct \x7b
    // +govalid:uuid
    A string
  \x7d
  type User_Id struct \x7b
    // +govalid:uuid
    A string
  \x7d
  "

theorem compile_names_namesakes :
    ∃ unit, compile .default "a.go" namesakes = .ok unit ∧
      (unit.artifacts.map (·.fileName) =
          ["user_validator.go", "user_validator.go",
            "user_id_validator.go", "user_id_validator.go"] ∧
        unit.plans.map (fun plan => (Emission.patterns plan).map (·.1)) =
          [["userEmailRegexp"], ["userEmailRegexp"], ["userIDUUIDRegexp"], ["user_IdUUIDRegexp"]]) ∧
      (∀ a ∈ unit.artifacts, ∀ b ∈ unit.artifacts,
        a.fileName = b.fileName ↔ Emission.SameWords a.record b.record) ∧
      ∀ p ∈ unit.plans, ∀ q ∈ unit.plans,
        ∀ v ∈ Emission.patterns p, ∀ w ∈ Emission.patterns q,
          v.1 = w.1 ↔ v.2 = w.2 ∧ Emission.SameButFirst p.record q.record := by
  obtain ⟨file, parsed, facts⟩ := Go.exists_parse (rfl : namesakes = _)
    (p := fun file =>
      let unit := ofFile .default "a.go" file
      decide (unit.artifacts.map (·.fileName) =
          ["user_validator.go", "user_validator.go",
            "user_id_validator.go", "user_id_validator.go"] ∧
        unit.plans.map (fun plan => (Emission.patterns plan).map (·.1)) =
          [["userEmailRegexp"], ["userEmailRegexp"], ["userIDUUIDRegexp"], ["user_IdUUIDRegexp"]]))
    (by decide +kernel)
  have compiled : compile .default "a.go" namesakes = .ok (ofFile .default "a.go" file) :=
    compile_of_parse parsed
  exact ⟨_, compiled, of_decide_eq_true facts, compile_names compiled⟩

/-- Two records of different names have one file, and one variable that both declare. -/
theorem compile_names_user :
    ∃ unit, compile .default "a.go" namesakes = .ok unit ∧
      ¬∀ p ∈ unit.plans, ∀ q ∈ unit.plans, p.record ≠ q.record →
        Emission.Options.default.fileName p.record ≠ Emission.Options.default.fileName q.record ∧
          ∀ v ∈ Emission.patterns p, ∀ w ∈ Emission.patterns q, v.1 ≠ w.1 := by
  obtain ⟨file, parsed, facts⟩ := Go.exists_parse (rfl : namesakes = _)
    (p := fun file => decide (∃ p ∈ (ofFile .default "a.go" file).plans,
      ∃ q ∈ (ofFile .default "a.go" file).plans, p.record ≠ q.record ∧
        Emission.Options.default.fileName p.record = Emission.Options.default.fileName q.record))
    (by decide +kernel)
  obtain ⟨p, hp, q, hq, differ, same⟩ := of_decide_eq_true facts
  exact ⟨_, compile_of_parse parsed, fun apart => (apart p hp q hq differ).1 same⟩

end CompiledUnit
end FieldRules
