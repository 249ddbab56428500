/-
Regular expressions, as patterns write them and as texts match them.

A pattern is put together from characters, classes of characters and groups, one behind
the other, each with how often it may stand there (`Regex.text`).  What it matches is a
language: a text is in it if it can be cut into pieces, one for each part, in any way at
all (`Regex.language`).
-/
import Mathlib.Computability.Language

namespace FieldRules

inductive Regex where
  /-- A character of some runs, each with both its ends. -/
  | oneOf (runs : List (Char × Char))
  /-- Parts one behind the other. -/
  | sequence (parts : List Regex)
  /-- A part as often as one likes, from `least` times up to `most`, if there is a bound. -/
  | repeated (least : Nat) (most : Option Nat) (part : Regex)

namespace Regex

def literal (c : Char) : Regex := oneOf [(c, c)]

/-! ### How a pattern is written -/

/-- Characters that mean something in a pattern, and stand for themselves behind a backslash. -/
def metaCharacters : List Char := "\\.+*?()|[]\x7b\x7d^$".toList

def runText (run : Char × Char) : List Char :=
  if run.1 = run.2 then [run.1] else [run.1, '-', run.2]

/-- A single character is written as it is, and any other class between brackets. -/
def classText (runs : List (Char × Char)) : List Char :=
  match runs with
  | [(first, last)] =>
    if first = last then if first ∈ metaCharacters then ['\\', first] else [first]
    else ['[', first, '-', last, ']']
  | _ => '[' :: (runs.flatMap runText ++ [']'])

def timesText (least : Nat) : Option Nat → List Char
  | none =>
    if least = 0 then ['*']
    else if least = 1 then ['+']
    else '\x7b' :: (Nat.toDigits 10 least ++ [',', '\x7d'])
  | some most =>
    if least = 0 ∧ most = 1 then ['?']
    else if least = most then '\x7b' :: (Nat.toDigits 10 least ++ ['\x7d'])
    else '\x7b' :: (Nat.toDigits 10 least ++ ',' :: (Nat.toDigits 10 most ++ ['\x7d']))

mutual

def text : Regex → List Char
  | oneOf runs => classText runs
  | sequence parts => textOf parts
  | repeated least most (oneOf runs) => classText runs ++ timesText least most
  | repeated least most part => "(?:".toList ++ (text part ++ ')' :: timesText least most)

def textOf : List Regex → List Char
  | [] => []
  | part :: parts => text part ++ textOf parts

end

/-- The pattern of a whole text, from its start to its end. -/
def anchored (r : Regex) : String := String.ofList ('^' :: (r.text ++ ['$']))

/-! ### What a pattern matches -/

/-- Some runs have a character among them. -/
def Has (runs : List (Char × Char)) (c : Char) : Prop := ∃ run ∈ runs, run.1 ≤ c ∧ c ≤ run.2

mutual

def language : Regex → Language Char
  | oneOf runs => {w | ∃ c, w = [c] ∧ Has runs c}
  | sequence parts => languageOf parts
  | repeated least most part =>
    {w | ∃ n, least ≤ n ∧ (∀ m ∈ most, n ≤ m) ∧ w ∈ language part ^ n}

def languageOf : List Regex → Language Char
  | [] => 1
  | part :: parts => language part * languageOf parts

end

variable {runs : List (Char × Char)} {least : Nat} {most : Option Nat} {part : Regex}
  {parts : List Regex} {w : List Char}

theorem mem_oneOf : w ∈ (oneOf runs).language ↔ ∃ c, w = [c] ∧ Has runs c := Iff.rfl

theorem has_append {others : List (Char × Char)} {c : Char} :
    Has (runs ++ others) c ↔ Has runs c ∨ Has others c := by
  simp only [Has, List.mem_append, or_and_right, exists_or]

theorem has_singles {cs : List Char} {d : Char} : Has (cs.map fun c => (c, c)) d ↔ d ∈ cs := by
  constructor
  · rintro ⟨run, hrun, low, high⟩
    obtain ⟨c, hc, rfl⟩ := List.mem_map.1 hrun
    exact Char.le_antisymm high low ▸ hc
  · intro h
    exact ⟨(d, d), List.mem_map_of_mem h, Char.le_refl d, Char.le_refl d⟩

theorem has_single {c d : Char} : Has [(c, c)] d ↔ d = c := by
  rw [← List.mem_singleton, ← has_singles, List.map_singleton]

theorem mem_literal {c : Char} : w ∈ (literal c).language ↔ w = [c] := by
  simp only [literal, mem_oneOf, has_single, exists_eq_right]

theorem mem_sequence : w ∈ (sequence parts).language ↔ w ∈ languageOf parts := Iff.rfl

theorem mem_languageOf_nil : w ∈ languageOf [] ↔ w = [] := Language.mem_one w

theorem mem_languageOf_cons :
    w ∈ languageOf (part :: parts) ↔
      ∃ front ∈ part.language, ∃ rest ∈ languageOf parts, front ++ rest = w := by
  rw [languageOf, Language.mem_mul]

theorem mem_languageOf_append {others : List Regex} :
    w ∈ languageOf (parts ++ others) ↔
      ∃ front ∈ languageOf parts, ∃ rest ∈ languageOf others, front ++ rest = w := by
  have whole : languageOf (parts ++ others) = languageOf parts * languageOf others := by
    induction parts with
    | nil => exact (one_mul _).symm
    | cons part parts ih => rw [List.cons_append, languageOf, ih, languageOf, mul_assoc]
  rw [whole, Language.mem_mul]

/-- A part that is repeated matches one piece after the other. -/
theorem mem_repeated :
    w ∈ (repeated least most part).language ↔
      ∃ pieces : List (List Char), w = pieces.flatten ∧ least ≤ pieces.length ∧
        (∀ m ∈ most, pieces.length ≤ m) ∧ ∀ piece ∈ pieces, piece ∈ part.language := by
  constructor
  · rintro ⟨n, low, high, h⟩
    obtain ⟨pieces, rfl, rfl, inside⟩ := Language.mem_pow.1 h
    exact ⟨pieces, rfl, low, high, inside⟩
  · rintro ⟨pieces, rfl, low, high, inside⟩
    exact ⟨pieces.length, low, high, Language.mem_pow.2 ⟨pieces, rfl, rfl, inside⟩⟩

theorem mem_optional :
    w ∈ (repeated 0 (some 1) part).language ↔ w = [] ∨ w ∈ part.language := by
  rw [mem_repeated]
  constructor
  · rintro ⟨pieces, rfl, -, high, inside⟩
    have short := high 1 rfl
    match pieces with
    | [] => exact .inl rfl
    | [piece] => exact .inr (by simpa using inside)
    | _ :: _ :: _ => simp at short
  · rintro (rfl | h)
    · exact ⟨[], rfl, Nat.zero_le _, fun m _ => Nat.zero_le m, by simp⟩
    · refine ⟨[w], by simp, Nat.zero_le _, ?_, by simpa using h⟩
      rintro _ ⟨⟩
      exact Nat.le_refl 1

/-- Characters out of some runs, as many as there may be. -/
theorem mem_repeated_oneOf :
    w ∈ (repeated least most (oneOf runs)).language ↔
      least ≤ w.length ∧ (∀ m ∈ most, w.length ≤ m) ∧ ∀ c ∈ w, Has runs c := by
  rw [mem_repeated]
  constructor
  · rintro ⟨pieces, rfl, low, high, inside⟩
    have single : pieces.flatten.length = pieces.length ∧ ∀ c ∈ pieces.flatten, Has runs c := by
      clear low high
      induction pieces with
      | nil => simp
      | cons piece pieces ih =>
        obtain ⟨⟨c, rfl, has⟩, more⟩ := List.forall_mem_cons.1 inside
        obtain ⟨long, all⟩ := ih more
        exact ⟨by simp [long], List.forall_mem_cons.2 ⟨has, all⟩⟩
    rw [single.1]
    exact ⟨low, high, single.2⟩
  · rintro ⟨low, high, all⟩
    refine ⟨w.map fun c => [c], (List.flatMap_singleton' w).symm, by simpa, by simpa, ?_⟩
    intro piece hpiece
    obtain ⟨c, hc, rfl⟩ := List.mem_map.1 hpiece
    exact ⟨c, rfl, all c hc⟩

end Regex
end FieldRules
