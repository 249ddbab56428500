/-
What a quoted text denotes.

An interpreted string denotes bytes.  Behind a backslash stands a quote, a backslash, the
letter of a control character, or an `x` with two digits of base sixteen for one byte,
which need not be a character by itself; every other character denotes its own bytes.  A quoted text is read back as the text that
it was made of, has no control character in it, and is one string for the lexer
(`quoted_denotes`).
-/
import FieldRules.Proofs.Balance
import FieldRules.Proofs.Reading

namespace FieldRules

open Go Word

namespace Text

namespace Quoted

/-! ### Reading a literal -/

/-- The bytes of what stands behind the opening quote.  It goes as far as the quote that closes the
literal, and nothing may stand behind that. -/
def bodyBytes? : List Char → Option (List UInt8)
  | [] => none
  | c :: cs =>
    if c = '"' then if cs.isEmpty then some [] else none
    else if c = '\n' then none
    else if c = '\\' then
      match cs with
      | [] => none
      | 'x' :: high :: low :: rest =>
        (hexValue? high).bind fun h => (hexValue? low).bind fun l =>
          (bodyBytes? rest).map (UInt8.ofNat (16 * h + l) :: ·)
      | letter :: rest =>
        (escape? letter).bind fun meant => (bodyBytes? rest).map (String.utf8EncodeChar meant ++ ·)
    else (bodyBytes? cs).map (String.utf8EncodeChar c ++ ·)

/-- The text that a literal denotes, if it is one and its bytes are those of a text. -/
def denoted? : List Char → Option String
  | '"' :: body => (bodyBytes? body).bind fun bytes => String.fromUTF8? bytes.toByteArray
  | _ => none

/-! ### Ways to write a character -/

/-- A character is written behind a backslash by a letter, or as its byte, or as it is. -/
inductive Writes (c : Char) : List Char → Prop where
  | letter {letter : Char} : escape? letter = some c → Writes c ['\\', letter]
  | byte : c.toNat < 0x80 →
      Writes c ['\\', 'x', hexDigit (c.toNat / 16), hexDigit (c.toNat % 16)]
  | plain : c ≠ '"' → c ≠ '\\' → 0x20 ≤ c.toNat → c.toNat ≠ 0x7F → Writes c [c]

theorem encodeChar_writes (c : Char) : Writes c (encodeChar c) := by
  unfold encodeChar
  split
  · next quote => subst quote; exact .letter rfl
  · next noQuote =>
    split
    · next backslash => subst backslash; exact .letter rfl
    · next noBackslash =>
      split
      · next newline => subst newline; exact .letter rfl
      · split
        · next ret => subst ret; exact .letter rfl
        · split
          · next tab => subst tab; exact .letter rfl
          · split
            · next control => exact .byte (by omega)
            · next visible => exact .plain noQuote noBackslash (by omega) (by omega)

/-! ### Reading back -/

variable {c : Char} {text : List Char}

theorem hexDigit_visible {n : Nat} (h : n < 16) :
    0x20 ≤ (hexDigit n).toNat ∧ (hexDigit n).toNat ≠ 0x7F := by
  have all : ∀ n < 16, 0x20 ≤ (hexDigit n).toNat ∧ (hexDigit n).toNat ≠ 0x7F := by decide
  exact all n h

theorem escape_visible {letter : Char} (h : escape? letter = some c) :
    0x20 ≤ letter.toNat ∧ letter.toNat ≠ 0x7F := by
  unfold escape? at h
  split at h <;> first | decide | cases h

/-- A character of ASCII is its own byte. -/
theorem utf8EncodeChar_ascii (h : c.toNat < 0x80) :
    String.utf8EncodeChar c = [UInt8.ofNat c.toNat] := by
  have small : c.val.toNat ≤ 127 := Nat.le_of_lt_succ h
  rw [String.utf8EncodeChar, if_pos small]
  rfl

/-- However a character is written, it is read as its bytes. -/
theorem Writes.bytes (h : Writes c text) (rest : List Char) :
    bodyBytes? (text ++ rest) = (bodyBytes? rest).map (String.utf8EncodeChar c ++ ·) := by
  cases h with
  | @letter letter escaped =>
    have noHex : letter ≠ 'x' := by
      rintro rfl
      cases escaped
    show bodyBytes? ('\\' :: letter :: rest) = _
    rw [bodyBytes?, if_neg (by decide), if_neg (by decide), if_pos rfl, escaped, Option.bind_some]
    exact fun _ _ _ found _ => noHex found
  | byte ascii =>
    have high := hexValue?_hexDigit (c.toNat / 16) (by omega)
    have low := hexValue?_hexDigit (c.toNat % 16) (by omega)
    rw [utf8EncodeChar_ascii ascii]
    show bodyBytes? ('\\' :: 'x' :: _ :: _ :: rest) = _
    rw [bodyBytes?, if_neg (by decide), if_neg (by decide), if_pos rfl, high, low]
    simp only [Option.bind_some, Nat.div_add_mod]
    rfl
  | plain noQuote noBackslash visible =>
    have noNewline : c ≠ '\n' := by
      rintro rfl
      exact absurd visible (by decide)
    rw [List.singleton_append, bodyBytes?.eq_def]
    simp only [noQuote, noNewline, noBackslash, if_false]

/-- No control character of ASCII is written as it is. -/
theorem Writes.visible (h : Writes c text) : ∀ d ∈ text, 0x20 ≤ d.toNat ∧ d.toNat ≠ 0x7F := by
  cases h with
  | letter escaped =>
    simp only [List.forall_mem_cons]
    exact ⟨by decide, escape_visible escaped, nofun⟩
  | byte ascii =>
    simp only [List.forall_mem_cons]
    exact ⟨by decide, by decide, hexDigit_visible (by omega), hexDigit_visible (by omega), nofun⟩
  | plain _ _ low high => exact List.forall_mem_singleton.2 ⟨low, high⟩

theorem bodyBytes?_encode (cs : List Char) :
    bodyBytes? (cs.flatMap encodeChar ++ ['"']) = some (cs.flatMap String.utf8EncodeChar) := by
  induction cs with
  | nil => rfl
  | cons c cs ih =>
    rw [List.flatMap_cons, List.append_assoc, (encodeChar_writes c).bytes, ih, Option.map_some,
      List.flatMap_cons]

theorem denoted?_encode (s : String) : denoted? (encode s.toList) = some s := by
  have bytes : (s.toList.flatMap String.utf8EncodeChar).toByteArray = s.toByteArray :=
    String.utf8Encode_toList
  rw [encode, denoted?, bodyBytes?_encode, Option.bind_some, bytes]
  exact dif_pos s.isValidUTF8

theorem encode_visible (cs : List Char) :
    ∀ d ∈ encode cs, 0x20 ≤ d.toNat ∧ d.toNat ≠ 0x7F := by
  simp only [encode, List.forall_mem_cons, List.forall_mem_append]
  refine ⟨by decide, fun d hd => ?_, by decide, nofun⟩
  obtain ⟨c, -, written⟩ := List.mem_flatMap.1 hd
  exact (encodeChar_writes c).visible d written

end Quoted

/-- What a text is quoted as denotes that text, has no newline and no other control character of
ASCII in it, and is read by the lexer as one string from its first to its last character. -/
theorem quoted_denotes (s : String) :
    Quoted.denoted? (quoted s).toList = some s ∧
      (∀ c ∈ (quoted s).toList, 0x20 ≤ c.toNat ∧ c.toNat ≠ 0x7F) ∧
      lex (quoted s).toList =
        .ok [⟨[], (quoted s).toList, .string (quoted s), Position.first, 0⟩] := by
  have text : (quoted s).toList = Quoted.encode s.toList := String.toList_ofList
  refine ⟨text ▸ Quoted.denoted?_encode s, text ▸ Quoted.encode_visible s.toList, ?_⟩
  have scans : Scans (.string (quoted s)) (Quoted.encode s.toList) [] :=
    .string (isQuotedBody_encode s.toList)
  have lexed : Lexed Spot.first ([] ++ (Quoted.encode s.toList ++ []))
      [Spot.first.lexeme [] (Quoted.encode s.toList) (.string (quoted s))] :=
    scans.lexed isGap_nil (.done isGap_nil)
  rw [List.nil_append, List.append_nil] at lexed
  rw [text]
  exact lexed.lex

end Text
end FieldRules
