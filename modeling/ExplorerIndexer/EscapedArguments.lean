import ExplorerIndexer.ModelSerializers
import ExplorerIndexer.StreamCodes

/-! Escaped texts can be read back. A decoder goes through a text character by character and tells escapes from what
stands for itself, so that nothing of the decoded arguments of an action is lost when their strings are escaped. -/

namespace ExplorerIndexer.Models

open Codes

/-! ### Texts -/

/-- What a reader of an escaped text waits for: any character, the one after a backslash, or the end of a code. -/
inductive UnescapeState where
  | plain
  | escaped
  | code (value : Nat)
  deriving DecidableEq

def hexDigitValue (digit : Char) : Nat :=
  if digit.isDigit then digit.toNat - 48 else digit.toNat - 87

def unescapeStep : UnescapeState → Char → UnescapeState × List Char
  | .plain, symbol => if symbol.toNat = 92 then (.escaped, []) else (.plain, [symbol])
  | .escaped, 't' => (.plain, [Char.ofNat 9])
  | .escaped, 'n' => (.plain, [Char.ofNat 10])
  | .escaped, 'r' => (.plain, [Char.ofNat 13])
  | .escaped, 'u' => (.code 0, [])
  | .escaped, symbol => (.plain, [symbol])
  | .code value, symbol =>
      if symbol.toNat = 123 then (.code value, [])
      else if symbol.toNat = 125 then (.plain, [Char.ofNat value])
      else (.code (16 * value + hexDigitValue symbol), [])

def unescaper : StreamDecoder UnescapeState Char Char where
  start := .plain
  step := unescapeStep

def unescapeDefault (s : String) : String := String.ofList (unescaper.decode s.toList)

theorem unescapeStep_digit {digit : Nat} (h : digit < 16) (value : Nat) :
    unescapeStep (.code value) digit.digitChar = (.code (16 * value + digit), []) := by
  have hdigit : digit.digitChar.toNat ≠ 123 ∧ digit.digitChar.toNat ≠ 125 ∧ hexDigitValue digit.digitChar = digit := by
    revert digit
    decide
  obtain ⟨hopen, hclose, hvalue⟩ := hdigit
  rw [unescapeStep, if_neg hopen, if_neg hclose, hvalue]

/-- The digits of a number are read as that number. -/
theorem run_hexDigits (n : Nat) : unescaper.run (.code 0) (hexDigits n) = (.code n, []) := by
  unfold hexDigits
  induction n using Nat.base_induction 16 (by decide) with
  | single digit hdigit =>
      have hstep : unescaper.step (.code 0) digit.digitChar = (.code (16 * 0 + digit), []) :=
        unescapeStep_digit hdigit 0
      rw [Nat.toDigits_of_lt_base hdigit, StreamDecoder.run_cons, hstep, Nat.mul_zero, Nat.zero_add]
      rfl
  | digit value digit hdigit hvalue ih =>
      have hstep : unescaper.step (.code value) digit.digitChar = (.code (16 * value + digit), []) :=
        unescapeStep_digit hdigit value
      rw [← Nat.toDigits_append_toDigits (by decide) hvalue hdigit, StreamDecoder.run_append, ih,
        Nat.toDigits_of_lt_base hdigit, StreamDecoder.run_cons, hstep]
      rfl

/-- A character that is escaped by its code. -/
theorem run_code (c : Char) :
    unescaper.run .plain ([Char.ofNat 92, 'u', Char.ofNat 123] ++ hexDigits c.toNat ++ [Char.ofNat 125]) =
      (.plain, [c]) := by
  have hopen : unescaper.run .plain [Char.ofNat 92, 'u', Char.ofNat 123] = (.code 0, []) := by decide
  have hclose : unescaper.run (.code c.toNat) [Char.ofNat 125] = (.plain, [Char.ofNat c.toNat]) := rfl
  rw [StreamDecoder.run_append, StreamDecoder.run_append, hopen, run_hexDigits, hclose, Char.ofNat_toNat]
  rfl

theorem eq_of_toNat {c : Char} {n : Nat} (h : c.toNat = n) : c = Char.ofNat n := by
  rw [← h, Char.ofNat_toNat]

/-- Every escaped character is read as the character. -/
theorem unescaper_decodes : unescaper.Decodes escapeChar := by
  intro c
  show unescaper.run .plain (escapeChar c) = (.plain, [c])
  unfold escapeChar
  dsimp only
  split
  case h_7 hbackslash =>
    split
    · have hstep : unescaper.step .plain c = (.plain, [c]) := if_neg hbackslash
      rw [StreamDecoder.run_cons, hstep]
      rfl
    · exact run_code c
  -- the characters that are escaped by a backslash alone
  all_goals
    rename_i h
    rw [eq_of_toNat h]
    decide

theorem unescapeDefault_escapeDefault (s : String) : unescapeDefault (escapeDefault s) = s := by
  rw [unescapeDefault, escapeDefault, String.toList_ofList, unescaper_decodes.decode_flatMap, String.ofList_toList]

/-! ### Documents -/

mutual

def unescapeJson : Json → Json
  | .object entries => .object (unescapeEntries entries)
  | .array values => .array (unescapeValues values)
  | .string value => .string (unescapeDefault value)
  | .null => .null
  | .bool value => .bool value
  | .number literal => .number literal

def unescapeValues : List Json → List Json
  | [] => []
  | element :: values => unescapeJson element :: unescapeValues values

def unescapeEntries : List (String × Json) → List (String × Json)
  | [] => []
  | (key, val) :: entries => (key, unescapeJson val) :: unescapeEntries entries

end

mutual

/-- A document with all its keys, arrays and values, but for what its strings say. -/
def withoutTexts : Json → Json
  | .object entries => .object (withoutTextsOfEntries entries)
  | .array values => .array (withoutTextsOfValues values)
  | .string _ => .string ""
  | .null => .null
  | .bool value => .bool value
  | .number literal => .number literal

def withoutTextsOfValues : List Json → List Json
  | [] => []
  | element :: values => withoutTexts element :: withoutTextsOfValues values

def withoutTextsOfEntries : List (String × Json) → List (String × Json)
  | [] => []
  | (key, val) :: entries => (key, withoutTexts val) :: withoutTextsOfEntries entries

end

mutual

theorem unescapeJson_escapeJson : ∀ json : Json, unescapeJson (escapeJson json) = json
  | .object entries => congrArg Json.object (unescapeEntries_escapeEntries entries)
  | .array values => congrArg Json.array (unescapeValues_escapeValues values)
  | .string value => congrArg Json.string (unescapeDefault_escapeDefault value)
  | .null | .bool _ | .number _ => rfl

theorem unescapeValues_escapeValues : ∀ values : List Json, unescapeValues (escapeValues values) = values
  | [] => rfl
  | element :: values => by
      rw [escapeValues, unescapeValues, unescapeJson_escapeJson element, unescapeValues_escapeValues values]

theorem unescapeEntries_escapeEntries :
    ∀ entries : List (String × Json), unescapeEntries (escapeEntries entries) = entries
  | [] => rfl
  | (key, val) :: entries => by
      rw [escapeEntries, unescapeEntries, unescapeJson_escapeJson val, unescapeEntries_escapeEntries entries]

end

mutual

/-- Escaping touches nothing but what the strings say. -/
theorem withoutTexts_escapeJson : ∀ json : Json, withoutTexts (escapeJson json) = withoutTexts json
  | .object entries => congrArg Json.object (withoutTexts_escapeEntries entries)
  | .array values => congrArg Json.array (withoutTexts_escapeValues values)
  | .string _ | .null | .bool _ | .number _ => rfl

theorem withoutTexts_escapeValues :
    ∀ values : List Json, withoutTextsOfValues (escapeValues values) = withoutTextsOfValues values
  | [] => rfl
  | element :: values => by
      rw [escapeValues, withoutTextsOfValues, withoutTextsOfValues, withoutTexts_escapeJson element,
        withoutTexts_escapeValues values]

theorem withoutTexts_escapeEntries :
    ∀ entries : List (String × Json), withoutTextsOfEntries (escapeEntries entries) = withoutTextsOfEntries entries
  | [] => rfl
  | (key, val) :: entries => by
      rw [escapeEntries, withoutTextsOfEntries, withoutTextsOfEntries, withoutTexts_escapeJson val,
        withoutTexts_escapeEntries entries]

end

/-- Escaping a document loses nothing: it can be undone, so that different documents stay different, and it keeps
everything but the texts. -/
theorem escaping_loses_nothing :
    (∃ unescape : Json → Json, ∀ json, unescape (escapeJson json) = json) ∧ Function.Injective escapeJson ∧
      ∀ json, withoutTexts (escapeJson json) = withoutTexts json := by
  have hleft : Function.LeftInverse unescapeJson escapeJson := unescapeJson_escapeJson
  exact ⟨⟨unescapeJson, hleft⟩, hleft.injective, withoutTexts_escapeJson⟩

/-- The decoded arguments of a function call can be read back from the stored action. -/
theorem argsJson_of_functionCall {decoders : Decoders} {args : String} {argsJson : Json}
    (hargs : (decoders.base64Decode args).bind decoders.jsonFromSlice = some argsJson) (methodName : String)
    (gas deposit : Nat) :
    ∃ arguments stored,
      (extractActionTypeAndValueFromActionView decoders (.functionCall methodName args gas deposit)).2 =
        .object (arguments ++ [("args_json", stored)]) ∧ unescapeJson stored = argsJson := by
  rw [extractActionTypeAndValueFromActionView]
  simp only [hargs]
  exact ⟨_, escapeJson argsJson, rfl, unescapeJson_escapeJson argsJson⟩

/-- A text that looks escaped already is escaped once more. -/
example : unescapeDefault (escapeDefault (escapeDefault "né")) = escapeDefault "né" := by decide

end ExplorerIndexer.Models
