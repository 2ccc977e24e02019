import Mathlib.Data.List.Basic

/-! Codes with words of different lengths that a decoder reads symbol by symbol. If it is back in its first state
after every word, with the word's letter put out, it reads every sequence of words. -/

namespace ExplorerIndexer.Codes

variable {σ α β : Type}

/-- A decoder of words over `β` for letters of `α`: each symbol takes it to a state and makes it put out letters. -/
structure StreamDecoder (σ α β : Type) where
  start : σ
  step : σ → β → σ × List α

namespace StreamDecoder

/-- The state after a text, and what was put out. -/
def run (decoder : StreamDecoder σ α β) : σ → List β → σ × List α
  | state, [] => (state, [])
  | state, symbol :: text =>
      let (state, letters) := decoder.step state symbol
      let (state, rest) := decoder.run state text
      (state, letters ++ rest)

def decode (decoder : StreamDecoder σ α β) (text : List β) : List α := (decoder.run decoder.start text).2

variable {decoder : StreamDecoder σ α β} {code : α → List β}

theorem run_cons (state : σ) (symbol : β) (text : List β) :
    decoder.run state (symbol :: text) =
      ((decoder.run (decoder.step state symbol).1 text).1,
        (decoder.step state symbol).2 ++ (decoder.run (decoder.step state symbol).1 text).2) := rfl

theorem run_append (state : σ) (text rest : List β) :
    decoder.run state (text ++ rest) =
      ((decoder.run (decoder.run state text).1 rest).1,
        (decoder.run state text).2 ++ (decoder.run (decoder.run state text).1 rest).2) := by
  induction text generalizing state with
  | nil => rfl
  | cons symbol text ih =>
      rw [List.cons_append, run_cons, ih, run_cons]
      exact congrArg (Prod.mk _) (List.append_assoc _ _ _).symm

/-- After each word the decoder is where it began, and has put out the letter. -/
def Decodes (decoder : StreamDecoder σ α β) (code : α → List β) : Prop :=
  ∀ letter, decoder.run decoder.start (code letter) = (decoder.start, [letter])

theorem Decodes.run_flatMap (h : decoder.Decodes code) (letters : List α) :
    decoder.run decoder.start (letters.flatMap code) = (decoder.start, letters) := by
  induction letters with
  | nil => rfl
  | cons letter letters ih =>
      rw [List.flatMap_cons, run_append, h letter, ih]
      rfl

theorem Decodes.decode_flatMap (h : decoder.Decodes code) (letters : List α) :
    decoder.decode (letters.flatMap code) = letters :=
  congrArg Prod.snd (h.run_flatMap letters)

end StreamDecoder

end ExplorerIndexer.Codes
