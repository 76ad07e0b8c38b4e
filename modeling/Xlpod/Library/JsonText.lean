import Mathlib.Data.Int.Notation
import Mathlib.Data.List.Basic
import Mathlib.Data.List.Nodup

/-!
# JSON values, their text and a reader for it

Values are generic in the string type. A writer chooses the gap after
separators and the body of a string literal; a reader takes a literal back and
says whether it accepts the non-finite number words. An object is an association
list in insertion order, as both Python dictionaries and order-keeping maps
present it; the reader merges repeated keys the way a dictionary does, so the
last value wins at the place of the first.

Integers are integers. Every other number is kept as its literal: a float
printer that round-trips gives equal floats equal literals, so the literal
stands for the value and no floating-point arithmetic is modelled.

Words and numbers are read alike: the longest run of word characters is taken
and then classified. A text in which such a run is not one whole token is
rejected by every JSON grammar, so maximal munch accepts the same documents.
-/
namespace Xlpod.JsonText

def isSpace (c : Char) : Bool := c == ' ' || c == '\t' || c == '\n' || c == '\r'

def isBare (c : Char) : Bool := c.isAlphanum || c == '+' || c == '-' || c == '.'

/-- Digits without a superfluous leading zero. -/
def isWhole : List Char → Bool
  | [] => false
  | ['0'] => true
  | c :: cs => c != '0' && (c :: cs).all Char.isDigit

def isExponent : List Char → Bool
  | [] => true
  | e :: '+' :: ds => (e == 'e' || e == 'E') && !ds.isEmpty && ds.all Char.isDigit
  | e :: '-' :: ds => (e == 'e' || e == 'E') && !ds.isEmpty && ds.all Char.isDigit
  | e :: ds => (e == 'e' || e == 'E') && !ds.isEmpty && ds.all Char.isDigit

def dropSign : List Char → List Char
  | '-' :: cs => cs
  | cs => cs

/-- A number literal with a fraction or an exponent. -/
def isReal (cs : List Char) : Bool :=
  let whole := (dropSign cs).takeWhile Char.isDigit
  match (dropSign cs).dropWhile Char.isDigit with
  | [] => false
  | '.' :: rest =>
      isWhole whole && !(rest.takeWhile Char.isDigit).isEmpty &&
        isExponent (rest.dropWhile Char.isDigit)
  | rest => isWhole whole && isExponent rest

def isNonfinite (cs : List Char) : Bool :=
  cs == "NaN".toList || cs == "Infinity".toList || cs == "-Infinity".toList

/-- The literal of a non-integer number. -/
structure Lexeme where
  chars : List Char
  bare : chars.all isBare = true
  number : (isReal chars || isNonfinite chars) = true
deriving DecidableEq

inductive Json (σ : Type) where
  | null
  | bool (b : Bool)
  | int (n : ℤ)
  | real (l : Lexeme)
  | str (s : σ)
  | arr (items : List (Json σ))
  | obj (fields : List (σ × Json σ))

variable {σ : Type}

namespace Json

def get? [DecidableEq σ] (key : σ) : Json σ → Option (Json σ)
  | obj fields => fields.lookup key
  | _ => none

theorem get?_cons [DecidableEq σ] (key name : σ) (v : Json σ) (fields : List (σ × Json σ)) :
    (obj ((name, v) :: fields)).get? key = if key = name then some v else (obj fields).get? key := by
  rw [get?, List.lookup_cons]
  by_cases h : key = name
  · rw [if_pos h, beq_iff_eq.mpr h]
  · rw [if_neg h, beq_false_of_ne h]
    rfl

mutual
/-- Every string of a value, object keys included. -/
def strings : Json σ → List σ
  | str s => [s]
  | arr items => itemStrings items
  | obj fields => fieldStrings fields
  | _ => []
def itemStrings : List (Json σ) → List σ
  | [] => []
  | v :: vs => v.strings ++ itemStrings vs
def fieldStrings : List (σ × Json σ) → List σ
  | [] => []
  | (k, v) :: fs => k :: (v.strings ++ fieldStrings fs)
end

theorem fieldStrings_append (fs gs : List (σ × Json σ)) :
    fieldStrings (fs ++ gs) = fieldStrings fs ++ fieldStrings gs := by
  induction fs with
  | nil => rfl
  | cons f fs ih => simp [fieldStrings, ih]

mutual
/-- No object of the value repeats a key. -/
def UniqueKeys : Json σ → Prop
  | arr items => itemKeys items
  | obj fields => (fields.map Prod.fst).Nodup ∧ fieldKeys fields
  | _ => True
def itemKeys : List (Json σ) → Prop
  | [] => True
  | v :: vs => v.UniqueKeys ∧ itemKeys vs
def fieldKeys : List (σ × Json σ) → Prop
  | [] => True
  | (_, v) :: fs => v.UniqueKeys ∧ fieldKeys fs
end

theorem fieldKeys_append {fs gs : List (σ × Json σ)} :
    fieldKeys (fs ++ gs) ↔ fieldKeys fs ∧ fieldKeys gs := by
  induction fs with
  | nil => simp [fieldKeys]
  | cons f fs ih => simp [fieldKeys, ih, and_assoc]

mutual
/-- Every non-integer number of the value is finite. -/
def Finite : Json σ → Prop
  | real l => isReal l.chars = true
  | arr items => itemsFinite items
  | obj fields => fieldsFinite fields
  | _ => True
def itemsFinite : List (Json σ) → Prop
  | [] => True
  | v :: vs => v.Finite ∧ itemsFinite vs
def fieldsFinite : List (σ × Json σ) → Prop
  | [] => True
  | (_, v) :: fs => v.Finite ∧ fieldsFinite fs
end

end Json

structure Writer (σ : Type) where
  gap : List Char
  literal : σ → List Char

/-- `unquote` starts after the opening quote and leaves the text after the
closing one. -/
structure Reader (σ : Type) where
  unquote : List Char → Option (σ × List Char)
  nonfinite : Bool

def intChars : ℤ → List Char
  | .ofNat n => Nat.toDigits 10 n
  | .negSucc n => '-' :: Nat.toDigits 10 (n + 1)

def quoted (W : Writer σ) (s : σ) : List Char := '"' :: (W.literal s ++ ['"'])

mutual
def render (W : Writer σ) : Json σ → List Char
  | .null => "null".toList
  | .bool true => "true".toList
  | .bool false => "false".toList
  | .int n => intChars n
  | .real l => l.chars
  | .str s => quoted W s
  | .arr [] => ['[', ']']
  | .arr (v :: vs) => '[' :: (render W v ++ renderItems W vs)
  | .obj [] => ['{', '}']
  | .obj ((k, v) :: fs) =>
      '{' :: (quoted W k ++ ':' :: (W.gap ++ (render W v ++ renderFields W fs)))
/-- The items after the first one, up to the closing bracket. -/
def renderItems (W : Writer σ) : List (Json σ) → List Char
  | [] => [']']
  | v :: vs => ',' :: (W.gap ++ (render W v ++ renderItems W vs))
def renderFields (W : Writer σ) : List (σ × Json σ) → List Char
  | [] => ['}']
  | (k, v) :: fs =>
      ',' :: (W.gap ++ (quoted W k ++ ':' :: (W.gap ++ (render W v ++ renderFields W fs))))
end

/-! ## Reading -/

def readInt (cs : List Char) : Option ℤ :=
  match cs with
  | '-' :: ds => if isWhole ds then some (-(Nat.ofDigitChars 10 ds 0 : ℤ)) else none
  | ds => if isWhole ds then some (Nat.ofDigitChars 10 ds 0 : ℤ) else none

/-- Classification of one bare token. -/
def readBare (R : Reader σ) (cs : List Char) : Option (Json σ) :=
  if cs = "null".toList then some .null
  else if cs = "true".toList then some (.bool true)
  else if cs = "false".toList then some (.bool false)
  else match readInt cs with
    | some n => some (.int n)
    | none =>
        if h : cs.all isBare = true ∧ (isReal cs || isNonfinite cs) = true then
          if isReal cs || R.nonfinite then some (.real ⟨cs, h.1, h.2⟩) else none
        else none

def skip (text : List Char) : List Char := text.dropWhile isSpace

/-- Dictionary insertion: a repeated key keeps its place and takes the new value. -/
def insertField [DecidableEq σ] (k : σ) (v : Json σ) : List (σ × Json σ) → List (σ × Json σ)
  | [] => [(k, v)]
  | (k', v') :: fs => if k' = k then (k, v) :: fs else (k', v') :: insertField k v fs

def collect [DecidableEq σ] (fields : List (σ × Json σ)) : List (σ × Json σ) :=
  fields.foldl (fun acc f => insertField f.1 f.2 acc) []

section Reading
variable [DecidableEq σ] (R : Reader σ)

/-- A literal and the colon after it, the opening quote already taken. -/
def readKey (text : List Char) : Option (σ × List Char) := do
  let (k, rest) ← R.unquote text
  match skip rest with
  | ':' :: rest => some (k, rest)
  | _ => none

mutual
def readValue : ℕ → List Char → Option (Json σ × List Char)
  | 0, _ => none
  | fuel + 1, text =>
      match skip text with
      | '"' :: rest => (R.unquote rest).map fun r => (.str r.1, r.2)
      | '[' :: rest =>
          match skip rest with
          | ']' :: rest => some (.arr [], rest)
          | rest => do
              let (v, rest) ← readValue fuel rest
              let (vs, rest) ← readItems fuel rest
              some (.arr (v :: vs), rest)
      | '{' :: rest =>
          match skip rest with
          | '}' :: rest => some (.obj [], rest)
          | '"' :: rest => do
              let (k, rest) ← readKey R rest
              let (v, rest) ← readValue fuel rest
              let (fs, rest) ← readFields fuel rest
              some (.obj (collect ((k, v) :: fs)), rest)
          | _ => none
      | text => (readBare R (text.takeWhile isBare)).map fun v => (v, text.dropWhile isBare)
def readItems : ℕ → List Char → Option (List (Json σ) × List Char)
  | 0, _ => none
  | fuel + 1, text =>
      match skip text with
      | ']' :: rest => some ([], rest)
      | ',' :: rest => do
          let (v, rest) ← readValue fuel rest
          let (vs, rest) ← readItems fuel rest
          some (v :: vs, rest)
      | _ => none
def readFields : ℕ → List Char → Option (List (σ × Json σ) × List Char)
  | 0, _ => none
  | fuel + 1, text =>
      match skip text with
      | '}' :: rest => some ([], rest)
      | ',' :: rest =>
          match skip rest with
          | '"' :: rest => do
              let (k, rest) ← readKey R rest
              let (v, rest) ← readValue fuel rest
              let (fs, rest) ← readFields fuel rest
              some ((k, v) :: fs, rest)
          | _ => none
      | _ => none
end

/-- One document: a value with nothing but space after it. -/
def parse (text : List Char) : Option (Json σ) :=
  match readValue R (text.length + 1) text with
  | some (v, rest) => if skip rest = [] then some v else none
  | none => none

end Reading

end Xlpod.JsonText
