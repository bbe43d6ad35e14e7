import ArtdaqDatabase.OrderedChoice
import ArtdaqDatabase.JsonValue

/-!
# Reading JSON text

The grammar of `json_reader.h`, rule by rule, over ordered choice.  The skipper
is applied in front of every literal and number, and once in front of a
`lexeme`.  A decimal is kept as the text that the writer prints for it, so
the grammar is given the function from the digits read to that text; how large
an exponent may be is left to the floating point format.
-/

namespace ArtdaqDatabase

open Scanner

/-! ## Skipper and literals -/

/-- `ascii::space`. -/
def isSpace (c : Char) : Bool :=
  c = ' ' || decide (9 ≤ c.toNat ∧ c.toNat ≤ 13)

def skip : Scanner Char Unit :=
  skipWhile isSpace

def char (c : Char) : Scanner Char Char :=
  satisfy fun d => d = c

/-- `qi::lit`. -/
def lit (c : Char) : Scanner Char Char :=
  skip >>= fun _ => char c

/-! ## Strings -/

def escapeCodes : List Char :=
  ['\\', '"', 'b', 'f', 'n', 'r', 't']

/-- `escape_rule`. -/
def escapeRule : Scanner Char (List Char) := do
  let backslash ← char '\\'
  let code ← satisfy fun c => c ∈ escapeCodes
  return [backslash, code]

/-- A piece of `text_string`. -/
def textPiece : Scanner Char (List Char) :=
  escapeRule <|> (fun c => [c]) <$> satisfy fun c => c ≠ '"'

/-- `text_string`. -/
def textString : Scanner Char (List Char) :=
  List.flatten <$> many1 textPiece

/-- `quoted_string`. -/
def quotedString : Scanner Char String := do
  let _ ← lit '"'
  let texts ← many textString
  let _ ← char '"'
  return String.ofList texts.flatten

/-! ## Numbers -/

def sign : Scanner Char (List Char) :=
  (fun c => [c]) <$> satisfy (fun c => c = '+' ∨ c = '-') <|> pure []

def digitsValue (digits : List Char) : ℕ :=
  Nat.ofDigitChars 10 digits 0

def signedValue (sign digits : List Char) : ℤ :=
  if sign = ['-'] then -(digitsValue digits : ℤ) else digitsValue digits

/-- The range of `integer`. -/
def InRange (n : ℤ) : Prop :=
  -2 ^ 63 ≤ n ∧ n < 2 ^ 63

instance (n : ℤ) : Decidable (InRange n) :=
  inferInstanceAs (Decidable (_ ∧ _))

/-- `qi::long_`: a number out of range is no match. -/
def long : Scanner Char ℤ := do
  skip
  let sign ← sign
  let digits ← many1 (satisfy Char.isDigit)
  if InRange (signedValue sign digits) then
    return signedValue sign digits
  else
    failure

/-- `qi::long_ >> !qi::lit('.')`. -/
def integerRule : Scanner Char ℤ := do
  let number ← long
  notAhead (lit '.')
  return number

/-- The parts of a number as they are written. -/
structure Numeral where
  sign : List Char
  whole : List Char
  fraction : Option (List Char)
  exponent : Option (Char × List Char × List Char)
  deriving DecidableEq

def fractionPart : Scanner Char (Option (List Char)) :=
  some <$> (char '.' >>= fun _ => many (satisfy Char.isDigit)) <|> pure none

def exponentPart : Scanner Char (Option (Char × List Char × List Char)) :=
  some <$> (do
    let e ← satisfy fun c => c = 'e' ∨ c = 'E'
    let sign ← sign
    let digits ← many1 (satisfy Char.isDigit)
    return (e, sign, digits)) <|> pure none

/-- A number needs a digit in front of the point or behind it. -/
def numeral : Scanner Char Numeral := do
  let sign ← sign
  let whole ← many (satisfy Char.isDigit)
  let fraction ← fractionPart
  if whole = [] ∧ fraction.getD [] = [] then
    failure
  else
    let exponent ← exponentPart
    return ⟨sign, whole, fraction, exponent⟩

/-- A word in any mixture of cases. -/
def noCase : List Char → Scanner Char (List Char)
  | [] => pure []
  | c :: word => do
      let d ← satisfy fun d => d.toLower = c
      let rest ← noCase word
      return d :: rest

def nanTail : Scanner Char (List Char) :=
  (do
    let l ← char '('
    let inner ← many (satisfy fun c => c ≠ ')')
    let r ← char ')'
    return l :: inner ++ [r]) <|>
  (fun _ => []) <$> notAhead (char '(')

def nanWord : Scanner Char (List Char) := do
  let nan ← noCase ['n', 'a', 'n']
  let tail ← nanTail
  return nan ++ tail

def infWord : Scanner Char (List Char) := do
  let inf ← noCase ['i', 'n', 'f']
  let tail ← orDefault (noCase ['i', 'n', 'i', 't', 'y']) []
  return inf ++ tail

/-- `nan` and `inf` in the forms that `qi::real_policies` reads. -/
def notANumber : Scanner Char (List Char) := do
  let sign ← sign
  let name ← nanWord <|> infWord
  return sign ++ name

/-- The text of a numeral. -/
def Numeral.text (n : Numeral) : List Char :=
  n.sign ++ n.whole ++
    (match n.fraction with
      | none => []
      | some digits => '.' :: digits) ++
    (match n.exponent with
      | none => []
      | some (e, sign, digits) => e :: sign ++ digits)

/-- `qi::double_`, which returns the characters of the number. -/
def double : Scanner Char (List Char) := do
  skip
  notANumber <|> Numeral.text <$> numeral

/-! ## Values -/

/-- The letters of a word one after the other. -/
def word : List Char → Scanner Char Unit
  | [] => pure ()
  | c :: letters => do
      let _ ← char c
      word letters

/-- `qi::bool_`. -/
def bool : Scanner Char Bool := do
  skip
  (fun _ => true) <$> word ['t', 'r', 'u', 'e'] <|>
    (fun _ => false) <$> word ['f', 'a', 'l', 's', 'e']

/-- `data_rule`. -/
def dataRule (value : Scanner Char Value) : Scanner Char (String × Value) := do
  let key ← quotedString
  let _ ← lit ':'
  let v ← value
  return (key, v)

/-- `object_rule`. -/
def objectRule (value : Scanner Char Value) : Scanner Char Object := do
  let _ ← lit '\x7b'
  let members ← orDefault (sepBy1 (dataRule value) (lit ',')) []
  let _ ← lit '\x7d'
  return members

/-- `array_rule`. -/
def arrayRule (value : Scanner Char Value) : Scanner Char (List Value) := do
  let _ ← lit '['
  let values ← orDefault (sepBy1 value (lit ',')) []
  let _ ← lit ']'
  return values

section

variable (decimalText : List Char → String)

/-- `value_rule`, down to a depth of nesting. -/
def valueRule : ℕ → Scanner Char Value
  | 0 => failure
  | depth + 1 =>
      Value.object <$> objectRule (valueRule depth) <|>
      Value.array <$> arrayRule (valueRule depth) <|>
      Value.string <$> quotedString <|>
      Value.integer <$> integerRule <|>
      (fun digits => Value.decimal (decimalText digits)) <$> double <|>
      Value.boolean <$> bool

/-- `JsonReader::read`: `none` is a failed match. -/
def JsonReader.read (text : String) : Except Failure (Option Object) := do
  confirm (text ≠ "")
  return (objectRule (valueRule decimalText text.length) text.toList).map Prod.fst

end

end ArtdaqDatabase
