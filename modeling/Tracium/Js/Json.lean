import Tracium.Js.JsonSyntax
import Tracium.Js.Number
import Tracium.OrderedMap

/-! JSON.parse, and JSON.stringify with an indentation of two spaces. -/
namespace Js.Json

open OrderedMap

/-! String literals. -/

def hexDigit (n : Nat) : UInt16 := UInt16.ofNat (if n < 10 then 0x30 + n else 0x57 + n)

def hexValue (u : UInt16) : Option Nat :=
  if 0x30 ≤ u ∧ u ≤ 0x39 then some (u.toNat - 0x30)
  else if 0x61 ≤ u ∧ u ≤ 0x66 then some (u.toNat - 0x57)
  else if 0x41 ≤ u ∧ u ≤ 0x46 then some (u.toNat - 0x37)
  else none

def hexUnit (a b c d : UInt16) : Option UInt16 := do
  let a ← hexValue a
  let b ← hexValue b
  let c ← hexValue c
  let d ← hexValue d
  some (UInt16.ofNat (a * 0x1000 + b * 0x100 + c * 0x10 + d))

/-- The units that an escape of one letter stands for. -/
def shortEscapes : List (UInt16 × UInt16) :=
  [(0x22, 0x22), (0x5C, 0x5C), (0x62, 0x08), (0x66, 0x0C), (0x6E, 0x0A), (0x72, 0x0D), (0x74, 0x09)]

/-- What an escape of one letter stands for; the solidus has one as well. -/
def escapeValue (letter : UInt16) : Option UInt16 := if letter = 0x2F then some 0x2F else get shortEscapes letter

/-- The string of a literal, from between its quotes; `none` if the grammar has no such
literal. -/
def decodeString : Text → Option Text
  | [] => some []
  | u :: rest =>
    if u = backslash then
      match rest with
      | [] => none
      | letter :: rest =>
        if letter = 0x75 then
          match rest with
          | a :: b :: c :: d :: rest => do
            let unit ← hexUnit a b c d
            let more ← decodeString rest
            some (unit :: more)
          | _ => none
        else do
          let unit ← escapeValue letter
          let more ← decodeString rest
          some (unit :: more)
    else if u < 0x20 ∨ u = quoteUnit then none
    else do
      let more ← decodeString rest
      some (u :: more)

def isHigh (u : UInt16) : Bool := 0xD800 ≤ u && u ≤ 0xDBFF
def isLow (u : UInt16) : Bool := 0xDC00 ≤ u && u ≤ 0xDFFF

/-- UnicodeEscape. -/
def unicodeEscape (u : UInt16) : Text :=
  [backslash, 0x75, hexDigit (u.toNat / 0x1000), hexDigit (u.toNat / 0x100 % 0x10),
    hexDigit (u.toNat / 0x10 % 0x10), hexDigit (u.toNat % 0x10)]

/-- A unit that is no half of a surrogate pair. -/
def quoteOne (u : UInt16) : Text :=
  match shortEscapes.find? fun e => e.2 = u with
  | some e => [backslash, e.1]
  | none => if u < 0x20 || isHigh u || isLow u then unicodeEscape u else [u]

/-- QuoteJSONString without the quotes; `true` in front of the second half of a pair. -/
def quoteFrom : Bool → Text → Text
  | _, [] => []
  | true, u :: rest => u :: quoteFrom false rest
  | false, u :: rest =>
    if isHigh u && rest.head?.any isLow then u :: quoteFrom true rest else quoteOne u ++ quoteFrom false rest

def quoteBody (s : Text) : Text := quoteFrom false s

/-- QuoteJSONString. -/
def quote (s : Text) : Text := quoteUnit :: (quoteBody s ++ [quoteUnit])

/-! Number literals. -/

/-- The value of a row of digits. -/
def digitsValue (ds : Text) : Nat := ds.foldl (fun n u => n * 10 + (u.toNat - 0x30)) 0

/-- The exponent part: nothing, or a letter, a sign and digits. -/
def readExponent : Text → Option Int
  | [] => some 0
  | e :: rest =>
    if e = 0x65 ∨ e = 0x45 then
      let negative := rest.head? = some 0x2D
      let ds := if negative ∨ rest.head? = some 0x2B then rest.tail else rest
      if ds ≠ [] ∧ ds.all isDigit then some (if negative then -digitsValue ds else digitsValue ds) else none
    else none

/-- The fraction and the exponent behind a whole part. -/
def readFraction (whole : Text) (rest : Text) : Option ℚ :=
  if rest.head? = some 0x2E then
    let ds := rest.tail.takeWhile isDigit
    if ds = [] then none
    else (readExponent (rest.tail.dropWhile isDigit)).map fun e =>
      digitsValue (whole ++ ds) * 10 ^ (e - (ds.length : Int))
  else (readExponent rest).map fun e => digitsValue whole * 10 ^ e

/-- The mathematical value of a number literal. -/
def readNumber (raw : Text) : Option ℚ :=
  let unsigned := if raw.head? = some 0x2D then raw.tail else raw
  let whole := unsigned.takeWhile isDigit
  if whole = [] ∨ (whole.head? = some 0x30 ∧ whole ≠ [0x30]) then none
  else (readFraction whole (unsigned.dropWhile isDigit)).map fun q => if raw.head? = some 0x2D then -q else q

/-! Values. -/

inductive Scalar where
  | null
  | bool (b : Bool)
  | number (n : Number)
  | string (s : Text)
  deriving DecidableEq

/-- An object holds its properties in the order of their creation. -/
abbrev Value := Tree Scalar Text

def keyword (raw : Text) : Option Scalar :=
  if raw = lit "null" then some .null
  else if raw = lit "true" then some (.bool true)
  else if raw = lit "false" then some (.bool false)
  else none

def Literal.read : Literal → Option Scalar
  | .word raw => (keyword raw).or ((readNumber raw).map fun q => .number (toNumber q))
  | .string raw => (decodeString raw).map .string

/-- Every literal and every key is one of the grammar. -/
def WellFormed : Syntax → Bool :=
  Tree.fold (fun l => l.read.isSome) (fun items => items.all id)
    fun members => members.all fun m => (decodeString m.1).isSome && m.2

def Literal.scalar (l : Literal) : Scalar := l.read.getD .null

def stringValue (raw : Text) : Text := (decodeString raw).getD []

/-- The properties that creating the members one by one leaves: a later member of the same
key replaces the value and keeps the place. -/
def createProperties {α : Type} (members : List (Text × α)) : List (Text × α) :=
  members.foldl (fun properties m => put properties m.1 m.2) []

def valueOf : Syntax → Value :=
  Tree.fold (fun l => .leaf l.scalar) .array
    fun members => .object (createProperties (members.map fun m => (stringValue m.1, m.2)))

/-- The syntax tree of a text that is JSON. -/
def parseSyntax (text : Text) : Option Syntax := (parse (lex text)).filter WellFormed

/-- JSON.parse; `none` where it throws. -/
def parseJson (text : Text) : Option Value := (parseSyntax text).map valueOf

/-! Printing. -/

/-- The number of a key that is an array index. -/
def arrayIndex (key : Text) : Option Nat :=
  let n := digitsValue key
  if natString n = key ∧ n < 4294967295 then some n else none

/-- OrdinaryOwnPropertyKeys: the array indices in ascending order, then the other keys in
the order of creation. -/
def ownProperties {α : Type} (properties : List (Text × α)) : List (Text × α) :=
  ((properties.filter fun p => (arrayIndex p.1).isSome).insertionSort fun p q =>
      (arrayIndex p.1).getD 0 ≤ (arrayIndex q.1).getD 0) ++
    properties.filter fun p => (arrayIndex p.1).isNone

def numberText : Number → Text
  | .finite x => numberToString x
  | .infinite => lit "null"

def Scalar.literal : Scalar → Literal
  | .null => .word (lit "null")
  | .bool true => .word (lit "true")
  | .bool false => .word (lit "false")
  | .number n => .word (numberText n)
  | .string s => .string (quoteBody s)

def Literal.text : Literal → Text
  | .word raw => raw
  | .string raw => quoteUnit :: (raw ++ [quoteUnit])

def gap : Text := lit "  "
def lineFeed : UInt16 := 0x0A

/-- Between the brackets: each part on a line of its own. -/
def blockBody (stepback indent : Text) : List Text → Text
  | [] => []
  | first :: rest =>
    lineFeed :: (indent ++ first ++ (rest.flatMap fun part => Punctuator.comma.unit :: lineFeed :: (indent ++ part)) ++
      lineFeed :: stepback)

def block (opening closing : Punctuator) (stepback indent : Text) (parts : List Text) : Text :=
  opening.unit :: (blockBody stepback indent parts ++ [closing.unit])

/-- SerializeJSONProperty under an indentation. -/
def stringifyUnder : Value → Text → Text :=
  Tree.fold (fun s _ => s.literal.text)
    (fun items stepback =>
      block .openBracket .closeBracket stepback (stepback ++ gap) (items.map fun item => item (stepback ++ gap)))
    fun properties stepback =>
      block .openBrace .closeBrace stepback (stepback ++ gap)
        ((ownProperties properties).map fun p => quote p.1 ++ lit ": " ++ p.2 (stepback ++ gap))

/-- JSON.stringify(value, null, 2). -/
def stringify (v : Value) : Text := stringifyUnder v []

end Js.Json
