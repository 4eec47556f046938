import Geospatial.Number.Numeral
import Geospatial.Text.Printable

/-!
# JSON values

A JSON text as a tree. Numbers keep how they were written. Messages quote a value in a notation of
their own: `None`, `True` and `False`, single quotes around text, numbers in place of characters
that cannot be seen.
-/

namespace Geospatial.Json

/-- A JSON text as a tree; the fields of an object are kept in their order. -/
inductive Value where
  | null
  | boolean (b : Bool)
  | number (n : Numeral)
  | text (s : String)
  | list (items : List Value)
  | object (fields : List (String × Value))
  deriving Inhabited

namespace Value

/-- The last field of the given name. -/
def field? (name : String) : Value → Option Value
  | object fields => (fields.reverse.find? (·.1 == name)).map (·.2)
  | _ => none

/-! ## Quoting -/

def hexText (width n : Nat) : String :=
  let digits := Nat.toDigits 16 n
  String.ofList (List.replicate (width - digits.length) '0' ++ digits)

/-- One character inside quotes; what cannot be seen is written by its number. -/
def quoteChar (quote c : Char) : String :=
  if c = quote ∨ c = '\\' then String.ofList ['\\', c]
  else if c = '\n' then "\\n"
  else if c = '\r' then "\\r"
  else if c = '\t' then "\\t"
  else if Text.isPrintable c then c.toString
  else if c.toNat < 0x100 then "\\x" ++ hexText 2 c.toNat
  else if c.toNat < 0x10000 then "\\u" ++ hexText 4 c.toNat
  else "\\U" ++ hexText 8 c.toNat

/-- Text in single quotes, or in double quotes when that saves escaping. -/
def quoteText (s : String) : String :=
  let quote := if s.contains '\'' && !s.contains '"' then '"' else '\''
  quote.toString ++ String.join (s.toList.map (quoteChar quote)) ++ quote.toString

mutual

def quoted : Value → String
  | null => "None"
  | boolean b => if b then "True" else "False"
  | number n => n.text
  | text s => quoteText s
  | list items => "[" ++ ", ".intercalate (quotedItems items) ++ "]"
  | object fields => "\x7b" ++ ", ".intercalate (quotedFields fields) ++ "\x7d"

def quotedItems : List Value → List String
  | [] => []
  | v :: rest => quoted v :: quotedItems rest

def quotedFields : List (String × Value) → List String
  | [] => []
  | (name, v) :: rest => (quoteText name ++ ": " ++ quoted v) :: quotedFields rest

end

/-- What a message made of several values says: nothing, the text or the value alone, or all of
them in round brackets. -/
def phrase : List Value → String
  | [] => ""
  | [text s] => s
  | [v] => v.quoted
  | values => "(" ++ ", ".intercalate (quotedItems values) ++ ")"

end Value

end Geospatial.Json
