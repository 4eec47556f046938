import Geospatial.Json.Value

/-!
# Writing JSON

A value as JSON text on one line, without blanks.
-/

namespace Geospatial.Json

def escapeChar (c : Char) : String :=
  if c = '"' ∨ c = '\\' then String.ofList ['\\', c]
  else if c.toNat < 32 then "\\u" ++ Value.hexText 4 c.toNat
  else c.toString

def writeText (s : String) : String :=
  String.ofList (['"'] ++ s.toList.flatMap (fun c => (escapeChar c).toList) ++ ['"'])

namespace Value

mutual

def write : Value → String
  | null => "null"
  | boolean b => if b then "true" else "false"
  | number n => n.text
  | text s => writeText s
  | list items => "[" ++ ",".intercalate (writeItems items) ++ "]"
  | object fields => "\x7b" ++ ",".intercalate (writeFields fields) ++ "\x7d"

def writeItems : List Value → List String
  | [] => []
  | v :: rest => write v :: writeItems rest

def writeFields : List (String × Value) → List String
  | [] => []
  | (name, v) :: rest => (writeText name ++ ":" ++ write v) :: writeFields rest

end

def count (n : Nat) : Value := number (.integer n)

end Value

end Geospatial.Json
