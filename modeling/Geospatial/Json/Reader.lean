import Geospatial.Json.Value

/-!
# Reading JSON

A recursive descent over the characters of a text. Every reader returns its value and the
characters after it; the depth argument of the readers that call one another is bounded by the
length of the text.
-/

namespace Geospatial.Json

abbrev Chars := List Char

def isBlank (c : Char) : Bool := c == ' ' || c == '\n' || c == '\r' || c == '\t'

def skipBlank (cs : Chars) : Chars := cs.dropWhile isBlank

/-! ## Numbers -/

def digitsValue (digits : Chars) : Nat :=
  digits.foldl (fun n c => 10 * n + (c.toNat - '0'.toNat)) 0

/-- The digits after a point, none where there is no point. -/
def fraction (cs : Chars) : Option Chars × Chars :=
  match cs with
  | '.' :: rest => (some (rest.takeWhile Char.isDigit), rest.dropWhile Char.isDigit)
  | _ => (none, cs)

/-- The power of ten after an exponent mark, none where there is no mark. -/
def power (cs : Chars) : Option Int × Chars :=
  let after (negative : Bool) (rest : Chars) : Option Int × Chars :=
    let n : Int := (digitsValue (rest.takeWhile Char.isDigit) : Nat)
    (some (if negative then -n else n), rest.dropWhile Char.isDigit)
  match cs with
  | c :: rest =>
    if c == 'e' || c == 'E' then
      match rest with
      | '+' :: more => after false more
      | '-' :: more => after true more
      | _ => after false rest
    else (none, cs)
  | [] => (none, cs)

def realOf (negative : Bool) (units : Nat) (place : Int) : Float :=
  let size := nearestFloat (units * Nat.pow 10 place.toNat : Nat) (Nat.pow 10 (-place).toNat)
  if negative then -size else size

/-- A number: whole when it has neither a point nor an exponent. -/
def number (cs : Chars) : Option (Numeral × Chars) :=
  let (negative, body) := match cs with
    | '-' :: rest => (true, rest)
    | _ => (false, cs)
  let whole := body.takeWhile Char.isDigit
  if whole.isEmpty then none
  else
    let (decimals, afterPoint) := fraction (body.dropWhile Char.isDigit)
    let (exponent, rest) := power afterPoint
    match decimals, exponent with
    | none, none =>
      let n : Int := (digitsValue whole : Nat)
      some (.integer (if negative then -n else n), rest)
    | _, _ =>
      let extra := decimals.getD []
      let place := exponent.getD 0 - (extra.length : Int)
      some (.real (realOf negative (digitsValue (whole ++ extra)) place), rest)

/-! ## Text -/

def hexValue (c : Char) : Nat :=
  if c.isDigit then c.toNat - '0'.toNat
  else if 'a' ≤ c ∧ c ≤ 'f' then c.toNat - 'a'.toNat + 10
  else if 'A' ≤ c ∧ c ≤ 'F' then c.toNat - 'A'.toNat + 10
  else 0

def hexUnit (a b c d : Char) : Nat :=
  ((hexValue a * 16 + hexValue b) * 16 + hexValue c) * 16 + hexValue d

/-- A character outside the basic plane is written as two units. -/
def isLeadUnit (n : Nat) : Bool := 0xD800 ≤ n && n < 0xDC00

def quotedChars : Chars → Option (Chars × Chars)
  | [] => none
  | '"' :: rest => some ([], rest)
  | '\\' :: 'u' :: a :: b :: c :: d :: '\\' :: 'u' :: e :: f :: g :: h :: rest =>
    let lead := hexUnit a b c d
    let trail := hexUnit e f g h
    if isLeadUnit lead then
      (quotedChars rest).map fun (s, more) =>
        (Char.ofNat (0x10000 + (lead - 0xD800) * 0x400 + (trail - 0xDC00)) :: s, more)
    else
      (quotedChars ('\\' :: 'u' :: e :: f :: g :: h :: rest)).map fun (s, more) =>
        (Char.ofNat lead :: s, more)
  | '\\' :: 'u' :: a :: b :: c :: d :: rest =>
    (quotedChars rest).map fun (s, more) => (Char.ofNat (hexUnit a b c d) :: s, more)
  | '\\' :: c :: rest =>
    let meaning := match c with
      | 'n' => '\n'
      | 't' => '\t'
      | 'r' => '\r'
      | 'b' => Char.ofNat 8
      | 'f' => Char.ofNat 12
      | other => other
    (quotedChars rest).map fun (s, more) => (meaning :: s, more)
  | c :: rest => (quotedChars rest).map fun (s, more) => (c :: s, more)
termination_by cs => cs.length

/-! ## Values -/

mutual

def value : Nat → Chars → Option (Value × Chars)
  | 0, _ => none
  | depth + 1, cs =>
    match skipBlank cs with
    | '"' :: rest => (quotedChars rest).map fun (s, more) => (.text (String.ofList s), more)
    | '[' :: rest =>
      match skipBlank rest with
      | ']' :: more => some (.list [], more)
      | _ => (items depth rest).map fun (vs, more) => (.list vs, more)
    | '\x7b' :: rest =>
      match skipBlank rest with
      | '\x7d' :: more => some (.object [], more)
      | _ => (fields depth rest).map fun (fs, more) => (.object fs, more)
    | 't' :: 'r' :: 'u' :: 'e' :: rest => some (.boolean true, rest)
    | 'f' :: 'a' :: 'l' :: 's' :: 'e' :: rest => some (.boolean false, rest)
    | 'n' :: 'u' :: 'l' :: 'l' :: rest => some (.null, rest)
    | other => (number other).map fun (n, more) => (.number n, more)

def items : Nat → Chars → Option (List Value × Chars)
  | 0, _ => none
  | depth + 1, cs =>
    match value depth cs with
    | none => none
    | some (v, rest) =>
      match skipBlank rest with
      | ',' :: more => (items depth more).map fun (vs, last) => (v :: vs, last)
      | ']' :: more => some ([v], more)
      | _ => none

def fields : Nat → Chars → Option (List (String × Value) × Chars)
  | 0, _ => none
  | depth + 1, cs =>
    match skipBlank cs with
    | '"' :: start =>
      match quotedChars start with
      | none => none
      | some (name, rest) =>
        match skipBlank rest with
        | ':' :: after =>
          match value depth after with
          | none => none
          | some (v, more) =>
            let entry := (String.ofList name, v)
            match skipBlank more with
            | ',' :: next => (fields depth next).map fun (fs, last) => (entry :: fs, last)
            | '\x7d' :: last => some ([entry], last)
            | _ => none
        | _ => none
    | _ => none

end

/-- The value that a text holds, none when it holds no value or more than one. -/
def read (s : String) : Option Value :=
  let cs := s.toList
  match value (2 * cs.length + 2) cs with
  | some (v, rest) => if (skipBlank rest).isEmpty then some v else none
  | none => none

end Geospatial.Json
