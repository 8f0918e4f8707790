/-!
JSON values and their compact written form: no blanks, the fields of an object in the order given, and
in strings only those characters escaped that may not stand there as themselves. Numbers are natural.
-/
namespace Predictive.Text

/-- A JSON value. -/
inductive Json where
  | number (value : Nat)
  | text (value : String)
  | list (items : List Json)
  | object (fields : List (String × Json))
deriving Repr

namespace Json

/-- The two-character escape of a character, if it has one. -/
def shortEscape? (c : Char) : Option Char :=
  match c with
  | '\x22' => some '\x22'
  | '\\' => some '\\'
  | '\x08' => some 'b'
  | '\x0c' => some 'f'
  | '\n' => some 'n'
  | '\r' => some 'r'
  | '\t' => some 't'
  | _ => none

/-- A character as it stands between quotes. -/
def escape (c : Char) : List Char :=
  match shortEscape? c with
  | some short => ['\\', short]
  | none =>
    if c.toNat < 0x20 then
      ['\\', 'u', '0', '0', Nat.digitChar (c.toNat / 16), Nat.digitChar (c.toNat % 16)]
    else [c]

/-- A string in quotes. -/
def quoted (value : String) : List Char := '\x22' :: value.toList.flatMap escape ++ ['\x22']

mutual
/-- The written form of a value. -/
def write : Json → List Char
  | number value => Nat.toDigits 10 value
  | text value => quoted value
  | list [] => ['[', ']']
  | list (item :: rest) => '[' :: write item ++ writeItems rest
  | object [] => ['\x7b', '\x7d']
  | object ((name, value) :: rest) => '\x7b' :: quoted name ++ ':' :: write value ++ writeFields rest
/-- The items of a list that stand behind another one, and its end. -/
def writeItems : List Json → List Char
  | [] => [']']
  | item :: rest => ',' :: write item ++ writeItems rest
/-- The fields of an object that stand behind another one, and its end. -/
def writeFields : List (String × Json) → List Char
  | [] => ['\x7d']
  | (name, value) :: rest => ',' :: quoted name ++ ':' :: write value ++ writeFields rest
end

/-- The written form of a value as a string. -/
def render (value : Json) : String := String.ofList value.write

/-- A list of strings. -/
def texts (values : List String) : Json := list (values.map text)

/-- A list of numbers. -/
def numbers (values : List Nat) : Json := list (values.map number)

end Json

end Predictive.Text
