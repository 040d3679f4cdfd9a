import ManagedCalls.Text.Invisible

/-!
Structured values are shown on one line: a name alone, a name with parenthesised
parts, a name with labelled parts in braces, or a bracketed list.
-/

namespace ManagedCalls.Shown

/-- The digits of `n` in base sixteen, lower case, padded with zeros to `width`. -/
def hex (width n : Nat) : String :=
  let digits := Nat.toDigits 16 n
  String.ofList (List.replicate (width - digits.length) '0' ++ digits)

def commas (parts : List String) : String := ", ".intercalate parts

def list (parts : List String) : String := "[" ++ commas parts ++ "]"

def tuple (name : String) (parts : List String) : String := name ++ "(" ++ commas parts ++ ")"

def fields (parts : List (String × String)) : String :=
  commas (parts.map fun part => part.1 ++ ": " ++ part.2)

/-- A record with all its parts. -/
def record (name : String) (parts : List (String × String)) : String :=
  name ++ " \x7b " ++ fields parts ++ " \x7d"

/-- A record with parts that are not shown. -/
def partialRecord (name : String) (parts : List (String × String)) : String :=
  name ++ " \x7b " ++ fields parts ++ ", .. \x7d"

def option : Option String → String
  | none => "None"
  | some text => tuple "Some" [text]

def escapeChar (c : Char) : String :=
  if c = '"' then "\\\""
  else if c = '\\' then "\\\\"
  else if c = '\n' then "\\n"
  else if c = '\t' then "\\t"
  else if c = '\r' then "\\r"
  else if c = '\x00' then "\\0"
  else if isInvisible c then "\\u\x7b" ++ hex 1 c.toNat ++ "\x7d"
  else String.singleton c

/-- A text in double quotes; what would not be seen in it is escaped. -/
def quoted (text : String) : String :=
  "\"" ++ String.join (text.toList.map escapeChar) ++ "\""

def bool (b : Bool) : String := if b then "true" else "false"

end ManagedCalls.Shown
