/-
JSON values and their text. Members of objects keep their order. Lists and objects have one element a line, indented by
two blanks a level; empty ones stand on one line. Only quotes, backslashes and controls are escaped.
-/
import CallLint.Text.Quoted

namespace CallLint

inductive JsonValue where
  | text (value : String)
  | number (value : Nat)
  | list (elements : List JsonValue)
  | object (members : List (String × JsonValue))
deriving Repr, Inhabited

namespace JsonValue

/-- a control character as four hexadecimal digits -/
def escapeControl (c : Char) : List Char :=
  let digits := Text.hexText c.toNat
  ['\\', 'u'] ++ List.replicate (4 - digits.length) '0' ++ digits

def escapeChar (c : Char) : List Char :=
  if c = '"' then ['\\', '"']
  else if c = '\\' then ['\\', '\\']
  else if c = '\x08' then ['\\', 'b']
  else if c = '\x0c' then ['\\', 'f']
  else if c = '\n' then ['\\', 'n']
  else if c = '\r' then ['\\', 'r']
  else if c = '\t' then ['\\', 't']
  else if c.toNat < 0x20 then escapeControl c
  else [c]

/-- a string between double quotes -/
def quote (s : String) : List Char :=
  '"' :: s.toList.flatMap escapeChar ++ ['"']

/-- a line end and the blanks of a level -/
def newline (level : Nat) : List Char :=
  '\n' :: List.replicate (2 * level) ' '

/-- elements between brackets, one a line -/
def bracketed (opening closing : Char) (level : Nat) : List (List Char) → List Char
  | [] => [opening, closing]
  | first :: rest =>
    [opening] ++ newline (level + 1) ++ first ++ rest.flatMap (fun e => ',' :: newline (level + 1) ++ e) ++
      newline level ++ [closing]

mutual

/-- the text of a value at a level of indentation -/
def print (level : Nat) : JsonValue → List Char
  | text value => quote value
  | number value => Nat.toDigits 10 value
  | list elements => bracketed '[' ']' level (printAll (level + 1) elements)
  | object members => bracketed '\x7b' '\x7d' level (printMembers (level + 1) members)
termination_by structural v => v

def printAll (level : Nat) : List JsonValue → List (List Char)
  | [] => []
  | v :: vs => print level v :: printAll level vs
termination_by structural vs => vs

def printMembers (level : Nat) : List (String × JsonValue) → List (List Char)
  | [] => []
  | m :: ms => printMember level m :: printMembers level ms
termination_by structural ms => ms

/-- a member's name and value -/
def printMember (level : Nat) : String × JsonValue → List Char
  | (name, value) => quote name ++ [':', ' '] ++ print level value
termination_by structural m => m

end

def render (v : JsonValue) : String :=
  String.ofList (print 0 v)

end JsonValue

end CallLint
