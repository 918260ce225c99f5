import Mathlib.Data.List.Sort

/-! JSON as the program writes it: `json.dumps` with sorted keys. -/

namespace RakshaQuant

/-- A JSON value; a number is its literal. -/
inductive Json
  | null
  | bool (b : Bool)
  | num (literal : String)
  | str (s : String)
  | arr (items : List Json)
  | obj (fields : List (String × Json))

namespace Json

def hexDigit (n : ℕ) : Char := "0123456789abcdef".toList.getD n '0'

/-- `\\uXXXX`. -/
def unicodeEscape (n : ℕ) : List Char :=
  ['\\', 'u', hexDigit (n / 4096 % 16), hexDigit (n / 256 % 16), hexDigit (n / 16 % 16),
    hexDigit (n % 16)]

/-- The escapes of a letter. -/
def shortEscape (c : Char) : Option Char :=
  if c = '"' then some '"'
  else if c = '\\' then some '\\'
  else if c = '\n' then some 'n'
  else if c = '\r' then some 'r'
  else if c = '\t' then some 't'
  else if c.val = 8 then some 'b'
  else if c.val = 12 then some 'f'
  else none

/-- A character as `json.dumps` writes it with `ensure_ascii`. -/
def escape (c : Char) : List Char :=
  match shortEscape c with
  | some letter => ['\\', letter]
  | none =>
    if ' ' ≤ c ∧ c ≤ '~' then [c]
    else if c.toNat < 65536 then unicodeEscape c.toNat
    else
      unicodeEscape (55296 + (c.toNat - 65536) / 1024) ++
        unicodeEscape (56320 + (c.toNat - 65536) % 1024)

/-- The same without `ensure_ascii`. -/
def escapeControl (c : Char) : List Char :=
  match shortEscape c with
  | some letter => ['\\', letter]
  | none => if c.toNat < 32 then unicodeEscape c.toNat else [c]

variable (escaped : Char → List Char)

def quote (s : String) : List Char := ['"'] ++ s.toList.flatMap escaped ++ ['"']

def joined (sep : List Char) (parts : List (List Char)) : List Char := sep.intercalate parts

mutual

/-- `json.dumps` with `sort_keys`, of strings written so. -/
def dumpsWith : Json → List Char
  | null => "null".toList
  | bool b => if b then "true".toList else "false".toList
  | num literal => literal.toList
  | str s => quote escaped s
  | arr items => ['['] ++ joined [',', ' '] (dumpsItems items) ++ [']']
  | obj fields =>
    ['{'] ++ joined [',', ' '] (((dumpsFields fields).insertionSort fun a b => a.1 ≤ b.1).map
      fun e => quote escaped e.1 ++ [':', ' '] ++ e.2) ++ ['}']

def dumpsItems : List Json → List (List Char)
  | [] => []
  | item :: items => dumpsWith item :: dumpsItems items

def dumpsFields : List (String × Json) → List (String × List Char)
  | [] => []
  | (key, value) :: fields => (key, dumpsWith value) :: dumpsFields fields

end

/-- `json.dumps` in ASCII. -/
def dumps (data : Json) : List Char := data.dumpsWith escape

/-- `json.dumps` with `ensure_ascii` off. -/
def dumpsUnicode (data : Json) : List Char := data.dumpsWith escapeControl

/-- A string, or nothing. -/
def ofOption : Option String → Json
  | none => null
  | some s => str s

end Json

end RakshaQuant
