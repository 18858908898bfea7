/-!
# Quoted strings

Writing a text between quotes, and reading it back. Quotes, backslashes and control characters
are escaped when written. When read, any character may be escaped by the number of its UTF-16
units, so a character past `U+FFFF` takes two escapes in a row, and one of them alone stands
for nothing.
-/

namespace FactorLabel.Json.Quoted

/-! ## Writing -/

/-- The character of a digit below sixteen. -/
def hexDigit (d : Nat) : Char :=
  if d < 10 then Char.ofNat ('0'.toNat + d) else Char.ofNat ('a'.toNat + (d - 10))

/-- A character as it is written between quotes. -/
def escape (c : Char) : List Char :=
  if c = '"' then ['\\', '"']
  else if c = '\\' then ['\\', '\\']
  else if c = '\x08' then ['\\', 'b']
  else if c = '\x0c' then ['\\', 'f']
  else if c = '\n' then ['\\', 'n']
  else if c = '\r' then ['\\', 'r']
  else if c = '\t' then ['\\', 't']
  else if c.toNat < 0x20 then
    ['\\', 'u', '0', '0', hexDigit (c.toNat / 16), hexDigit (c.toNat % 16)]
  else [c]

/-- A text between quotes. -/
def encode (s : List Char) : List Char := '"' :: s.flatMap escape ++ ['"']

/-! ## Reading -/

/-- The digit of a character, in small or capital letters. -/
def hexValue? (c : Char) : Option Nat :=
  if '0' ≤ c ∧ c ≤ '9' then some (c.toNat - '0'.toNat)
  else if 'a' ≤ c ∧ c ≤ 'f' then some (c.toNat - 'a'.toNat + 10)
  else if 'A' ≤ c ∧ c ≤ 'F' then some (c.toNat - 'A'.toNat + 10)
  else none

/-- The number of four digits. -/
def hexQuad? (a b c d : Char) : Option Nat := do
  return ((← hexValue? a) * 16 + (← hexValue? b)) * 256
    + ((← hexValue? c) * 16 + (← hexValue? d))

/-- The character that a letter stands for behind a backslash. -/
def unescape? (c : Char) : Option Char :=
  match c with
  | '"' => some '"'
  | '\\' => some '\\'
  | '/' => some '/'
  | 'b' => some '\x08'
  | 'f' => some '\x0c'
  | 'n' => some '\n'
  | 'r' => some '\r'
  | 't' => some '\t'
  | _ => none

/-- The code points and escaped units up to the closing quote, and what comes after it. -/
def readUnits? : List Char → Option (List Nat × List Char)
  | [] => none
  | '"' :: rest => some ([], rest)
  | '\\' :: 'u' :: a :: b :: c :: d :: rest =>
      match hexQuad? a b c d with
      | some n => (readUnits? rest).map fun (ns, rest) => (n :: ns, rest)
      | none => none
  | '\\' :: c :: rest =>
      match unescape? c with
      | some c => (readUnits? rest).map fun (ns, rest) => (c.toNat :: ns, rest)
      | none => none
  | c :: rest =>
      if c = '\\' ∨ c.toNat < 0x20 then none
      else (readUnits? rest).map fun (ns, rest) => (c.toNat :: ns, rest)

/-- Is this the first unit of a surrogate pair? -/
def isHigh (n : Nat) : Bool := decide (0xD800 ≤ n) && decide (n < 0xDC00)

/-- Is this the second unit of a surrogate pair? -/
def isLow (n : Nat) : Bool := decide (0xDC00 ≤ n) && decide (n < 0xE000)

/-- The characters that units stand for, if every surrogate has its partner. -/
def join? : List Nat → Option (List Char)
  | [] => some []
  | [n] => if isHigh n || isLow n then none else some [Char.ofNat n]
  | n :: m :: rest =>
      if isHigh n then
        if isLow m then
          (join? rest).map (Char.ofNat (0x10000 + (n - 0xD800) * 0x400 + (m - 0xDC00)) :: ·)
        else none
      else if isLow n then none
      else (join? (m :: rest)).map (Char.ofNat n :: ·)

/-- Reads on behind an opening quote: the text, if the string stands for one, and what comes after
the closing quote. -/
def decode? (s : List Char) : Option (Option String × List Char) :=
  (readUnits? s).map fun (ns, rest) => ((join? ns).map String.ofList, rest)

end FactorLabel.Json.Quoted
