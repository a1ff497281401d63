import SchemaGraph.Text.Printable

/-! # Quoted text

Text between double quotes for diagnostics: what would not show as itself is escaped. -/

namespace SchemaGraph.Text

def codeEscape (c : Char) : List Char :=
  ['\\', 'u', '\x7b'] ++ Nat.toDigits 16 c.toNat ++ ['\x7d']

def quotedChar (c : Char) : List Char :=
  if c == '"' || c == '\\' then ['\\', c]
  else if c.toNat == 0 then ['\\', '0']
  else if c == '\t' then ['\\', 't']
  else if c == '\n' then ['\\', 'n']
  else if c == '\r' then ['\\', 'r']
  else if (0x20 ≤ c.toNat && c.toNat < 0x7F) || isPrintable c then [c]
  else codeEscape c

def quoted (s : String) : String := .ofList ('"' :: s.toList.flatMap quotedChar ++ ['"'])

end SchemaGraph.Text
