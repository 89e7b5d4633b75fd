import VersionedFlags.Text.Glyphless

/-!
# Quoted text for messages

A text stands between double quotes.  Tab, newline, return and the zero
character have short escapes; double quotes and backslashes are escaped; a
character without a glyph of its own is written as its code point in braces.
-/

namespace VersionedFlags

namespace Text

def lowerHex (number : Nat) : List Char := Nat.toDigits 16 number

def escapeChar (c : Char) : List Char :=
  match c with
  | '\x00' => ['\\', '0']
  | '\t' => ['\\', 't']
  | '\n' => ['\\', 'n']
  | '\r' => ['\\', 'r']
  | '"' => ['\\', '"']
  | '\\' => ['\\', '\\']
  | c =>
      if c.toNat < 127 ∧ 32 ≤ c.toNat then [c]
      else if isGlyphless c then
        '\\' :: 'u' :: '\x7b' :: lowerHex c.toNat ++ ['\x7d']
      else [c]

def quoted (text : String) : String :=
  String.ofList ('"' :: text.toList.flatMap escapeChar ++ ['"'])

/-- In a path single quotes are escaped as well. -/
def quotedPath (path : String) : String :=
  let escaped := path.toList.flatMap fun c =>
    if c = '\'' then ['\\', '\''] else escapeChar c
  String.ofList ('"' :: escaped ++ ['"'])

end Text

end VersionedFlags
