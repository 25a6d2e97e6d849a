import IncludeMap.Text.Hex
import IncludeMap.Text.Hidden
import IncludeMap.Text.Utf8

/-! # Quoted texts

Messages show a text or a path in double quotes. Quotes, backslashes and the usual controls have
short escapes, other hidden characters are written by their code point, and bytes that encode no
character are written in hexadecimal.
-/
namespace IncludeMap.Text

def quotedChar (c : Char) : List Char :=
  if c = '\x00' then ['\\', '0']
  else if c = '\t' then ['\\', 't']
  else if c = '\r' then ['\\', 'r']
  else if c = '\n' then ['\\', 'n']
  else if c = '\\' ∨ c = '"' then ['\\', c]
  else if isHidden c then ['\\', 'u', '\x7b'] ++ hexDigits c.toNat ++ ['\x7d']
  else [c]

def quoted (s : List Char) : List Char :=
  '"' :: s.flatMap quotedChar ++ ['"']

/-- A piece of a path inside quotes; here the apostrophe is escaped too. -/
def quotedPiece : Piece → List Char
  | .scalar c => if c = '\'' then ['\\', c] else quotedChar c
  | .broken bytes => bytes.flatMap fun b => ['\\', 'x'] ++ (paddedHex 2 b.toNat).map Char.toUpper

def quotedBytes (bytes : Bytes) : List Char :=
  '"' :: (pieces bytes).flatMap quotedPiece ++ ['"']

end IncludeMap.Text
