import IncludeMap.Yaml.Character
import IncludeMap.Yaml.Resolve

/-! # Styles of scalars

A text has four written forms, and what it holds decides which of them are open to it. The literal
form is for texts of several lines and the plain one for texts that no reader takes for anything
else; double quotes are open to every text.
-/
namespace IncludeMap.Yaml

inductive Style where
  | plain
  | singleQuoted
  | doubleQuoted
  /-- The lines of the text below each other. -/
  | literal
  deriving DecidableEq

def isPrintable (c : Char) : Bool :=
  isAllowed c && c != '\t' && c != '\r' && c != '\u0085' && c != byteOrderMark

def hasNeighbours (first second : Char → Bool) : List Char → Bool
  | a :: b :: rest => (first a && second b) || hasNeighbours first second (b :: rest)
  | _ => false

def isSpace (c : Char) : Bool := c = ' '

/-- A space or a line break stands at one of the ends. -/
def hasOpenEnd (s : List Char) : Bool :=
  s.head?.any (fun c => isSpace c || isBreak c) || s.getLast?.any (fun c => isSpace c || isBreak c)

def openers : List Char := "#,[]{}&*!|>'\"%@`".toList

def beginsOtherwise (s : List Char) : Bool :=
  "---".toList.isPrefixOf s || "...".toList.isPrefixOf s ||
    match s with
    | [] => false
    | c :: rest => openers.contains c || ((c = '?' || c = ':' || c = '-') && endsWord rest)

/-- A colon ends a word, or a number sign begins one. -/
def hasIndicator : List Char → Bool
  | [] => false
  | c :: rest =>
    (c = ':' && endsWord rest) || ((isGap c || isBreak c) && rest.head? = some '#') ||
      hasIndicator rest

/-- Only a plain scalar can be null, a truth value or a number, and a text that looks like one of
them is no plain scalar. -/
def readsAsText (s : List Char) : Bool :=
  valueOf s = .text s && !isPaddedNumber s

def allowsPlain (s : List Char) : Bool :=
  readsAsText s && s.all (fun c => isPrintable c && !isBreak c) && !hasOpenEnd s &&
    !beginsOtherwise s && !hasIndicator s

/-- Spaces beside a line break would be lost between single quotes. -/
def allowsSingleQuotes (s : List Char) : Bool :=
  s.all isPrintable && !hasNeighbours isBreak isSpace s && !hasNeighbours isSpace isBreak s

/-- Spaces in front of a line break, or at the end, are not left to a literal. -/
def allowsLiteral (s : List Char) : Bool :=
  s.all isPrintable && !hasNeighbours isSpace isBreak s && !s.getLast?.any isSpace

def styleOf (s : List Char) : Style :=
  if s.contains '\n' then
    if allowsLiteral s then .literal else .doubleQuoted
  else if allowsPlain s then .plain
  else if allowsSingleQuotes s then .singleQuoted
  else .doubleQuoted

end IncludeMap.Yaml
