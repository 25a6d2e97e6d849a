import IncludeMap.Document.Entry
import IncludeMap.Document.Literal

/-! # Writing a mapping document

A document is a comment in its first line and a list with one entry in each line, and ends with an
empty line. The texts of its rules are written in printable ASCII characters.
-/
namespace IncludeMap.Document

/-- The name by which the program signs its documents. -/
def generator : String := "qtmap"

def banner : String := "# Do not edit! This file was generated by " ++ generator ++ "."

def Kind.name : Kind → String
  | .symbol => "symbol"
  | .include => "include"

/-- Texts with a comma and a blank between two of them. -/
def separated : List (List Char) → List Char
  | [] => []
  | [s] => s
  | s :: t :: rest => s ++ [',', ' '] ++ separated (t :: rest)

def entryText (e : Entry) : List Char :=
  ['\x7b'] ++ literal e.kind.name ++ [':', ' ', '[']
    ++ separated [literal e.subject, literal e.subjectMark, literal e.target, literal e.targetMark]
    ++ [']', '\x7d']

/-- The lines of the entries, with a comma at the end of all but the last. -/
def entryLines : List Entry → List Char
  | [] => []
  | [e] => [' ', ' '] ++ entryText e
  | e :: f :: rest => [' ', ' '] ++ entryText e ++ [',', '\n'] ++ entryLines (f :: rest)

def render (r : RuleSet) : String :=
  String.ofList
    (banner.toList ++ ['\n', '[', '\n'] ++ entryLines (entriesOf r) ++ ['\n', ']', '\n', '\n'])

end IncludeMap.Document
