import IncludeMap.CommandLine.Help
import IncludeMap.CommandLine.Run
import IncludeMap.Text.Hex

/-! # Answers

What the program says and how it ends. A run that succeeds says what it has written; one that
fails says at what, and the causes one below the other. Reported lines come before that, on the
side of the messages.
-/
namespace IncludeMap.CommandLine
open File Text

structure Answer where
  status : Nat
  output : String
  messages : String

/-- The name of a level, five columns wide. -/
def levelLabel : Level → String
  | .error => "ERROR"
  | .warn => " WARN"
  | .info => " INFO"
  | .debug => "DEBUG"
  | .trace => "TRACE"

/-- Characters by which a line could give orders to a terminal. -/
def terminalControls : List Char := ['\x1b', '\x07', '\x08', '\x0c', '\x7f']

def shownInLine (c : Char) : List Char :=
  if terminalControls.contains c then '\\' :: 'x' :: paddedHex 2 c.toNat
  else if 0x80 ≤ c.toNat && c.toNat ≤ 0x9f then
    "\\u\x7b".toList ++ hexDigits c.toNat ++ ['\x7d']
  else [c]

def lineText (l : Line) : String :=
  levelLabel l.level ++ " " ++ String.ofList (l.text.toList.flatMap shownInLine) ++ "\n"

def linesText (f : Filter) (lines : List (Topic × Line)) : String :=
  String.join ((lines.filter fun (topic, l) => f.shows topic l).map fun (_, l) => lineText l)

/-- A text below a margin: `first` is put in front of it, and `next` in front of its other lines. -/
def hanging (first next : String) (s : String) : String :=
  first ++ ("\n" ++ next).intercalate (s.splitOn "\n")

/-- Causes below each other. They have numbers if there are several. -/
def causesText (causes : List String) : String :=
  match causes with
  | [cause] => "\n" ++ hanging "    " "    " cause
  | _ =>
    String.join (causes.zipIdx.map fun (cause, i) =>
      "\n" ++ hanging ("    " ++ Nat.repr i ++ ": ") "       " cause)

def Failure.text (f : Failure) : String :=
  "Error: " ++ f.task ++ "\n\nCaused by:" ++
    causesText (f.problem.message :: f.problem.cause?.toList) ++ "\n"

def summaryText (s : Generator.Summary) : String :=
  s!"Wrote {s.totalRules} mappings ({s.symbolRules} symbol, {s.includeRules} include) " ++
    s!"from {s.headersScanned} headers to {s.output.display}\n"

def Outcome.answer (o : Outcome) (f : Filter) : Answer :=
  match o.result with
  | .ok s => ⟨0, summaryText s, linesText f o.lines⟩
  | .error e => ⟨1, "", linesText f o.lines ++ e.text⟩

def Ending.answer : Ending → Answer
  | help long => ⟨0, helpText long, ""⟩
  | version => ⟨0, versionText, ""⟩
  | refused r => ⟨2, "", r.text⟩

/-- The answer to a command line, and the states that the file system goes through. -/
def answer (fs : FileSystem) (filter : Option String) (words : List Bytes) :
    Answer × List FileSystem :=
  match Request.ofWords words with
  | .error e => (e.answer, [])
  | .ok r =>
    let o := r.run fs
    (o.answer (.ofRun filter r.verbose), o.states)

end IncludeMap.CommandLine
