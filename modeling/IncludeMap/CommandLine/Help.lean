import IncludeMap.CommandLine.Refusal

/-! # Help

A summary, and a longer text that says more about the program and gives each argument its own
paragraph.
-/
namespace IncludeMap.CommandLine

def Argument.purpose (long : Bool) : Argument → String
  | .root => "Qt include directory"
  | .output => "Generated output mapping file"
  | .config => "Mapping configuration file (YAML). Defaults to .qtmap.yml if present"
  | .verbose => "Enable verbose logging for debugging"
  | .help =>
    if long then "Print help (see a summary with '-h')" else "Print help (see more with '--help')"
  | .version => "Print version"

/-- The names of an argument in a list of arguments. -/
def Argument.heading (a : Argument) : String :=
  if placed.contains a then a.shown
  else
    match a.letter? with
    | some c => String.ofList ['-', c] ++ ", " ++ a.shown
    | none => "    " ++ a.shown

def summary : String :=
  "Generate an include-what-you-use mapping file from a Qt include directory\n"

def description : String :=
  "Scan a Qt include directory and write an include-what-you-use mapping file\n" ++
  "that redirects private Qt headers and object-system symbols to the public\n" ++
  "headers that should be included instead.\n" ++
  "\n" ++
  "Example:\n" ++
  "\n" ++
  "  qtmap /usr/include/x86_64-linux-gnu/qt5 qt5_11.imp\n" ++
  "\n"

def columns (as : List Argument) : String :=
  let width := (as.map fun a => a.heading.length).foldl max 0
  String.join (as.map fun a =>
    "  " ++ a.heading ++ String.ofList (List.replicate (width - a.heading.length) ' ') ++ "  " ++
      a.purpose false ++ "\n")

def paragraphs (as : List Argument) : String :=
  "\n".intercalate (as.map fun a => "  " ++ a.heading ++ "\n          " ++ a.purpose true ++ "\n")

def helpText (long : Bool) : String :=
  let list := if long then paragraphs else columns
  (if long then description else summary) ++ "\n" ++ Usage.general.text ++ "\n\nArguments:\n" ++
    list Argument.placed ++ "\nOptions:\n" ++ list Argument.named

def versionText : String := programName ++ " " ++ version ++ "\n"

end IncludeMap.CommandLine
