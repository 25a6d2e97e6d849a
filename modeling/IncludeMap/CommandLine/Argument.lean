/-! # Arguments of the command line

Two arguments have their places, and the others are named by a word that starts with dashes.
-/
namespace IncludeMap.CommandLine

def programName : String := "qtmap"

def version : String := "0.1.0"

inductive Argument where
  | root
  | output
  | config
  | verbose
  | help
  | version
  deriving DecidableEq

namespace Argument

/-- The arguments that have places, in the order of these. -/
def placed : List Argument := [root, output]

def named : List Argument := [config, verbose, help, version]

/-- The arguments that a run is made of. -/
def ofRun : List Argument := [root, output, config, verbose]

/-- The name behind two dashes, or the name of the place. -/
def long : Argument → String
  | root => "QT_INCLUDE_DIR"
  | output => "OUTPUT_FILE"
  | config => "config"
  | verbose => "verbose"
  | help => "help"
  | version => "version"

def letter? : Argument → Option Char
  | verbose => some 'v'
  | help => some 'h'
  | version => some 'V'
  | _ => none

def takesValue : Argument → Bool
  | root | output | config => true
  | verbose | help | version => false

def ofLong? (name : String) : Option Argument := named.find? fun a => a.long = name

def ofLetter? (c : Char) : Option Argument := named.find? fun a => a.letter? = some c

def shown (a : Argument) : String :=
  if placed.contains a then "<" ++ a.long ++ ">"
  else if a = config then "--config <CONFIG>"
  else "--" ++ a.long

end Argument

end IncludeMap.CommandLine
