import IncludeMap.CommandLine.Filter
import IncludeMap.CommandLine.Request
import IncludeMap.Config.Load
import IncludeMap.Generate

/-! # Runs

A run takes its configuration from the file that the command line names, or else from the first of
some files of the workplace that is there, and generates the mapping under it. Neither the wish to
hear much nor a filter has a part in this: they only choose among the lines that are reported.
-/
namespace IncludeMap.CommandLine
open File

structure Failure where
  task : String
  problem : Problem

structure Outcome where
  result : Except Failure Generator.Summary
  lines : List (Topic × Line)
  /-- The states of the file system, one after each change. -/
  states : List FileSystem

def Outcome.final (o : Outcome) (fs : FileSystem) : FileSystem := o.states.getLast?.getD fs

def Outcome.failure (task : String) (p : Problem) : Outcome := ⟨.error ⟨task, p⟩, [], []⟩

def Outcome.announced (o : Outcome) (line : Line) : Outcome :=
  { o with lines := (.request, line) :: o.lines }

def usualConfigs : List Path := [".qtmap.yml", ".qtmap.yaml"].map Path.ofString

namespace Request

def configFile? (r : Request) (fs : FileSystem) : Option Path :=
  r.config.or (usualConfigs.find? fs.exists?)

def runUnder (r : Request) (fs : FileSystem) (c : Config) : Outcome :=
  match Generator.ofConfig c with
  | .error p => .failure "Invalid mapping configuration" p
  | .ok g =>
    let effect := g.generate fs r.root r.output
    let task := s!"Failed to generate mappings from {r.root.display} into {r.output.display}"
    ⟨effect.report.value.mapError (⟨task, ·⟩), effect.report.lines.map fun l => (.mapping, l),
      effect.states⟩

def run (r : Request) (fs : FileSystem) : Outcome :=
  match r.configFile? fs with
  | none => r.runUnder fs .default
  | some p =>
    let line : Line := ⟨.debug, s!"Loading mapping configuration from {p.display}"⟩
    let outcome : Outcome :=
      match Config.load fs p with
      | .error e => .failure s!"Failed to load configuration from {p.display}" e
      | .ok c => r.runUnder fs c
    outcome.announced line

end Request

end IncludeMap.CommandLine
