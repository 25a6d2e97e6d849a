import IncludeMap.Config.Save
import IncludeMap.Document.Read
import IncludeMap.Main
import IncludeMap.Proofs.CommandLine.Run
import IncludeMap.Proofs.Config.RoundTrip
import IncludeMap.Proofs.Config.Validate
import IncludeMap.Proofs.Document.Canonical
import IncludeMap.Proofs.Document.Comment
import IncludeMap.Proofs.Document.Entry
import IncludeMap.Proofs.Document.Escape
import IncludeMap.Proofs.Document.Grammar
import IncludeMap.Proofs.Document.Layout
import IncludeMap.Proofs.Document.Literal
import IncludeMap.Proofs.Document.Reading
import IncludeMap.Proofs.Document.RoundTrip
import IncludeMap.Proofs.File.Agreement
import IncludeMap.Proofs.File.Chain
import IncludeMap.Proofs.File.Listing
import IncludeMap.Proofs.File.Lookup
import IncludeMap.Proofs.File.Overwrite
import IncludeMap.Proofs.File.Path
import IncludeMap.Proofs.File.Repeat
import IncludeMap.Proofs.File.Replace
import IncludeMap.Proofs.File.Rollback
import IncludeMap.Proofs.File.Temporary
import IncludeMap.Proofs.File.Walk
import IncludeMap.Proofs.Header.Discover
import IncludeMap.Proofs.Header.Hidden
import IncludeMap.Proofs.Header.Included
import IncludeMap.Proofs.Header.Reading
import IncludeMap.Proofs.Rule.Build
import IncludeMap.Proofs.Rule.Derive
import IncludeMap.Proofs.Rule.Exclusion
import IncludeMap.Proofs.Rule.Generate
import IncludeMap.Proofs.Rule.Growth
import IncludeMap.Proofs.Rule.Listing
import IncludeMap.Proofs.Rule.Order
import IncludeMap.Proofs.Rule.Repeat
import IncludeMap.Proofs.Rule.Session
import IncludeMap.Proofs.Text.Lossy
import IncludeMap.Proofs.Text.Utf8
import IncludeMap.Proofs.Yaml.Character
import IncludeMap.Proofs.Yaml.Event
import IncludeMap.Proofs.Yaml.Layout
import IncludeMap.Proofs.Yaml.Literal
import IncludeMap.Proofs.Yaml.Plain
import IncludeMap.Proofs.Yaml.Quoted
import IncludeMap.Proofs.Yaml.Reading
import IncludeMap.Proofs.Yaml.Scanner
import IncludeMap.Proofs.Yaml.Token
