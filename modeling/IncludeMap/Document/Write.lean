import IncludeMap.Document.Render
import IncludeMap.File.Replace

/-! # Writing a document to a file -/
namespace IncludeMap.Document
open File Text

/-- Replace what the path leads to by the document of the rules. -/
def write (fs : FileSystem) (p : Path) (r : RuleSet) : Effect Unit :=
  (fs.replaceFile p (encode (render r).toList)).after fun _ =>
    Report.say .info
      s!"Wrote {r.symbols.length} symbol and {r.includes.length} include mappings to {p.display}"

end IncludeMap.Document
