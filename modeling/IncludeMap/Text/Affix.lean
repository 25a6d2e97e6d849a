/-! # Parts of a text around a separator -/
namespace IncludeMap.Text

/-- What stands before and behind the first place where the separator occurs. -/
def splitOnce (separator : List Char) : List Char → Option (List Char × List Char)
  | [] => (separator.isPrefixOf? []).map fun rest => ([], rest)
  | c :: cs =>
    match separator.isPrefixOf? (c :: cs) with
    | some rest => some ([], rest)
    | none => (splitOnce separator cs).map fun (before, rest) => (c :: before, rest)

/-- The text without both its ends, if it has them and they do not overlap. -/
def between? (first last s : List Char) : Option (List Char) :=
  (first.isPrefixOf? s).bind fun rest => last.isSuffixOf? rest

end IncludeMap.Text
