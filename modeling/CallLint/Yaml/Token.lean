/-
Tokens of YAML. Indentation has become tokens that open and close block collections, and a key that is recognized only
by the colon after it has a token of its own in front.
-/
import CallLint.Yaml.Tag

namespace CallLint.Yaml

inductive Token where
  | directive (d : Directive)
  | documentStart
  | documentEnd
  | blockSequence
  | blockMapping
  | blockEnd
  | flowSequence
  | flowSequenceEnd
  | flowMapping
  | flowMappingEnd
  /-- the dash before an item -/
  | item
  /-- the comma between items in brackets -/
  | separator
  | key
  | value
  | alias (name : String)
  | anchor (name : String)
  | tag (t : Tag)
  | scalar (s : Scalar)
deriving DecidableEq, Repr, Inhabited

end CallLint.Yaml
