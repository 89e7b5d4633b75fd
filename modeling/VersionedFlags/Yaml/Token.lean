import VersionedFlags.Yaml.Property

/-!
# Tokens of YAML text

Brackets come from the text; the blocks that indentation opens and closes have
tokens of their own.
-/

namespace VersionedFlags

namespace Yaml

inductive Token where
  | directive (directive : Directive)
  | documentStart
  | documentEnd
  | blockSequence
  | blockMapping
  | blockEnd
  | flowSequence
  | flowSequenceEnd
  | flowMapping
  | flowMappingEnd
  | comma
  | entry
  | key
  | value
  | anchor (name : String)
  | alias (name : String)
  | tag (tag : ShortTag)
  | scalar (text : String) (plain : Bool)
  deriving DecidableEq, Repr

end Yaml

end VersionedFlags
