import DocStore.Json.Parser
import DocStore.Json.Printer
import DocStore.Segment.Config

/-!
# The text form of a configuration

A configuration is written as an object with all its parts. Reading fills in what is missing, and
refuses names that it does not know. A text may give the parts of a configuration and of its
compression in arrays, a value that is part of a larger one only those of the configuration.
-/

namespace DocStore

namespace Compression

/-- The text form of a compression. -/
def toJson : Compression → Json
  | none => .string "None"
  | zstd level => .object [("Zstd", .object [("level", .int level)])]

/-- The compression with a text form. The level may stand in an array only if `listed` is set. -/
def ofJson? (listed : Bool) : Json → Option Compression
  | .string "None" => some none
  | .object [("None", .null)] => some none
  | .object [("Zstd", form)] =>
    if form.items?.isSome && !listed then Option.none
    else
      match form.parts? ["level"] false with
      | some [some level] => (level.signed? 32).map zstd
      | _ => Option.none
  | _ => Option.none

end Compression

namespace Segment.Config

/-- The text form of a configuration. -/
def toJson (c : Config) : Json :=
  .object
    [("chunk_size", .int c.chunkSize), ("compression", c.compression.toJson),
      ("index_block_size", .int c.indexBlockSize)]

/-- The configuration with a text form. The level of the compression may stand in an array only if
`listed` is set. -/
def ofJson? (listed : Bool) (j : Json) : Option Config := do
  let [chunkSize, compression, indexBlockSize] ←
    j.parts? ["chunk_size", "compression", "index_block_size"] false | none
  let chunkSize ← (chunkSize.map (·.unsigned? 64)).getD (some Config.default.chunkSize)
  let compression ←
    (compression.map (Compression.ofJson? listed)).getD (some Config.default.compression)
  let indexBlockSize ←
    (indexBlockSize.map (·.unsigned? 64)).getD (some Config.default.indexBlockSize)
  pure { chunkSize, compression, indexBlockSize }

/-- The text of a configuration. -/
def render (c : Config) : String :=
  c.toJson.render

/-- The configuration of a text. -/
def parse? (text : String) : Option Config :=
  (Json.parse? text).bind (ofJson? true)

end Segment.Config

end DocStore
