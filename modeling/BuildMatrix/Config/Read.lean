import BuildMatrix.Config
import BuildMatrix.Text.Excerpt
import BuildMatrix.Yaml.Document
import BuildMatrix.Yaml.Value

/-!
# Reading configurations from text

A text is a configuration if it is well-formed YAML, its aliases stand for something, and the
value that it holds passes the check. The first of the three that fails decides the error. A text
without content is the configuration with all defaults.
-/

namespace BuildMatrix

/-- Why a text is not a configuration. -/
inductive ReadError where
  | malformed (fault : Yaml.Fault) (text : String)
  | alias (fault : Yaml.AliasFault)
  | invalid (issues : List Issue)
deriving Repr

/-- The text of an error. -/
def ReadError.message : ReadError → String
  | .malformed _ text => text
  | .alias fault => fault.message
  | .invalid issues => Issue.summary issues

namespace Yaml

/-- The value that a text holds. A text without a document holds nothing. -/
def read (text : String) : Except ReadError Value :=
  let cs := text.toList
  let source := Source.ofText cs
  match source.node (Text.widthOf cs) with
  | .error r =>
    .error (.malformed r.fault
      (Text.locate r.fault.message cs source.lineStarts r.start r.stop))
  | .ok none => .ok .null
  | .ok (some node) =>
    match node.toValue with
    | .ok v => .ok v
    | .error fault => .error (.alias fault)

end Yaml

/-- The configuration that a text holds. An empty text is an empty configuration. -/
def Config.read (text : String) : Except ReadError Config :=
  match Yaml.read text with
  | .error e => .error e
  | .ok v =>
    let v := match v with
      | .null => .object []
      | v => v
    match Config.check v with
    | .ok config => .ok config
    | .error issues => .error (.invalid issues)

end BuildMatrix
