import BuildMatrix.Job
import BuildMatrix.Yaml.ScalarText

/-!
# The configuration file to start with

The file spells out the default settings and two builds, one of them with coverage. Texts that
would read back as something else than a text are quoted.
-/

namespace BuildMatrix.Starter

/-- A line with a key and a text, under an indentation and perhaps after a dash. -/
def field (lead key : String) (value : String) : List Char :=
  lead.toList ++ key.toList ++ ':' :: ' ' ::
    Yaml.scalarChars { indent := lead.length + 2, column := key.length + 2 } value.toList ++ ['\n']

/-- The text of the file for a default image: the default settings, a build that is named after
the image, and one that measures coverage. -/
def render (image : String := ({} : Defaults).image) : String :=
  let defaults : Defaults := { image }
  .ofList <|
    field "" "checker" defaults.checker ++
    "defaults:\n".toList ++
    field "  " "image" image ++
    field "  " "args" defaults.args ++
    "  jobs: ".toList ++ defaults.jobs.toText.toList ++ ['\n'] ++
    "builds:\n".toList ++
    field "  - " "name" image ++
    field "  - " "name" "coverage" ++
    "    coverage: true\n".toList

end BuildMatrix.Starter
