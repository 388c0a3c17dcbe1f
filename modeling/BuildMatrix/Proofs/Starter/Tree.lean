import Mathlib.Data.List.Permutation
import BuildMatrix.Starter
import BuildMatrix.Yaml.Tree.Builder

/-!
# The tree of the starter file

The tokens of the starter file are those of its fixed text and, twice, those of the scalar that
writes the image.  Whatever tree stands for that scalar, the tree of the file has it in the same two
places (`entries_of_lexemes`).
-/

namespace BuildMatrix.Starter

open Yaml

/-! ## Lexemes -/

/-- A lexeme of a fixed text. -/
def lexeme (kind : TokenKind) (text : String) : Lexeme := ⟨kind, text.toList⟩

/-- The lexemes before the image. -/
def headLexemes : List Lexeme :=
  [lexeme .documentMode "", lexeme .scalar "checker", lexeme .mapValue ":", lexeme .space " ",
    lexeme .scalar "src/test/docker/docker-run-checks.sh", lexeme .newline "\n",
    lexeme .scalar "defaults", lexeme .mapValue ":", lexeme .newline "\n", lexeme .space "  ",
    lexeme .scalar "image", lexeme .mapValue ":", lexeme .space " "]

/-- The arguments as the file has them, on two lines. -/
def brokenArgs : String :=
  "--prefix=/usr --sysconfdir=/etc\n    --with-systemdsystemunitdir=/etc/systemd/system --localstatedir=/var"

/-- The lexemes between the image and the name of the first build. -/
def middleLexemes : List Lexeme :=
  [lexeme .space "  ", lexeme .scalar "args", lexeme .mapValue ":", lexeme .space " ",
    lexeme .scalar brokenArgs, lexeme .newline "\n", lexeme .space "  ", lexeme .scalar "jobs",
    lexeme .mapValue ":", lexeme .space " ", lexeme .scalar "2", lexeme .newline "\n",
    lexeme .scalar "builds", lexeme .mapValue ":", lexeme .newline "\n", lexeme .space "  ",
    lexeme .seqItem "-", lexeme .space " ", lexeme .scalar "name", lexeme .mapValue ":",
    lexeme .space " "]

/-- The lexemes after the name of the first build. -/
def lastLexemes : List Lexeme :=
  [lexeme .space "  ", lexeme .seqItem "-", lexeme .space " ", lexeme .scalar "name",
    lexeme .mapValue ":", lexeme .space " ", lexeme .scalar "coverage", lexeme .newline "\n",
    lexeme .space "    ", lexeme .scalar "coverage", lexeme .mapValue ":", lexeme .space " ",
    lexeme .scalar "true", lexeme .newline "\n"]

/-! ## Trees -/

/-- A token of a fixed text. -/
def token (kind : TokenKind) (text : String) (start indent : Nat) : Token :=
  ⟨kind, text.toList, start, indent⟩

/-- A plain text that ends its line. -/
def line (text : String) (start indent : Nat) : Tree :=
  .leaf (token .scalar text start indent)
    (some [token .newline "\n" (start + text.length) indent])

/-- A key and a value in its line, after some spaces. -/
def pair (lead : List Token) (key : String) (start indent : Nat) (value : Option Tree) :
    Item Tree :=
  { lead
    key := some (.leaf (token .scalar key start indent) none)
    gap := some [token .mapValue ":" (start + key.length) indent,
      token .space " " (start + key.length + 1) indent]
    value }

/-- A key and a value on the lines after it. -/
def heading (key : String) (start : Nat) (value : Option Tree) : Item Tree :=
  { key := some (.leaf (token .scalar key start 0) none)
    gap := some [token .mapValue ":" (start + key.length) 0,
      token .newline "\n" (start + key.length + 1) 0,
      token .space "  " (start + key.length + 2) 0]
    value }

/-- The item of the checker. -/
def checkerItem : Item Tree :=
  pair [] "checker" 0 0 (some (line "src/test/docker/docker-run-checks.sh" 9 0))

/-- The default settings with a tree for the image; their second line starts at an offset. -/
def defaultsTree (v : Tree) (o : Nat) : Tree :=
  .map 58 2
    [pair [] "image" 58 2 (some v),
      pair [token .space "  " o 0] "args" (o + 2) 2 (some (line brokenArgs (o + 8) 2)),
      pair [token .space "  " (o + 113) 0] "jobs" (o + 115) 2 (some (line "2" (o + 121) 2))]

/-- The builder before the image. -/
def beforeImage : Builder :=
  { stack :=
      [.tree (.map 58 2 [pair [] "image" 58 2 none]),
        .tree (.map 0 0 [checkerItem, heading "defaults" 46 none]), .document { start := 0 }]
    lineStarts := [56, 46, 0]
    offset := 65
    indent := 2
    atLineStart := false
    onKeyLine := true }

/-- The builder after the image. -/
def afterImage (v : Tree) (o : Nat) (starts : List Nat) (onKeyLine : Bool) : Builder :=
  { stack :=
      [.tree (.map 58 2 [pair [] "image" 58 2 (some v)]),
        .tree (.map 0 0 [checkerItem, heading "defaults" 46 none]), .document { start := 0 }]
    lineStarts := starts
    offset := o
    onKeyLine }

/-- The builder before the name of the first build. -/
def beforeName (v : Tree) (o : Nat) (starts : List Nat) : Builder :=
  { stack :=
      [.tree (.map (o + 135) 4 [pair [] "name" (o + 135) 4 none]),
        .tree (.seq (o + 133) 2
          [{ lead := [token .seqItem "-" (o + 133) 2, token .space " " (o + 134) 3] }]),
        .tree (.map 0 0
          [checkerItem, heading "defaults" 46 (some (defaultsTree v o)),
            heading "builds" (o + 123) none]),
        .document { start := 0 }]
    lineStarts := [o + 131, o + 123, o + 113, o + 40] ++ starts
    offset := o + 141
    indent := 4
    atLineStart := false
    onKeyLine := true }

/-- The builds, with a tree for the name of the first; the second one starts at another offset. -/
def buildsTree (w : Tree) (o p : Nat) : Tree :=
  .seq (o + 133) 2
    [{ lead := [token .seqItem "-" (o + 133) 2, token .space " " (o + 134) 3]
       value := some (.map (o + 135) 4 [pair [] "name" (o + 135) 4 (some w)]) },
      { lead :=
          [token .space "  " p 0, token .seqItem "-" (p + 2) 2, token .space " " (p + 3) 3]
        value := some (.map (p + 4) 4
          [pair [] "name" (p + 4) 4 (some (line "coverage" (p + 10) 4)),
            pair [token .space "    " (p + 19) 0] "coverage" (p + 23) 4
              (some (line "true" (p + 33) 4))]) }]

/-- The tree of the file. -/
def fileTree (v w : Tree) (o p : Nat) : Tree :=
  .map 0 0
    [checkerItem, heading "defaults" 46 (some (defaultsTree v o)),
      heading "builds" (o + 123) (some (buildsTree w o p))]

/-- The builder after the name of the first build. -/
def afterName (v w : Tree) (o p : Nat) (starts : List Nat) (onKeyLine : Bool) : Builder :=
  { stack :=
      [.tree (.map (o + 135) 4 [pair [] "name" (o + 135) 4 (some w)]),
        .tree (.seq (o + 133) 2
          [{ lead := [token .seqItem "-" (o + 133) 2, token .space " " (o + 134) 3] }]),
        .tree (.map 0 0
          [checkerItem, heading "defaults" 46 (some (defaultsTree v o)),
            heading "builds" (o + 123) none]),
        .document { start := 0 }]
    lineStarts := starts
    offset := p
    onKeyLine }

theorem foldl_headLexemes : headLexemes.foldl Builder.next {} = beforeImage := by
  rfl

theorem foldl_middleLexemes (v : Tree) (o : Nat) (starts : List Nat) (onKeyLine : Bool) :
    middleLexemes.foldl Builder.next (afterImage v o starts onKeyLine) = beforeName v o starts := by
  cases onKeyLine with
  | false => cbv
  | true => cbv

theorem foldl_lastLexemes (v w : Tree) (o p : Nat) (starts : List Nat) (onKeyLine : Bool) :
    let b := lastLexemes.foldl Builder.next (afterName v w o p starts onKeyLine)
    (Builder.popAll b.stack.length b).entries =
      [.document { start := 0, value := some (fileTree v w o p) }] := by
  cases onKeyLine with
  | false => cbv
  | true => cbv

/-! ## The image -/

/-- The way in which a scalar is written. -/
inductive Spelling where
  | plain (text : List Char)
  | single (text : List Char)
  | double (text : List Char)
  /-- A block, given by its header and its lines. -/
  | block (header text : List Char)

namespace Spelling

/-- The lines of a scalar, with the end of the last one. -/
def chars : Spelling → List Char
  | .plain text | .single text | .double text => text ++ ['\n']
  | .block header text => header ++ '\n' :: text

/-- The lexemes of the lines. -/
def lexemes : Spelling → List Lexeme
  | .plain text => [⟨.scalar, text⟩, lexeme .newline "\n"]
  | .single text => [⟨.singleQuoted, text⟩, lexeme .newline "\n"]
  | .double text => [⟨.doubleQuoted, text⟩, lexeme .newline "\n"]
  | .block header text =>
    [⟨.blockHeader, header⟩, lexeme .newline "\n", ⟨.scalar, text⟩]

/-- The length of the lines. -/
def width : Spelling → Nat
  | .plain text | .single text | .double text => Text.widthOf text + 1
  | .block header text => Text.widthOf header + 1 + Text.widthOf text

/-- A scalar in its line, with the end of the line. -/
def leaf (kind : TokenKind) (text : List Char) (start indent : Nat) : Tree :=
  .leaf ⟨kind, text, start, indent⟩
    (some [token .newline "\n" (start + Text.widthOf text) indent])

/-- The tree of a scalar in a map of a given indentation. -/
def tree (start indent : Nat) : Spelling → Tree
  | .plain text => leaf .scalar text start indent
  | .single text => leaf .singleQuoted text start indent
  | .double text => leaf .doubleQuoted text start indent
  | .block header text =>
    .block ⟨.blockHeader, header, start, indent⟩
      [token .newline "\n" (start + Text.widthOf header) indent] indent text

theorem foldl_lexemes_image (s : Spelling) :
    ∃ starts onKeyLine, s.lexemes.foldl Builder.next beforeImage =
      afterImage (s.tree 65 2) (65 + s.width) starts onKeyLine := by
  cases s with
  | plain text =>
    refine ⟨(65 + Text.widthOf text + 1) :: (Builder.lineStartsIn 65 text ++ [56, 46, 0]), false, ?_⟩
    rfl
  | single text =>
    refine ⟨(65 + Text.widthOf text + 1) :: (Builder.lineStartsIn 65 text ++ [56, 46, 0]), false, ?_⟩
    rfl
  | double text =>
    refine ⟨(65 + Text.widthOf text + 1) :: (Builder.lineStartsIn 65 text ++ [56, 46, 0]), false, ?_⟩
    rfl
  | block header text =>
    refine ⟨Builder.lineStartsIn (65 + Text.widthOf header + 1) text ++
      ((65 + Text.widthOf header + 1) :: [56, 46, 0]), true, ?_⟩
    rw [width, ← Nat.add_assoc, ← Nat.add_assoc]
    rfl

theorem foldl_lexemes_name (s : Spelling) (v : Tree) (o : Nat) (starts : List Nat) :
    ∃ starts' onKeyLine, s.lexemes.foldl Builder.next (beforeName v o starts) =
      afterName v (s.tree (o + 141) 4) o (o + 141 + s.width) starts' onKeyLine := by
  cases s with
  | plain text =>
    refine ⟨(o + 141 + Text.widthOf text + 1) ::
      (Builder.lineStartsIn (o + 141) text ++ (beforeName v o starts).lineStarts), false, ?_⟩
    rfl
  | single text =>
    refine ⟨(o + 141 + Text.widthOf text + 1) ::
      (Builder.lineStartsIn (o + 141) text ++ (beforeName v o starts).lineStarts), false, ?_⟩
    rfl
  | double text =>
    refine ⟨(o + 141 + Text.widthOf text + 1) ::
      (Builder.lineStartsIn (o + 141) text ++ (beforeName v o starts).lineStarts), false, ?_⟩
    rfl
  | block header text =>
    refine ⟨Builder.lineStartsIn (o + 141 + Text.widthOf header + 1) text ++
      ((o + 141 + Text.widthOf header + 1) :: (beforeName v o starts).lineStarts), true, ?_⟩
    rw [width, ← Nat.add_assoc, ← Nat.add_assoc]
    rfl

end Spelling

end BuildMatrix.Starter
