import BuildMatrix.Text.Units

/-!
# Tokens of YAML text

A token is a stretch of text with its offset. The kind of a token is read off its text, except for
plain scalars, which have no mark of their own.
-/

namespace BuildMatrix.Yaml

/-- What a token is. -/
inductive TokenKind where
  | byteOrderMark
  | documentMode
  | flowErrorEnd
  | scalar
  | documentStart
  | documentEnd
  | newline
  | seqItem
  | explicitKey
  | mapValue
  | flowMapStart
  | flowMapEnd
  | flowSeqStart
  | flowSeqEnd
  | comma
  | space
  | comment
  | directive
  | alias
  | anchor
  | tag
  | singleQuoted
  | doubleQuoted
  | blockHeader
  | unknown
deriving DecidableEq, Repr, Inhabited

namespace TokenKind

/-- The name of a kind in messages. -/
def name : TokenKind → String
  | .byteOrderMark => "byte-order-mark"
  | .documentMode => "doc-mode"
  | .flowErrorEnd => "flow-error-end"
  | .scalar => "scalar"
  | .documentStart => "doc-start"
  | .documentEnd => "doc-end"
  | .newline => "newline"
  | .seqItem => "seq-item-ind"
  | .explicitKey => "explicit-key-ind"
  | .mapValue => "map-value-ind"
  | .flowMapStart => "flow-map-start"
  | .flowMapEnd => "flow-map-end"
  | .flowSeqStart => "flow-seq-start"
  | .flowSeqEnd => "flow-seq-end"
  | .comma => "comma"
  | .space => "space"
  | .comment => "comment"
  | .directive => "directive-line"
  | .alias => "alias"
  | .anchor => "anchor"
  | .tag => "tag"
  | .singleQuoted => "single-quoted-scalar"
  | .doubleQuoted => "double-quoted-scalar"
  | .blockHeader => "block-scalar-header"
  | .unknown => "error"

/-- The kind of a token that is not a plain scalar, read off its text. -/
def ofText : List Char → TokenKind
  | ['\uFEFF'] => .byteOrderMark
  | ['-', '-', '-'] => .documentStart
  | ['.', '.', '.'] => .documentEnd
  | [] | ['\n'] | ['\r', '\n'] => .newline
  | ['-'] => .seqItem
  | ['?'] => .explicitKey
  | [':'] => .mapValue
  | ['\x7b'] => .flowMapStart
  | ['\x7d'] => .flowMapEnd
  | ['['] => .flowSeqStart
  | [']'] => .flowSeqEnd
  | [','] => .comma
  | c :: _ =>
    match c with
    | ' ' | '\t' => .space
    | '#' => .comment
    | '%' => .directive
    | '*' => .alias
    | '&' => .anchor
    | '!' => .tag
    | '\'' => .singleQuoted
    | '"' => .doubleQuoted
    | '|' | '>' => .blockHeader
    | _ => .unknown

end TokenKind

/-- A token as it is cut from the text. -/
structure Lexeme where
  kind : TokenKind
  text : List Char
deriving DecidableEq, Repr, Inhabited

/-- A token with its offset in the text and the indentation of its line. -/
structure Token where
  kind : TokenKind
  text : List Char
  start : Nat
  indent : Nat
deriving DecidableEq, Repr, Inhabited

namespace Token

/-- The length of a token. -/
def width (t : Token) : Nat := Text.widthOf t.text

/-- The offset just after a token. -/
def stop (t : Token) : Nat := t.start + t.width

end Token

end BuildMatrix.Yaml
