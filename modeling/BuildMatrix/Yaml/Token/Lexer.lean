import BuildMatrix.Yaml.Token

/-!
# Cutting YAML text into tokens

The lexer is a machine that looks at the front of the text. It knows how deep the lines of a
scalar have to be indented and how many flow collections are open, and nothing else of the
structure.
-/

namespace BuildMatrix.Yaml.Lexer

/-! ## Looking at the front of the text -/

/-- A blank or the end of the text. -/
def emptyAt : List Char → Bool
  | [] => true
  | c :: _ => c == ' ' || c == '\n' || c == '\r' || c == '\t'

/-- The characters that structure flow collections. -/
def isFlowMark (c : Char) : Bool := c == ',' || c == '[' || c == ']' || c == '\x7b' || c == '\x7d'

/-- Whether a flow mark comes next. -/
def flowMarkAt : List Char → Bool
  | [] => false
  | c :: _ => isFlowMark c

/-- Whether a line ends here. -/
def lineEndAt : List Char → Bool
  | [] | '\n' :: _ | '\r' :: '\n' :: _ => true
  | _ => false

/-- Whether a given line marker stands here. -/
def markerAt (mark : Char) : List Char → Bool
  | a :: b :: c :: rest => a == mark && b == mark && c == mark && emptyAt rest
  | _ => false

/-- Whether a document starts or ends here. -/
def documentMarkAt (cs : List Char) : Bool := markerAt '-' cs || markerAt '.' cs

/-- Whether a scalar whose lines are indented by `indent` goes on with the line that starts here.
At the margin only a document marker stops it; elsewhere blank lines belong to it. -/
def continues (indent : Nat) (cs : List Char) : Bool :=
  if indent = 0 then !documentMarkAt cs
  else
    match cs.dropWhile (· == ' ') with
    | '\n' :: _ | '\r' :: '\n' :: _ => true
    | _ => indent ≤ (cs.takeWhile (· == ' ')).length

/-! ## Cutting -/

/-- The rest of a line without its end, and what follows. -/
def cutLine : List Char → List Char × List Char
  | [] => ([], [])
  | '\n' :: rest => ([], '\n' :: rest)
  | '\r' :: '\n' :: rest => ([], '\r' :: '\n' :: rest)
  | c :: rest => let (line, rest) := cutLine rest; (c :: line, rest)

/-- The token of a text; nothing if the text is empty. -/
def lexeme (kind : TokenKind) (text : List Char) : List Lexeme :=
  if text.isEmpty then [] else [⟨kind, text⟩]

/-- Cuts spaces. -/
def cutSpaces (cs : List Char) : List Lexeme × List Char :=
  (lexeme .space (cs.takeWhile (· == ' ')), cs.dropWhile (· == ' '))

/-- Spaces and tabs. -/
def isBlank (c : Char) : Bool := c == ' ' || c == '\t'

/-- Cuts spaces and tabs. -/
def cutBlanks (cs : List Char) : List Lexeme × List Char :=
  (lexeme .space (cs.takeWhile isBlank), cs.dropWhile isBlank)

/-- Cuts a line end. -/
def cutNewline : List Char → List Lexeme × List Char
  | '\n' :: rest => ([⟨.newline, ['\n']⟩], rest)
  | '\r' :: '\n' :: rest => ([⟨.newline, ['\r', '\n']⟩], rest)
  | cs => ([], cs)

/-- The characters that end an anchor or an alias. -/
def endsAnchor (c : Char) : Bool :=
  c == ' ' || isFlowMark c || c == '\n' || c == '\r' || c == '\t'

/-- Cuts an anchor or an alias, given with its mark. -/
def cutAnchor (cs : List Char) : List Char × List Char := cs.span (!endsAnchor ·)

/-- The characters of a tag. -/
def isTagChar (c : Char) : Bool :=
  c.isAlphanum || "-#;/?:@&=+$_.!~*'()".toList.contains c

/-- Whether a character is a hexadecimal digit. -/
def isHexDigit (c : Char) : Bool :=
  c.isDigit || ('a' ≤ c && c ≤ 'f') || ('A' ≤ c && c ≤ 'F')

/-- Cuts the characters of a tag, escaped ones included. -/
def cutTagChars : List Char → List Char × List Char
  | '%' :: a :: b :: rest =>
    if isHexDigit a && isHexDigit b then
      let (text, rest) := cutTagChars rest
      ('%' :: a :: b :: text, rest)
    else ([], '%' :: a :: b :: rest)
  | c :: rest =>
    if isTagChar c then
      let (text, rest) := cutTagChars rest
      (c :: text, rest)
    else ([], c :: rest)
  | [] => ([], [])

/-- Cuts a tag, given with its mark. -/
def cutTag : List Char → List Char × List Char
  | '!' :: '<' :: rest =>
    let (uri, rest) := rest.span fun c => !(emptyAt [c]) && c != '>'
    match rest with
    | '>' :: rest => ('!' :: '<' :: uri ++ ['>'], rest)
    | rest => ('!' :: '<' :: uri, rest)
  | c :: rest => let (text, rest) := cutTagChars rest; (c :: text, rest)
  | [] => ([], [])

/-! ## Scalars -/

/-- The rest of a single-quoted text up to its closing quote, if it has one. -/
def closeSingle : List Char → Option (List Char × List Char)
  | [] => none
  | '\'' :: '\'' :: rest => (closeSingle rest).map fun (text, tail) => ('\'' :: '\'' :: text, tail)
  | '\'' :: rest => some (['\''], rest)
  | c :: rest => (closeSingle rest).map fun (text, tail) => (c :: text, tail)

/-- The rest of a double-quoted text up to its closing quote, if it has one. -/
def closeDouble : List Char → Option (List Char × List Char)
  | [] => none
  | '\\' :: c :: rest => (closeDouble rest).map fun (text, tail) => ('\\' :: c :: text, tail)
  | '"' :: rest => some (['"'], rest)
  | c :: rest => (closeDouble rest).map fun (text, tail) => (c :: text, tail)

/-- The part of a quoted text before the first line that is not indented enough. The second
argument is the text that follows the quoted one. -/
def cutAtUnindent (indent : Nat) (after : List Char) : List Char → List Char
  | [] => []
  | '\n' :: rest =>
    if continues indent (rest ++ after) then '\n' :: cutAtUnindent indent after rest else []
  | '\r' :: '\n' :: rest =>
    if continues indent (rest ++ after) then '\r' :: '\n' :: cutAtUnindent indent after rest else []
  | c :: rest => c :: cutAtUnindent indent after rest

/-- Cuts a quoted scalar. One that is never closed takes the whole text. -/
def cutQuoted (indent : Nat) (cs : List Char) : Lexeme × List Char :=
  match cs with
  | [] => (⟨.doubleQuoted, []⟩, [])
  | quote :: rest =>
    let kind := if quote == '"' then TokenKind.doubleQuoted else .singleQuoted
    match if quote == '"' then closeDouble rest else closeSingle rest with
    | none => (⟨kind, cs⟩, [])
    | some (text, after) =>
      let kept := quote :: cutAtUnindent indent after text
      (⟨kind, kept⟩, cs.drop kept.length)

/-- How many characters belong to a plain scalar. Of the characters read so far, `kept` belong to
it in any case and `pending` more do if the scalar goes on. -/
def plainLength (indent : Nat) (inFlow : Bool) (kept pending : Nat) : List Char → Nat
  | [] => kept
  | ':' :: rest =>
    if emptyAt rest || (inFlow && flowMarkAt rest) then kept
    else plainLength indent inFlow (kept + pending + 1) 0 rest
  | '\r' :: '\n' :: rest =>
    if rest.head? == some '#' || (inFlow && flowMarkAt rest) || !continues indent rest then kept
    else plainLength indent inFlow kept (pending + 2) rest
  | '\r' :: rest =>
    let kept := kept + pending + 1
    if rest.head? == some '#' || (inFlow && flowMarkAt rest) then kept
    else plainLength indent inFlow kept 0 rest
  | c :: rest =>
    if c == ' ' || c == '\t' then
      if rest.head? == some '#' || (inFlow && flowMarkAt rest) then kept
      else plainLength indent inFlow kept (pending + 1) rest
    else if c == '\n' then
      if rest.head? == some '#' || (inFlow && flowMarkAt rest) || !continues indent rest then kept
      else plainLength indent inFlow kept (pending + 1) rest
    else if inFlow && isFlowMark c then kept
    else plainLength indent inFlow (kept + pending + 1) 0 rest

/-- Cuts a plain scalar, which may be empty. -/
def cutPlain (indent : Nat) (inFlow : Bool) (cs : List Char) : Lexeme × List Char :=
  let n := plainLength indent inFlow 0 0 cs
  (⟨.scalar, cs.take n⟩, cs.drop n)

/-- The indentation that a block header asks for, less one, and whether it keeps all line ends. -/
def headerSettings (indent : Option Nat) (keep : Bool) : List Char → Option Nat × Bool
  | '+' :: rest => headerSettings indent true rest
  | '-' :: rest => headerSettings indent keep rest
  | c :: rest =>
    if '1' ≤ c && c ≤ '9' then headerSettings (some (c.toNat - 49)) keep rest else (indent, keep)
  | [] => (indent, keep)

/-- A text as lines that keep their ends. -/
def splitLines : List Char → List (List Char)
  | [] => []
  | '\n' :: rest => ['\n'] :: splitLines rest
  | c :: rest =>
    match splitLines rest with
    | [] => [[c]]
    | line :: lines => (c :: line) :: lines

/-- A line of spaces that is ended. -/
def isBlankLine (line : List Char) : Bool :=
  match line.dropWhile (· == ' ') with
  | ['\n'] | ['\r', '\n'] => true
  | _ => false

/-- The number of spaces that a line starts with. -/
def spacesAt (line : List Char) : Nat := (line.takeWhile (· == ' ')).length

/-- A line of at most `indent` spaces. -/
def isSlackLine (indent : Nat) (line : List Char) : Bool :=
  match line.dropWhile (· == ' ') with
  | [] | ['\n'] | ['\r'] | ['\r', '\n'] => spacesAt line ≤ indent
  | _ => false

/-- Lines without the slack ones at the end; the first line stays. The lines come last first. -/
def dropSlack (indent : Nat) : List (List Char) → List (List Char)
  | line :: next :: rest =>
    if isSlackLine indent line then dropSlack indent (next :: rest) else line :: next :: rest
  | lines => lines

/-- Cuts the lines of a block scalar. The answer ends with the indentation of its lines. -/
def cutBlock (indentNext : Nat) (explicit : Option Nat) (keep : Bool) (cs : List Char) :
    Lexeme × List Char × Nat :=
  let lines := splitLines cs
  let blank := lines.takeWhile isBlankLine
  let rest := lines.dropWhile isBlankLine
  let indent := (rest.head?.map spacesAt).getD 0
  let inner :=
    if indent < indentNext then indentNext
    else
      match explicit with
      | none => indent
      | some n => n + (if indentNext = 0 then 1 else indentNext)
  let body := if indent < indentNext then [] else rest.takeWhile (continues inner)
  let content := blank ++ body
  let after := (rest.drop body.length).flatten
  let kept :=
    match after.dropWhile (· == ' ') with
    | '\t' :: _ =>
      content.flatten ++
        after.takeWhile fun c => c == ' ' || c == '\t' || c == '\r' || c == '\n'
    | _ => if keep then content.flatten else (dropSlack indent content.reverse).reverse.flatten
  (⟨.scalar, kept⟩, cs.drop kept.length, inner)

/-! ## The machine -/

/-- What the lexer expects at the front of the text. -/
inductive Mode where
  | stream
  | lineStart
  | blockStart
  | document
  | documentNode
  | flow
  | flowNode
deriving DecidableEq, Repr

/-- What the lexer remembers of the text before. -/
structure Memory where
  /-- The least indentation of the further lines of a scalar. -/
  indentNext : Nat := 0
  /-- The indentation of the line with its indicators. -/
  indentValue : Nat := 0
  /-- The number of open flow collections. -/
  flowLevel : Nat := 0
  /-- Whether a key that may be followed by a bare colon has just ended. -/
  flowKey : Bool := false
  /-- The indentation of the line in a flow collection, until its first token. -/
  flowIndent : Option Nat := none
deriving DecidableEq, Repr

/-- What one move of the machine yields. -/
structure Move where
  lexemes : List Lexeme
  mode : Mode
  memory : Memory
  rest : List Char

/-- The text of a directive: up to a comment, without the blanks before it. -/
def directiveText (line : List Char) : List Char :=
  let rec beforeComment : List Char → List Char
    | a :: '#' :: rest => if isBlank a then [] else a :: beforeComment ('#' :: rest)
    | a :: rest => a :: beforeComment rest
    | [] => []
  ((beforeComment line).reverse.dropWhile isBlank).reverse

/-- Between documents. -/
def moveStream (m : Memory) (cs : List Char) : Move :=
  let (mark, cs) : List Lexeme × List Char := match cs with
    | '\uFEFF' :: rest => ([⟨.byteOrderMark, ['\uFEFF']⟩], rest)
    | _ => ([], cs)
  let (line, after) := cutLine cs
  if line.head? = some '%' then
    let text := directiveText line
    let (spaces, comment) := cutBlanks (line.drop text.length)
    ⟨mark ++ lexeme .directive text ++ spaces ++ lexeme .comment comment, .stream, m, after⟩
  else
    let (spaces, comment) := cutBlanks line
    if comment.isEmpty || comment.head? = some '#' then
      let (newline, rest) := cutNewline after
      ⟨mark ++ spaces ++ lexeme .comment comment ++ newline, .stream, m, rest⟩
    else ⟨mark ++ [⟨.documentMode, []⟩], .lineStart, m, cs⟩

/-- At the start of a line. -/
def moveLineStart (m : Memory) (cs : List Char) : Move :=
  if markerAt '-' cs then
    ⟨[⟨.documentStart, cs.take 3⟩], .document, { m with indentValue := 0, indentNext := 0 },
      cs.drop 3⟩
  else if markerAt '.' cs then
    ⟨[⟨.documentEnd, cs.take 3⟩], .stream, { m with indentValue := 0, indentNext := 0 }, cs.drop 3⟩
  else
    let (spaces, rest) := cutSpaces cs
    let indentValue := spacesAt cs
    let indentNext :=
      if indentValue < m.indentNext && !emptyAt (rest.drop 1) then indentValue else m.indentNext
    ⟨spaces, .blockStart, { m with indentValue, indentNext }, rest⟩

/-- The kind of a block indicator. -/
def indicator? : Char → Option TokenKind
  | '-' => some .seqItem
  | '?' => some .explicitKey
  | ':' => some .mapValue
  | _ => none

/-- At the indicators that start a line. -/
def moveBlockStart (m : Memory) (cs : List Char) : Move :=
  match cs with
  | c :: rest =>
    match indicator? c with
    | some kind =>
      if emptyAt rest then
        let (spaces, after) := cutBlanks rest
        let memory :=
          { m with
            indentNext := m.indentValue + 1
            indentValue := m.indentValue + 1 + (rest.takeWhile isBlank).length }
        ⟨⟨kind, [c]⟩ :: spaces, .blockStart, memory, after⟩
      else ⟨[], .document, m, cs⟩
    | none => ⟨[], .document, m, cs⟩
  | [] => ⟨[], .document, m, []⟩

/-- A property or an indicator before a node, with the blanks after it. -/
def cutProperty? (m : Memory) (cs : List Char) : Option (List Lexeme × Memory × List Char) :=
  match cs with
  | '!' :: _ =>
    let (text, rest) := cutTag cs
    let (spaces, rest) := cutBlanks rest
    some (⟨.tag, text⟩ :: spaces, m, rest)
  | '&' :: _ =>
    let (text, rest) := cutAnchor cs
    let (spaces, rest) := cutBlanks rest
    some (⟨.anchor, text⟩ :: spaces, m, rest)
  | c :: rest =>
    match indicator? c with
    | none => none
    | some kind =>
      if emptyAt rest || (m.flowLevel != 0 && flowMarkAt rest) then
        let memory :=
          if m.flowLevel = 0 then { m with indentNext := m.indentValue + 1 }
          else { m with flowKey := false }
        let (spaces, rest) := cutBlanks rest
        some (⟨kind, [c]⟩ :: spaces, memory, rest)
      else none
  | [] => none

/-- In the middle of a line of a block. -/
def moveDocument (m : Memory) (cs : List Char) : Move :=
  let (spaces, rest) := cutBlanks cs
  ⟨spaces, .documentNode, m, rest⟩

/-- The mode after a token that may stand inside or outside flow collections. -/
def modeAfter (m : Memory) : Mode := if m.flowLevel = 0 then .document else .flow

/-- At a node of a block, or its properties. -/
def moveDocumentNode (m : Memory) (cs : List Char) : Move :=
  match cutProperty? m cs with
  | some (lexemes, memory, rest) => ⟨lexemes, .documentNode, memory, rest⟩
  | none =>
    if lineEndAt cs then
      let (newline, rest) := cutNewline cs
      ⟨newline, .lineStart, m, rest⟩
    else
      match cs with
      | '#' :: _ =>
        let (comment, rest) := cutLine cs
        let (newline, rest) := cutNewline rest
        ⟨⟨.comment, comment⟩ :: newline, .lineStart, m, rest⟩
      | '\x7b' :: rest =>
        ⟨[⟨.flowMapStart, ['\x7b']⟩], .flow, { m with flowKey := false, flowLevel := 1 }, rest⟩
      | '[' :: rest =>
        ⟨[⟨.flowSeqStart, ['[']⟩], .flow, { m with flowKey := false, flowLevel := 1 }, rest⟩
      | '\x7d' :: rest => ⟨[⟨.flowMapEnd, ['\x7d']⟩], .document, m, rest⟩
      | ']' :: rest => ⟨[⟨.flowSeqEnd, [']']⟩], .document, m, rest⟩
      | '*' :: _ =>
        let (text, rest) := cutAnchor cs
        ⟨[⟨.alias, text⟩], .document, m, rest⟩
      | '"' :: _ | '\'' :: _ =>
        let (quoted, rest) := cutQuoted m.indentNext cs
        ⟨[quoted], modeAfter m, m, rest⟩
      | '|' :: after | '>' :: after =>
        let (explicit, keep) := headerSettings none false after
        let (header, rest) := cs.span fun c => !emptyAt [c] && c != '#'
        let (spaces, rest) := cutBlanks rest
        let (remark, rest) := cutLine rest
        let (newline, rest) := cutNewline rest
        let (block, rest, indentNext) := cutBlock m.indentNext explicit keep rest
        ⟨⟨.blockHeader, header⟩ :: spaces ++ lexeme (.ofText remark) remark ++ newline ++ [block],
          .lineStart, { m with indentNext }, rest⟩
      | _ =>
        let (plain, rest) := cutPlain m.indentNext (m.flowLevel != 0) cs
        ⟨[plain], modeAfter m, m, rest⟩

/-- In a flow collection, before the next token. A line that is not indented enough ends all
flow collections, unless it closes the outermost one. -/
def moveFlow (m : Memory) (cs : List Char) : Move :=
  match cutNewline cs with
  | ([], _) =>
    match cutBlanks cs with
    | ([], _) =>
      let unindented := match m.flowIndent with
        | none => false
        | some indent =>
          (indent < m.indentNext && cs.head? != some '#' || indent == 0 && documentMarkAt cs) &&
            !(indent + 1 == m.indentNext && m.flowLevel == 1 &&
              (cs.head? == some ']' || cs.head? == some '\x7d'))
      if unindented then
        ⟨[⟨.flowErrorEnd, []⟩], .lineStart, { m with flowLevel := 0, flowIndent := none }, cs⟩
      else
        let m := { m with flowIndent := none }
        match cs with
        | ',' :: rest => ⟨[⟨.comma, [',']⟩], .flow, { m with flowKey := false }, rest⟩
        | _ => ⟨[], .flowNode, m, cs⟩
    | (spaces, rest) => ⟨spaces, .flow, m, rest⟩
  | (newline, rest) =>
    let (spaces, after) := cutSpaces rest
    let indent := spacesAt rest
    ⟨newline ++ spaces, .flow, { m with indentValue := indent, flowIndent := some indent }, after⟩

/-- A plain scalar in a flow collection. -/
def moveFlowPlain (m : Memory) (cs : List Char) : Move :=
  let (plain, rest) := cutPlain m.indentNext true cs
  ⟨[plain], .flow, { m with flowKey := false }, rest⟩

/-- At a node of a flow collection, or its properties. -/
def moveFlowNode (m : Memory) (cs : List Char) : Move :=
  match cutProperty? m cs with
  | some (lexemes, memory, rest) => ⟨lexemes, .flowNode, memory, rest⟩
  | none =>
    if lineEndAt cs then ⟨[], .flow, m, cs⟩
    else
      let opened := { m with flowKey := false, flowLevel := m.flowLevel + 1 }
      let closed := { m with flowKey := true, flowLevel := m.flowLevel - 1 }
      match cs with
      | '#' :: _ =>
        let (comment, rest) := cutLine cs
        ⟨[⟨.comment, comment⟩], .flow, m, rest⟩
      | '\x7b' :: rest => ⟨[⟨.flowMapStart, ['\x7b']⟩], .flow, opened, rest⟩
      | '[' :: rest => ⟨[⟨.flowSeqStart, ['[']⟩], .flow, opened, rest⟩
      | '\x7d' :: rest => ⟨[⟨.flowMapEnd, ['\x7d']⟩], modeAfter closed, closed, rest⟩
      | ']' :: rest => ⟨[⟨.flowSeqEnd, [']']⟩], modeAfter closed, closed, rest⟩
      | '*' :: _ =>
        let (text, rest) := cutAnchor cs
        ⟨[⟨.alias, text⟩], .flow, m, rest⟩
      | '"' :: _ | '\'' :: _ =>
        let (quoted, rest) := cutQuoted m.indentNext cs
        ⟨[quoted], .flow, { m with flowKey := true }, rest⟩
      | ':' :: rest =>
        if m.flowKey then
          let (spaces, rest) := cutBlanks rest
          ⟨⟨.mapValue, [':']⟩ :: spaces, .flow, { m with flowKey := false }, rest⟩
        else moveFlowPlain m cs
      | _ => moveFlowPlain m cs

/-- One move. -/
def move : Mode → Memory → List Char → Move
  | .stream => moveStream
  | .lineStart => moveLineStart
  | .blockStart => moveBlockStart
  | .document => moveDocument
  | .documentNode => moveDocumentNode
  | .flow => moveFlow
  | .flowNode => moveFlowNode

/-- Moves until the text ends, at most a given number of times. -/
def run : Nat → Mode → Memory → List Char → List Lexeme
  | 0, _, _, _ => []
  | _, _, _, [] => []
  | n + 1, mode, memory, cs =>
    let next := move mode memory cs
    next.lexemes ++ run n next.mode next.memory next.rest

end Lexer

/-- Cuts a text into tokens. Of six moves in a row, at least one takes characters. -/
def lex (cs : List Char) : List Lexeme := Lexer.run (6 * cs.length + 6) .stream {} cs

end BuildMatrix.Yaml
