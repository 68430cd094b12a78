import Arcade.Token.Basic

/-! Blocks delimited by indentation, made explicit. A block is opened by a line that starts with
`if`, `while`, `for` or `class`, or that ends with `=>`. If the next line is deeper, the block
may do without `end`: one is added before the first line that is not deeper than the opening
one. -/

namespace Arcade.Indent

/-- An open block: the indentation of its first line, and whether the next line is deeper, so
that indentation may close it. -/
structure Open where
  indent : Nat
  implicit : Bool
deriving DecidableEq

def isEol (token : Token) : Bool := token.kind = .eol

/-- Splits tokens after every line end. No line is empty. -/
def logicalLines : List Token → List (List Token)
  | [] => []
  | token :: rest =>
    if isEol token then [token] :: logicalLines rest
    else match logicalLines rest with
      | [] => [[token]]
      | line :: lines => (token :: line) :: lines

/-- The indentation of a line that has one: it starts a physical line and is not blank. -/
def lineIndent? : List Token → Option Nat
  | [] => none
  | first :: _ => if isEol first then none else first.indent

/-- Whether a line opens a block that it does not close itself. -/
def opensBlock (line : List Token) : Bool :=
  let content := line.filter (!isEol ·)
  let opener :=
    match content.head? with
    | some ⟨.keyword word, _, _, _⟩ => word.opensBlock
    | _ => false
  match content.getLast? with
  | some ⟨.punctuation .arrow, _, _, _⟩ => true
  | some ⟨.keyword .endWord, _, _, _⟩ => false
  | _ => opener

/-- Lines that start with `end` or `else` belong to the block of their own level, and close
only deeper ones. -/
def closesOwnLevel (first : Token) : Bool := !first.kind.isBlockTerminator

/-- The line that closes a block of the given indentation. Its `end` carries that indentation,
so that a second pass closes nothing twice. -/
def endLine (offset : Nat) (pos : Position) (indent : Nat) : List Token :=
  [{ Token.synthesized (.keyword .endWord) offset pos with indent := some indent },
    Token.synthesized .eol offset pos]

/-- The open blocks, innermost first, that a line of the given indentation leaves open, and the
indentations of those it closes. -/
def closeDeeper (indent : Nat) (ownLevel : Bool) : List Open → List Nat × List Open
  | [] => ([], [])
  | top :: rest =>
    if top.implicit && (indent < top.indent || (ownLevel && top.indent = indent)) then
      let (closed, left) := closeDeeper indent ownLevel rest
      (top.indent :: closed, left)
    else ([], top :: rest)

/-- What one line adds before itself, and the blocks open after it. `following` are the lines
after it. -/
def visitLine (line : List Token) (following : List (List Token)) (opened : List Open) :
    List Token × List Open :=
  match line, lineIndent? line with
  | first :: _, some indent =>
    let (closed, left) := closeDeeper indent (closesOwnLevel first) opened
    let left := if first.kind = .keyword .endWord then left.drop 1 else left
    let left :=
      if opensBlock line then
        ⟨indent, (following.findSome? lineIndent?).any (indent < ·)⟩ :: left
      else left
    (closed.flatMap (endLine first.span.start first.pos), left)
  | _, _ => ([], opened)

def visitLines : List (List Token) → List Open → List Token × List Open
  | [], opened => ([], opened)
  | line :: lines, opened =>
    let (added, opened) := visitLine line lines opened
    let (rest, opened) := visitLines lines opened
    (added ++ line ++ rest, opened)

/-- The implicit blocks closed by the end of the input. A missing explicit `end` is left for
the parser to report. -/
def closeRemaining (last : Token) (opened : List Open) : List Token :=
  let closed := opened.takeWhile (·.implicit)
  if closed.isEmpty then []
  else
    (if isEol last then [] else [Token.synthesized .eol last.span.stop last.pos])
      ++ closed.flatMap (fun block => endLine last.span.stop last.pos block.indent)

/-- Adds an explicit `end` for every block that indentation closes. -/
def addBlockEnds (tokens : List Token) : List Token :=
  let (output, opened) := visitLines (logicalLines tokens) []
  match tokens.getLast? with
  | none => output
  | some last => output ++ closeRemaining last opened

end Arcade.Indent
