import ShellFront.Source.Span

/-!
# Tokens

The words of the language: keywords, symbols, literals, names, flags and paths, each with the text
that it stands for and the place where it was read.

## Contents
- `Keyword`, `Symbol`, `Radix`, `StringStyle` with their spellings.
- `TokenKind` and its display name; classes of kinds (`isNumber`, `isName`, `isPipe`, …).
- `Token`.
-/

namespace ShellFront

/-! ## Keywords -/

/-- A reserved word. -/
inductive Keyword where
  | letKw
  | constKw
  | setKw
  | ifKw
  | elifKw
  | elseKw
  | forKw
  | inKw
  | whileKw
  | loopKw
  | matchKw
  | tryKw
  | catchKw
  | fnKw
  | macroKw
  | aliasKw
  | objKw
  | enumKw
  | testKw
  | useKw
  | fromKw
  | importKw
  | sourceKw
  | asKw
  | returnKw
  | breakKw
  | continueKw
  | trueKw
  | falseKw
  | nullKw
  | notKw
  | andKw
  | orKw
deriving DecidableEq

namespace Keyword

/-- How a keyword is written. -/
def text : Keyword → String
  | letKw => "let"
  | constKw => "const"
  | setKw => "set"
  | ifKw => "if"
  | elifKw => "elif"
  | elseKw => "else"
  | forKw => "for"
  | inKw => "in"
  | whileKw => "while"
  | loopKw => "loop"
  | matchKw => "match"
  | tryKw => "try"
  | catchKw => "catch"
  | fnKw => "fn"
  | macroKw => "macro"
  | aliasKw => "alias"
  | objKw => "obj"
  | enumKw => "enum"
  | testKw => "test"
  | useKw => "use"
  | fromKw => "from"
  | importKw => "import"
  | sourceKw => "source"
  | asKw => "as"
  | returnKw => "return"
  | breakKw => "break"
  | continueKw => "continue"
  | trueKw => "true"
  | falseKw => "false"
  | nullKw => "null"
  | notKw => "not"
  | andKw => "and"
  | orKw => "or"

/-- All keywords. -/
def all : List Keyword :=
  [ letKw, constKw, setKw, ifKw, elifKw, elseKw, forKw, inKw, whileKw, loopKw, matchKw, tryKw,
    catchKw, fnKw, macroKw, aliasKw, objKw, enumKw, testKw, useKw, fromKw, importKw, sourceKw,
    asKw, returnKw, breakKw, continueKw, trueKw, falseKw, nullKw, notKw, andKw, orKw ]

/-- The keyword with a given spelling. -/
def ofText? (text : String) : Option Keyword := all.find? (fun k => k.text == text)

/-- Whether a keyword can only open a statement and never go on with an expression. -/
def opensStatement : Keyword → Bool
  | letKw | constKw | ifKw | forKw | whileKw | loopKw | matchKw | tryKw | fnKw | macroKw
  | aliasKw | objKw | enumKw | testKw | useKw | fromKw | sourceKw | returnKw | breakKw
  | continueKw => true
  | _ => false

/-- Whether a keyword is an operator or a value, so that it keeps its meaning among words. -/
def isOperatorOrValue : Keyword → Bool
  | notKw | andKw | orKw | trueKw | falseKw | nullKw => true
  | _ => false

end Keyword

/-! ## Symbols -/

/-- An operator, a bracket or another mark. -/
inductive Symbol where
  | pipe
  | pipeAppend
  | pipeNull
  | pipeError
  | plus
  | concat
  | minus
  | star
  | slash
  | percent
  | equal
  | notEqual
  | less
  | greater
  | lessEqual
  | greaterEqual
  | matchOp
  | notMatchOp
  | andAnd
  | orOr
  | bang
  | coalesce
  | question
  | assign
  | plusAssign
  | minusAssign
  | starAssign
  | slashAssign
  | percentAssign
  | openParen
  | closeParen
  | openBracket
  | closeBracket
  | openBrace
  | closeBrace
  | openSubstitution
  | openProcessIn
  | openProcessOut
  | colon
  | doubleColon
  | comma
  | dot
  | dotDot
  | dotDotEqual
  | ellipsis
  | arrow
  | fatArrow
  | atSign
  | semicolon
deriving DecidableEq

namespace Symbol

/-- How a symbol is written. -/
def text : Symbol → String
  | pipe => "|"
  | pipeAppend => "|>"
  | pipeNull => "|?"
  | pipeError => "|!"
  | plus => "+"
  | concat => "++"
  | minus => "-"
  | star => "*"
  | slash => "/"
  | percent => "%"
  | equal => "=="
  | notEqual => "!="
  | less => "<"
  | greater => ">"
  | lessEqual => "<="
  | greaterEqual => ">="
  | matchOp => "=~"
  | notMatchOp => "!~"
  | andAnd => "&&"
  | orOr => "||"
  | bang => "!"
  | coalesce => "??"
  | question => "?"
  | assign => "="
  | plusAssign => "+="
  | minusAssign => "-="
  | starAssign => "*="
  | slashAssign => "/="
  | percentAssign => "%="
  | openParen => "("
  | closeParen => ")"
  | openBracket => "["
  | closeBracket => "]"
  | openBrace => "\x7b"
  | closeBrace => "\x7d"
  | openSubstitution => "$("
  | openProcessIn => "<("
  | openProcessOut => ">("
  | colon => ":"
  | doubleColon => "::"
  | comma => ","
  | dot => "."
  | dotDot => ".."
  | dotDotEqual => "..="
  | ellipsis => "..."
  | arrow => "->"
  | fatArrow => "=>"
  | atSign => "@"
  | semicolon => ";"

/-- The display name of a symbol. -/
def name : Symbol → String
  | pipe => "PIPE"
  | pipeAppend => "PIPE_APPEND"
  | pipeNull => "PIPE_NULL"
  | pipeError => "PIPE_ERROR"
  | plus => "PLUS"
  | concat => "CONCAT"
  | minus => "MINUS"
  | star => "STAR"
  | slash => "SLASH"
  | percent => "PERCENT"
  | equal => "EQ"
  | notEqual => "NEQ"
  | less => "LT"
  | greater => "GT"
  | lessEqual => "LTE"
  | greaterEqual => "GTE"
  | matchOp => "MATCH_OP"
  | notMatchOp => "NOT_MATCH"
  | andAnd => "AND_AND"
  | orOr => "OR_OR"
  | bang => "BANG"
  | coalesce => "NULL_COALESCE"
  | question => "QUESTION"
  | assign => "ASSIGN"
  | plusAssign => "PLUS_ASSIGN"
  | minusAssign => "MINUS_ASSIGN"
  | starAssign => "STAR_ASSIGN"
  | slashAssign => "SLASH_ASSIGN"
  | percentAssign => "PERCENT_ASSIGN"
  | openParen => "LPAREN"
  | closeParen => "RPAREN"
  | openBracket => "LBRACKET"
  | closeBracket => "RBRACKET"
  | openBrace => "LBRACE"
  | closeBrace => "RBRACE"
  | openSubstitution => "DOLLAR_LPAREN"
  | openProcessIn => "PROC_IN"
  | openProcessOut => "PROC_OUT"
  | colon => "COLON"
  | doubleColon => "DOUBLE_COLON"
  | comma => "COMMA"
  | dot => "DOT"
  | dotDot => "DOTDOT"
  | dotDotEqual => "DOTDOT_EQ"
  | ellipsis => "ELLIPSIS"
  | arrow => "ARROW"
  | fatArrow => "FAT_ARROW"
  | atSign => "AT"
  | semicolon => "SEMICOLON"

/-- The symbols that are recognised by their text alone. Of those that begin alike the longer ones
    come first. -/
def spelled : List Symbol :=
  [ openParen, closeParen, openBracket, closeBracket, openBrace, closeBrace, comma, semicolon,
    atSign, pipeAppend, pipeNull, pipeError, orOr, pipe, andAnd, coalesce, question, equal,
    fatArrow, matchOp, assign, notEqual, notMatchOp, bang, concat, plusAssign, plus,
    minusAssign, arrow, minus, starAssign, star, slashAssign, slash, percentAssign, percent,
    openProcessIn, lessEqual, less, openProcessOut, greaterEqual, greater, ellipsis,
    dotDotEqual, dotDot, dot, doubleColon, colon ]

/-- Whether a symbol opens a group. -/
def isOpener : Symbol → Bool
  | openParen | openBracket | openBrace | openSubstitution | openProcessIn | openProcessOut => true
  | _ => false

/-- Whether a symbol closes a group. -/
def isCloser : Symbol → Bool
  | closeParen | closeBracket | closeBrace => true
  | _ => false

/-- Whether a symbol joins the stages of a pipeline. -/
def isPipe : Symbol → Bool
  | pipe | pipeAppend | pipeNull | pipeError => true
  | _ => false

/-- Whether a symbol assigns to a variable. -/
def isAssignment : Symbol → Bool
  | assign | plusAssign | minusAssign | starAssign | slashAssign | percentAssign => true
  | _ => false

end Symbol

/-! ## Literals -/

/-- The base in which an integer is written. -/
inductive Radix where
  | decimal
  | hexadecimal
  | binary
  | octal
deriving DecidableEq

namespace Radix

/-- The base as a number. -/
def base : Radix → Nat
  | decimal => 10
  | hexadecimal => 16
  | binary => 2
  | octal => 8

/-- The display name of an integer token. -/
def name : Radix → String
  | decimal => "INT_LIT"
  | hexadecimal => "HEX_LIT"
  | binary => "BINARY_LIT"
  | octal => "OCTAL_LIT"

/-- How many characters stand before the digits. -/
def markLength : Radix → Nat
  | decimal => 0
  | _ => 2

end Radix

/-- The quotes that a string is written in. -/
inductive StringStyle where
  | double
  | single
  | triple
  | raw
  | backtick
deriving DecidableEq

namespace StringStyle

/-- The word for a style. -/
def word : StringStyle → String
  | double => "double"
  | single => "single"
  | triple => "triple"
  | raw => "raw"
  | backtick => "backtick"

/-- The display name of a string token. -/
def name : StringStyle → String
  | double => "STRING_LIT"
  | single => "SINGLE_STRING_LIT"
  | triple => "TRIPLE_STRING_LIT"
  | raw => "RAW_STRING_LIT"
  | backtick => "BACKTICK_STRING_LIT"

end StringStyle

/-! ## Kinds of tokens -/

/-- What a token is. -/
inductive TokenKind where
  | keyword (keyword : Keyword)
  | symbol (symbol : Symbol)
  | integer (radix : Radix)
  | float
  | string (style : StringStyle)
  | identifier
  | variableName
  | environmentName
  | specialName
  | shortFlag
  | longFlag
  | path
  | newline
  | invalid
  | endOfInput
deriving DecidableEq

namespace TokenKind

/-- The display name of a kind, in capitals. -/
def name : TokenKind → String
  | keyword k => k.text.toUpper
  | symbol s => s.name
  | integer r => r.name
  | float => "FLOAT_LIT"
  | string s => s.name
  | identifier => "IDENT"
  | variableName => "VARIABLE"
  | environmentName => "ENV_VARIABLE"
  | specialName => "SPECIAL_VARIABLE"
  | shortFlag => "SHORT_FLAG"
  | longFlag => "LONG_FLAG"
  | path => "PATH"
  | newline => "NEWLINE"
  | invalid => "INVALID"
  | endOfInput => "EOF"

/-- Integers and floats. -/
def isNumber : TokenKind → Bool
  | integer _ | float => true
  | _ => false

/-- Words that can name a field, a record key or a type. -/
def isName : TokenKind → Bool
  | identifier | keyword _ => true
  | _ => false

/-- What may be glued to a word after a dot. -/
def isWordPart : TokenKind → Bool
  | identifier | integer .decimal | keyword _ => true
  | _ => false

/-- Symbols that join the stages of a pipeline. -/
def isPipe : TokenKind → Bool
  | symbol s => s.isPipe
  | _ => false

/-- Symbols that assign to a variable. -/
def isAssignment : TokenKind → Bool
  | symbol s => s.isAssignment
  | _ => false

/-- Symbols that open a group. -/
def isOpener : TokenKind → Bool
  | symbol s => s.isOpener
  | _ => false

/-- Symbols that close a group. -/
def isCloser : TokenKind → Bool
  | symbol s => s.isCloser
  | _ => false

/-- What separates statements. -/
def isSeparator : TokenKind → Bool
  | newline | symbol .semicolon => true
  | _ => false

/-- What ends a statement: a separator or the end of the input. -/
def isTerminator : TokenKind → Bool
  | newline | symbol .semicolon | endOfInput => true
  | _ => false

end TokenKind

/-- A word of a script at its place. The value is the decoded text of a string or the bare name of a
    variable or a flag; other tokens have none. -/
structure Token where
  kind : TokenKind
  lexeme : String
  span : Span
  value : Option String
deriving DecidableEq

namespace Token

/-- The value, or nothing. -/
def payload (t : Token) : String := t.value.getD ""

/-- Whether the second token follows the first without a gap. -/
def touches (t next : Token) : Bool := t.span.stop == next.span.start

end Token

end ShellFront
