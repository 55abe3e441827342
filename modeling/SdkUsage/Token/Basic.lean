/-
Tokens: the words of a program text. Besides names, numbers, strings and
symbols there are layout tokens, which stand for the end of a logical line,
the opening and closing of an indented block, and the end of the text.
-/
import SdkUsage.Span

namespace SdkUsage

/-- What a token is. -/
inductive TokenKind where
  | symbol
  | string
  | number
  | ident
  | newline
  | indent
  | dedent
  | eof
  deriving DecidableEq

/-- A token with the text it covers. Layout tokens other than a written line
feed cover nothing. -/
structure Token where
  kind : TokenKind
  text : String
  span : Span
  deriving DecidableEq

/-- The text by which the grammar tells tokens apart. Strings and layout tokens
have none. -/
def Token.word (token : Token) : String :=
  match token.kind with
  | .symbol | .number | .ident => token.text
  | _ => ""

/-- Operators and punctuation, longest first, so that the first one that
matches is the longest. -/
def symbols : List String :=
  ["**=", "//=", ">>=", "<<=", "...", "->", "**", "//", "==", "!=", "<=", ">=", "<<", ">>", "+=",
   "-=", "*=", "/=", "%=", "&=", "|=", "^=", "@=", ":=", "(", ")", "[", "]", "\x7b", "\x7d", ",",
   ":", ".", ";", "@", "=", "+", "-", "*", "/", "%", "&", "|", "^", "~", "<", ">"]

/-- The symbols as lists of characters. -/
def symbolChars : List (List Char) := symbols.map String.toList

/-- The longest symbol at the front of a text. -/
def symbolAt? (text : List Char) : Option (List Char) :=
  symbolChars.find? (·.isPrefixOf text)

/-- Words that cannot be used as names. -/
def keywords : List String :=
  ["False", "None", "True", "and", "as", "assert", "async", "await", "break", "class", "continue",
   "def", "del", "elif", "else", "except", "finally", "for", "from", "global", "if", "import",
   "in", "is", "lambda", "nonlocal", "not", "or", "pass", "raise", "return", "try", "while",
   "with", "yield"]

/-- Whether a word is reserved. -/
def isKeyword (word : String) : Bool := keywords.contains word

/-- Letters that may stand directly before the opening quote of a string, in
lower case. -/
def stringPrefixes : List (List Char) :=
  [['r'], ['u'], ['b'], ['f'], ['b', 'r'], ['r', 'b'], ['f', 'r'], ['r', 'f']]

/-- Whether a word directly before a quote belongs to the string. -/
def opensString (word : List Char) : Bool := stringPrefixes.contains (word.map Char.toLower)

end SdkUsage
