/-
The grammar of expressions.

Each level of the precedence table is a rule made of the next tighter one.
Where the grammar comes back to a looser level, inside brackets or behind a
prefix operator, a rule goes through `Recursion`, which holds the rules to
come back to. `expression` ties the knot: with a bound on how often it comes
back, which is more than enough when it exceeds the number of tokens left.
-/
import SdkUsage.Grammar.Literal
import SdkUsage.Grammar.Parse

namespace SdkUsage.Grammar

open SdkUsage.Tree

/-- The levels the grammar comes back to. -/
inductive Level where
  | conditional
  | disjunction
  | negation
  | bitOr
  | factor

/-- The rules to come back to, and the bound on repetition inside a rule. -/
structure Recursion where
  bound : Nat
  expr : Level → Parse Expr

/-- Whether a token can start an expression. -/
def startsExpression (token : Token) : Bool :=
  match token.kind with
  | .string | .number => true
  | .ident =>
    !isKeyword token.text || ["None", "True", "False", "not", "lambda", "await"].contains token.text
  | .symbol => ["(", "[", "\x7b", "-", "+", "~", "*", "..."].contains token.text
  | _ => false

/-- Whether a token starts a clause of a comprehension. -/
def startsClause (token : Token) : Bool := token.word = "for" || token.word = "async"

namespace Recursion

variable (g : Recursion)

/-! ## Rules that go back to the loosest level -/

/-- An expression without commas and assignments. -/
def test : Parse Expr := nested (g.expr .conditional)

/-- An expression that may be bound to a name with `:=`. -/
def namedTest : Parse Expr := do
  let start ← here
  let target ← g.test
  if (← word) ≠ ":=" then return target
  match target with
  | .name .. =>
    advance
    let value ← g.test
    return .named (← exprSite start) target value
  | _ => failAt target.span .invalidAssignmentTarget

/-- A starred expression where the next token is a star, else another rule. -/
def starOr (other : Parse Expr) : Parse Expr := do
  let start ← here
  if ← accept "*" then
    let value ← nested (g.expr .bitOr)
    return .starred (← exprSite start) value
  other

/-- One item, or a tuple when a comma follows. -/
def tupleOf (item : Parse Expr) : Parse Expr := do
  let start ← here
  let first ← item
  if (← word) ≠ "," then return first
  let rest ← following "," (!startsExpression ·) item g.bound
  return .tuple (← exprSite start) (first :: rest)

/-- A list of expressions, such as the right side of an assignment. -/
def exprList : Parse Expr := g.tupleOf (g.starOr g.test)

/-- A list of targets, such as in a loop. -/
def targetList : Parse Expr := g.tupleOf (g.starOr (g.expr .bitOr))

/-- A `yield` expression. -/
def yieldExpr : Parse Expr := do
  let start ← here
  expect "yield" "while parsing yield"
  if ← accept "from" then
    let value ← g.test
    return .yield (← exprSite start) (some value) true
  if startsExpression (← token) then
    let value ← g.exprList
    return .yield (← exprSite start) (some value) false
  return .yield (← exprSite start) none false

/-- A clause of a comprehension, if one starts here. -/
def clause? : Parse (Option (Comprehension Expr)) := do
  if !startsClause (← token) then return none
  let start ← here
  let isAsync ← accept "async"
  expect "for" "while parsing comprehension"
  let target ← g.targetList
  expect "in" "while parsing comprehension"
  let iter ← g.expr .disjunction
  let conditions ← many (do
    if ← accept "if" then return some (← g.expr .disjunction)
    return none) g.bound
  return some ⟨← spanSince start, target, iter, conditions, isAsync⟩

/-- The clauses of a comprehension. -/
def clauses : Parse (List (Comprehension Expr)) := many g.clause? g.bound

/-! ## Parameters -/

/-- A name with an annotation, where annotations are allowed. -/
def param (annotations : Bool) : Parse (Param Expr) := do
  let name ← ident
  if annotations && isWord ":" (← token) then
    advance
    return ⟨name, some (← g.test), none⟩
  return ⟨name, none, none⟩

/-- What stands between two commas of a parameter list. -/
inductive ParamItem where
  | positionalMark
  | star (param : Option (Param Expr))
  | doubleStar (param : Param Expr)
  | plain (param : Param Expr)

/-- An item of a parameter list. -/
def paramItem (annotations : Bool) : Parse ParamItem := do
  if ← accept "/" then return .positionalMark
  if ← accept "*" then
    if (← kind) = .ident then return .star (some (← g.param annotations))
    return .star none
  if ← accept "**" then return .doubleStar (← g.param annotations)
  let param ← g.param annotations
  if ← accept "=" then return .plain { param with default := some (← g.test) }
  return .plain param

/-- Sorts the items of a parameter list. Parameters after a star can only be
given by name. -/
def sortParams (keywordOnly : Bool) : List ParamItem → Parameters Expr
  | [] => ⟨[], none, [], none⟩
  | .positionalMark :: items => sortParams keywordOnly items
  | .star param :: items =>
    let params := sortParams true items
    { params with vararg := params.vararg.or param }
  | .doubleStar param :: items =>
    let params := sortParams keywordOnly items
    { params with kwarg := params.kwarg.or (some param) }
  | .plain param :: items =>
    let params := sortParams keywordOnly items
    if keywordOnly then { params with keywordOnly := param :: params.keywordOnly }
    else { params with args := param :: params.args }

/-- Parameters up to the word that closes them. -/
def parameters (close : String) (annotations : Bool) : Parse (Parameters Expr) := do
  if (← word) = close then return sortParams false []
  return sortParams false (← separated "," (isWord close) (g.paramItem annotations) g.bound)

/-! ## Atoms -/

/-- Value and kind of the next token, which is a string. -/
def literalToken : Parse (List Char × StrKind) := do
  let token ← token
  match literal token.text.toList with
  | .ok value => return value
  | .error cause => failAt token.span cause

/-- The next string joined to those before it, if there is one. -/
def joinString? (before : List Char × StrKind) : Parse (Option (List Char × StrKind)) := do
  if (← kind) ≠ .string then return none
  let next ← literalToken
  if (before.2 == .bytes) != (next.2 == .bytes) then fail .mixedStrings
  else
    advance
    return some (before.1 ++ next.1, if next.2 = .formatted then .formatted else before.2)

/-- A string. Strings that stand side by side are one. -/
def stringExpr : Parse Expr := do
  let start ← here
  let first ← literalToken
  advance
  let (value, kind) ← repeated joinString? g.bound first
  return .str (← exprSite start) (String.ofList value) kind

/-- What starts with an opening parenthesis. -/
def parenExpr : Parse Expr := do
  let start ← here
  advance
  if ← accept ")" then return .tuple (← exprSite start) []
  if (← word) = "yield" then
    let expr ← g.yieldExpr
    expect ")" "while parsing parenthesized yield"
    return expr
  let first ← g.starOr g.namedTest
  if startsClause (← token) then
    let clauses ← g.clauses
    expect ")" "while parsing generator expression"
    return .generator (← exprSite start) first clauses
  if (← word) ≠ "," then
    expect ")" "while parsing parenthesized expression"
    return first
  let rest ← following "," (isWord ")") (g.starOr g.namedTest) g.bound
  expect ")" "while parsing tuple"
  return .tuple (← exprSite start) (first :: rest)

/-- What starts with an opening bracket. -/
def listExpr : Parse Expr := do
  let start ← here
  advance
  if (← word) = "]" then
    expect "]" "while parsing list"
    return .list (← exprSite start) []
  let first ← g.starOr g.namedTest
  if startsClause (← token) then
    let clauses ← g.clauses
    expect "]" "while parsing list comprehension"
    return .listComp (← exprSite start) first clauses
  let rest ← following "," (isWord "]") (g.starOr g.namedTest) g.bound
  expect "]" "while parsing list"
  return .list (← exprSite start) (first :: rest)

/-- An entry of a dictionary. -/
def dictItem : Parse (DictItem Expr) := do
  if ← accept "**" then return ⟨none, ← g.expr .bitOr⟩
  let key ← g.test
  expect ":" "while parsing dict entry"
  let value ← g.test
  return ⟨some key, value⟩

/-- The entries of a dictionary after the first, up to the closing brace. -/
def dictRest (start : Span) (first : DictItem Expr) : Parse Expr := do
  let rest ← following "," (isWord "\x7d") g.dictItem g.bound
  expect "\x7d" "while parsing dict"
  return .dict (← exprSite start) (first :: rest)

/-- What starts with an opening brace. -/
def braceExpr : Parse Expr := do
  let start ← here
  advance
  if ← accept "\x7d" then return .dict (← exprSite start) []
  if (← word) = "**" then
    let first ← g.dictItem
    return ← g.dictRest start first
  let first ← g.starOr g.namedTest
  if ← accept ":" then
    let value ← g.test
    if startsClause (← token) then
      let clauses ← g.clauses
      expect "\x7d" "while parsing dict comprehension"
      return .dictComp (← exprSite start) first value clauses
    return ← g.dictRest start ⟨some first, value⟩
  if startsClause (← token) then
    let clauses ← g.clauses
    expect "\x7d" "while parsing set comprehension"
    return .setComp (← exprSite start) first clauses
  let rest ← following "," (isWord "\x7d") (g.starOr g.namedTest) g.bound
  expect "\x7d" "while parsing set"
  return .set (← exprSite start) (first :: rest)

/-- The fixed value a word stands for. -/
def constantOf? (word : String) : Option Constant :=
  if word = "None" then some .none
  else if word = "True" then some .true
  else if word = "False" then some .false
  else if word = "..." then some .ellipsis
  else none

/-- A constant. -/
def constantExpr (value : Constant) : Parse Expr := do
  let start ← here
  advance
  return .constant (← exprSite start) value

/-- A name. -/
def nameExpr : Parse Expr := do
  let start ← here
  let name ← ident
  return .name (← exprSite start) name.text

/-- A number. -/
def numberExpr : Parse Expr := do
  let token ← token
  advance
  return .number (← exprSite token.span) token.text

/-- An expression without operators around it. -/
def atom : Parse Expr := do
  let token ← token
  match token.kind with
  | .string => g.stringExpr
  | .number => numberExpr
  | .ident =>
    match constantOf? token.text with
    | some value => constantExpr value
    | none => nameExpr
  | .symbol =>
    if token.text = "(" then g.parenExpr
    else if token.text = "[" then g.listExpr
    else if token.text = "\x7b" then g.braceExpr
    else
      match constantOf? token.text with
      | some value => constantExpr value
      | none => fail .invalidSyntax
  | _ => fail .invalidSyntax

/-! ## Calls, subscripts and members -/

/-- An argument of a call. -/
inductive Argument where
  | positional (value : Expr)
  | keyword (keyword : Keyword Expr)

/-- An argument of a call or of a class definition. -/
def argument : Parse Argument := do
  let start ← here
  if ← accept "*" then
    let value ← g.test
    return .positional (.starred (← exprSite start) value)
  if ← accept "**" then
    let value ← g.test
    return .keyword ⟨← spanSince start, none, value⟩
  let expr ← g.namedTest
  match expr, isWord "=" (← token) with
  | .name site id, true =>
    advance
    let value ← g.test
    return .keyword ⟨← spanSince start, some ⟨id, site.span⟩, value⟩
  | _, _ =>
    if startsClause (← token) then
      let clauses ← g.clauses
      return .positional (.generator (← exprSite start) expr clauses)
    return .positional expr

/-- The positional arguments among the arguments. -/
def positionals (arguments : List Argument) : List Expr :=
  arguments.filterMap fun
    | .positional value => some value
    | .keyword _ => none

/-- The keyword arguments among the arguments. -/
def keywordsOf (arguments : List Argument) : List (Keyword Expr) :=
  arguments.filterMap fun
    | .positional _ => none
    | .keyword keyword => some keyword

/-- The arguments after an opening parenthesis, with the closing one. -/
def arguments : Parse (List Argument) := do
  if ← accept ")" then return []
  let arguments ← separated "," (isWord ")") g.argument g.bound
  expect ")" "while parsing call arguments"
  return arguments

/-- An index or a slice. -/
def sliceItem : Parse Expr := do
  let start ← here
  let lower ← (do
    if (← word) = ":" then return none
    return some (← g.namedTest) : Parse (Option Expr))
  match lower, isWord ":" (← token) with
  | some index, false => return index
  | _, _ =>
    expect ":" "while parsing slice"
    let upper ← (do
      if [":", "]", ","].contains (← word) then return none
      return some (← g.test) : Parse (Option Expr))
    let step ← (do
      if ← accept ":" then
        if ["]", ","].contains (← word) then return none
        return some (← g.test)
      return none : Parse (Option Expr))
    return .slice (← exprSite start) lower upper step

/-- What stands between the brackets of a subscript. -/
def subscriptIndex : Parse Expr := do
  let start ← here
  let first ← g.sliceItem
  if (← word) ≠ "," then return first
  let rest ← following "," (isWord "]") g.sliceItem g.bound
  return .tuple (← exprSite start) (first :: rest)

/-- An expression with a member, call or subscript after it, if there is one. -/
def trailer? (start : Span) (expr : Expr) : Parse (Option Expr) := do
  if ← accept "." then
    let attr ← ident
    return some (.member (← exprSite start) expr attr)
  if ← accept "(" then
    let arguments ← g.arguments
    return some (.call (← exprSite start) expr (positionals arguments) (keywordsOf arguments))
  if ← accept "[" then
    let index ← g.subscriptIndex
    expect "]" "while parsing subscript"
    return some (.subscript (← exprSite start) expr index)
  return none

/-- An atom with members, calls and subscripts. -/
def primary : Parse Expr := do
  let start ← here
  let atom ← g.atom
  repeated (g.trailer? start) g.bound atom

/-! ## Operators, from the tightest to the loosest -/

/-- Awaiting a value. -/
def awaitExpr : Parse Expr := do
  let start ← here
  if ← accept "await" then
    let value ← g.primary
    return .await (← exprSite start) value
  g.primary

/-- Powers, which bind tighter than a sign on their left only. -/
def power : Parse Expr := do
  let start ← here
  let base ← g.awaitExpr
  if ← accept "**" then
    let exponent ← nested (g.expr .factor)
    return .binary (← exprSite start) .pow base exponent
  return base

/-- The operator of a sign. -/
def signOf? (word : String) : Option UnaryOp :=
  if word = "-" then some .neg
  else if word = "+" then some .pos
  else if word = "~" then some .invert
  else none

/-- An expression with signs before it. -/
def factor : Parse Expr := do
  let start ← here
  match signOf? (← word) with
  | some op =>
    advance
    let operand ← nested (g.expr .factor)
    return .unary (← exprSite start) op operand
  | none => g.power

/-- The operator a token is among those of a level. -/
def operatorOf? (ops : List (String × BinOp)) (token : Token) : Option BinOp :=
  if token.kind = .symbol then ops.lookup token.text else none

/-- One more operand of a level, if an operator of the level follows. -/
def operand? (ops : List (String × BinOp)) (next : Parse Expr) (start : Span) (lhs : Expr) :
    Parse (Option Expr) := do
  match operatorOf? ops (← token) with
  | some op =>
    advance
    let rhs ← next
    return some (.binary (← exprSite start) op lhs rhs)
  | none => return none

/-- A level of operators that group to the left. -/
def binaryLevel (ops : List (String × BinOp)) (next : Parse Expr) : Parse Expr := do
  let start ← here
  let first ← next
  repeated (operand? ops next start) g.bound first

/-- Products. -/
def term : Parse Expr :=
  g.binaryLevel [("*", .mul), ("/", .div), ("//", .floorDiv), ("%", .mod), ("@", .matMul)] g.factor

/-- Sums. -/
def sum : Parse Expr := g.binaryLevel [("+", .add), ("-", .sub)] g.term

/-- Shifts. -/
def shift : Parse Expr := g.binaryLevel [("<<", .leftShift), (">>", .rightShift)] g.sum

/-- Bitwise conjunctions. -/
def bitAnd : Parse Expr := g.binaryLevel [("&", .bitAnd)] g.shift

/-- Bitwise exclusive disjunctions. -/
def bitXor : Parse Expr := g.binaryLevel [("^", .bitXor)] g.bitAnd

/-- Bitwise disjunctions. -/
def bitOr : Parse Expr := g.binaryLevel [("|", .bitOr)] g.bitXor

/-- The comparison operators of one word. -/
def compareOps : List (String × CompareOp) :=
  [("==", .eq), ("!=", .notEq), ("<", .lt), ("<=", .ltEq), (">", .gt), (">=", .gtEq), ("in", .isIn)]

/-- A comparison operator, if one follows. -/
def compareOp? : Parse (Option CompareOp) := do
  if ← accept "not" then
    expect "in" "after `not` in comparison"
    return some .notIn
  if ← accept "is" then
    if ← accept "not" then return some .isNot
    return some .is
  match compareOps.lookup (← word) with
  | some op =>
    advance
    return some op
  | none => return none

/-- One more comparison, if one follows. -/
def comparison? : Parse (Option (Comparison Expr)) := do
  match ← compareOp? with
  | some op => return some ⟨op, ← g.bitOr⟩
  | none => return none

/-- A chain of comparisons. -/
def comparison : Parse Expr := do
  let start ← here
  let lhs ← g.bitOr
  let links ← many g.comparison? g.bound
  if links.isEmpty then return lhs
  return .compare (← exprSite start) lhs links

/-- Negations. -/
def notTest : Parse Expr := do
  let start ← here
  if ← accept "not" then
    let operand ← nested (g.expr .negation)
    return .unary (← exprSite start) .not operand
  g.comparison

/-- One more operand of `and` or `or`, if the word follows. -/
def boolOperand? (text : String) (op : BoolOp) (next : Parse Expr) (start : Span) (lhs : Expr) :
    Parse (Option Expr) := do
  if ← accept text then
    let rhs ← next
    return some (.boolean (← exprSite start) op lhs rhs)
  return none

/-- A level of `and` or `or`. -/
def boolLevel (text : String) (op : BoolOp) (next : Parse Expr) : Parse Expr := do
  let start ← here
  let first ← next
  repeated (boolOperand? text op next start) g.bound first

/-- Conjunctions. -/
def andTest : Parse Expr := g.boolLevel "and" .and g.notTest

/-- Disjunctions. -/
def orTest : Parse Expr := g.boolLevel "or" .or g.andTest

/-- An anonymous function. -/
def lambdaExpr : Parse Expr := do
  let start ← here
  expect "lambda" "while parsing lambda"
  let params ← g.parameters ":" false
  expect ":" "while parsing lambda"
  let body ← g.test
  return .lambda (← exprSite start) params body

/-- Conditional expressions and anonymous functions, the loosest level. -/
def conditional : Parse Expr := do
  if (← word) = "lambda" then return ← g.lambdaExpr
  let start ← here
  let body ← g.orTest
  if ← accept "if" then
    let test ← g.orTest
    expect "else" "while parsing conditional expression"
    let orelse ← g.test
    return .conditional (← exprSite start) test body orelse
  return body

/-- The rule of a level. -/
def level : Level → Parse Expr
  | .conditional => g.conditional
  | .disjunction => g.orTest
  | .negation => g.notTest
  | .bitOr => g.bitOr
  | .factor => g.factor

end Recursion

/-- The rules of the levels, coming back to looser ones at most `bound` times. -/
def expression : (bound : Nat) → Level → Parse Expr
  | 0, _ => stalled
  | bound + 1, level => Recursion.level ⟨bound, expression bound⟩ level

end SdkUsage.Grammar
