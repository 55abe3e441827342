/-
The grammar of statements and modules.

Blocks hold statements, so the rules for compound statements come back to the
rule for a statement, and an `elif` to the rule of its `if`. As for
expressions a record holds the rules to come back to, and `statements` ties
the knot with a bound.
-/
import SdkUsage.Grammar.Expression

namespace SdkUsage.Grammar

open SdkUsage.Tree

/-- The rules for statements the grammar comes back to. -/
inductive Entry where
  | statement
  | elif

/-- The rules to come back to. -/
structure Nesting extends Recursion where
  stmts : Entry → Parse (List Stmt)

namespace Recursion

variable (g : Recursion)

/-! ## Simple statements -/

/-- The next part of a dotted name, if a point follows. -/
def dottedPart? (name : String) : Parse (Option String) := do
  if ← accept "." then
    let part ← ident
    return some (name ++ "." ++ part.text)
  return none

/-- Names joined by points. -/
def dottedName : Parse (Span × String) := do
  let start ← here
  let first ← ident
  let name ← repeated dottedPart? g.bound first.text
  return (← spanSince start, name)

/-- A name given with `as`, if there is one. -/
def asName? : Parse (Option Ident) := do
  if ← accept "as" then return some (← ident)
  return none

/-- A module of an import. -/
def importedModule : Parse Alias := do
  let (span, name) ← g.dottedName
  let asName ← asName?
  return ⟨← spanSince span, name, asName⟩

/-- An import of modules. -/
def importStmt : Parse Stmt := do
  let start ← here
  expect "import" "while parsing import"
  let names ← separated "," (fun _ => false) g.importedModule g.bound
  return .importModules (← stmtSite start) names

/-- The level of a relative import with one more run of points, if there is one. -/
def importLevel? (level : Nat) : Parse (Option Nat) := do
  if ← accept "." then return some (level + 1)
  if ← accept "..." then return some (level + 3)
  return none

/-- A member of a `from` import. -/
def importedMember : Parse Alias := do
  let name ← ident
  let asName ← asName?
  return ⟨← spanSince name.span, name.text, asName⟩

/-- What a `from` import takes: everything, or members that may stand in
parentheses. -/
def importedMembers : Parse (List Alias) := do
  let start ← here
  if ← accept "*" then return [⟨start, "*", none⟩]
  let parenthesized ← accept "("
  let names ← separated "," (fun t => parenthesized && isWord ")" t) importedMember g.bound
  if parenthesized then expect ")" "while parsing from import"
  return names

/-- An import of members of a module. -/
def importFromStmt : Parse Stmt := do
  let start ← here
  expect "from" "while parsing import"
  let level ← repeated importLevel? g.bound 0
  let path ← (do
    if (← word) = "import" then return none
    return some (← g.dottedName).2 : Parse (Option String))
  if path.isNone && level = 0 then fail .expectingModuleName
  else
    expect "import" "while parsing from import"
    let names ← g.importedMembers
    return .importFrom (← stmtSite start) path level names

/-- The right side of an assignment. -/
def exprOrYield : Parse Expr := do
  if (← word) = "yield" then return ← g.yieldExpr
  g.exprList

/-- The operators of augmented assignments. -/
def augmentedOps : List (String × BinOp) :=
  [("+=", .add), ("-=", .sub), ("*=", .mul), ("@=", .matMul), ("/=", .div), ("//=", .floorDiv),
   ("%=", .mod), ("**=", .pow), ("<<=", .leftShift), (">>=", .rightShift), ("|=", .bitOr),
   ("^=", .bitXor), ("&=", .bitAnd)]

/-- One more side of an assignment, if an equals sign follows. -/
def assignedSide? : Parse (Option Expr) := do
  if ← accept "=" then return some (← g.exprOrYield)
  return none

/-- An expression, or an assignment to it. -/
def exprStmt : Parse Stmt := do
  let start ← here
  let first ← g.exprOrYield
  let sides ← many g.assignedSide? g.bound
  if let some value := sides.getLast? then
    return .assign (← stmtSite start) (first :: sides.dropLast) value
  if ← accept ":" then
    let annotation ← g.test
    let value ← g.assignedSide?
    return .annAssign (← stmtSite start) first annotation value
  match augmentedOps.lookup (← word) with
  | some op =>
    advance
    let value ← g.exprOrYield
    return .augAssign (← stmtSite start) first op value
  | none => return .expr (← stmtSite start) first

/-- Whether a token ends a statement. -/
def endsStatement (token : Token) : Bool :=
  token.kind = .newline || token.kind = .eof || token.word = ";"

/-- A statement that is a word alone. -/
def wordStmt (build : Site → Stmt) : Parse Stmt := do
  let start ← here
  advance
  return build (← stmtSite start)

/-- A `return` statement. -/
def returnStmt : Parse Stmt := do
  let start ← here
  advance
  if endsStatement (← token) then return .returning (← stmtSite start) none
  let value ← g.exprList
  return .returning (← stmtSite start) (some value)

/-- A `raise` statement. -/
def raiseStmt : Parse Stmt := do
  let start ← here
  advance
  if endsStatement (← token) then return .raising (← stmtSite start) none none
  let exc ← g.test
  if ← accept "from" then
    let cause ← g.test
    return .raising (← stmtSite start) (some exc) (some cause)
  return .raising (← stmtSite start) (some exc) none

/-- A `global` or `nonlocal` statement. -/
def nameListStmt (build : Site → List Ident → Stmt) : Parse Stmt := do
  let start ← here
  advance
  let names ← separated "," (fun _ => false) ident g.bound
  return build (← stmtSite start) names

/-- A `del` statement. A tuple of targets is the list of them. -/
def deleteStmt : Parse Stmt := do
  let start ← here
  advance
  match ← g.targetList with
  | .tuple _ items => return .deleting (← stmtSite start) items
  | target => return .deleting (← stmtSite start) [target]

/-- An `assert` statement. -/
def assertStmt : Parse Stmt := do
  let start ← here
  advance
  let test ← g.test
  if ← accept "," then
    let message ← g.test
    return .asserting (← stmtSite start) test (some message)
  return .asserting (← stmtSite start) test none

/-- A statement without a block. -/
def smallStmt : Parse Stmt := do
  match ← word with
  | "pass" => wordStmt .pass
  | "break" => wordStmt .breakLoop
  | "continue" => wordStmt .continueLoop
  | "return" => g.returnStmt
  | "raise" => g.raiseStmt
  | "global" => g.nameListStmt .globals
  | "nonlocal" => g.nameListStmt .nonlocals
  | "del" => g.deleteStmt
  | "assert" => g.assertStmt
  | "import" => g.importStmt
  | "from" => g.importFromStmt
  | _ => g.exprStmt

/-- Whether a token ends a logical line. -/
def endsLine (token : Token) : Bool := token.kind = .newline || token.kind = .eof

/-- The statements of a line, with the end of the line. -/
def simpleStmts : Parse (List Stmt) := do
  let stmts ← separated ";" endsLine g.smallStmt g.bound
  expectLineEnd "after statement"
  return stmts

end Recursion

namespace Nesting

variable (g : Nesting)

/-! ## Compound statements -/

/-- The statements of a block up to a token that ends it. -/
def stmtsUntil (ends : Token → Bool) : Parse (List Stmt) := do
  let groups ← many (do
    if ends (← token) then return none
    return some (← g.stmts .statement)) g.bound
  return groups.flatten

/-- Whether a token ends an indented block. -/
def endsBlock (token : Token) : Bool := token.kind = .dedent || token.kind = .eof

/-- A block after a header: statements on the same line, or indented ones. -/
def block (context : String) : Parse (List Stmt) := do
  expect ":" context
  if (← kind) ≠ .newline then return ← g.simpleStmts
  advance
  if (← kind) ≠ .indent then fail .expectingBlock
  else
    advance
    let body ← g.stmtsUntil endsBlock
    if (← kind) = .dedent then advance
    return body

/-- An `else` clause, empty when there is none. -/
def elseClause : Parse (List Stmt) := do
  if ← accept "else" then return ← g.block "while parsing else clause"
  return []

/-- An `if` statement, from its `if` or `elif` on. -/
def ifStmt : Parse Stmt := do
  let start ← here
  advance
  let test ← g.namedTest
  let body ← g.block "while parsing if statement"
  let orelse ← (do
    if (← word) = "elif" then return ← g.stmts .elif
    g.elseClause : Parse (List Stmt))
  return .branch (← stmtSite start) test body orelse

/-- A `while` statement. -/
def whileStmt : Parse Stmt := do
  let start ← here
  expect "while" "while parsing while statement"
  let test ← g.namedTest
  let body ← g.block "while parsing while statement"
  let orelse ← g.elseClause
  return .whileLoop (← stmtSite start) test body orelse

/-- A `for` statement that began at `start`. -/
def forStmt (start : Span) (isAsync : Bool) : Parse Stmt := do
  expect "for" "while parsing for statement"
  let target ← g.targetList
  expect "in" "while parsing for statement"
  let iter ← g.exprList
  let body ← g.block "while parsing for statement"
  let orelse ← g.elseClause
  return .forLoop (← stmtSite start) target iter body orelse isAsync

/-- An item of a `with` statement. -/
def withItem : Parse WithItem := do
  let context ← g.test
  if ← accept "as" then
    let vars ← g.starOr (g.expr .bitOr)
    return ⟨context, some vars⟩
  return ⟨context, none⟩

/-- A `with` statement that began at `start`. -/
def withStmt (start : Span) (isAsync : Bool) : Parse Stmt := do
  expect "with" "while parsing with statement"
  let items ← separated "," (fun _ => false) g.withItem g.bound
  let body ← g.block "while parsing with statement"
  return .withBlock (← stmtSite start) items body isAsync

/-- An `except` clause, if one follows. -/
def handler? : Parse (Option (Handler Stmt)) := do
  let start ← here
  if !(← accept "except") then return none
  let (type, name) ← (do
    if (← word) = ":" then return (none, none)
    let type ← g.test
    return (some type, ← Recursion.asName?) : Parse (Option Expr × Option Ident))
  let body ← g.block "while parsing except clause"
  return some ⟨← spanSince start, type, name, body⟩

/-- A `finally` clause, empty when there is none. -/
def finallyClause : Parse (List Stmt) := do
  if ← accept "finally" then return ← g.block "while parsing finally clause"
  return []

/-- A `try` statement. -/
def tryStmt : Parse Stmt := do
  let start ← here
  expect "try" "while parsing try statement"
  let body ← g.block "while parsing try statement"
  let handlers ← many g.handler? g.bound
  let orelse ← g.elseClause
  let finalbody ← g.finallyClause
  if handlers.isEmpty && finalbody.isEmpty then failAt start .expectingHandler
  else return .tryBlock (← stmtSite start) body handlers orelse finalbody

/-- The return annotation of a function, if there is one. -/
def returns? : Parse (Option Expr) := do
  if ← accept "->" then return some (← g.test)
  return none

/-- A function definition that began at `start`. -/
def functionStmt (start : Span) (decorators : List Expr) (isAsync : Bool) : Parse Stmt := do
  expect "def" "while parsing function definition"
  let name ← ident
  expect "(" "while parsing function parameters"
  let params ← g.parameters ")" true
  expect ")" "while parsing function parameters"
  let returns ← g.returns?
  let body ← g.block "while parsing function definition"
  return .functionDef ⟨← stmtSite start, name, params, returns, decorators, body, isAsync⟩

/-- The bases and keywords of a class, none without parentheses. -/
def classArguments : Parse (List Recursion.Argument) := do
  if ← accept "(" then return ← g.arguments
  return []

/-- A class definition that began at `start`. -/
def classStmt (start : Span) (decorators : List Expr) : Parse Stmt := do
  expect "class" "while parsing class definition"
  let name ← ident
  let arguments ← g.classArguments
  let body ← g.block "while parsing class definition"
  return .classDef ⟨← stmtSite start, name, Recursion.positionals arguments,
    Recursion.keywordsOf arguments, decorators, body⟩

/-- A decorator, if one follows. -/
def decorator? : Parse (Option Expr) := do
  if ← accept "@" then
    let decorator ← g.namedTest
    expectLineEnd "after decorator"
    return some decorator
  return none

/-- A definition with decorators. -/
def decoratedStmt : Parse Stmt := do
  let start ← here
  let decorators ← many g.decorator? g.bound
  match ← word with
  | "def" => g.functionStmt start decorators false
  | "class" => g.classStmt start decorators
  | "async" =>
    advance
    g.functionStmt start decorators true
  | _ => fail .expectingDefinition

/-- A statement that starts with `async`. -/
def asyncStmt : Parse Stmt := do
  let start ← here
  expect "async" "while parsing async statement"
  match ← word with
  | "def" => g.functionStmt start [] true
  | "for" => g.forStmt start true
  | "with" => g.withStmt start true
  | _ => fail .expectingAsyncStatement

/-- A compound statement, or the simple statements of a line. -/
def stmtOfWord : Parse (List Stmt) := do
  let start ← here
  match ← word with
  | "if" => return [← g.ifStmt]
  | "while" => return [← g.whileStmt]
  | "for" => return [← g.forStmt start false]
  | "with" => return [← g.withStmt start false]
  | "try" => return [← g.tryStmt]
  | "def" => return [← g.functionStmt start [] false]
  | "class" => return [← g.classStmt start []]
  | "@" => return [← g.decoratedStmt]
  | "async" => return [← g.asyncStmt]
  | _ => g.simpleStmts

/-- A compound statement, the statements of a line, or an empty line. -/
def statement : Parse (List Stmt) := do
  match ← kind with
  | .indent => fail .unexpectedIndent
  | .newline =>
    advance
    return []
  | _ => g.stmtOfWord

/-- The rule of an entry. -/
def entry : Entry → Parse (List Stmt)
  | .statement => g.statement
  | .elif => return [← g.ifStmt]

end Nesting

/-- The rules for statements, coming back at most `bound` times. -/
def statements : (bound : Nat) → Entry → Parse (List Stmt)
  | 0, _ => stalled
  | bound + 1, entry => Nesting.entry ⟨⟨bound, expression bound⟩, statements bound⟩ entry

/-- The rules with a bound on repetition. -/
def rules (bound : Nat) : Nesting := ⟨⟨bound, expression bound⟩, statements bound⟩

/-! ## Whole rules

Each of these is bounded by the number of tokens left, which is never reached. -/

/-- An expression without commas and assignments. -/
def testRule : Parse Expr := fun parser => (rules parser.budget).test parser

/-- A list of expressions. -/
def exprRule : Parse Expr := fun parser => (rules parser.budget).exprList parser

/-- A compound statement, the statements of a line, or an empty line. -/
def statementRule : Parse (List Stmt) := fun parser => (rules parser.budget).statement parser

/-- Whether a token ends the text. -/
def endsText (token : Token) : Bool := token.kind = .eof

/-- Everything up to the end of the text. -/
def moduleRule : Parse Module := fun parser =>
  (do
    let body ← (rules parser.budget).stmtsUntil endsText
    let parser ← get
    return ⟨body, parser.expressions, parser.statements⟩ : Parse Module) parser

end SdkUsage.Grammar

namespace SdkUsage

/-- Parses a whole source. -/
def parse (source : Source) : Except SyntaxError Tree.Module :=
  match Grammar.Parser.start source with
  | .error error => .error error
  | .ok parser =>
    match Grammar.moduleRule parser with
    | .ok module _ => .ok module
    | .error error _ => .error error

end SdkUsage
