/-
Expressions written as words. `Expr.words` is the text of an expression in the
concrete syntax, with parentheses only where an operand binds too loosely for its
place. `Expr.Plain` says which expressions are written so, and `Expr.Same` which are
the same up to where they were read and how they are numbered.
-/
import SdkUsage.Proofs.Token.Front
import SdkUsage.Tree.Expr

namespace SdkUsage

/-- A written word. -/
def Token.ident (text : String) : Token := ⟨.ident, text, default⟩

@[inherit_doc Token.ident]
def Token.number (text : String) : Token := ⟨.number, text, default⟩

@[inherit_doc Token.ident]
def Token.symbol (text : String) : Token := ⟨.symbol, text, default⟩

/-- A text that can be used as a name. -/
def IsName (text : String) : Prop :=
  tokenAt? text.toList = some (.ident, text.toList) ∧ isKeyword text = false

instance (text : String) : Decidable (IsName text) := inferInstanceAs (Decidable (_ ∧ _))

theorem IsName.isWord {text : String} (h : IsName text) : (Token.ident text).IsWord :=
  ⟨h.1, fun hk => TokenKind.noConfusion hk⟩

/-- A text that is one number. -/
def IsNumeral (text : String) : Prop := tokenAt? text.toList = some (.number, text.toList)

instance (text : String) : Decidable (IsNumeral text) := inferInstanceAs (Decidable (_ = _))

namespace Tree

/-! ## Operators -/

/-- How an operator is written. -/
def UnaryOp.word : UnaryOp → Token
  | .not => .ident "not"
  | .neg => .symbol "-"
  | .pos => .symbol "+"
  | .invert => .symbol "~"

/-- How tightly an operator binds. -/
def UnaryOp.rank : UnaryOp → Nat
  | .not => 3
  | .neg | .pos | .invert => 11

@[inherit_doc UnaryOp.word]
def BinOp.text : BinOp → String
  | .add => "+"
  | .sub => "-"
  | .mul => "*"
  | .matMul => "@"
  | .div => "/"
  | .floorDiv => "//"
  | .mod => "%"
  | .pow => "**"
  | .leftShift => "<<"
  | .rightShift => ">>"
  | .bitOr => "|"
  | .bitXor => "^"
  | .bitAnd => "&"

@[inherit_doc UnaryOp.rank]
def BinOp.rank : BinOp → Nat
  | .bitOr => 5
  | .bitXor => 6
  | .bitAnd => 7
  | .leftShift | .rightShift => 8
  | .add | .sub => 9
  | .mul | .matMul | .div | .floorDiv | .mod => 10
  | .pow => 12

/-- How tightly the left operand has to bind. Powers group to the right. -/
def BinOp.lhsPlace : BinOp → Nat
  | .pow => 13
  | op => op.rank

/-- How tightly the right operand has to bind. An exponent may have a sign. -/
def BinOp.rhsPlace : BinOp → Nat
  | .pow => 11
  | op => op.rank + 1

@[inherit_doc UnaryOp.word]
def BoolOp.text : BoolOp → String
  | .or => "or"
  | .and => "and"

@[inherit_doc UnaryOp.rank]
def BoolOp.rank : BoolOp → Nat
  | .or => 1
  | .and => 2

@[inherit_doc UnaryOp.word]
def CompareOp.words : CompareOp → List Token
  | .eq => [.symbol "=="]
  | .notEq => [.symbol "!="]
  | .lt => [.symbol "<"]
  | .ltEq => [.symbol "<="]
  | .gt => [.symbol ">"]
  | .gtEq => [.symbol ">="]
  | .is => [.ident "is"]
  | .isNot => [.ident "is", .ident "not"]
  | .isIn => [.ident "in"]
  | .notIn => [.ident "not", .ident "in"]

/-! ## Words -/

/-- How tightly an expression binds, from conditional expressions to names, numbers, members,
calls and subscripts. -/
def Expr.rank : Expr → Nat
  | .conditional .. => 0
  | .boolean _ op .. => op.rank
  | .compare .. => 4
  | .unary _ op _ => op.rank
  | .binary _ op .. => op.rank
  | _ => 13

/-- Words in parentheses, if an expression of a rank needs them in a place. -/
def parens (place rank : Nat) (words : List Token) : List Token :=
  if rank < place then .symbol "(" :: (words ++ [.symbol ")"]) else words

mutual

/-- The words of an expression. -/
def Expr.words : Expr → List Token
  | .name _ id => [.ident id]
  | .number _ text => [.number text]
  | .member _ value attr => parens 13 value.rank value.words ++ [.symbol ".", .ident attr.text]
  | .call _ func args _ =>
    parens 13 func.rank func.words ++ .symbol "(" :: (argWords args ++ [.symbol ")"])
  | .subscript _ value index =>
    parens 13 value.rank value.words ++ .symbol "[" :: (index.words ++ [.symbol "]"])
  | .unary _ op operand => op.word :: parens op.rank operand.rank operand.words
  | .binary _ op lhs rhs =>
    parens op.lhsPlace lhs.rank lhs.words
      ++ .symbol op.text :: parens op.rhsPlace rhs.rank rhs.words
  | .boolean _ op lhs rhs =>
    parens op.rank lhs.rank lhs.words
      ++ .ident op.text :: parens (op.rank + 1) rhs.rank rhs.words
  | .compare _ lhs links => parens 5 lhs.rank lhs.words ++ linkWords links
  | .conditional _ test body orelse =>
    parens 1 body.rank body.words
      ++ .ident "if" :: (parens 1 test.rank test.words ++ .ident "else" :: orelse.words)
  | _ => []

/-- The words of arguments, with commas between them. -/
def argWords : List Expr → List Token
  | [] => []
  | e :: es => e.words ++ moreArgWords es

/-- The words of arguments, each after a comma. -/
def moreArgWords : List Expr → List Token
  | [] => []
  | e :: es => .symbol "," :: (e.words ++ moreArgWords es)

/-- The words of the links of a chain of comparisons. -/
def linkWords : List (Comparison Expr) → List Token
  | [] => []
  | ⟨op, operand⟩ :: links => op.words ++ (parens 5 operand.rank operand.words ++ linkWords links)

end

/-- The words of an expression in a place. -/
def Expr.wordsAt (place : Nat) (e : Expr) : List Token := parens place e.rank e.words

/-! ## Nesting -/

/-- How deep an expression of a rank is nested in a place. -/
def deepAt (place rank nesting : Nat) : Nat := if rank < place then nesting + 1 else nesting

mutual

/-- How deep the expressions are that are nested in an expression: in brackets, behind a sign
or `not`, in an exponent, or after `else`. -/
def Expr.nesting : Expr → Nat
  | .member _ value _ => deepAt 13 value.rank value.nesting
  | .call _ func args _ => max (deepAt 13 func.rank func.nesting) (argNesting args)
  | .subscript _ value index => max (deepAt 13 value.rank value.nesting) (index.nesting + 1)
  | .unary _ op operand => deepAt op.rank operand.rank operand.nesting + 1
  | .binary _ op lhs rhs =>
    max (deepAt op.lhsPlace lhs.rank lhs.nesting)
      (deepAt op.rhsPlace rhs.rank rhs.nesting + if op = .pow then 1 else 0)
  | .boolean _ op lhs rhs =>
    max (deepAt op.rank lhs.rank lhs.nesting) (deepAt (op.rank + 1) rhs.rank rhs.nesting)
  | .compare _ lhs links => max (deepAt 5 lhs.rank lhs.nesting) (linkNesting links)
  | .conditional _ test body orelse =>
    max (deepAt 1 body.rank body.nesting)
      (max (deepAt 1 test.rank test.nesting) (orelse.nesting + 1))
  | _ => 0

/-- How deep arguments are nested. -/
def argNesting : List Expr → Nat
  | [] => 0
  | e :: es => max (e.nesting + 1) (argNesting es)

/-- How deep the operands of comparisons are nested. -/
def linkNesting : List (Comparison Expr) → Nat
  | [] => 0
  | ⟨_, operand⟩ :: links => max (deepAt 5 operand.rank operand.nesting) (linkNesting links)

end

/-- How deep an expression is nested in a place. -/
def Expr.nestingAt (place : Nat) (e : Expr) : Nat := deepAt place e.rank e.nesting

section

variable {site : Site} {test body orelse lhs rhs operand : Expr}

theorem Expr.words_unary {op : UnaryOp} :
    (Expr.unary site op operand).words = op.word :: operand.wordsAt op.rank :=
  rfl

theorem Expr.nesting_unary {op : UnaryOp} :
    (Expr.unary site op operand).nesting = operand.nestingAt op.rank + 1 :=
  rfl

theorem Expr.words_binary {op : BinOp} : (Expr.binary site op lhs rhs).words =
    lhs.wordsAt op.lhsPlace ++ .symbol op.text :: rhs.wordsAt op.rhsPlace :=
  rfl

theorem Expr.nesting_binary {op : BinOp} : (Expr.binary site op lhs rhs).nesting =
    max (lhs.nestingAt op.lhsPlace) (rhs.nestingAt op.rhsPlace + if op = .pow then 1 else 0) :=
  rfl

theorem Expr.words_boolean {op : BoolOp} : (Expr.boolean site op lhs rhs).words =
    lhs.wordsAt op.rank ++ .ident op.text :: rhs.wordsAt (op.rank + 1) :=
  rfl

theorem Expr.nesting_boolean {op : BoolOp} : (Expr.boolean site op lhs rhs).nesting =
    max (lhs.nestingAt op.rank) (rhs.nestingAt (op.rank + 1)) :=
  rfl

theorem Expr.words_conditional : (Expr.conditional site test body orelse).words =
    body.wordsAt 1 ++ .ident "if" :: (test.wordsAt 1 ++ .ident "else" :: orelse.words) :=
  rfl

theorem Expr.nesting_conditional : (Expr.conditional site test body orelse).nesting =
    max (body.nestingAt 1) (max (test.nestingAt 1) (orelse.nesting + 1)) :=
  rfl

end

/-! ## Plain expressions -/

/-- Expressions made of names, numbers, members, calls with positional arguments, subscripts with
one index, operators, comparisons and conditions. -/
inductive Expr.Plain : Expr → Prop
  | name {site id} : IsName id → Plain (.name site id)
  | number {site text} : IsNumeral text → Plain (.number site text)
  | member {site value attr} : Plain value → IsName attr.text → Plain (.member site value attr)
  | call {site func args} : Plain func → (∀ e ∈ args, Plain e) → Plain (.call site func args [])
  | subscript {site value index} : Plain value → Plain index → Plain (.subscript site value index)
  | unary {site op operand} : Plain operand → Plain (.unary site op operand)
  | binary {site op lhs rhs} : Plain lhs → Plain rhs → Plain (.binary site op lhs rhs)
  | boolean {site op lhs rhs} : Plain lhs → Plain rhs → Plain (.boolean site op lhs rhs)
  | compare {site lhs links} : Plain lhs → links ≠ [] → (∀ l ∈ links, Plain l.operand) →
      Plain (.compare site lhs links)
  | conditional {site test body orelse} : Plain test → Plain body → Plain orelse →
      Plain (.conditional site test body orelse)

/-- Plain expressions that are the same tree: they differ only in sites and in the spans of
names. -/
inductive Expr.Same : Expr → Expr → Prop
  | name {site site' id} : Same (.name site id) (.name site' id)
  | number {site site' text} : Same (.number site text) (.number site' text)
  | member {site site' value value' attr attr'} : Same value value' →
      Ident.text attr = Ident.text attr' →
      Same (.member site value attr) (.member site' value' attr')
  | call {site site' func func' args args'} : Same func func' → List.Forall₂ Same args args' →
      Same (.call site func args []) (.call site' func' args' [])
  | subscript {site site' value value' index index'} : Same value value' → Same index index' →
      Same (.subscript site value index) (.subscript site' value' index')
  | unary {site site' op operand operand'} : Same operand operand' →
      Same (.unary site op operand) (.unary site' op operand')
  | binary {site site' op lhs lhs' rhs rhs'} : Same lhs lhs' → Same rhs rhs' →
      Same (.binary site op lhs rhs) (.binary site' op lhs' rhs')
  | boolean {site site' op lhs lhs' rhs rhs'} : Same lhs lhs' → Same rhs rhs' →
      Same (.boolean site op lhs rhs) (.boolean site' op lhs' rhs')
  | compare {site site' lhs lhs' links links'} : Same lhs lhs' →
      links.map Comparison.op = links'.map Comparison.op →
      List.Forall₂ Same (links.map Comparison.operand) (links'.map Comparison.operand) →
      Same (.compare site lhs links) (.compare site' lhs' links')
  | conditional {site site' test test' body body' orelse orelse'} : Same test test' →
      Same body body' → Same orelse orelse' →
      Same (.conditional site test body orelse) (.conditional site' test' body' orelse')

end Tree

end SdkUsage
