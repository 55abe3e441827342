/-
Trees without places. `bare` leaves out of a tree where its pieces were read from,
and counts its numbers on from others, so that two trees are alike up to spans if
they have the same bare form, and one continues the numbers of another if its bare
form, counted on from there, is the bare form that is expected.
-/
import Mathlib.Data.List.Basic
import SdkUsage.Tree.Walk

namespace SdkUsage.Tree

/-- How many expressions and statements come before a tree. -/
structure Shift where
  exprs : Nat := 0
  stmts : Nat := 0

/-- A site without its span, with its number counted on. -/
def Site.bare (count : Nat) (site : Site) : Site := ⟨default, site.index + count⟩

/-- A name without its span. -/
def Ident.bare (ident : Ident) : Ident := ⟨ident.text, default⟩

/-! ## Expressions -/

mutual

/-- An expression without spans, with its numbers counted on. -/
def Expr.bare (shift : Shift) : Expr → Expr
  | .name site id => .name (site.bare shift.exprs) id
  | .str site value kind => .str (site.bare shift.exprs) value kind
  | .number site text => .number (site.bare shift.exprs) text
  | .constant site value => .constant (site.bare shift.exprs) value
  | .member site value attr => .member (site.bare shift.exprs) (value.bare shift) attr.bare
  | .subscript site value index =>
    .subscript (site.bare shift.exprs) (value.bare shift) (index.bare shift)
  | .slice site lower upper step =>
    .slice (site.bare shift.exprs) (bareExpr? shift lower) (bareExpr? shift upper)
      (bareExpr? shift step)
  | .call site func args keywords =>
    .call (site.bare shift.exprs) (func.bare shift) (bareExprs shift args)
      (bareKeywords shift keywords)
  | .starred site value => .starred (site.bare shift.exprs) (value.bare shift)
  | .list site items => .list (site.bare shift.exprs) (bareExprs shift items)
  | .tuple site items => .tuple (site.bare shift.exprs) (bareExprs shift items)
  | .set site items => .set (site.bare shift.exprs) (bareExprs shift items)
  | .dict site items => .dict (site.bare shift.exprs) (bareItems shift items)
  | .listComp site element clauses =>
    .listComp (site.bare shift.exprs) (element.bare shift) (bareClauses shift clauses)
  | .setComp site element clauses =>
    .setComp (site.bare shift.exprs) (element.bare shift) (bareClauses shift clauses)
  | .generator site element clauses =>
    .generator (site.bare shift.exprs) (element.bare shift) (bareClauses shift clauses)
  | .dictComp site key value clauses =>
    .dictComp (site.bare shift.exprs) (key.bare shift) (value.bare shift)
      (bareClauses shift clauses)
  | .lambda site params body =>
    .lambda (site.bare shift.exprs) (params.bare shift) (body.bare shift)
  | .unary site op operand => .unary (site.bare shift.exprs) op (operand.bare shift)
  | .binary site op lhs rhs => .binary (site.bare shift.exprs) op (lhs.bare shift) (rhs.bare shift)
  | .boolean site op lhs rhs =>
    .boolean (site.bare shift.exprs) op (lhs.bare shift) (rhs.bare shift)
  | .compare site lhs links =>
    .compare (site.bare shift.exprs) (lhs.bare shift) (bareLinks shift links)
  | .conditional site test body orelse =>
    .conditional (site.bare shift.exprs) (test.bare shift) (body.bare shift) (orelse.bare shift)
  | .named site target value =>
    .named (site.bare shift.exprs) (target.bare shift) (value.bare shift)
  | .await site value => .await (site.bare shift.exprs) (value.bare shift)
  | .yield site value delegates =>
    .yield (site.bare shift.exprs) (bareExpr? shift value) delegates

def bareExprs (shift : Shift) : List Expr → List Expr
  | [] => []
  | e :: es => e.bare shift :: bareExprs shift es

def bareExpr? (shift : Shift) : Option Expr → Option Expr
  | none => none
  | some e => some (e.bare shift)

def Keyword.bare (shift : Shift) : Keyword Expr → Keyword Expr
  | ⟨_, name, value⟩ => ⟨default, name.map Ident.bare, value.bare shift⟩

def bareKeywords (shift : Shift) : List (Keyword Expr) → List (Keyword Expr)
  | [] => []
  | k :: ks => k.bare shift :: bareKeywords shift ks

def DictItem.bare (shift : Shift) : DictItem Expr → DictItem Expr
  | ⟨key, value⟩ => ⟨bareExpr? shift key, value.bare shift⟩

def bareItems (shift : Shift) : List (DictItem Expr) → List (DictItem Expr)
  | [] => []
  | i :: is => i.bare shift :: bareItems shift is

def Comprehension.bare (shift : Shift) : Comprehension Expr → Comprehension Expr
  | ⟨_, target, iter, conditions, isAsync⟩ =>
    ⟨default, target.bare shift, iter.bare shift, bareExprs shift conditions, isAsync⟩

def bareClauses (shift : Shift) : List (Comprehension Expr) → List (Comprehension Expr)
  | [] => []
  | c :: cs => c.bare shift :: bareClauses shift cs

def Param.bare (shift : Shift) : Param Expr → Param Expr
  | ⟨name, annotation, default⟩ => ⟨name.bare, bareExpr? shift annotation, bareExpr? shift default⟩

def bareParams (shift : Shift) : List (Param Expr) → List (Param Expr)
  | [] => []
  | p :: ps => p.bare shift :: bareParams shift ps

def bareParam? (shift : Shift) : Option (Param Expr) → Option (Param Expr)
  | none => none
  | some p => some (p.bare shift)

def Parameters.bare (shift : Shift) : Parameters Expr → Parameters Expr
  | ⟨args, vararg, keywordOnly, kwarg⟩ =>
    ⟨bareParams shift args, bareParam? shift vararg, bareParams shift keywordOnly,
      bareParam? shift kwarg⟩

def Comparison.bare (shift : Shift) : Comparison Expr → Comparison Expr
  | ⟨op, operand⟩ => ⟨op, operand.bare shift⟩

def bareLinks (shift : Shift) : List (Comparison Expr) → List (Comparison Expr)
  | [] => []
  | l :: ls => l.bare shift :: bareLinks shift ls

end

attribute [simp] Expr.bare Keyword.bare DictItem.bare Comprehension.bare Param.bare Parameters.bare
  Comparison.bare

variable {shift : Shift}

theorem bareExprs_eq (es : List Expr) : bareExprs shift es = es.map (Expr.bare shift) := by
  induction es with
  | nil => rfl
  | cons e es ih => exact congrArg _ ih

theorem bareExpr?_eq (o : Option Expr) : bareExpr? shift o = o.map (Expr.bare shift) := by
  cases o <;> rfl

theorem bareKeywords_eq (ks : List (Keyword Expr)) :
    bareKeywords shift ks = ks.map (Keyword.bare shift) := by
  induction ks with
  | nil => rfl
  | cons k ks ih => exact congrArg _ ih

theorem bareItems_eq (is : List (DictItem Expr)) :
    bareItems shift is = is.map (DictItem.bare shift) := by
  induction is with
  | nil => rfl
  | cons i is ih => exact congrArg _ ih

theorem bareClauses_eq (cs : List (Comprehension Expr)) :
    bareClauses shift cs = cs.map (Comprehension.bare shift) := by
  induction cs with
  | nil => rfl
  | cons c cs ih => exact congrArg _ ih

theorem bareLinks_eq (ls : List (Comparison Expr)) :
    bareLinks shift ls = ls.map (Comparison.bare shift) := by
  induction ls with
  | nil => rfl
  | cons l ls ih => exact congrArg _ ih

theorem Expr.bare_eq_name {e : Expr} {site : Site} {id : String}
    (h : e.bare shift = .name site id) : ∃ at', e = .name at' id ∧ at'.bare shift.exprs = site := by
  cases e with
  | name at' id' =>
    cases h
    exact ⟨at', rfl, rfl⟩
  | _ => cases h

theorem Expr.bare_eq_tuple {e : Expr} {site : Site} {items : List Expr}
    (h : e.bare shift = .tuple site items) :
    ∃ at' items', e = .tuple at' items' ∧ items'.map (Expr.bare shift) = items := by
  cases e with
  | tuple at' items' =>
    simp only [Expr.bare, bareExprs_eq, Expr.tuple.injEq] at h
    exact ⟨at', items', rfl, h.2⟩
  | _ => cases h

/-! ## Statements -/

/-- A name of an import without spans. -/
def Alias.bare (name : Alias) : Alias := ⟨default, name.name, name.asName.map Ident.bare⟩

/-- An item of a `with` statement without spans, with its numbers counted on. -/
def WithItem.bare (shift : Shift) (item : WithItem) : WithItem :=
  ⟨item.context.bare shift, item.vars.map (Expr.bare shift)⟩

mutual

/-- A statement without spans, with its numbers counted on. -/
def Stmt.bare (shift : Shift) : Stmt → Stmt
  | .expr site value => .expr (site.bare shift.stmts) (value.bare shift)
  | .assign site targets value =>
    .assign (site.bare shift.stmts) (targets.map (Expr.bare shift)) (value.bare shift)
  | .augAssign site target op value =>
    .augAssign (site.bare shift.stmts) (target.bare shift) op (value.bare shift)
  | .annAssign site target type value =>
    .annAssign (site.bare shift.stmts) (target.bare shift) (type.bare shift)
      (value.map (Expr.bare shift))
  | .importModules site names => .importModules (site.bare shift.stmts) (names.map Alias.bare)
  | .importFrom site path level names =>
    .importFrom (site.bare shift.stmts) path level (names.map Alias.bare)
  | .functionDef definition => .functionDef (definition.bare shift)
  | .classDef definition => .classDef (definition.bare shift)
  | .returning site value => .returning (site.bare shift.stmts) (value.map (Expr.bare shift))
  | .branch site test body orelse =>
    .branch (site.bare shift.stmts) (test.bare shift) (bareStmts shift body) (bareStmts shift orelse)
  | .whileLoop site test body orelse =>
    .whileLoop (site.bare shift.stmts) (test.bare shift) (bareStmts shift body)
      (bareStmts shift orelse)
  | .forLoop site target iter body orelse isAsync =>
    .forLoop (site.bare shift.stmts) (target.bare shift) (iter.bare shift) (bareStmts shift body)
      (bareStmts shift orelse) isAsync
  | .withBlock site items body isAsync =>
    .withBlock (site.bare shift.stmts) (items.map (WithItem.bare shift)) (bareStmts shift body)
      isAsync
  | .tryBlock site body handlers orelse finalbody =>
    .tryBlock (site.bare shift.stmts) (bareStmts shift body) (bareHandlers shift handlers)
      (bareStmts shift orelse) (bareStmts shift finalbody)
  | .raising site exc cause =>
    .raising (site.bare shift.stmts) (exc.map (Expr.bare shift)) (cause.map (Expr.bare shift))
  | .asserting site test message =>
    .asserting (site.bare shift.stmts) (test.bare shift) (message.map (Expr.bare shift))
  | .deleting site targets => .deleting (site.bare shift.stmts) (targets.map (Expr.bare shift))
  | .globals site names => .globals (site.bare shift.stmts) (names.map Ident.bare)
  | .nonlocals site names => .nonlocals (site.bare shift.stmts) (names.map Ident.bare)
  | .pass site => .pass (site.bare shift.stmts)
  | .breakLoop site => .breakLoop (site.bare shift.stmts)
  | .continueLoop site => .continueLoop (site.bare shift.stmts)

def bareStmts (shift : Shift) : List Stmt → List Stmt
  | [] => []
  | t :: ts => t.bare shift :: bareStmts shift ts

def Handler.bare (shift : Shift) : Handler Stmt → Handler Stmt
  | ⟨_, type, name, body⟩ =>
    ⟨default, type.map (Expr.bare shift), name.map Ident.bare, bareStmts shift body⟩

def bareHandlers (shift : Shift) : List (Handler Stmt) → List (Handler Stmt)
  | [] => []
  | h :: hs => h.bare shift :: bareHandlers shift hs

def FunctionDef.bare (shift : Shift) : Function → Function
  | ⟨site, name, params, returns, decorators, body, isAsync⟩ =>
    ⟨site.bare shift.stmts, name.bare, params.bare shift, returns.map (Expr.bare shift),
      decorators.map (Expr.bare shift), bareStmts shift body, isAsync⟩

def ClassDef.bare (shift : Shift) : ClassDef Stmt → ClassDef Stmt
  | ⟨site, name, bases, keywords, decorators, body⟩ =>
    ⟨site.bare shift.stmts, name.bare, bases.map (Expr.bare shift),
      keywords.map (Keyword.bare shift), decorators.map (Expr.bare shift), bareStmts shift body⟩

end

attribute [simp] Stmt.bare Handler.bare FunctionDef.bare ClassDef.bare

theorem bareStmts_eq (ts : List Stmt) : bareStmts shift ts = ts.map (Stmt.bare shift) := by
  induction ts with
  | nil => rfl
  | cons t ts ih => exact congrArg _ ih

theorem bareHandlers_eq (hs : List (Handler Stmt)) :
    bareHandlers shift hs = hs.map (Handler.bare shift) := by
  induction hs with
  | nil => rfl
  | cons h hs ih => exact congrArg _ ih

/-- A program without spans. -/
def Module.bare (module : Module) : Module :=
  ⟨module.body.map (Stmt.bare {}), module.expressions, module.statements⟩

end SdkUsage.Tree
