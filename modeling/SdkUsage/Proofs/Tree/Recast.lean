/-
Trees under other names and numbers. `recast` leaves out of a tree where its pieces were read
from, numbers its nodes anew and gives its variables other names. What belongs to no variable
keeps its spelling: members, keywords, imported modules and literals. An import says with `as`
which variable it binds, also where that goes without saying.

Two trees are alike up to spans, numbers and names of variables if one is what the other is
recast to.
-/
import Mathlib.Data.List.Nodup
import SdkUsage.Proofs.Tree.Bare
import SdkUsage.Proofs.Tree.Numbering

namespace SdkUsage.Tree

/-- New numbers for expressions and statements, and new names for variables. -/
structure Recast where
  exprs : Nat → Nat := id
  stmts : Nat → Nat := id
  name : String → String := id

/-- A site without its span, with its new number. -/
def Site.recast (number : Nat → Nat) (site : Site) : Site := ⟨default, number site.index⟩

/-- A variable without its span, under its new name. -/
def Ident.recast (c : Recast) (ident : Ident) : Ident := ⟨c.name ident.text, default⟩

/-! ## Expressions -/

mutual

/-- An expression under other names and numbers. -/
def Expr.recast (c : Recast) : Expr → Expr
  | .name site id => .name (site.recast c.exprs) (c.name id)
  | .str site value kind => .str (site.recast c.exprs) value kind
  | .number site text => .number (site.recast c.exprs) text
  | .constant site value => .constant (site.recast c.exprs) value
  | .member site value attr => .member (site.recast c.exprs) (value.recast c) attr.bare
  | .subscript site value index =>
    .subscript (site.recast c.exprs) (value.recast c) (index.recast c)
  | .slice site lower upper step =>
    .slice (site.recast c.exprs) (recastExpr? c lower) (recastExpr? c upper)
      (recastExpr? c step)
  | .call site func args keywords =>
    .call (site.recast c.exprs) (func.recast c) (recastExprs c args)
      (recastKeywords c keywords)
  | .starred site value => .starred (site.recast c.exprs) (value.recast c)
  | .list site items => .list (site.recast c.exprs) (recastExprs c items)
  | .tuple site items => .tuple (site.recast c.exprs) (recastExprs c items)
  | .set site items => .set (site.recast c.exprs) (recastExprs c items)
  | .dict site items => .dict (site.recast c.exprs) (recastItems c items)
  | .listComp site element clauses =>
    .listComp (site.recast c.exprs) (element.recast c) (recastClauses c clauses)
  | .setComp site element clauses =>
    .setComp (site.recast c.exprs) (element.recast c) (recastClauses c clauses)
  | .generator site element clauses =>
    .generator (site.recast c.exprs) (element.recast c) (recastClauses c clauses)
  | .dictComp site key value clauses =>
    .dictComp (site.recast c.exprs) (key.recast c) (value.recast c)
      (recastClauses c clauses)
  | .lambda site params body =>
    .lambda (site.recast c.exprs) (params.recast c) (body.recast c)
  | .unary site op operand => .unary (site.recast c.exprs) op (operand.recast c)
  | .binary site op lhs rhs => .binary (site.recast c.exprs) op (lhs.recast c) (rhs.recast c)
  | .boolean site op lhs rhs =>
    .boolean (site.recast c.exprs) op (lhs.recast c) (rhs.recast c)
  | .compare site lhs links =>
    .compare (site.recast c.exprs) (lhs.recast c) (recastLinks c links)
  | .conditional site test body orelse =>
    .conditional (site.recast c.exprs) (test.recast c) (body.recast c) (orelse.recast c)
  | .named site target value =>
    .named (site.recast c.exprs) (target.recast c) (value.recast c)
  | .await site value => .await (site.recast c.exprs) (value.recast c)
  | .yield site value delegates =>
    .yield (site.recast c.exprs) (recastExpr? c value) delegates

def recastExprs (c : Recast) : List Expr → List Expr
  | [] => []
  | e :: es => e.recast c :: recastExprs c es

def recastExpr? (c : Recast) : Option Expr → Option Expr
  | none => none
  | some e => some (e.recast c)

def Keyword.recast (c : Recast) : Keyword Expr → Keyword Expr
  | ⟨_, name, value⟩ => ⟨default, name.map Ident.bare, value.recast c⟩

def recastKeywords (c : Recast) : List (Keyword Expr) → List (Keyword Expr)
  | [] => []
  | k :: ks => k.recast c :: recastKeywords c ks

def DictItem.recast (c : Recast) : DictItem Expr → DictItem Expr
  | ⟨key, value⟩ => ⟨recastExpr? c key, value.recast c⟩

def recastItems (c : Recast) : List (DictItem Expr) → List (DictItem Expr)
  | [] => []
  | i :: is => i.recast c :: recastItems c is

def Comprehension.recast (c : Recast) : Comprehension Expr → Comprehension Expr
  | ⟨_, target, iter, conditions, isAsync⟩ =>
    ⟨default, target.recast c, iter.recast c, recastExprs c conditions, isAsync⟩

def recastClauses (c : Recast) : List (Comprehension Expr) → List (Comprehension Expr)
  | [] => []
  | clause :: clauses => clause.recast c :: recastClauses c clauses

def Param.recast (c : Recast) : Param Expr → Param Expr
  | ⟨name, hint, value⟩ => ⟨name.recast c, recastExpr? c hint, recastExpr? c value⟩

def recastParams (c : Recast) : List (Param Expr) → List (Param Expr)
  | [] => []
  | p :: ps => p.recast c :: recastParams c ps

def recastParam? (c : Recast) : Option (Param Expr) → Option (Param Expr)
  | none => none
  | some p => some (p.recast c)

def Parameters.recast (c : Recast) : Parameters Expr → Parameters Expr
  | ⟨args, vararg, keywordOnly, kwarg⟩ =>
    ⟨recastParams c args, recastParam? c vararg, recastParams c keywordOnly,
      recastParam? c kwarg⟩

def Comparison.recast (c : Recast) : Comparison Expr → Comparison Expr
  | ⟨op, operand⟩ => ⟨op, operand.recast c⟩

def recastLinks (c : Recast) : List (Comparison Expr) → List (Comparison Expr)
  | [] => []
  | l :: ls => l.recast c :: recastLinks c ls

end

attribute [simp] Expr.recast Keyword.recast DictItem.recast Comprehension.recast Param.recast
  Parameters.recast Comparison.recast

variable {c : Recast}

theorem recastExprs_eq (es : List Expr) : recastExprs c es = es.map (Expr.recast c) := by
  induction es with
  | nil => rfl
  | cons e es ih => exact congrArg _ ih

theorem recastExpr?_eq (o : Option Expr) : recastExpr? c o = o.map (Expr.recast c) := by
  cases o <;> rfl

theorem recastKeywords_eq (ks : List (Keyword Expr)) :
    recastKeywords c ks = ks.map (Keyword.recast c) := by
  induction ks with
  | nil => rfl
  | cons k ks ih => exact congrArg _ ih

theorem recastItems_eq (is : List (DictItem Expr)) :
    recastItems c is = is.map (DictItem.recast c) := by
  induction is with
  | nil => rfl
  | cons i is ih => exact congrArg _ ih

theorem recastClauses_eq (clauses : List (Comprehension Expr)) :
    recastClauses c clauses = clauses.map (Comprehension.recast c) := by
  induction clauses with
  | nil => rfl
  | cons clause clauses ih => exact congrArg _ ih

theorem recastParams_eq (ps : List (Param Expr)) :
    recastParams c ps = ps.map (Param.recast c) := by
  induction ps with
  | nil => rfl
  | cons p ps ih => exact congrArg _ ih

theorem recastParam?_eq (o : Option (Param Expr)) : recastParam? c o = o.map (Param.recast c) := by
  cases o <;> rfl

theorem recastLinks_eq (ls : List (Comparison Expr)) :
    recastLinks c ls = ls.map (Comparison.recast c) := by
  induction ls with
  | nil => rfl
  | cons l ls ih => exact congrArg _ ih

/-! ## Statements -/

/-- A name of an import with the new name of the variable it binds. A star binds none. -/
def Alias.recast (c : Recast) (name : Alias) : Alias :=
  if name.name = "*" then name.bare
  else ⟨default, name.name, some ⟨c.name name.boundName, default⟩⟩

@[simp] theorem Alias.name_recast (c : Recast) (a : Alias) : (a.recast c).name = a.name := by
  unfold Alias.recast
  split <;> rfl

theorem Alias.boundName_recast (c : Recast) {a : Alias} (h : a.name ≠ "*") :
    (a.recast c).boundName = c.name a.boundName := by
  rw [Alias.recast, if_neg h]
  rfl

/-- An item of a `with` statement under other names and numbers. -/
def WithItem.recast (c : Recast) (item : WithItem) : WithItem :=
  ⟨item.context.recast c, item.vars.map (Expr.recast c)⟩

mutual

/-- A statement under other names and numbers. -/
def Stmt.recast (c : Recast) : Stmt → Stmt
  | .expr site value => .expr (site.recast c.stmts) (value.recast c)
  | .assign site targets value =>
    .assign (site.recast c.stmts) (targets.map (Expr.recast c)) (value.recast c)
  | .augAssign site target op value =>
    .augAssign (site.recast c.stmts) (target.recast c) op (value.recast c)
  | .annAssign site target type value =>
    .annAssign (site.recast c.stmts) (target.recast c) (type.recast c)
      (value.map (Expr.recast c))
  | .importModules site names => .importModules (site.recast c.stmts) (names.map (Alias.recast c))
  | .importFrom site path level names =>
    .importFrom (site.recast c.stmts) path level (names.map (Alias.recast c))
  | .functionDef definition => .functionDef (definition.recast c)
  | .classDef definition => .classDef (definition.recast c)
  | .returning site value => .returning (site.recast c.stmts) (value.map (Expr.recast c))
  | .branch site test body orelse =>
    .branch (site.recast c.stmts) (test.recast c) (recastStmts c body) (recastStmts c orelse)
  | .whileLoop site test body orelse =>
    .whileLoop (site.recast c.stmts) (test.recast c) (recastStmts c body)
      (recastStmts c orelse)
  | .forLoop site target iter body orelse isAsync =>
    .forLoop (site.recast c.stmts) (target.recast c) (iter.recast c) (recastStmts c body)
      (recastStmts c orelse) isAsync
  | .withBlock site items body isAsync =>
    .withBlock (site.recast c.stmts) (items.map (WithItem.recast c)) (recastStmts c body)
      isAsync
  | .tryBlock site body handlers orelse finalbody =>
    .tryBlock (site.recast c.stmts) (recastStmts c body) (recastHandlers c handlers)
      (recastStmts c orelse) (recastStmts c finalbody)
  | .raising site exc cause =>
    .raising (site.recast c.stmts) (exc.map (Expr.recast c)) (cause.map (Expr.recast c))
  | .asserting site test message =>
    .asserting (site.recast c.stmts) (test.recast c) (message.map (Expr.recast c))
  | .deleting site targets => .deleting (site.recast c.stmts) (targets.map (Expr.recast c))
  | .globals site names => .globals (site.recast c.stmts) (names.map (Ident.recast c))
  | .nonlocals site names => .nonlocals (site.recast c.stmts) (names.map (Ident.recast c))
  | .pass site => .pass (site.recast c.stmts)
  | .breakLoop site => .breakLoop (site.recast c.stmts)
  | .continueLoop site => .continueLoop (site.recast c.stmts)

def recastStmts (c : Recast) : List Stmt → List Stmt
  | [] => []
  | t :: ts => t.recast c :: recastStmts c ts

def Handler.recast (c : Recast) : Handler Stmt → Handler Stmt
  | ⟨_, type, name, body⟩ =>
    ⟨default, type.map (Expr.recast c), name.map (Ident.recast c), recastStmts c body⟩

def recastHandlers (c : Recast) : List (Handler Stmt) → List (Handler Stmt)
  | [] => []
  | h :: hs => h.recast c :: recastHandlers c hs

def FunctionDef.recast (c : Recast) : Function → Function
  | ⟨site, name, params, returns, decorators, body, isAsync⟩ =>
    ⟨site.recast c.stmts, name.recast c, params.recast c, returns.map (Expr.recast c),
      decorators.map (Expr.recast c), recastStmts c body, isAsync⟩

def ClassDef.recast (c : Recast) : ClassDef Stmt → ClassDef Stmt
  | ⟨site, name, bases, keywords, decorators, body⟩ =>
    ⟨site.recast c.stmts, name.recast c, bases.map (Expr.recast c),
      keywords.map (Keyword.recast c), decorators.map (Expr.recast c), recastStmts c body⟩

end

attribute [simp] Stmt.recast Handler.recast FunctionDef.recast ClassDef.recast

theorem recastStmts_eq (ts : List Stmt) : recastStmts c ts = ts.map (Stmt.recast c) := by
  induction ts with
  | nil => rfl
  | cons t ts ih => exact congrArg _ ih

theorem recastHandlers_eq (hs : List (Handler Stmt)) :
    recastHandlers c hs = hs.map (Handler.recast c) := by
  induction hs with
  | nil => rfl
  | cons h hs ih => exact congrArg _ ih

/-- A program under other names and numbers. -/
def Module.recast (c : Recast) (module : Module) : Module :=
  ⟨module.body.map (Stmt.recast c), module.expressions, module.statements⟩

/-! ## What has no spans -/

@[simp] theorem Ident.bare_bare (ident : Ident) : ident.bare.bare = ident.bare := rfl

@[simp] theorem Ident.recast_bare (ident : Ident) : ident.bare.recast c = ident.recast c := rfl

/-- **Spans do not matter for what a tree is recast to.** -/
theorem Expr.recast_bare (e : Expr) : (e.bare {}).recast c = e.recast c := by
  apply Expr.bare.induct (fun e => (e.bare {}).recast c = e.recast c)
    (fun ls => recastLinks c (bareLinks {} ls) = recastLinks c ls)
    (fun l => (l.bare {}).recast c = l.recast c) (fun ps => (ps.bare {}).recast c = ps.recast c)
    (fun p => recastParam? c (bareParam? {} p) = recastParam? c p)
    (fun p => (p.bare {}).recast c = p.recast c)
    (fun o => recastExpr? c (bareExpr? {} o) = recastExpr? c o)
    (fun ps => recastParams c (bareParams {} ps) = recastParams c ps)
    (fun cs => recastClauses c (bareClauses {} cs) = recastClauses c cs)
    (fun clause => (clause.bare {}).recast c = clause.recast c)
    (fun es => recastExprs c (bareExprs {} es) = recastExprs c es)
    (fun is => recastItems c (bareItems {} is) = recastItems c is)
    (fun i => (i.bare {}).recast c = i.recast c)
    (fun ks => recastKeywords c (bareKeywords {} ks) = recastKeywords c ks)
    (fun k => (k.bare {}).recast c = k.recast c)
  all_goals
    simp +contextual [bareExprs, bareExpr?, bareKeywords, bareItems, bareClauses, bareParams,
      bareParam?, bareLinks, recastExprs, recastExpr?, recastKeywords, recastItems, recastClauses,
      recastParams, recastParam?, recastLinks, Site.recast, Site.bare, Function.comp_def]

theorem Keyword.recast_bare (k : Keyword Expr) : (k.bare {}).recast c = k.recast c := by
  cases k
  simp [Expr.recast_bare, Function.comp_def]

theorem Parameters.recast_bare (ps : Parameters Expr) : (ps.bare {}).recast c = ps.recast c :=
  (Expr.lambda.inj (Expr.recast_bare (.lambda default ps (.name default "")))).2.1

theorem Alias.recast_bare (a : Alias) : a.bare.recast c = a.recast c := by
  obtain ⟨_, _, asName⟩ := a
  cases asName <;> rfl

theorem WithItem.recast_bare (item : WithItem) : (item.bare {}).recast c = item.recast c := by
  simp [WithItem.bare, WithItem.recast, Expr.recast_bare, Function.comp_def]

theorem Stmt.recast_bare (t : Stmt) : (t.bare {}).recast c = t.recast c := by
  apply Stmt.bare.induct (fun t => (t.bare {}).recast c = t.recast c)
    (fun hs => recastHandlers c (bareHandlers {} hs) = recastHandlers c hs)
    (fun h => (h.bare {}).recast c = h.recast c)
    (fun ts => recastStmts c (bareStmts {} ts) = recastStmts c ts)
    (fun d => (d.bare {}).recast c = d.recast c) (fun d => (d.bare {}).recast c = d.recast c)
  all_goals
    simp +contextual [bareStmts, bareHandlers, recastStmts, recastHandlers, Site.recast, Site.bare,
      Expr.recast_bare, Keyword.recast_bare, Parameters.recast_bare,
      Alias.recast_bare, WithItem.recast_bare, Function.comp_def]

theorem Module.recast_bare (module : Module) : module.bare.recast c = module.recast c := by
  simp [Module.bare, Module.recast, Stmt.recast_bare, Function.comp_def]

/-! ## Parts -/

theorem Keyword.value_recast (k : Keyword Expr) : (k.recast c).value = k.value.recast c := by
  cases k
  rfl

theorem Comparison.operand_recast (l : Comparison Expr) :
    (l.recast c).operand = l.operand.recast c := by
  cases l
  rfl

theorem Comprehension.children_recast (clause : Comprehension Expr) :
    (clause.recast c).children = clause.children.map (Expr.recast c) := by
  cases clause
  simp [Comprehension.children, recastExprs_eq]

theorem DictItem.children_recast (item : DictItem Expr) :
    (item.recast c).children = item.children.map (Expr.recast c) := by
  cases item
  simp [DictItem.children, recastExpr?_eq, Option.toList_map]

theorem Param.children_recast (param : Param Expr) :
    (param.recast c).children = param.children.map (Expr.recast c) := by
  cases param
  simp [Param.children, recastExpr?_eq, Option.toList_map]

theorem Parameters.all_recast (params : Parameters Expr) :
    (params.recast c).all = params.all.map (Param.recast c) := by
  cases params
  simp [Parameters.all, recastParams_eq, recastParam?_eq, Option.toList_map]

theorem Parameters.children_recast (params : Parameters Expr) :
    (params.recast c).children = params.children.map (Expr.recast c) := by
  simp only [Parameters.children, Parameters.all_recast, List.flatMap_map, List.map_flatMap,
    Param.children_recast]

theorem Expr.children_recast (e : Expr) :
    (e.recast c).children = e.children.map (Expr.recast c) := by
  cases e <;> simp [Expr.children, recastExprs_eq, recastExpr?_eq, recastKeywords_eq,
    recastItems_eq, recastClauses_eq, recastLinks_eq, Parameters.children_recast, List.flatMap_map,
    List.map_flatMap, DictItem.children_recast, Comprehension.children_recast,
    Keyword.value_recast, Comparison.operand_recast, Option.toList_map, Function.comp_def]

theorem Expr.index_recast (e : Expr) : (e.recast c).index = c.exprs e.index := by
  cases e <;> rfl

/-- A node under other names and numbers. -/
def Node.recast (c : Recast) : Node → Node
  | .stmt s => .stmt (s.recast c)
  | .expr e => .expr (e.recast c)

theorem exprNodes_recast (es : List Expr) :
    exprNodes (es.map (Expr.recast c)) = (exprNodes es).map (Node.recast c) := by
  simp [exprNodes, Node.recast]

theorem stmtNodes_recast (ts : List Stmt) :
    stmtNodes (ts.map (Stmt.recast c)) = (stmtNodes ts).map (Node.recast c) := by
  simp [stmtNodes, Node.recast]

theorem WithItem.children_recast (item : WithItem) :
    (item.recast c).children = item.children.map (Expr.recast c) := by
  simp [WithItem.children, WithItem.recast, Option.toList_map]

theorem Handler.children_recast (handler : Handler Stmt) :
    (handler.recast c).children = handler.children.map (Node.recast c) := by
  cases handler
  simp [Handler.children, recastStmts_eq, Option.toList_map, exprNodes_recast, stmtNodes_recast]

theorem FunctionDef.children_recast (definition : Function) :
    (definition.recast c).children = definition.children.map (Node.recast c) := by
  cases definition
  simp only [FunctionDef.recast, FunctionDef.children, recastStmts_eq, Option.toList_map,
    Parameters.children_recast, ← List.map_append, exprNodes_recast, stmtNodes_recast]

theorem ClassDef.children_recast (definition : ClassDef Stmt) :
    (definition.recast c).children = definition.children.map (Node.recast c) := by
  cases definition
  have values (ks : List (Keyword Expr)) :
      (ks.map (Keyword.recast c)).map (·.value) = (ks.map (·.value)).map (Expr.recast c) := by
    simp [Keyword.value_recast]
  simp only [ClassDef.recast, ClassDef.children, recastStmts_eq, values, ← List.map_append,
    exprNodes_recast, stmtNodes_recast]

theorem Stmt.children_recast (t : Stmt) :
    (t.recast c).children = t.children.map (Node.recast c) := by
  cases t with
  | functionDef definition => exact definition.children_recast
  | classDef definition => exact definition.children_recast
  | _ =>
    simp [Stmt.children, exprNodes, stmtNodes, Node.recast, recastStmts_eq, recastHandlers_eq,
      Option.toList_map, List.flatMap_map, List.map_flatMap, WithItem.children_recast,
      Handler.children_recast, Function.comp_def]

theorem Stmt.index_recast (t : Stmt) : (t.recast c).index = c.stmts t.index := by
  cases t with
  | functionDef definition => cases definition; rfl
  | classDef definition => cases definition; rfl
  | _ => rfl

theorem Node.children_recast (n : Node) :
    (n.recast c).children = n.children.map (Node.recast c) := by
  cases n with
  | stmt t => exact t.children_recast
  | expr e =>
    rw [Node.recast, Node.children, Expr.children_recast, exprNodes_recast]
    rfl

theorem Node.preorder_recast (n : Node) :
    (n.recast c).preorder = n.preorder.map (Node.recast c) := by
  rw [Node.preorder_eq, Node.preorder_eq n, Node.children_recast, List.map_cons, List.flatMap_map,
    List.map_flatMap]
  exact congrArg _ (List.flatMap_congr fun child hc => Node.preorder_recast child)
termination_by n.rank
decreasing_by exact rank_lt_of_mem_children hc

theorem Module.nodes_recast (module : Module) :
    (module.recast c).nodes = module.nodes.map (Node.recast c) := by
  simp only [Module.nodes, Module.recast, stmtNodes_recast, List.flatMap_map, List.map_flatMap,
    Node.preorder_recast]

theorem Module.functions_recast (module : Module) :
    (module.recast c).functions = module.functions.map (FunctionDef.recast c) := by
  rw [Module.functions, Module.nodes_recast, List.filterMap_map, Module.functions,
    List.map_filterMap]
  congr 1
  funext n
  rcases n with t | e
  · cases t <;> rfl
  · rfl

/-! ## The same under other numbers -/

section Congr

variable {c' : Recast}

/-- Two recasts do the same to expressions. -/
def Recast.AgreeOn (c c' : Recast) (es : List Expr) : Prop := ∀ e ∈ es, e.recast c = e.recast c'

@[simp] theorem agreeOn_nil : c.AgreeOn c' [] := List.forall_mem_nil _

@[simp] theorem agreeOn_cons {e : Expr} {es : List Expr} :
    c.AgreeOn c' (e :: es) ↔ e.recast c = e.recast c' ∧ c.AgreeOn c' es :=
  List.forall_mem_cons

@[simp] theorem agreeOn_append {es es' : List Expr} :
    c.AgreeOn c' (es ++ es') ↔ c.AgreeOn c' es ∧ c.AgreeOn c' es' :=
  List.forall_mem_append

@[simp] theorem agreeOn_flatMap {α : Type} {xs : List α} {f : α → List Expr} :
    c.AgreeOn c' (xs.flatMap f) ↔ ∀ x ∈ xs, c.AgreeOn c' (f x) :=
  List.forall_mem_flatMap

@[simp] theorem agreeOn_map {α : Type} {xs : List α} {f : α → Expr} :
    c.AgreeOn c' (xs.map f) ↔ ∀ x ∈ xs, (f x).recast c = (f x).recast c' :=
  List.forall_mem_map

@[simp] theorem recastExprs_inj {es : List Expr} :
    recastExprs c es = recastExprs c' es ↔ c.AgreeOn c' es := by
  rw [recastExprs_eq, recastExprs_eq, List.map_inj_left]
  rfl

@[simp] theorem map_recast_inj? {o : Option Expr} :
    o.map (Expr.recast c) = o.map (Expr.recast c') ↔ c.AgreeOn c' o.toList := by
  cases o <;> simp

@[simp] theorem recastExpr?_inj {o : Option Expr} :
    recastExpr? c o = recastExpr? c' o ↔ c.AgreeOn c' o.toList := by
  rw [recastExpr?_eq, recastExpr?_eq, map_recast_inj?]

@[simp] theorem Keyword.recast_inj {k : Keyword Expr} :
    k.recast c = k.recast c' ↔ k.value.recast c = k.value.recast c' := by
  cases k
  simp

@[simp] theorem Comparison.recast_inj {l : Comparison Expr} :
    l.recast c = l.recast c' ↔ l.operand.recast c = l.operand.recast c' := by
  cases l
  simp

@[simp] theorem DictItem.recast_inj {item : DictItem Expr} :
    item.recast c = item.recast c' ↔ c.AgreeOn c' item.children := by
  cases item
  simp [DictItem.children]

@[simp] theorem Comprehension.recast_inj {clause : Comprehension Expr} :
    clause.recast c = clause.recast c' ↔ c.AgreeOn c' clause.children := by
  cases clause
  simp [Comprehension.children]

variable (hname : c.name = c'.name)

include hname

theorem Param.recast_inj {param : Param Expr} :
    param.recast c = param.recast c' ↔ c.AgreeOn c' param.children := by
  cases param
  simp [Param.children, Ident.recast, hname]

theorem Parameters.recast_inj {params : Parameters Expr} :
    params.recast c = params.recast c' ↔ c.AgreeOn c' params.children := by
  have one (o : Option (Param Expr)) : o.map (Param.recast c) = o.map (Param.recast c') ↔
      c.AgreeOn c' (o.toList.flatMap Param.children) := by
    cases o <;> simp [Param.recast_inj hname]
  cases params
  simp [recastParams_eq, recastParam?_eq, one, Parameters.children, Parameters.all,
    Param.recast_inj hname]

/-- An expression is recast alike if its number and its parts are. -/
theorem Expr.recast_congr {e : Expr} (hi : c.exprs e.index = c'.exprs e.index)
    (h : c.AgreeOn c' e.children) : e.recast c = e.recast c' := by
  cases e <;>
    simp_all [Expr.children, Expr.index, Expr.site, Site.recast, recastKeywords_eq, recastItems_eq,
      recastClauses_eq, recastLinks_eq, Parameters.recast_inj hname]

/-- Two recasts do the same to nodes. -/
def Recast.AgreeAt (c c' : Recast) (ns : List Node) : Prop := ∀ n ∈ ns, n.recast c = n.recast c'

omit hname

@[simp] theorem agreeAt_cons_expr {e : Expr} {ns : List Node} :
    c.AgreeAt c' (.expr e :: ns) ↔ e.recast c = e.recast c' ∧ c.AgreeAt c' ns := by
  simp [Recast.AgreeAt, Node.recast]

@[simp] theorem agreeAt_append {ns ns' : List Node} :
    c.AgreeAt c' (ns ++ ns') ↔ c.AgreeAt c' ns ∧ c.AgreeAt c' ns' :=
  List.forall_mem_append

@[simp] theorem agreeAt_flatMap {α : Type} {xs : List α} {f : α → List Node} :
    c.AgreeAt c' (xs.flatMap f) ↔ ∀ x ∈ xs, c.AgreeAt c' (f x) :=
  List.forall_mem_flatMap

@[simp] theorem agreeAt_exprNodes {es : List Expr} :
    c.AgreeAt c' (exprNodes es) ↔ c.AgreeOn c' es := by
  simp [Recast.AgreeAt, Recast.AgreeOn, exprNodes, Node.recast]

@[simp] theorem agreeAt_stmtNodes {ts : List Stmt} :
    c.AgreeAt c' (stmtNodes ts) ↔ recastStmts c ts = recastStmts c' ts := by
  simp [Recast.AgreeAt, stmtNodes, Node.recast, recastStmts_eq]

@[simp] theorem WithItem.recast_inj {item : WithItem} :
    item.recast c = item.recast c' ↔ c.AgreeOn c' item.children := by
  simp [WithItem.recast, WithItem.children]

include hname in
/-- A statement is recast alike if its number and its parts are. -/
theorem Stmt.recast_congr {t : Stmt} (hi : c.stmts t.index = c'.stmts t.index)
    (h : c.AgreeAt c' t.children) : t.recast c = t.recast c' := by
  have names : Ident.recast c = Ident.recast c' := by
    funext i
    rw [Ident.recast, Ident.recast, hname]
  have aliases : Alias.recast c = Alias.recast c' := by
    funext a
    rw [Alias.recast, Alias.recast, hname]
  have handlers {handler : Handler Stmt} :
      handler.recast c = handler.recast c' ↔ c.AgreeAt c' handler.children := by
    cases handler
    simp [Handler.children, names]
  have params {ps : Parameters Expr} := @Parameters.recast_inj _ _ hname ps
  cases t with
  | functionDef d =>
    cases d
    simp_all [Stmt.children, FunctionDef.children, Stmt.index, Stmt.site, Site.recast,
      ← recastExprs_eq]
  | classDef d =>
    cases d
    simp_all [Stmt.children, ClassDef.children, Stmt.index, Stmt.site, Site.recast,
      ← recastExprs_eq]
  | _ =>
    simp_all [Stmt.children, Stmt.index, Stmt.site, Site.recast, recastHandlers_eq,
      ← recastExprs_eq]

include hname in
/-- **Recasts that give the nodes of a tree the same numbers and its variables the same names
do the same to it.** -/
theorem Node.recast_congr (n : Node)
    (he : ∀ e, .expr e ∈ n.preorder → c.exprs e.index = c'.exprs e.index)
    (hs : ∀ t, .stmt t ∈ n.preorder → c.stmts t.index = c'.stmts t.index) :
    n.recast c = n.recast c' := by
  have below : c.AgreeAt c' n.children := fun child hc =>
    Node.recast_congr child (fun e h => he e (Node.mem_preorder_of_mem_children hc h))
      fun t h => hs t (Node.mem_preorder_of_mem_children hc h)
  cases n with
  | expr e =>
    exact congrArg Node.expr (Expr.recast_congr hname (he e (Node.mem_preorder_self _))
      (agreeAt_exprNodes.1 below))
  | stmt t =>
    exact congrArg Node.stmt (Stmt.recast_congr hname (hs t (Node.mem_preorder_self _)) below)
termination_by n.rank
decreasing_by exact rank_lt_of_mem_children hc

end Congr

/-! ## Programs in others -/

theorem Node.exprNumber?_recast (n : Node) :
    (n.recast c).exprNumber? = n.exprNumber?.map c.exprs := by
  cases n with
  | expr e => exact congrArg some e.index_recast
  | stmt t => rfl

theorem Node.stmtNumber?_recast (n : Node) :
    (n.recast c).stmtNumber? = n.stmtNumber?.map c.stmts := by
  cases n with
  | expr e => rfl
  | stmt t => exact congrArg some t.index_recast

/-- A program is in another one: its statements are there, recast, and others stand at one place
between them. -/
def Module.Embeds (c : Recast) (extra : List Stmt) (module whole : Module) : Prop :=
  ∃ before after, module.body = before ++ after ∧
    whole.body = before.map (Stmt.recast c) ++ (extra ++ after.map (Stmt.recast c))

namespace Module.Embeds

variable {extra : List Stmt} {module whole : Module} (h : module.Embeds c extra whole)

include h

/-- The nodes that were put in stand at one place between those of the program. -/
theorem nodes_eq : ∃ before after, module.nodes = before ++ after ∧ whole.nodes =
    before.map (Node.recast c) ++
      ((stmtNodes extra).flatMap Node.preorder ++ after.map (Node.recast c)) := by
  obtain ⟨before, after, hbody, hwhole⟩ := h
  have recast (ts : List Stmt) : (stmtNodes (ts.map (Stmt.recast c))).flatMap Node.preorder =
      ((stmtNodes ts).flatMap Node.preorder).map (Node.recast c) := by
    simp only [stmtNodes_recast, List.flatMap_map, List.map_flatMap, Node.preorder_recast]
  have append (as bs : List Stmt) : (stmtNodes (as ++ bs)).flatMap Node.preorder =
      (stmtNodes as).flatMap Node.preorder ++ (stmtNodes bs).flatMap Node.preorder := by
    rw [stmtNodes, List.map_append, List.flatMap_append]
    rfl
  refine ⟨_, _, by rw [Module.nodes, hbody, append], ?_⟩
  rw [Module.nodes, hwhole, append, append, recast, recast]

/-- The nodes of the whole are those of the program and those that were put in. -/
theorem nodes_perm : whole.nodes.Perm
    (module.nodes.map (Node.recast c) ++ (stmtNodes extra).flatMap Node.preorder) := by
  obtain ⟨before, after, hnodes, hwhole⟩ := h.nodes_eq
  rw [hnodes, hwhole, List.map_append, List.append_assoc]
  exact List.perm_append_comm.append_left _

theorem mem_nodes {n : Node} (hn : n ∈ module.nodes) : n.recast c ∈ whole.nodes :=
  h.nodes_perm.mem_iff.2 (List.mem_append_left _ (List.mem_map_of_mem hn))

variable (hw : whole.Numbered)

include hw

theorem exprs_nodup : ((module.nodes.filterMap Node.exprNumber?).map c.exprs ++
    ((stmtNodes extra).flatMap Node.preorder).filterMap Node.exprNumber?).Nodup := by
  have nodup := (h.nodes_perm.filterMap Node.exprNumber?).nodup_iff.1 hw.exprs_nodup
  rwa [List.filterMap_append, List.filterMap_map, Function.comp_def, funext Node.exprNumber?_recast,
    ← List.map_filterMap] at nodup

theorem stmts_nodup : ((module.nodes.filterMap Node.stmtNumber?).map c.stmts ++
    ((stmtNodes extra).flatMap Node.preorder).filterMap Node.stmtNumber?).Nodup := by
  have nodup := (h.nodes_perm.filterMap Node.stmtNumber?).nodup_iff.1 hw.stmts_nodup
  rwa [List.filterMap_append, List.filterMap_map, Function.comp_def, funext Node.stmtNumber?_recast,
    ← List.map_filterMap] at nodup

/-- Expressions of the program are told apart in the whole. -/
theorem expr_inj {e e' : Expr} (he : .expr e ∈ module.nodes) (he' : .expr e' ∈ module.nodes)
    (hi : c.exprs e.index = c.exprs e'.index) : e.index = e'.index :=
  List.inj_on_of_nodup_map (List.nodup_append.1 (h.exprs_nodup hw)).1
    (List.mem_filterMap.2 ⟨_, he, rfl⟩) (List.mem_filterMap.2 ⟨_, he', rfl⟩) hi

/-- Statements of the program are told apart in the whole. -/
theorem stmt_inj {t t' : Stmt} (ht : .stmt t ∈ module.nodes) (ht' : .stmt t' ∈ module.nodes)
    (hi : c.stmts t.index = c.stmts t'.index) : t.index = t'.index :=
  List.inj_on_of_nodup_map (List.nodup_append.1 (h.stmts_nodup hw)).1
    (List.mem_filterMap.2 ⟨_, ht, rfl⟩) (List.mem_filterMap.2 ⟨_, ht', rfl⟩) hi

/-- An expression that was put in is none of the program. -/
theorem expr_ne {e e' : Expr} (he : .expr e ∈ module.nodes)
    (he' : .expr e' ∈ (stmtNodes extra).flatMap Node.preorder) : e'.index ≠ c.exprs e.index :=
  fun hi => (List.nodup_append.1 (h.exprs_nodup hw)).2.2 _
    (List.mem_map_of_mem (List.mem_filterMap.2 ⟨_, he, rfl⟩)) _
    (List.mem_filterMap.2 ⟨_, he', rfl⟩) hi.symm

/-- A statement that was put in is none of the program. -/
theorem stmt_ne {t t' : Stmt} (ht : .stmt t ∈ module.nodes)
    (ht' : .stmt t' ∈ (stmtNodes extra).flatMap Node.preorder) : t'.index ≠ c.stmts t.index :=
  fun hi => (List.nodup_append.1 (h.stmts_nodup hw)).2.2 _
    (List.mem_map_of_mem (List.mem_filterMap.2 ⟨_, ht, rfl⟩)) _
    (List.mem_filterMap.2 ⟨_, ht', rfl⟩) hi.symm

end Module.Embeds

/-- A program under other names is numbered as before. -/
theorem Module.Numbered.rename {module : Module} (h : module.Numbered) (name : String → String) :
    (module.recast { name }).Numbered := by
  have same (number : Node → Option Nat) (hn : ∀ n : Node, number (n.recast { name }) = number n) :
      (module.recast { name }).nodes.filterMap number = module.nodes.filterMap number := by
    rw [Module.nodes_recast, List.filterMap_map]
    exact List.filterMap_congr fun n _ => hn n
  refine ⟨?_, ?_, fun n hn => ?_⟩
  · refine (congrArg (List.Subperm · _) (same Node.exprNumber? fun n => ?_)).mpr h.exprs
    rw [Node.exprNumber?_recast]
    exact Option.map_id'
  · refine (congrArg (List.Subperm · _) (same Node.stmtNumber? fun n => ?_)).mpr h.stmts
    rw [Node.stmtNumber?_recast]
    exact Option.map_id'
  · rw [Module.nodes_recast] at hn
    obtain ⟨n, hmem, rfl⟩ := List.mem_map.1 hn
    have named := h.imports n hmem
    rcases n with t | e
    · cases t with
      | importModules site names =>
        simpa [Node.recast, Stmt.recast, Node.ImportsNamed] using named
      | _ => trivial
    · trivial

end SdkUsage.Tree
