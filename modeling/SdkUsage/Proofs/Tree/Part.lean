/-
Which node is a part of which, place by place. `Node.Part` has a rule for
every place of every form of statement and expression, and says nothing of
how a tree is walked; `Node.mem_children` is the agreement with the lists that
all walks go through.

`Within` is what stands in statements without the insides of definitions:
functions, classes and lambdas are reached, their parts are not.
-/
import SdkUsage.Tree.Walk

namespace SdkUsage.Tree

/-! ## Parts of expressions -/

/-- The places of a comprehension clause. -/
inductive Comprehension.Part : Expr → Comprehension Expr → Prop
  | target {c} : Part c.target c
  | iter {c} : Part c.iter c
  | condition {e c} : e ∈ c.conditions → Part e c

/-- The places of a parameter. -/
inductive Param.Part : Expr → Param Expr → Prop
  | annotated {e p} : p.annotation = some e → Part e p
  | default {e p} : p.default = some e → Part e p

/-- The places of an entry of a dictionary. -/
inductive DictItem.Part : Expr → DictItem Expr → Prop
  | key {e i} : i.key = some e → Part e i
  | value {i} : Part i.value i

/-- The places of an expression: `Part e whole` when `e` stands directly in
`whole`. -/
inductive Expr.Part : Expr → Expr → Prop
  | memberValue {s e a} : Part e (.member s e a)
  | subscriptValue {s e i} : Part e (.subscript s e i)
  | subscriptIndex {s v e} : Part e (.subscript s v e)
  | sliceLower {s e u t} : Part e (.slice s (some e) u t)
  | sliceUpper {s l e t} : Part e (.slice s l (some e) t)
  | sliceStep {s l u e} : Part e (.slice s l u (some e))
  | callee {s e as ks} : Part e (.call s e as ks)
  | argument {s f e as ks} : e ∈ as → Part e (.call s f as ks)
  | keyword {s f as k ks} : k ∈ ks → Part k.value (.call s f as ks)
  | starred {s e} : Part e (.starred s e)
  | listItem {s e es} : e ∈ es → Part e (.list s es)
  | tupleItem {s e es} : e ∈ es → Part e (.tuple s es)
  | setItem {s e es} : e ∈ es → Part e (.set s es)
  | dictItem {s e i is} : i ∈ is → DictItem.Part e i → Part e (.dict s is)
  | listElement {s e cs} : Part e (.listComp s e cs)
  | listClause {s x e c cs} : c ∈ cs → Comprehension.Part e c → Part e (.listComp s x cs)
  | setElement {s e cs} : Part e (.setComp s e cs)
  | setClause {s x e c cs} : c ∈ cs → Comprehension.Part e c → Part e (.setComp s x cs)
  | generatorElement {s e cs} : Part e (.generator s e cs)
  | generatorClause {s x e c cs} : c ∈ cs → Comprehension.Part e c → Part e (.generator s x cs)
  | dictKey {s e v cs} : Part e (.dictComp s e v cs)
  | dictValue {s k e cs} : Part e (.dictComp s k e cs)
  | dictClause {s k v e c cs} : c ∈ cs → Comprehension.Part e c → Part e (.dictComp s k v cs)
  | lambdaParam {s e p ps b} : p ∈ ps.all → Param.Part e p → Part e (.lambda s ps b)
  | lambdaBody {s ps e} : Part e (.lambda s ps e)
  | unaryOperand {s o e} : Part e (.unary s o e)
  | binaryLhs {s o e r} : Part e (.binary s o e r)
  | binaryRhs {s o l e} : Part e (.binary s o l e)
  | booleanLhs {s o e r} : Part e (.boolean s o e r)
  | booleanRhs {s o l e} : Part e (.boolean s o l e)
  | compareLhs {s e ls} : Part e (.compare s e ls)
  | compareLink {s x l ls} : l ∈ ls → Part l.operand (.compare s x ls)
  | conditionalTest {s e b o} : Part e (.conditional s e b o)
  | conditionalBody {s t e o} : Part e (.conditional s t e o)
  | conditionalElse {s t b e} : Part e (.conditional s t b e)
  | namedTarget {s e v} : Part e (.named s e v)
  | namedValue {s t e} : Part e (.named s t e)
  | awaited {s e} : Part e (.await s e)
  | yielded {s e d} : Part e (.yield s (some e) d)

theorem Comprehension.mem_children {e : Expr} {c : Comprehension Expr} :
    e ∈ c.children ↔ Part e c := by
  constructor
  · intro h
    simp only [children, List.mem_cons] at h
    rcases h with rfl | rfl | h
    · exact .target
    · exact .iter
    · exact .condition h
  · rintro (_ | _ | h) <;> simp [children, *]

theorem Param.mem_children {e : Expr} {p : Param Expr} : e ∈ p.children ↔ Part e p := by
  simp only [children, List.mem_append, Option.mem_toList]
  constructor
  · rintro (h | h)
    · exact .annotated h
    · exact .default h
  · rintro (h | h)
    · exact .inl h
    · exact .inr h

theorem DictItem.mem_children {e : Expr} {i : DictItem Expr} : e ∈ i.children ↔ Part e i := by
  simp only [children, List.mem_append, Option.mem_toList, List.mem_singleton]
  constructor
  · rintro (h | rfl)
    · exact .key h
    · exact .value
  · rintro (h | _)
    · exact .inl h
    · exact .inr rfl

theorem mem_children_clauses {e : Expr} {cs : List (Comprehension Expr)} :
    e ∈ cs.flatMap Comprehension.children ↔ ∃ c ∈ cs, Comprehension.Part e c := by
  simp only [List.mem_flatMap, Comprehension.mem_children]

theorem Parameters.mem_children {e : Expr} {ps : Parameters Expr} :
    e ∈ ps.children ↔ ∃ p ∈ ps.all, Param.Part e p := by
  simp only [children, List.mem_flatMap, Param.mem_children]

/-- The direct subexpressions of an expression are what stands in its places. -/
theorem Expr.mem_children {e whole : Expr} : e ∈ whole.children ↔ Part e whole := by
  constructor
  · intro h
    cases whole <;> simp only [children, List.mem_cons, List.mem_append, List.not_mem_nil,
      or_false, List.mem_map, List.cons_append, Option.mem_toList, List.mem_flatMap,
      Comprehension.mem_children, Parameters.mem_children, DictItem.mem_children] at h
    case member => subst h; exact .memberValue
    case subscript => rcases h with rfl | rfl <;> constructor
    case slice => rcases h with (rfl | rfl) | rfl <;> constructor
    case call =>
      rcases h with rfl | h | ⟨k, hk, rfl⟩
      · exact .callee
      · exact .argument h
      · exact .keyword hk
    case starred => subst h; exact .starred
    case list => exact .listItem h
    case tuple => exact .tupleItem h
    case set => exact .setItem h
    case dict => obtain ⟨i, hi, he⟩ := h; exact .dictItem hi he
    case listComp =>
      rcases h with rfl | ⟨c, hc, he⟩
      · exact .listElement
      · exact .listClause hc he
    case setComp =>
      rcases h with rfl | ⟨c, hc, he⟩
      · exact .setElement
      · exact .setClause hc he
    case generator =>
      rcases h with rfl | ⟨c, hc, he⟩
      · exact .generatorElement
      · exact .generatorClause hc he
    case dictComp =>
      rcases h with rfl | rfl | ⟨c, hc, he⟩
      · exact .dictKey
      · exact .dictValue
      · exact .dictClause hc he
    case lambda =>
      rcases h with ⟨p, hp, he⟩ | rfl
      · exact .lambdaParam hp he
      · exact .lambdaBody
    case unary => subst h; exact .unaryOperand
    case binary => rcases h with rfl | rfl <;> constructor
    case boolean => rcases h with rfl | rfl <;> constructor
    case compare =>
      rcases h with rfl | ⟨l, hl, rfl⟩
      · exact .compareLhs
      · exact .compareLink hl
    case conditional => rcases h with rfl | rfl | rfl <;> constructor
    case named => rcases h with rfl | rfl <;> constructor
    case await => subst h; exact .awaited
    case yield => subst h; exact .yielded
  · intro h
    cases h
    case dictItem hi he =>
      exact List.mem_flatMap.2 ⟨_, hi, DictItem.mem_children.2 he⟩
    case listClause hc he | setClause hc he | generatorClause hc he =>
      exact List.mem_cons_of_mem _ (mem_children_clauses.2 ⟨_, hc, he⟩)
    case dictClause hc he =>
      exact List.mem_cons_of_mem _ (List.mem_cons_of_mem _ (mem_children_clauses.2 ⟨_, hc, he⟩))
    case lambdaParam hp he =>
      exact List.mem_append_left _ (Parameters.mem_children.2 ⟨_, hp, he⟩)
    case keyword hk => exact List.mem_append_right _ (List.mem_map.2 ⟨_, hk, rfl⟩)
    case compareLink hl => exact List.mem_cons_of_mem _ (List.mem_map.2 ⟨_, hl, rfl⟩)
    all_goals simp [children, *]

/-! ## Parts of statements -/

/-- The places of an item of a `with` statement. -/
inductive WithItem.Part : Expr → WithItem → Prop
  | context {i} : Part i.context i
  | vars {e i} : i.vars = some e → Part e i

/-- The places of a handler. -/
inductive Handler.Part : Node → Handler Stmt → Prop
  | type {e h} : h.type = some e → Part (.expr e) h
  | body {t h} : t ∈ h.body → Part (.stmt t) h

/-- The places of a function definition. -/
inductive FunctionDef.Part : Node → Function → Prop
  | decorator {e d} : e ∈ d.decorators → Part (.expr e) d
  | param {e p d} : p ∈ d.params.all → Param.Part e p → Part (.expr e) d
  | returns {e d} : d.returns = some e → Part (.expr e) d
  | body {t d} : t ∈ d.body → Part (.stmt t) d

/-- The places of a class definition. -/
inductive ClassDef.Part : Node → ClassDef Stmt → Prop
  | decorator {e d} : e ∈ d.decorators → Part (.expr e) d
  | base {e d} : e ∈ d.bases → Part (.expr e) d
  | keyword {k d} : k ∈ d.keywords → Part (.expr k.value) d
  | body {t d} : t ∈ d.body → Part (.stmt t) d

/-- The places of a statement: `Part node whole` when `node` stands directly in
`whole`. -/
inductive Stmt.Part : Node → Stmt → Prop
  | value {s e} : Part (.expr e) (.expr s e)
  | assignTarget {s e es v} : e ∈ es → Part (.expr e) (.assign s es v)
  | assignValue {s es e} : Part (.expr e) (.assign s es e)
  | augTarget {s e o v} : Part (.expr e) (.augAssign s e o v)
  | augValue {s t o e} : Part (.expr e) (.augAssign s t o e)
  | annTarget {s e a v} : Part (.expr e) (.annAssign s e a v)
  | annotated {s t e v} : Part (.expr e) (.annAssign s t e v)
  | annValue {s t a e} : Part (.expr e) (.annAssign s t a (some e))
  | function {n d} : FunctionDef.Part n d → Part n (.functionDef d)
  | «class» {n d} : ClassDef.Part n d → Part n (.classDef d)
  | returned {s e} : Part (.expr e) (.returning s (some e))
  | branchTest {s e b o} : Part (.expr e) (.branch s e b o)
  | branchBody {s e t b o} : t ∈ b → Part (.stmt t) (.branch s e b o)
  | branchElse {s e t b o} : t ∈ o → Part (.stmt t) (.branch s e b o)
  | whileTest {s e b o} : Part (.expr e) (.whileLoop s e b o)
  | whileBody {s e t b o} : t ∈ b → Part (.stmt t) (.whileLoop s e b o)
  | whileElse {s e t b o} : t ∈ o → Part (.stmt t) (.whileLoop s e b o)
  | forTarget {s e i b o a} : Part (.expr e) (.forLoop s e i b o a)
  | forIter {s x e b o a} : Part (.expr e) (.forLoop s x e b o a)
  | forBody {s x i t b o a} : t ∈ b → Part (.stmt t) (.forLoop s x i b o a)
  | forElse {s x i t b o a} : t ∈ o → Part (.stmt t) (.forLoop s x i b o a)
  | withItem {s e i is b a} : i ∈ is → WithItem.Part e i → Part (.expr e) (.withBlock s is b a)
  | withBody {s is t b a} : t ∈ b → Part (.stmt t) (.withBlock s is b a)
  | tryBody {s t b hs o f} : t ∈ b → Part (.stmt t) (.tryBlock s b hs o f)
  | handler {s n b h hs o f} : h ∈ hs → Handler.Part n h → Part n (.tryBlock s b hs o f)
  | tryElse {s t b hs o f} : t ∈ o → Part (.stmt t) (.tryBlock s b hs o f)
  | finally {s t b hs o f} : t ∈ f → Part (.stmt t) (.tryBlock s b hs o f)
  | raised {s e c} : Part (.expr e) (.raising s (some e) c)
  | cause {s x e} : Part (.expr e) (.raising s x (some e))
  | assertTest {s e m} : Part (.expr e) (.asserting s e m)
  | assertMessage {s t e} : Part (.expr e) (.asserting s t (some e))
  | deleted {s e es} : e ∈ es → Part (.expr e) (.deleting s es)

theorem WithItem.mem_children {e : Expr} {i : WithItem} : e ∈ i.children ↔ Part e i := by
  simp only [children, List.mem_cons, Option.mem_toList]
  constructor
  · rintro (rfl | h)
    · exact .context
    · exact .vars h
  · rintro (_ | h)
    · exact .inl rfl
    · exact .inr h

@[simp] theorem expr_mem_exprNodes {e : Expr} {es : List Expr} :
    Node.expr e ∈ exprNodes es ↔ e ∈ es := by
  simp [exprNodes]

@[simp] theorem stmt_not_mem_exprNodes {t : Stmt} {es : List Expr} :
    Node.stmt t ∉ exprNodes es := by
  simp [exprNodes]

@[simp] theorem stmt_mem_stmtNodes {t : Stmt} {ts : List Stmt} :
    Node.stmt t ∈ stmtNodes ts ↔ t ∈ ts := by
  simp [stmtNodes]

@[simp] theorem expr_not_mem_stmtNodes {e : Expr} {ts : List Stmt} :
    Node.expr e ∉ stmtNodes ts := by
  simp [stmtNodes]

theorem Handler.mem_children {n : Node} {h : Handler Stmt} : n ∈ h.children ↔ Part n h := by
  constructor
  · intro hn
    cases n with
    | stmt t =>
      have ht : t ∈ h.body := by simpa [children] using hn
      exact .body ht
    | expr e =>
      have he : h.type = some e := by simpa [children] using hn
      exact .type he
  · rintro (h | h) <;> simp [children, h]

theorem FunctionDef.mem_children {n : Node} {d : Function} : n ∈ d.children ↔ Part n d := by
  constructor
  · intro h
    cases n with
    | stmt t =>
      have ht : t ∈ d.body := by simpa [children] using h
      exact .body ht
    | expr e =>
      have he : (e ∈ d.decorators ∨ e ∈ d.params.children) ∨ d.returns = some e := by
        simpa [children, or_assoc] using h
      rcases he with (he | he) | he
      · exact .decorator he
      · obtain ⟨p, hp, he⟩ := Parameters.mem_children.1 he
        exact .param hp he
      · exact .returns he
  · rintro (h | ⟨hp, he⟩ | h | h)
    · simp [children, h]
    · have := Parameters.mem_children.2 ⟨_, hp, he⟩
      simp [children, this]
    · simp [children, h]
    · simp [children, h]

theorem ClassDef.mem_children {n : Node} {d : ClassDef Stmt} : n ∈ d.children ↔ Part n d := by
  constructor
  · intro h
    cases n with
    | stmt t =>
      have ht : t ∈ d.body := by simpa [children] using h
      exact .body ht
    | expr e =>
      have he : e ∈ d.decorators ∨ e ∈ d.bases ∨ ∃ k ∈ d.keywords, k.value = e := by
        simpa [children] using h
      rcases he with he | he | ⟨k, hk, rfl⟩
      · exact .decorator he
      · exact .base he
      · exact .keyword hk
  · rintro (h | h | h | h)
    · simp [children, h]
    · simp [children, h]
    · simp only [children, List.mem_append, expr_mem_exprNodes, List.mem_map]
      exact .inl (.inr ⟨_, h, rfl⟩)
    · simp [children, h]

/-- The direct parts of a statement are what stands in its places. -/
theorem Stmt.mem_children {n : Node} {whole : Stmt} : n ∈ whole.children ↔ Part n whole := by
  constructor
  · intro h
    cases whole <;> simp only [children, exprNodes_append, exprNodes_cons, List.mem_cons,
      List.mem_append, List.not_mem_nil, or_false, List.mem_flatMap, FunctionDef.mem_children,
      ClassDef.mem_children, Handler.mem_children, mem_exprNodes, mem_stmtNodes,
      Option.mem_toList, WithItem.mem_children] at h
    case expr => subst h; exact .value
    case assign =>
      rcases h with ⟨e, he, rfl⟩ | rfl | ⟨e, he, rfl⟩
      · exact .assignTarget he
      · exact .assignValue
      · simp at he
    case augAssign => rcases h with rfl | rfl <;> constructor
    case annAssign =>
      rcases h with rfl | rfl | ⟨e, rfl, rfl⟩ <;> constructor
    case functionDef => exact .function h
    case classDef => exact .class h
    case returning => obtain ⟨e, rfl, rfl⟩ := h; exact .returned
    case branch =>
      rcases h with rfl | ⟨t, ht, rfl⟩ | ⟨t, ht, rfl⟩
      · exact .branchTest
      · exact .branchBody ht
      · exact .branchElse ht
    case whileLoop =>
      rcases h with rfl | ⟨t, ht, rfl⟩ | ⟨t, ht, rfl⟩
      · exact .whileTest
      · exact .whileBody ht
      · exact .whileElse ht
    case forLoop =>
      rcases h with rfl | rfl | ⟨t, ht, rfl⟩ | ⟨t, ht, rfl⟩
      · exact .forTarget
      · exact .forIter
      · exact .forBody ht
      · exact .forElse ht
    case withBlock =>
      rcases h with ⟨e, ⟨i, hi, he⟩, rfl⟩ | ⟨t, ht, rfl⟩
      · exact .withItem hi he
      · exact .withBody ht
    case tryBlock =>
      rcases h with ((⟨t, ht, rfl⟩ | ⟨d, hd, hn⟩) | ⟨t, ht, rfl⟩) | ⟨t, ht, rfl⟩
      · exact .tryBody ht
      · exact .handler hd hn
      · exact .tryElse ht
      · exact .finally ht
    case raising => rcases h with ⟨e, rfl, rfl⟩ | ⟨e, rfl, rfl⟩ <;> constructor
    case asserting => rcases h with rfl | ⟨e, rfl, rfl⟩ <;> constructor
    case deleting => obtain ⟨e, he, rfl⟩ := h; exact .deleted he
  · intro h
    cases h
    case function h => exact FunctionDef.mem_children.2 h
    case «class» h => exact ClassDef.mem_children.2 h
    case withItem hi he =>
      have := List.mem_flatMap.2 ⟨_, hi, WithItem.mem_children.2 he⟩
      exact List.mem_append_left _ (expr_mem_exprNodes.2 this)
    case handler hh hn =>
      have := List.mem_flatMap.2 ⟨_, hh, Handler.mem_children.2 hn⟩
      simp only [children, List.mem_append]
      exact .inl (.inl (.inr this))
    all_goals simp [children, *]

/-! ## Parts of nodes -/

/-- The places of a node. -/
inductive Node.Part : Node → Node → Prop
  | ofStmt {n t} : Stmt.Part n t → Part n (.stmt t)
  | ofExpr {e whole} : Expr.Part e whole → Part (.expr e) (.expr whole)

/-- **Walks miss nothing.** The direct parts of a node are what stands in its
places. -/
theorem Node.mem_children {n whole : Node} : n ∈ whole.children ↔ Part n whole := by
  cases whole with
  | stmt t =>
    refine Stmt.mem_children.trans ⟨.ofStmt, fun h => ?_⟩
    cases h with
    | ofStmt h => exact h
  | expr whole =>
    refine mem_exprNodes.trans ⟨?_, fun h => ?_⟩
    · rintro ⟨e, he, rfl⟩
      exact .ofExpr (Expr.mem_children.1 he)
    · cases h with
      | ofExpr h => exact ⟨_, Expr.mem_children.2 h, rfl⟩

end SdkUsage.Tree
