/-
Rules for statements read the nodes of their value, and do the same under any bounds that
exceed the number of tokens to come. So a module that was parsed is `Numbered`: the numbers of
its nodes are told apart by the supply they come from.

A statement may come to an expression before it has passed a token, but comes back to
statements only after one. So the rules for expressions have to be tracked for one token more
than those for statements (`Nesting.Tracked`), and `statements_tracked` needs a bound of one
more than `expression_tracked`.
-/
import SdkUsage.Grammar.Statement
import SdkUsage.Proofs.Grammar.Expression

namespace SdkUsage.Grammar

open SdkUsage.Tree

/-- Statements. -/
def Gain.stmts (passed : Bool) : Gain (List Stmt) := .of (fun _ => passed) stmtNodes

namespace Recursion

variable {watch : Prop} {g g' : Recursion} {n : Nat}

/-! ## Imports -/

theorem dottedPart_reads {name : String} (hn : watch → StartsName name) :
    Reads watch n (dottedPart? name) (dottedPart? name)
      (.tokens Option.isSome fun o => StartsName (o.getD name)) := by
  refine .on fun t => .accept rfl ?_ (.pure rfl (.refl _) hn)
  exact ident_reads.bind fun part _ => .pure rfl (.refl _) fun hw => ((hn hw).append _).append _

theorem asName_reads : Reads watch n asName? asName?
    (.tokens (fun _ => false) fun o => ∀ name ∈ o, name.text ≠ "*") := by
  refine .on fun t => .accept rfl ?_ (.pure rfl (.refl _) (by rintro _ _ ⟨⟩))
  refine ident_reads.bind fun name hn => .pure rfl (.refl _) fun hw => ?_
  rintro _ ⟨⟩
  exact (hn hw).ne_star

theorem importLevel_reads (level : Nat) : Reads watch n (importLevel? level) (importLevel? level)
    (.tokens Option.isSome fun _ => True) :=
  .on fun _ => .accept rfl (.pure rfl (.refl _) fun _ => trivial)
    (.accept rfl (.pure rfl (.refl _) fun _ => trivial) (.pure rfl (.refl _) fun _ => trivial))

/-- What is imported under names is not named by a star. -/
theorem starless_alias {span : Span} {name : String} {asName : Option Ident}
    (hn : StartsName name) (ha : ∀ name ∈ asName, name.text ≠ "*") :
    Alias.Starless ⟨span, name, asName⟩ where
  unnamed star := absurd star hn.ne_star
  named _ := by
    cases asName with
    | some ident => exact ha ident rfl
    | none =>
      -- The first character is that of a name, before any point.
      obtain ⟨c, hc, hw⟩ := hn
      refine StartsName.ne_star ⟨c, ?_, hw⟩
      have point : c ≠ '.' := by
        rintro rfl
        revert hw
        decide
      obtain ⟨cs, hcs⟩ := List.head?_eq_some_iff.1 hc
      simp [Alias.boundName, hcs, point]

theorem importedMember_reads : Reads watch n importedMember importedMember
    (.tokens (fun _ => true) Alias.Starless) := by
  refine .on fun t => ident_reads.bind fun name hn => asName_reads.bind fun asName ha => ?_
  exact .spanSince fun _ => .pure rfl (.refl _) fun hw => starless_alias (hn hw) (ha hw)

/-- A statement that is a word alone. -/
theorem wordStmt_takes {t : Token} {text : String} (build : Site → Stmt) (ht : t.word = text)
    (hw : (text == "") = false)
    (h : ∀ s, (build s).site = s ∧ Covers [] (build s).children ∧ (Node.stmt (build s)).Starless) :
    Takes watch n t.span false [] (some t) (wordStmt build) (wordStmt build) .stmt :=
  .here (.advance_word ht hw (.stmtNode build fun _ => h))

section

variable (hg : Tracked watch g g' n)

include hg

/-- A dotted name is a name. -/
theorem dottedName_reads : Reads watch n g.dottedName g'.dottedName
    (.tokens (fun _ => true) fun r => StartsName r.2) := by
  refine .on fun t => .here (ident_reads.bind fun first hf => ?_)
  have names : Reads watch n (repeated dottedPart? g.bound first.text)
      (repeated dottedPart? g'.bound first.text) (.tokens (fun _ => false) StartsName) :=
    .repeated (fun _ h => dottedPart_reads h) hg.bound hg.bound' hf
  exact names.bind fun name hn => .spanSince fun _ => .pure rfl (.refl _) hn

theorem importedModule_reads : Reads watch n g.importedModule g'.importedModule
    (.tokens (fun _ => true) fun a => a.name ≠ "*" ∧ a.Starless) := by
  refine .on fun t => (dottedName_reads hg).bind fun r hr => asName_reads.bind fun asName ha => ?_
  refine .spanSince fun _ => .pure rfl (.refl _) fun hw => ?_
  exact ⟨(hr hw).ne_star, starless_alias (hr hw) (ha hw)⟩

theorem importStmt_reads : ReadsStmt watch n g.importStmt g'.importStmt := by
  refine .on fun t => .here (.expect rfl ?_)
  refine (hg.names rfl (importedModule_reads hg) fun _ => rfl).bind fun names hn => ?_
  exact .stmtNode (fun s => .importModules s names) fun hw _ => ⟨rfl, .refl _, hn hw⟩

theorem importedMembers_reads : Reads watch n g.importedMembers g'.importedMembers
    (.tokens (fun _ => true) fun names => ∀ a ∈ names, a.Starless) := by
  refine .on fun t => .here (.accept rfl ?_ (.accept_any rfl fun parenthesized => ?_))
  · refine .pure rfl (.refl _) fun _ a ha => ?_
    cases List.mem_singleton.1 ha
    exact ⟨fun _ => rfl, fun plain => absurd rfl plain⟩
  refine (hg.names rfl importedMember_reads fun _ => rfl).bind fun names hn => ?_
  split
  · exact .expect rfl (.pure rfl (.refl _) hn)
  · exact .pure rfl (.refl _) hn

theorem importFromStmt_reads : ReadsStmt watch n g.importFromStmt g'.importFromStmt := by
  have levels : Reads watch n (repeated importLevel? g.bound 0) (repeated importLevel? g'.bound 0)
      (.tokens (fun _ => false) fun _ => True) :=
    .repeated (fun v _ => importLevel_reads v) hg.bound hg.bound' fun _ => trivial
  have path : Reads watch n
      (do if (← word) = "import" then return none
          return some (← g.dottedName).2)
      (do if (← word) = "import" then return none
          return some (← g'.dottedName).2) (.tokens (fun _ => false) fun _ => True) := by
    refine .on fun t => .word ?_
    split
    · exact .pure rfl (.refl _) fun _ => trivial
    · exact (dottedName_reads hg).bind fun r _ => .pure rfl (.refl _) fun _ => trivial
  refine .on fun t => .here (.expect rfl (levels.bind fun level _ => path.bind fun path _ => ?_))
  split
  · exact .fail nofun
  · refine .expect rfl ((importedMembers_reads hg).bind fun names hn => ?_)
    exact .stmtNode (fun s => .importFrom s path level names) fun hw _ => ⟨rfl, .refl _, hn hw⟩

/-! ## Simple statements -/

theorem exprOrYield_reads : ReadsExpr watch n g.exprOrYield g'.exprOrYield := by
  refine .on fun t => .word ?_
  split
  · exact (yieldExpr_reads hg).takes
  · exact (exprList_reads hg).takes

theorem assignedSide_reads : Reads watch n g.assignedSide? g'.assignedSide? Gain.expr.maybe :=
  .on fun _ => .accept rfl ((exprOrYield_reads hg).bind fun _ _ => .found rfl fun _ => trivial)
    .nothing

theorem exprStmt_reads : ReadsStmt watch n g.exprStmt g'.exprStmt := by
  refine .on fun t => .here ((exprOrYield_reads hg).bind fun first _ => ?_)
  refine ((hg.many (assignedSide_reads hg)).nodes flatMap_expr).bind fun sides _ => ?_
  cases hl : sides.getLast? with
  | some value =>
    -- The last side is the value, and all sides before it are targets.
    refine .stmtNode (fun s => .assign s (first :: sides.dropLast) value) fun _ _ => ⟨rfl, ?_, trivial⟩
    have parts : first :: sides.dropLast ++ [value] = first :: sides := by
      rw [List.cons_append, List.dropLast_append_getLast? value hl]
    simp only [Stmt.children, parts]
    exact .refl _
  | none =>
    cases List.getLast?_eq_none_iff.1 hl
    refine .accept rfl ?_ (.on fun u => .word ?_)
    · refine (test_reads hg).bind fun hint _ => (assignedSide_reads hg).bind fun value _ => ?_
      rw [Bool.or_comm]
      refine .stmtNode (fun s => .annAssign s first hint value) fun _ _ => ⟨rfl, ?_, trivial⟩
      cases value <;> exact .refl _
    cases ho : augmentedOps.lookup u.word with
    | some op =>
      have hk : u.kind ≠ .eof := fun hk => by rw [word_of_eof hk] at ho; cases ho
      refine .advance hk ((exprOrYield_reads hg).bind fun value _ => ?_)
      exact .stmtNode (fun s => .augAssign s first op value) fun _ _ => ⟨rfl, .refl _, trivial⟩
    | none => exact .stmtNode (fun s => .expr s first) fun _ _ => ⟨rfl, .refl _, trivial⟩

theorem returnStmt_takes {t : Token} (ht : t.word = "return") :
    Takes watch n t.span false [] (some t) g.returnStmt g'.returnStmt .stmt := by
  refine .here (.advance_word ht rfl (.on fun u => .token ?_))
  split
  · exact .stmtNode (fun s => .returning s none) fun _ _ => ⟨rfl, .refl _, trivial⟩
  · refine (exprList_reads hg).bind fun value _ => ?_
    exact .stmtNode (fun s => .returning s (some value)) fun _ _ => ⟨rfl, .refl _, trivial⟩

theorem raiseStmt_takes {t : Token} (ht : t.word = "raise") :
    Takes watch n t.span false [] (some t) g.raiseStmt g'.raiseStmt .stmt := by
  refine .here (.advance_word ht rfl (.on fun u => .token ?_))
  split
  · exact .stmtNode (fun s => .raising s none none) fun _ _ => ⟨rfl, .refl _, trivial⟩
  refine (test_reads hg).bind fun exc _ => .accept rfl ((test_reads hg).bind fun cause _ => ?_) ?_
  · exact .stmtNode (fun s => .raising s (some exc) (some cause)) fun _ _ => ⟨rfl, .refl _, trivial⟩
  · exact .stmtNode (fun s => .raising s (some exc) none) fun _ _ => ⟨rfl, .refl _, trivial⟩

theorem nameListStmt_takes {t : Token} {text : String} (build : Site → List Ident → Stmt)
    (ht : t.word = text) (hw : (text == "") = false)
    (h : ∀ names : List Ident, (∀ name ∈ names, name.text ≠ "*") → ∀ s, (build s names).site = s ∧
      Covers [] (build s names).children ∧ (Node.stmt (build s names)).Starless) :
    Takes watch n t.span false [] (some t) (g.nameListStmt build) (g'.nameListStmt build) .stmt := by
  refine .here (.advance_word ht hw ?_)
  refine (hg.names rfl ident_reads fun _ => rfl).bind fun names named => ?_
  exact .stmtNode (fun s => build s names) fun hw => h names fun name hn => (named hw name hn).ne_star

theorem deleteStmt_takes {t : Token} (ht : t.word = "del") :
    Takes watch n t.span false [] (some t) g.deleteStmt g'.deleteStmt .stmt := by
  refine .here (.advance_word ht rfl ((targetList_reads hg).bind fun target _ => ?_))
  cases target with
  | tuple site items =>
    exact .stmtNode (fun s => .deleting s items)
      fun _ _ => ⟨rfl, Covers.children (.tuple site items), trivial⟩
  | _ => exact .stmtNode (fun s => .deleting s [_]) fun _ _ => ⟨rfl, .refl _, trivial⟩

theorem assertStmt_takes {t : Token} (ht : t.word = "assert") :
    Takes watch n t.span false [] (some t) g.assertStmt g'.assertStmt .stmt := by
  refine .here (.advance_word ht rfl ((test_reads hg).bind fun test _ => .accept rfl ?_ ?_))
  · refine (test_reads hg).bind fun message _ => ?_
    exact .stmtNode (fun s => .asserting s test (some message)) fun _ _ => ⟨rfl, .refl _, trivial⟩
  · exact .stmtNode (fun s => .asserting s test none) fun _ _ => ⟨rfl, .refl _, trivial⟩

theorem smallStmt_reads : ReadsStmt watch n g.smallStmt g'.smallStmt := by
  refine .on fun t => .word ?_
  generalize ht : t.word = w
  split
  · exact wordStmt_takes .pass ht rfl fun _ => ⟨rfl, .refl _, trivial⟩
  · exact wordStmt_takes .breakLoop ht rfl fun _ => ⟨rfl, .refl _, trivial⟩
  · exact wordStmt_takes .continueLoop ht rfl fun _ => ⟨rfl, .refl _, trivial⟩
  · exact returnStmt_takes hg ht
  · exact raiseStmt_takes hg ht
  · exact nameListStmt_takes hg .globals ht rfl fun _ hn _ => ⟨rfl, .refl _, hn⟩
  · exact nameListStmt_takes hg .nonlocals ht rfl fun _ hn _ => ⟨rfl, .refl _, hn⟩
  · exact deleteStmt_takes hg ht
  · exact assertStmt_takes hg ht
  · exact (importStmt_reads hg).takes
  · exact (importFromStmt_reads hg).takes
  · exact (exprStmt_reads hg).takes

omit hg in
theorem flatMap_stmt (ts : List Stmt) : ts.flatMap (fun t => [Node.stmt t]) = stmtNodes ts :=
  List.flatMap_pure_eq_map _ _

theorem simpleStmts_reads : Reads watch n g.simpleStmts g'.simpleStmts (.stmts true) := by
  have stmts : Reads watch n (separated ";" endsLine g.smallStmt g.bound)
      (separated ";" endsLine g'.smallStmt g'.bound) (.stmts true) :=
    (hg.separated rfl (smallStmt_reads hg) fun _ => rfl).nodes flatMap_stmt
  exact .on fun t => stmts.bind fun ts _ => .lineEnd (.done rfl rfl)

end

end Recursion

namespace Nesting

/-- The rules to come back to do the same and read what they have to: those for statements for
up to `n` tokens, those for expressions for one more. -/
structure Tracked (watch : Prop) (g g' : Nesting) (n : Nat) : Prop where
  rules : Recursion.Tracked watch g.toRecursion g'.toRecursion (n + 1)
  statement : Reads watch n (g.stmts .statement) (g'.stmts .statement) (.stmts true)
  elif : ∀ t : Token, t.word = "elif" →
    Takes watch n t.span false [] (some t) (g.stmts .elif) (g'.stmts .elif) (.stmts true)

/-! ## Compound statements -/

/-- The statements of one more line or compound statement of a block, if it goes on. -/
def group? (g : Nesting) (ends : Token → Bool) : Parse (Option (List Stmt)) := do
  if ends (← token) then return none
  return some (← g.stmts .statement)

variable {watch : Prop} {g g' : Nesting} {n : Nat}

/-- One statement is a list of them. -/
theorem single_takes {span : Span} {next : Option Token} {x y : Parse Stmt}
    (h : Takes watch n span false [] next x y .stmt) :
    Takes watch n span false [] next (do return [← x]) (do return [← y]) (.stmts true) :=
  h.bind fun _ _ => .done rfl rfl

section

variable (hg : Tracked watch g g' n)

include hg

theorem group_reads (ends : Token → Bool) :
    Reads watch n (g.group? ends) (g'.group? ends) (Gain.stmts true).maybe := by
  refine .on fun t => .token ?_
  split
  · exact .nothing
  · exact hg.statement.bind fun ts _ => .found rfl fun _ => trivial

theorem stmtsUntil_reads (ends : Token → Bool) :
    Reads watch n (g.stmtsUntil ends) (g'.stmtsUntil ends) (.stmts false) := by
  refine .on fun t => (hg.rules.back.many (group_reads hg ends)).bind fun groups _ => .done rfl ?_
  show groups.flatMap stmtNodes = _
  rw [stmtNodes, List.map_flatten, List.flatMap_def]
  rfl

theorem block_reads (context : String) :
    Reads watch (n + 1) (g.block context) (g'.block context) (.stmts true) := by
  refine .on fun t => .expect rfl (.on fun t => .kind ?_)
  split
  · exact (Recursion.simpleStmts_reads hg.rules).takes
  next hk =>
  refine .advance (by rw [not_not.1 hk]; nofun) (.on fun t => .kind ?_)
  split
  · exact .fail nofun
  next hk =>
  refine .advance (by rw [not_not.1 hk]; nofun) ((stmtsUntil_reads hg _).past fun body _ => ?_)
  refine .on fun t => .kind ?_
  dsimp only
  split
  · next hk => exact .advance (by rw [hk]; nofun) (.done rfl rfl)
  · exact .done rfl rfl

theorem elseClause_reads :
    Reads watch (n + 1) g.elseClause g'.elseClause (.stmts false) :=
  .on fun _ => .accept rfl (block_reads hg _).takes.lax (.done rfl rfl)

theorem ifStmt_takes {t : Token} {text : String} (ht : t.word = text) (hw : (text == "") = false) :
    Takes watch (n + 1) t.span false [] (some t) g.ifStmt g'.ifStmt .stmt := by
  have orelse : Reads watch n
      (do if (← word) = "elif" then return ← g.stmts .elif
          g.elseClause)
      (do if (← word) = "elif" then return ← g'.stmts .elif
          g'.elseClause) (.stmts false) := by
    refine .on fun t => .word ?_
    split
    · next ht => exact (hg.elif t ht).lax
    · exact (elseClause_reads hg).back.takes
  refine .here (.advance_word ht hw ((Recursion.namedTest_reads hg.rules).bind fun test _ => ?_))
  refine (block_reads hg _).bind fun body _ => orelse.past fun orelse _ => ?_
  exact .stmtNode (fun s => .branch s test body orelse) fun _ _ => ⟨rfl, .refl _, trivial⟩

theorem whileStmt_reads : ReadsStmt watch (n + 1) g.whileStmt g'.whileStmt := by
  refine .on fun t => .here (.expect rfl ?_)
  refine (Recursion.namedTest_reads hg.rules).bind fun test _ => ?_
  refine (block_reads hg _).bind fun body _ => (elseClause_reads hg).bind fun orelse _ => ?_
  exact .stmtNode (fun s => .whileLoop s test body orelse) fun _ _ => ⟨rfl, .refl _, trivial⟩

theorem forStmt_takes (start : Span) (b isAsync : Bool) :
    Takes watch (n + 1) start b [] none (g.forStmt start isAsync) (g'.forStmt start isAsync)
      .stmt := by
  refine .expect rfl ((Recursion.targetList_reads hg.rules).bind fun target _ => .expect rfl ?_)
  refine (Recursion.exprList_reads hg.rules).bind fun iter _ => ?_
  refine (block_reads hg _).bind fun body _ => (elseClause_reads hg).bind fun orelse _ => ?_
  exact .stmtNode (fun s => .forLoop s target iter body orelse isAsync) fun _ _ => ⟨rfl, .refl _, trivial⟩

theorem withItem_reads : Reads watch (n + 1) g.withItem g'.withItem (.exprs WithItem.children) := by
  refine .on fun t => (Recursion.test_reads hg.rules).bind fun context _ => ?_
  refine .accept rfl ?_ (.done rfl rfl)
  exact (Recursion.starOr_reads hg.rules (hg.rules.expr .bitOr)).bind fun vars _ => .done rfl rfl

theorem withStmt_takes (start : Span) (b isAsync : Bool) :
    Takes watch (n + 1) start b [] none (g.withStmt start isAsync) (g'.withStmt start isAsync)
      .stmt := by
  have items : Reads watch (n + 1) (separated "," (fun _ => false) g.withItem g.bound)
      (separated "," (fun _ => false) g'.withItem g'.bound)
      (.exprs fun items => items.flatMap WithItem.children) :=
    (hg.rules.separated rfl (withItem_reads hg) fun _ => rfl).nodes fun _ => (exprNodes_flatMap _ _).symm
  refine .expect rfl (items.bind fun items _ => (block_reads hg _).bind fun body _ => ?_)
  exact .stmtNode (fun s => .withBlock s items body isAsync) fun _ _ => ⟨rfl, .refl _, trivial⟩

omit hg in
/-- A handler, whose name is a name. -/
def handlerGain : Gain (Handler Stmt) :=
  ⟨fun _ => true, Handler.children, fun handler => ∀ name ∈ handler.name, name.text ≠ "*"⟩

theorem handler_reads : Reads watch (n + 1) g.handler? g'.handler? handlerGain.maybe := by
  have header : Reads watch (n + 1)
      (do if (← word) = ":" then return (none, none)
          let type ← g.test
          return (some type, ← Recursion.asName?))
      (do if (← word) = ":" then return (none, none)
          let type ← g'.test
          return (some type, ← Recursion.asName?))
      ⟨fun _ => false, fun r => exprNodes r.1.toList, fun r => ∀ name ∈ r.2, name.text ≠ "*"⟩ := by
    refine .on fun t => .word ?_
    split
    · exact .pure rfl (.refl _) (by rintro _ _ ⟨⟩)
    · refine (Recursion.test_reads hg.rules).bind fun type _ => ?_
      exact Recursion.asName_reads.bind fun name hn => .pure rfl (.refl _) hn
  refine .on fun t => .here (.accept_bool rfl ?_ .nothing)
  refine header.bind fun r hn => (block_reads hg _).bind fun body _ => .spanSince fun _ => ?_
  exact .found (by simp [Handler.children, handlerGain, Gain.stmts, Gain.of]) hn

theorem finallyClause_reads :
    Reads watch (n + 1) g.finallyClause g'.finallyClause (.stmts false) :=
  .on fun _ => .accept rfl (block_reads hg _).takes.lax (.done rfl rfl)

theorem tryStmt_reads : ReadsStmt watch (n + 1) g.tryStmt g'.tryStmt := by
  refine .on fun t => .here (.expect rfl ((block_reads hg _).bind fun body _ => ?_))
  refine (hg.rules.many (handler_reads hg)).bind fun handlers hn => ?_
  refine (elseClause_reads hg).bind fun orelse _ => (finallyClause_reads hg).bind fun final _ => ?_
  split
  · exact .failAt nofun
  · exact .stmtNode (fun s => .tryBlock s body handlers orelse final)
      fun hw _ => ⟨rfl, .refl _, hn hw⟩

theorem returns_reads : Reads watch (n + 1) g.returns? g'.returns?
    (.of (fun _ => false) fun o => exprNodes o.toList) :=
  .on fun _ => .accept rfl ((Recursion.test_reads hg.rules).bind fun _ _ => .done rfl rfl)
    (.done rfl rfl)

theorem functionStmt_takes (start : Span) (b : Bool) (decorators : List Expr) (isAsync : Bool) :
    Takes watch (n + 1) start b (exprNodes decorators) none
      (g.functionStmt start decorators isAsync) (g'.functionStmt start decorators isAsync) .stmt := by
  refine .expect rfl (ident_reads.bind fun name hn => .expect rfl ?_)
  refine (Recursion.parameters_reads hg.rules _ _).bind fun params hp => .expect rfl ?_
  refine (returns_reads hg).bind fun returns _ => (block_reads hg _).bind fun body _ => ?_
  refine .stmtNode (fun s => .functionDef ⟨s, name, params, returns, decorators, body, isAsync⟩)
    fun hw _ => ⟨rfl, ?_, ⟨(hn hw).ne_star, hp hw⟩⟩
  simpa [Stmt.children, FunctionDef.children, exprNodes_append, Gain.tokens, Gain.of, Gain.stmts]
    using Covers.refl _

theorem classArguments_reads : Reads watch (n + 1) g.classArguments g'.classArguments
    (.of (fun _ => false) fun as => exprNodes (as.map Recursion.Argument.value)) :=
  .on fun _ => .accept rfl (Recursion.arguments_reads hg.rules).takes.lax (.done rfl rfl)

theorem classStmt_takes (start : Span) (b : Bool) (decorators : List Expr) :
    Takes watch (n + 1) start b (exprNodes decorators) none (g.classStmt start decorators)
      (g'.classStmt start decorators) .stmt := by
  refine .expect rfl (ident_reads.bind fun name hn => ?_)
  refine (classArguments_reads hg).bind fun as _ => (block_reads hg _).bind fun body _ => ?_
  refine .stmtNode (fun s => .classDef ⟨s, name, Recursion.positionals as, Recursion.keywordsOf as,
    decorators, body⟩) fun hw _ => ⟨rfl, ?_, (hn hw).ne_star⟩
  have args := (Recursion.arguments_perm as).append_left decorators
  simpa [Stmt.children, ClassDef.children, exprNodes, Gain.tokens, Gain.of, Gain.stmts] using
    (Covers.of_exprs args.subperm).append (stmtNodes body)

theorem decorator_reads : Reads watch (n + 1) g.decorator? g'.decorator? Gain.expr.maybe := by
  refine .on fun t => .accept rfl ?_ .nothing
  refine (Recursion.namedTest_reads hg.rules).bind fun e _ => ?_
  exact .lineEnd (.found rfl fun _ => trivial)

theorem decoratedStmt_reads : ReadsStmt watch (n + 1) g.decoratedStmt g'.decoratedStmt := by
  have decorators := (hg.rules.many (decorator_reads hg)).nodes flatMap_expr
  refine .on fun t => .here (decorators.bind fun decorators _ => .on fun u => .word ?_)
  generalize hu : u.word = w
  split
  · exact (functionStmt_takes hg t.span _ decorators false).off
  · exact (classStmt_takes hg t.span _ decorators).off
  · exact .advance_word hu rfl (functionStmt_takes hg t.span _ decorators true)
  · exact .fail nofun

theorem asyncStmt_reads : ReadsStmt watch (n + 1) g.asyncStmt g'.asyncStmt := by
  refine .on fun t => .here (.expect rfl (.on fun u => .word ?_))
  generalize u.word = w
  split
  · exact (functionStmt_takes hg t.span _ [] true).off
  · exact (forStmt_takes hg t.span _ true).off
  · exact (withStmt_takes hg t.span _ true).off
  · exact .fail nofun

theorem stmtOfWord_reads : Reads watch (n + 1) g.stmtOfWord g'.stmtOfWord (.stmts true) := by
  refine .on fun t => .here (.word ?_)
  generalize ht : t.word = w
  split
  · exact single_takes (ifStmt_takes hg ht rfl)
  · exact single_takes (whileStmt_reads hg).takes
  · exact single_takes (forStmt_takes hg t.span _ false).off
  · exact single_takes (withStmt_takes hg t.span _ false).off
  · exact single_takes (tryStmt_reads hg).takes
  · exact single_takes (functionStmt_takes hg t.span _ [] false).off
  · exact single_takes (classStmt_takes hg t.span _ []).off
  · exact single_takes (decoratedStmt_reads hg).takes
  · exact single_takes (asyncStmt_reads hg).takes
  · exact (Recursion.simpleStmts_reads hg.rules).takes

/-- **A statement comes back to statements only after a token:** on `n + 1` tokens it does what
they do on `n`. -/
theorem statement_reads : Reads watch (n + 1) g.statement g'.statement (.stmts true) := by
  refine .on fun t => .kind ?_
  cases hk : t.kind with
  | indent => exact .fail nofun
  | newline => exact .advance (by rw [hk]; nofun) (.done rfl rfl)
  | symbol | string | number | ident | dedent | eof => exact (stmtOfWord_reads hg).takes

end

end Nesting

/-- **A rule for statements reads the nodes of its value, and is the same under all bounds that
exceed the number of tokens by two.** -/
theorem statements_tracked {watch : Prop} {n b b' : Nat} (hb : n < b) (hb' : n < b') :
    Nesting.Tracked watch (rules b) (rules b') n := by
  induction n generalizing b b' with
  | zero =>
    refine ⟨expression_tracked hb hb', fun _ _ hp => absurd hp.left (Nat.not_lt_zero _), ?_⟩
    exact fun t _ _ _ _ _ hm => absurd hm.left (Nat.not_lt_zero _)
  | succ n ih =>
    obtain ⟨b, rfl⟩ : ∃ k, b = k + 1 := ⟨b - 1, by omega⟩
    obtain ⟨b', rfl⟩ : ∃ k, b' = k + 1 := ⟨b' - 1, by omega⟩
    have tracked := @ih b b' (by omega) (by omega)
    exact ⟨expression_tracked (by omega) (by omega), Nesting.statement_reads tracked,
      fun t ht => Nesting.single_takes (Nesting.ifStmt_takes tracked ht rfl)⟩

end SdkUsage.Grammar

namespace SdkUsage

open SdkUsage.Grammar SdkUsage.Tree

variable {source : Source} {module : Module}

theorem Grammar.Parser.start_sound {parser : Parser} (h : Parser.start source = .ok parser) :
    parser.Sound source ∧ parser.expressions = 0 ∧ parser.statements = 0 := by
  unfold Parser.start at h
  split at h
  · next t lexer hn =>
    cases h
    obtain ⟨lexed, span, named, -, stop⟩ := (Lexer.Sound.start source).next hn
    exact ⟨⟨lexed, span, named, Nat.le_of_eq stop, ⟨[], List.nil_prefix, rfl⟩, Nat.zero_le _⟩,
      rfl, rfl⟩
  · cases h

/-- What is read for the text of a source, with the counts where it ends. -/
theorem Grammar.moduleRule_delivers {p : Parser} (h : Parser.start source = .ok p) :
    Delivers (fun module after => Read source p false (stmtNodes module.body) after ∧
        module.expressions = after.expressions ∧ module.statements = after.statements)
      (SyntaxError.Located source.readChars) (moduleRule p) := by
  have within : Within (p.left + 1) p := ⟨Parser.start_lexer_quiet h, Nat.lt_succ_self _⟩
  have tracked : Nesting.Tracked True (rules p.budget) (rules p.budget) (p.left + 1) :=
    statements_tracked p.left_lt_budget p.left_lt_budget
  obtain ⟨-, body⟩ :=
    Nesting.stmtsUntil_reads tracked endsText within fun _ => (Parser.start_sound h).1
  show Delivers _ _ (EStateM.bind ((rules p.budget).stmtsUntil endsText) _ p)
  unfold EStateM.bind
  cases hr : (rules p.budget).stmtsUntil endsText p with
  | ok body' after =>
    rw [hr] at body
    exact ⟨body.1.read trivial, rfl, rfl⟩
  | error error after =>
    rw [hr] at body
    exact body.2 trivial

/-- What a module that was parsed holds was read for it, from where nothing had
been counted. -/
theorem read_of_parse (h : parse source = .ok module) :
    ∃ start after, start.expressions = 0 ∧ start.statements = 0 ∧
      Read source start false (stmtNodes module.body) after ∧
      module.expressions = after.expressions ∧ module.statements = after.statements := by
  unfold parse at h
  split at h
  · cases h
  · next parser hp =>
    have delivers := moduleRule_delivers hp
    split at h
    · next after hr =>
      cases h
      rw [hr] at delivers
      obtain ⟨-, exprs, stmts⟩ := Parser.start_sound hp
      exact ⟨parser, after, exprs, stmts, delivers⟩
    · cases h

/-- The error of a source that is refused is located in it. -/
theorem located_of_parse {error : SyntaxError} (h : parse source = .error error) :
    error.Located source.readChars := by
  unfold parse at h
  split at h
  · next hp =>
    cases h
    unfold Parser.start at hp
    split at hp
    · cases hp
    · next hn =>
      cases hp
      exact (Lexer.Sound.start source).located.next_error hn
  · next parser hp =>
    have delivers := moduleRule_delivers hp
    split at h
    · cases h
    · next hr =>
      cases h
      rw [hr] at delivers
      exact delivers

/-- The statements of a module that was parsed have all numbers below their
count. -/
theorem stmtNumbers_of_parse (h : parse source = .ok module) :
    (stmtNumbers (stmtNodes module.body)).Perm (List.range module.statements) := by
  obtain ⟨start, after, -, stmts, read, -, hs⟩ := read_of_parse h
  obtain ⟨n, hn, hperm⟩ := read.stmts
  rw [hs, hn, stmts, List.range_eq_range', Nat.zero_add]
  rwa [stmts] at hperm

/-- No name in a module that was parsed is a star. -/
theorem starless_of_parse (h : parse source = .ok module) : ∀ n ∈ module.nodes, n.Starless := by
  obtain ⟨start, after, -, -, read, -, -⟩ := read_of_parse h
  exact fun n hn => (read.below n hn).1

/-- **A module that was parsed is numbered.** -/
theorem numbered_of_parse (h : parse source = .ok module) : module.Numbered := by
  refine ⟨?_, (stmtNumbers_of_parse h).subperm, ?_⟩
  · obtain ⟨start, after, exprs, -, read, he, -⟩ := read_of_parse h
    obtain ⟨n, hn, hsub⟩ := read.exprs
    rw [he, hn, exprs, List.range_eq_range', Nat.zero_add]
    rwa [exprs] at hsub
  · exact fun n hn => (starless_of_parse h n hn).importsNamed

end SdkUsage
