/-
What an analysis does not depend on: definitions that nothing uses, and the names of variables.

Both follow from one fact, `Tree.Recast.calls?_eq`: a program and another one that holds a copy of
it, under other names and numbers and with unused definitions between its statements, are found to
invoke the same. An application is a program with calls of its entry points, and these are copied
with it (`Tree.Recast.Gives.invokeEntryPoints`).
-/
import Mathlib.Logic.Equiv.Basic
import SdkUsage.Proofs.EntryPoint.Recast
import SdkUsage.Proofs.Inference.Match

namespace SdkUsage

open SdkUsage.Tree SdkUsage.Inference

variable {config : Config} {c : Recast} {m m' : Module}

namespace Tree

/-! ## Modules without spans -/

theorem Alias.Starless.spanless {a : Alias} (h : a.Starless) : (a.recast {}).Starless where
  unnamed := by
    intro hstar
    rw [Alias.name_recast] at hstar
    rw [Alias.recast, if_pos hstar]
    exact congrArg (Option.map Ident.bare) (h.unnamed hstar)
  named := by
    intro hstar
    rw [Alias.name_recast] at hstar
    rw [Alias.boundName_recast _ hstar]
    exact h.named hstar

theorem Node.Starless.spanless {n : Node} (h : n.Starless) : (n.recast {}).Starless := by
  have params {ps : Parameters Expr} (hp : ∀ param ∈ ps.all, param.name.text ≠ "*") :
      ∀ param ∈ (ps.recast {}).all, param.name.text ≠ "*" := by
    rw [Parameters.all_recast]
    refine List.forall_mem_map.2 fun param hparam => ?_
    rw [Param.name_recast]
    exact hp param hparam
  cases n with
  | expr e =>
    cases e with
    | name => exact h
    | lambda => exact params h
    | _ => trivial
  | stmt t =>
    cases t with
    | functionDef d =>
      cases d
      exact ⟨h.1, params h.2⟩
    | classDef d =>
      cases d
      exact h
    | tryBlock _ _ handlers =>
      simp only [Node.recast, Stmt.recast, Node.Starless, recastHandlers_eq]
      refine List.forall_mem_map.2 fun handler hh => ?_
      have bound := h handler hh
      obtain ⟨_, _, name, _⟩ := handler
      simpa [Ident.recast] using bound
    | globals | nonlocals => exact List.forall_mem_map.2 h
    | importModules =>
      refine List.forall_mem_map.2 fun a ha => ?_
      rw [Alias.name_recast]
      exact ⟨(h a ha).1, (h a ha).2.spanless⟩
    | importFrom => exact List.forall_mem_map.2 fun a ha => (h a ha).spanless
    | _ => trivial

theorem Module.Starless.spanless (h : m.Starless) : (m.recast {}).Starless := by
  intro n hn
  rw [Module.nodes_recast] at hn
  exact List.forall_mem_map.2 (fun n hn => (h n hn).spanless) n hn

theorem Stmt.Unused.spanless {t : Stmt} (h : t.Unused c m) : (t.recast {}).Unused c m := by
  cases t with
  | classDef => trivial
  | functionDef d =>
    intro name hn
    rw [name_recast]
    exact h name hn
  | _ => exact h

/-- Statements are, up to spans, what others are recast to. -/
def Recast.Gives (c : Recast) (ts us : List Stmt) : Prop :=
  us.map (Stmt.recast {}) = ts.map (Stmt.recast c)

/-- A module is, up to spans and numbers, another one with a statement put between its own. -/
def Module.Inserts (extra : Stmt) (module whole : Module) : Prop :=
  ∃ exprs stmts before after, whole.body = before ++ extra :: after ∧
    ({ exprs, stmts } : Recast).Gives module.body (before ++ after)

/-- A module is, up to spans, another one whose variables have other names. -/
def Module.Renames (r : String → String) (module other : Module) : Prop :=
  ({ name := r } : Recast).Gives module.body other.body

/-! ## Checking that statements are recast -/

mutual

/-- Whether an expression is another one under other names and numbers, as far as names, literals,
members and calls go. -/
def Expr.copies (c : Recast) : Expr → Expr → Bool
  | .name site id, .name site' id' => c.exprs site.index = site'.index && c.name id = id'
  | .str site value kind, .str site' value' kind' =>
    c.exprs site.index = site'.index && value = value' && kind = kind'
  | .number site text, .number site' text' => c.exprs site.index = site'.index && text = text'
  | .member site value attr, .member site' value' attr' =>
    c.exprs site.index = site'.index && value.copies c value' && attr.text = attr'.text
  | .call site func args [], .call site' func' args' [] =>
    c.exprs site.index = site'.index && func.copies c func' && copiesAll c args args'
  | _, _ => false

def copiesAll (c : Recast) : List Expr → List Expr → Bool
  | [], [] => true
  | e :: es, e' :: es' => e.copies c e' && copiesAll c es es'
  | _, _ => false

end

theorem recastExprs_of_copies {es es' : List Expr} (h : copiesAll c es es' = true) :
    recastExprs {} es' = recastExprs c es := by
  refine @copiesAll.induct (fun e e' => e.copies c e' = true → e'.recast {} = e.recast c)
    (fun es es' => copiesAll c es es' = true → recastExprs {} es' = recastExprs c es)
    ?_ ?_ ?_ ?_ ?_ ?_ ?_ ?_ ?_ es es' h
  all_goals
    simp +contextual [Expr.copies, copiesAll, Site.recast, Ident.bare, recastExprs, recastKeywords]

theorem Expr.recast_of_copies {e e' : Expr} (h : e.copies c e' = true) :
    e'.recast {} = e.recast c := by
  have single : copiesAll c [e] [e'] = true := by rw [copiesAll, h]; rfl
  exact (List.cons.inj (recastExprs_of_copies single)).1

theorem Parameters.recast_of_isEmpty {params : Parameters Expr} (h : params.all.isEmpty = true)
    (c : Recast) : params.recast c = ⟨[], none, [], none⟩ := by
  obtain ⟨args, vararg, keywordOnly, kwarg⟩ := params
  simp only [Parameters.all, List.isEmpty_iff, List.append_eq_nil_iff,
    Option.toList_eq_nil_iff] at h
  obtain ⟨⟨⟨rfl, rfl⟩, rfl⟩, rfl⟩ := h
  rfl

mutual

/-- Whether a statement is another one under other names and numbers, as far as expressions, imports
and functions without parameters go. -/
def Stmt.copies (c : Recast) : Stmt → Stmt → Bool
  | .expr site value, .expr site' value' =>
    c.stmts site.index = site'.index && value.copies c value'
  | .importModules site names, .importModules site' names' =>
    c.stmts site.index = site'.index && names'.map (Alias.recast {}) = names.map (Alias.recast c)
  | .functionDef ⟨site, name, params, returns, decorators, body, isAsync⟩,
    .functionDef ⟨site', name', params', returns', decorators', body', isAsync'⟩ =>
    c.stmts site.index = site'.index && c.name name.text = name'.text &&
      params.all.isEmpty && params'.all.isEmpty && returns.isNone && returns'.isNone &&
        copiesAll c decorators decorators' && copiesBlock c body body' && isAsync = isAsync'
  | _, _ => false

def copiesBlock (c : Recast) : List Stmt → List Stmt → Bool
  | [], [] => true
  | t :: ts, t' :: ts' => t.copies c t' && copiesBlock c ts ts'
  | _, _ => false

end

theorem recast_of_copiesBlock {ts ts' : List Stmt} (h : copiesBlock c ts ts' = true) :
    recastStmts {} ts' = recastStmts c ts := by
  refine @copiesBlock.induct (fun t t' => t.copies c t' = true → t'.recast {} = t.recast c)
    (fun ts ts' => copiesBlock c ts ts' = true → recastStmts {} ts' = recastStmts c ts)
    ?_ ?_ ?_ ?_ ?_ ?_ ?_ ts ts' h
  · intro site value site' value' h
    simp only [Stmt.copies, Bool.and_eq_true, decide_eq_true_eq] at h
    simp [Site.recast, h.1, Expr.recast_of_copies h.2]
  · simp +contextual [Stmt.copies, Site.recast]
  · intro _ _ _ returns _ _ _ _ _ _ returns' _ _ _ ih h
    simp only [Stmt.copies, Bool.and_eq_true, decide_eq_true_eq, Option.isNone_iff_eq_none] at h
    obtain ⟨⟨⟨⟨⟨⟨⟨⟨site, name⟩, params⟩, params'⟩, rfl⟩, rfl⟩, decorators⟩, body⟩, rfl⟩ := h
    have decorated := recastExprs_of_copies decorators
    rw [recastExprs_eq, recastExprs_eq] at decorated
    simp [Site.recast, Ident.recast, site, name, Parameters.recast_of_isEmpty params,
      Parameters.recast_of_isEmpty params', decorated, ih body]
  · intro t t' _ _ _ h
    rw [Stmt.copies] at h
    · cases h
    all_goals assumption
  all_goals simp +contextual [copiesBlock, recastStmts]

theorem Recast.Gives.of_copies {ts us : List Stmt} (h : copiesBlock c ts us = true) :
    c.Gives ts us := by
  rw [Gives, ← recastStmts_eq, ← recastStmts_eq]
  exact recast_of_copiesBlock h

end Tree

/-! ## Programs with a copy of others -/

/-- **A program and another one with a copy of it are found to invoke the same.** What was put
between the statements of the copy is not used. -/
theorem Tree.Recast.calls?_eq {extra : List Stmt}
    (h : m.Embeds c (extra.map (Stmt.recast {})) (m'.recast {})) (hm : m.Numbered)
    (hm' : m'.Numbered) (hname : c.name.Injective) (hu : ∀ t ∈ extra, t.Unused c m)
    (hguard : config.recursionGuard = true)
    (hstars : config.clientFactory = "*" → m.Starless ∧ m'.Starless) :
    Analysis.calls? config m' = Analysis.calls? config m := by
  have numbered : (m'.recast {}).Numbered := hm'.rename id
  have own : m'.Embeds {} [] (m'.recast {}) := ⟨m'.body, [], by simp, by simp [Module.recast]⟩
  calc
    Analysis.calls? config m' = Analysis.calls? config (m'.recast {}) :=
      (own.calls?_eq hm' numbered Function.injective_id (by simp) hguard fun hf =>
        ⟨(hstars hf).2, (hstars hf).2.spanless⟩).symm
    _ = Analysis.calls? config m :=
      h.calls?_eq hm numbered hname (List.forall_mem_map.2 fun t ht => (hu t ht).spanless) hguard
        fun hf => ⟨(hstars hf).1, (hstars hf).2.spanless⟩

theorem analyze_toOption {source : Source} (h : parse source = .ok m) (application : Bool) :
    (analyze config application source).toOption = Analysis.calls? config
      (if application then m.invokeEntryPoints config.routeMethod else m) := by
  have parsed : Analysis.parse config application source =
      .ok (if application then m.invokeEntryPoints config.routeMethod else m) :=
    Analysis.parse_ok.2 ⟨m, h, rfl⟩
  unfold analyze Analysis.calls?
  rw [parsed]
  change (Analysis.infer config _ >>= fun state => pure _).toOption = _
  cases Analysis.infer config _ <;> rfl

/-- Without stars for a client factory a numbered module is found to invoke something or nothing. -/
theorem Analysis.exists_calls (hm : m.Numbered) (hguard : config.recursionGuard = true)
    (hfactory : config.clientFactory ≠ "*") : ∃ calls, calls? config m = some calls := by
  obtain ⟨state, hs⟩ := infer_succeeds hm hguard hfactory
  exact ⟨_, by rw [calls?, hs]⟩

theorem ok_of_toOption {ε α : Type} {result : Except ε α} {a : α} (h : result.toOption = some a) :
    result = .ok a := by
  cases result with
  | error e => cases h
  | ok a' => exact congrArg _ (Option.some.inj h)

/-! ## Unused definitions -/

/-- **A definition that nothing uses does not change what is found.** Only a client factory that
no program can name, a star, may make the analysis fail, and then it fails for both programs. -/
theorem unused_definition_changes_nothing (hguard : config.recursionGuard = true)
    {a b : Source} {extra : Stmt} (ha : parse a = .ok m) (hb : parse b = .ok m')
    (h : m.Inserts extra m') (hu : extra.Unused {} m) :
    (∃ calls, analyze config false a = .ok calls ∧ analyze config false b = .ok calls) ∨
      config.clientFactory = "*" ∧
        ∃ e e', analyze config false a = .error e ∧ analyze config false b = .error e' := by
  obtain ⟨exprs, stmts, before, after, hm', gives⟩ := h
  have numbered := numbered_of_parse ha
  have embeds : m.Embeds { exprs, stmts } ([extra].map (Stmt.recast {})) (m'.recast {}) := by
    rw [Recast.Gives, List.map_append] at gives
    obtain ⟨first, last, hm, hfirst, hlast⟩ := List.map_eq_append_iff.1 gives.symm
    refine ⟨first, last, hm, ?_⟩
    rw [hfirst, hlast, Module.recast, hm', List.map_append]
    rfl
  have same : Analysis.calls? config m' = Analysis.calls? config m :=
    Recast.calls?_eq embeds numbered (numbered_of_parse hb) Function.injective_id
      (List.forall_mem_singleton.2 hu) hguard fun _ =>
        ⟨starless_of_parse ha, starless_of_parse hb⟩
  have equal : (analyze config false a).toOption = (analyze config false b).toOption := by
    rw [analyze_toOption ha, analyze_toOption hb]
    exact same.symm
  cases hra : analyze config false a with
  | ok calls =>
    rw [hra] at equal
    exact .inl ⟨calls, rfl, ok_of_toOption equal.symm⟩
  | error e =>
    refine .inr ⟨by_contra fun hfactory => ?_, ?_⟩
    · obtain ⟨calls, found⟩ := Analysis.exists_calls numbered hguard hfactory
      cases hra.symm.trans (ok_of_toOption ((analyze_toOption ha false).trans found))
    · cases hrb : analyze config false b with
      | error e' => exact ⟨e, e', rfl, rfl⟩
      | ok calls =>
        rw [hra, hrb] at equal
        cases equal

/-- A program that makes a client and calls it. -/
def shortCall : Source where
  file := "main.py"
  text := "import boto3\nboto3.client('s3').m()"

/-- The same program with a function that is not used. -/
def shortCallBeside : Source where
  file := "main.py"
  text := "import boto3\ndef f():boto3.client('s3').n()\nboto3.client('s3').m()"

/-- Whether a node is a name. -/
def Tree.Node.isName (name : String) : Node → Bool
  | .expr (.name _ id) => id = name
  | _ => false

/-- Whether a statement is a definition that a module has no use for. -/
def Tree.Stmt.unusedIn (module : Module) : Stmt → Bool
  | .classDef _ => true
  | .functionDef d => !module.nodes.any (·.isName d.name.text)
  | _ => false

theorem Tree.Stmt.Unused.of_unusedIn {t : Stmt} (h : t.unusedIn m = true) : t.Unused {} m := by
  cases t with
  | classDef => trivial
  | functionDef d =>
    rintro name ⟨site, hn⟩ rfl
    simp only [Stmt.unusedIn, Bool.not_eq_true', List.any_eq_false] at h
    exact h _ hn (decide_eq_true rfl)
  | _ => cases h

theorem shortCall_beside_unused :
    ∃ m m' extra calls, parse shortCall = .ok m ∧ parse shortCallBeside = .ok m' ∧
      m.Inserts extra m' ∧ extra.Unused {} m ∧
      analyze {} false shortCall = .ok calls ∧
      analyze {} false shortCallBeside = .ok calls ∧ "m" ∈ calls.methods "s3" := by
  have shape : ((parse shortCall).toOption.any fun m =>
      (parse shortCallBeside).toOption.any fun m' =>
        copiesBlock { exprs := (· + 6), stmts := (· * 3) } m.body (m'.body.eraseIdx 1) &&
          m'.body[1]?.any (·.unusedIn m)) = true := by decide +kernel
  have reports : Reports {} false shortCall "s3" "m" := by decide +kernel
  have guard : ({} : Config).recursionGuard = true := rfl
  simp only [Option.any_eq_true, Bool.and_eq_true] at shape
  obtain ⟨m, ha, m', hb, copies, extra, second, unused⟩ := shape
  have ha := ok_of_toOption ha
  have hb := ok_of_toOption hb
  have parts : m'.body = m'.body.take 1 ++ extra :: m'.body.drop 2 := by
    obtain ⟨bound, rfl⟩ := List.getElem?_eq_some_iff.1 second
    rw [← List.drop_eq_getElem_cons bound, List.take_append_drop]
  have inserts : m.Inserts extra m' := by
    rw [List.eraseIdx_eq_take_drop_succ] at copies
    exact ⟨_, _, _, _, parts, .of_copies copies⟩
  obtain ⟨calls, found, method⟩ := reports
  rcases unused_definition_changes_nothing guard ha hb inserts (.of_unusedIn unused) with
    ⟨_, first, second⟩ | ⟨star, -⟩
  · cases first.symm.trans found
    exact ⟨m, m', extra, calls, ha, hb, inserts, .of_unusedIn unused, first, second, method⟩
  · exact absurd star (by decide)

/-! ## Entry points -/

open EntryPoint in
/-- Where the numbers that are free in two modules correspond, calls of entry points are recast
with the module. -/
theorem Tree.Recast.Gives.invokeEntryPoints (h : c.Gives m.body m'.body)
    (hk : Continues c ⟨m.expressions, m.statements⟩ ⟨m'.expressions, m'.statements⟩)
    (route : String) :
    c.Gives (m.invokeEntryPoints route).body (m'.invokeEntryPoints route).body := by
  have plain : Continues {} ⟨m'.expressions, m'.statements⟩ ⟨m'.expressions, m'.statements⟩ :=
    ⟨fun _ => rfl, fun _ => rfl⟩
  obtain ⟨copied, -⟩ := ofStmts_follows route m.body _ _ hk
  obtain ⟨own, -⟩ := ofStmts_follows route m'.body _ _ plain
  rw [recastStmts_eq, recastStmts_eq] at copied own
  exact own.symm.trans ((congrArg (fun ts => (ofStmts route ts _).1) h).trans copied)

/-! ## Names of variables -/

/-- New numbers below a count, and from there on those from another count on. -/
def Tree.renumberFrom (number : Nat → Nat) (k k' i : Nat) : Nat :=
  if i < k then number i else k' + (i - k)

theorem Tree.renumberFrom_of_lt (number : Nat → Nat) {k i : Nat} (k' : Nat) (h : i < k) :
    renumberFrom number k k' i = number i :=
  if_pos h

theorem Tree.renumberFrom_add (number : Nat → Nat) (k k' j : Nat) :
    renumberFrom number k k' (k + j) = k' + j := by
  rw [renumberFrom, if_neg (Nat.not_lt.2 (Nat.le_add_right k j)), Nat.add_sub_cancel_left]

/-- A recast that has the numbers from a count on continue those of another count. -/
def Tree.Recast.extend (c : Recast) (k k' : EntryPoint.Counts) : Recast where
  exprs := renumberFrom c.exprs k.expressions k'.expressions
  stmts := renumberFrom c.stmts k.statements k'.statements
  name := c.name

theorem Tree.Recast.continues_extend (c : Recast) (k k' : EntryPoint.Counts) :
    EntryPoint.Continues (c.extend k k') k k' :=
  ⟨renumberFrom_add _ _ _, renumberFrom_add _ _ _⟩

/-- A module has no numbers from its counts on. -/
theorem Tree.Recast.Gives.extend (h : c.Gives m.body m'.body) (hm : m.Numbered)
    (k' : EntryPoint.Counts) :
    (c.extend ⟨m.expressions, m.statements⟩ k').Gives m.body m'.body := by
  refine Eq.trans h (List.map_congr_left fun t ht => ?_)
  have mem {n : Node} (hn : n ∈ (Node.stmt t).preorder) : n ∈ m.nodes :=
    List.mem_flatMap.2 ⟨.stmt t, mem_stmtNodes.2 ⟨t, ht, rfl⟩, hn⟩
  have names : c.name = (c.extend ⟨m.expressions, m.statements⟩ k').name := rfl
  exact Node.stmt.inj (Node.recast_congr names (.stmt t)
    (fun e he => (renumberFrom_of_lt _ _ (hm.expr_lt (mem he))).symm)
      fun u hu => (renumberFrom_of_lt _ _ (hm.stmt_lt (mem hu))).symm)

theorem Tree.Recast.Gives.calls?_eq (h : c.Gives m.body m'.body) (hm : m.Numbered)
    (hm' : m'.Numbered) (hname : c.name.Injective) (hguard : config.recursionGuard = true)
    (hfactory : config.clientFactory ≠ "*") :
    Analysis.calls? config m' = Analysis.calls? config m := by
  have embeds : m.Embeds c ([].map (Stmt.recast {})) (m'.recast {}) :=
    ⟨m.body, [], (List.append_nil _).symm, h.trans (List.append_nil _).symm⟩
  exact Recast.calls?_eq embeds hm hm' hname (List.forall_mem_nil _) hguard
    fun hf => absurd hf hfactory

/-- **The names of variables do not matter**, neither in programs nor in applications. -/
theorem renamed_variables_change_nothing (hguard : config.recursionGuard = true)
    (hfactory : config.clientFactory ≠ "*") {r : String → String} (hr : r.Injective)
    {a b : Source} (ha : parse a = .ok m) (hb : parse b = .ok m') (h : m.Renames r m')
    (application : Bool) :
    ∃ calls, analyze config application a = .ok calls ∧
      analyze config application b = .ok calls := by
  have hm := numbered_of_parse ha
  have hm' := numbered_of_parse hb
  have same : Analysis.calls? config
      (if application then m'.invokeEntryPoints config.routeMethod else m') =
        Analysis.calls? config
          (if application then m.invokeEntryPoints config.routeMethod else m) := by
    cases application with
    | false => exact h.calls?_eq hm hm' hr hguard hfactory
    | true =>
      have called := (h.extend hm ⟨m'.expressions, m'.statements⟩).invokeEntryPoints
        (Recast.continues_extend _ _ _) config.routeMethod
      exact called.calls?_eq (hm.invokeEntryPoints _) (hm'.invokeEntryPoints _) hr hguard hfactory
  have numbered : (if application then m.invokeEntryPoints config.routeMethod else m).Numbered := by
    cases application with
    | false => exact hm
    | true => exact hm.invokeEntryPoints _
  obtain ⟨calls, found⟩ := Analysis.exists_calls numbered hguard hfactory
  exact ⟨calls, ok_of_toOption ((analyze_toOption ha application).trans found),
    ok_of_toOption ((analyze_toOption hb application).trans (same.trans found))⟩

/-- An application. -/
def shortHandler : Source where
  file := "main.py"
  text := "import boto3\n@app.route('/')\ndef f():boto3.client('s3').m()"

/-- The same application where the SDK and the function have each other's name. -/
def exchangedHandler : Source where
  file := "main.py"
  text := "import boto3 as f\n@app.route('/')\ndef boto3():f.client('s3').m()"

/-- Exchanges two names. -/
def exchanged (name : String) : String :=
  if name = "boto3" then "f" else if name = "f" then "boto3" else name

theorem exchanged_injective : exchanged.Injective := by
  have swap : Equiv.swap "boto3" "f" = exchanged := funext fun _ => Equiv.swap_apply_def ..
  exact swap ▸ (Equiv.swap "boto3" "f").injective

theorem shortHandler_exchanged :
    ∃ m m' calls, parse shortHandler = .ok m ∧ parse exchangedHandler = .ok m' ∧
      m.Renames exchanged m' ∧ analyze {} true shortHandler = .ok calls ∧
      analyze {} true exchangedHandler = .ok calls ∧ "m" ∈ calls.methods "s3" := by
  have shape : ((parse shortHandler).toOption.any fun m =>
      (parse exchangedHandler).toOption.any fun m' =>
        copiesBlock { name := exchanged } m.body m'.body) = true := by decide +kernel
  have reports : Reports {} true shortHandler "s3" "m" := by decide +kernel
  have guard : ({} : Config).recursionGuard = true := rfl
  have factory : ({} : Config).clientFactory ≠ "*" := by decide
  simp only [Option.any_eq_true] at shape
  obtain ⟨m, ha, m', hb, copies⟩ := shape
  have ha := ok_of_toOption ha
  have hb := ok_of_toOption hb
  have renames : m.Renames exchanged m' := Recast.Gives.of_copies copies
  obtain ⟨calls, first, second⟩ := renamed_variables_change_nothing guard factory
    exchanged_injective ha hb renames true
  obtain ⟨_, found, method⟩ := reports
  cases first.symm.trans found
  exact ⟨m, m', calls, ha, hb, renames, first, second, method⟩

end SdkUsage
