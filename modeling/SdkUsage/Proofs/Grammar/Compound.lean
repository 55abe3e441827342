/-
The grammar reads plain statements from their lines: there is a lemma for each kind of
statement, where the statements of its blocks are read back, and
`Tree.Stmt.Plain.reads` for all of them.
-/
import SdkUsage.Proofs.Grammar.Blocks

namespace SdkUsage

namespace Grammar

open SdkUsage.Tree

namespace Nesting

variable {elif : Site → Bool} {at_ : Site} {id : String} {handlers : List (Handler Stmt)}

/-! ## Names -/

section

variable {id : String} {bound : Nat}

/-- A name where a test stands. -/
theorem name_test (site : Site) (ts : List Token) (hid : IsName id) (hlen : ts.length + 2 < bound) :
    Parses (rules bound).namedTest 1 (.ident id :: .symbol ":" :: ts) (.symbol ":" :: ts)
      (Expr.Same (.name site id)) :=
  Recursion.namedTest_parses (Recursion.parsed_name hid).top (.of_none rfl) (by decide) hlen

/-- A name where the target of a loop stands. -/
theorem name_target (site : Site) (ts : List Token) (hid : IsName id)
    (hlen : ts.length + 2 < bound) :
    Parses (rules bound).targetList 0 (.ident id :: .ident "in" :: ts) (.ident "in" :: ts)
      (Expr.Same (.name site id)) := by
  obtain ⟨n, rfl⟩ : ∃ n, bound = n + 1 := ⟨bound - 1, by omega⟩
  have plain : (Expr.name site id).Plain := .name hid
  have begins : Begins 13 [.ident id] := Begins.words plain
  have name : Parses ((rules (n + 1)).expr .bitOr) 0 (.ident id :: .ident "in" :: ts)
      (.ident "in" :: ts) (Expr.Same (.name site id)) :=
    (Recursion.parsed_name hid).reads n 5 (by decide) (.ident "in" :: ts)
      (.of_some (k := 4) rfl (by decide)) (by change ts.length + 2 ≤ n; omega)
  have item : Parses ((rules (n + 1)).starOr ((rules (n + 1)).expr .bitOr)) 0
      (.ident id :: .ident "in" :: ts) (.ident "in" :: ts) (Expr.Same (.name site id)) :=
    .here fun _ => .refuse (begins.ne (by decide)) name
  exact .here fun _ => item.bind_zero fun _ he => .word (.pure he)

/-- A name where a list of expressions stands. -/
theorem name_list (site : Site) (ts : List Token) (hid : IsName id) (hlen : ts.length + 2 < bound) :
    Parses (rules bound).exprList 1 (.ident id :: .symbol ":" :: ts) (.symbol ":" :: ts)
      (Expr.Same (.name site id)) := by
  have plain : (Expr.name site id).Plain := .name hid
  have begins : Begins 13 [.ident id] := Begins.words plain
  have test : Parses (rules bound).test 1 (.ident id :: .symbol ":" :: ts) (.symbol ":" :: ts)
      (Expr.Same (.name site id)) :=
    Recursion.nested_parses .conditional (Recursion.parsed_name hid).top (.of_none rfl) hlen
  have item : Parses ((rules bound).starOr (rules bound).test) 1 (.ident id :: .symbol ":" :: ts)
      (.symbol ":" :: ts) (Expr.Same (.name site id)) :=
    .here fun _ => .refuse (begins.ne (by decide)) test
  exact .here fun _ => item.bind_zero fun _ he => .word (.pure he)

end

/-! ## Branches -/

theorem elif_head {s : Stmt} (h : s.asElif elif = true) (level : Nat) : ∃ ws lines,
    s.lines elif "elif" level = ⟨level, .ident "elif" :: ws⟩ :: lines := by
  cases s with
  | branch => exact ⟨_, _, by rw [Stmt.lines]; rfl⟩
  | _ => cases h

theorem below_orelseLines {ss : List Stmt} {level : Nat} {more : List Line}
    (h : Line.Below level more) : Line.Below level (orelseLines elif level ss ++ more) := by
  cases ss with
  | nil => rwa [orelseLines]
  | cons s ss =>
    rw [orelseLines]
    split
    · next hs =>
      obtain ⟨ws, lines, head⟩ := elif_head (Bool.and_eq_true_iff.1 hs).2 level
      rw [head]
      intro line hline
      cases hline
      exact Nat.le_refl level
    · intro line hline
      cases hline
      exact Nat.le_refl level

/-- The else clause of a branch, or the branch in its place. -/
def orelseRule (bound : Nat) : Parse (List Stmt) := do
  if (← word) = "elif" then return ← (rules bound).stmts .elif
  (rules bound).elseClause

theorem orelse_reads {ss : List Stmt} (h : Readable elif ss) :
    ∃ deep ≤ 1, ∀ level more bound, Line.Below level more →
      Apart clauseWords (Line.tokens level more) →
      (Line.tokens level (orelseLines elif level ss ++ more)).length + 1 < bound →
      Parses (orelseRule bound) deep (Line.tokens level (orelseLines elif level ss ++ more))
        (Line.tokens level more) (List.Forall₂ Stmt.Same ss) := by
  by_cases alone : ∃ s, ss = [s] ∧ s.asElif elif = true
  · obtain ⟨s, rfl, hs⟩ := alone
    obtain ⟨-, deep, hdeep, reads⟩ := h s List.mem_cons_self
    refine ⟨deep, hdeep, fun level more bound below apart hlen => ?_⟩
    obtain ⟨m, rfl⟩ : ∃ m, bound = m + 1 := ⟨bound - 1, by omega⟩
    have lines : orelseLines elif level [s] = s.lines elif "elif" level := by
      rw [orelseLines, if_pos]
      rw [hs]
      rfl
    rw [lines] at hlen ⊢
    have branch := reads.elif hs level more m below apart (by dsimp only; omega)
    obtain ⟨ws, lines, head⟩ := elif_head hs level
    obtain ⟨ts, start⟩ : ∃ ts, Line.tokens level (s.lines elif "elif" level ++ more) =
        .ident "elif" :: ts := by
      rw [head]
      exact ⟨_, Line.tokens_cons ⟨level, .ident "elif" :: ws⟩ _⟩
    dsimp only at branch
    rw [start] at branch ⊢
    exact .word (branch.bind_zero fun s' same => .pure (.cons same .nil))
  · obtain ⟨deep, hdeep, clause⟩ := h.clause "else" "while parsing else clause"
    refine ⟨deep, hdeep, fun level more bound below apart hlen => ?_⟩
    have lines : orelseLines elif level ss = clauseLines elif "else" level ss := by
      cases ss with
      | nil => rw [orelseLines, clauseLines]
      | cons s ss =>
        rw [orelseLines, clauseLines, if_neg]
        rw [Bool.and_eq_true, List.isEmpty_iff]
        rintro ⟨rfl, hs⟩
        exact alone ⟨s, rfl, hs⟩
    rw [lines] at hlen ⊢
    have clause := clause level more bound below (apart.mono (by decide)) (by dsimp only; omega)
    obtain ⟨t, us, head⟩ := Line.exists_tokens level (clauseLines elif "else" level ss ++ more)
    dsimp only at clause
    have noElif : Apart ["elif"] (Line.tokens level (clauseLines elif "else" level ss ++ more)) :=
      apart_clauseLines (by decide) (apart.mono (by decide))
    rw [head] at clause noElif ⊢
    refine .word ?_
    rw [if_neg (noElif.ne List.mem_cons_self)]
    exact clause

/-- A branch, from its `if` or `elif` on. -/
theorem branch_reads {site : Site} {body orelse : List Stmt} (hid : IsName id) (hne : body ≠ [])
    (hbody : Readable elif body) (horelse : Readable elif orelse) :
    ∃ deep ≤ 1, ∀ word, ReadsLines (fun bound => (rules bound).ifStmt)
      (fun level => Stmt.lines elif word level (.branch site (.name at_ id) body orelse)) deep
      clauseWords (Stmt.Same (.branch site (.name at_ id) body orelse)) := by
  obtain ⟨deep, hdeep, block⟩ := hbody.block hne
  obtain ⟨deep', hdeep', clause⟩ := orelse_reads horelse
  refine ⟨max 1 (max deep deep'), by omega, fun word level more bound below apart hlen => ?_⟩
  dsimp only at hlen ⊢
  rw [Stmt.lines, Expr.words, tokens_header] at hlen ⊢
  simp only [List.length_cons, List.length_append] at hlen
  have shorter := Line.length_tokens_le level (blockLines elif (level + 1) body)
    (orelseLines elif level orelse ++ more)
  have body' := block level bound (orelseLines elif level orelse ++ more)
    "while parsing if statement" (below_orelseLines below) (by omega)
  have orelse' := clause level more bound below apart (by omega)
  have test : Parses (rules bound).namedTest 1 _ _ _ :=
    name_test at_ (⟨.newline, "", default⟩ :: Line.tokens level (blockLines elif (level + 1) body
      ++ (orelseLines elif level orelse ++ more))) hid (by rw [List.length_cons]; omega)
  exact .here fun _ => .advance (test.bind fun _ ht => body'.bind fun _ hb => orelse'.bind_zero
    fun _ ho => .stmtSite fun _ => .pure (.branch ht hb ho))

/-! ## Statements -/

section

variable {site : Site} {body orelse : List Stmt}

theorem pass_reads : ReadsStmt elif (.pass site) 0 := by
  refine ⟨fun level more bound below apart hlen => ?_, fun h => by cases h⟩
  have lines : Line.tokens level (Stmt.lines elif "if" level (.pass site) ++ more) =
      .ident "pass" :: ⟨.newline, "", default⟩ :: Line.tokens level more := by
    rw [Stmt.lines]
    exact Line.tokens_cons ⟨level, [.ident "pass"]⟩ _
  dsimp only at hlen ⊢
  rw [lines] at hlen ⊢
  obtain ⟨t, ts, head⟩ := Line.exists_tokens level more
  rw [head] at hlen ⊢
  have small : Parses (rules bound).smallStmt 0
      (.ident "pass" :: ⟨.newline, "", default⟩ :: t :: ts)
      (⟨.newline, "", default⟩ :: t :: ts) (Stmt.Same (.pass site)) :=
    .word (.here fun _ => .advance (.stmtSite fun _ => .pure .pass))
  have line : Parses (rules bound).simpleStmts 0
      (.ident "pass" :: ⟨.newline, "", default⟩ :: t :: ts)
      (t :: ts) _ := Recursion.simpleStmts_parses rfl (by change 0 < bound; omega) small
  exact .kind (.here fun _ => .word line)

theorem expr_reads (hid : IsName id) : ReadsStmt elif (.expr site (.name at_ id)) 1 := by
  refine ⟨fun level more bound below apart hlen => ?_, fun h => by cases h⟩
  have lines : Line.tokens level (Stmt.lines elif "if" level (.expr site (.name at_ id)) ++ more) =
      .ident id :: ⟨.newline, "", default⟩ :: Line.tokens level more := by
    rw [Stmt.lines, Expr.words]
    exact Line.tokens_cons ⟨level, [.ident id]⟩ _
  dsimp only at hlen ⊢
  rw [lines] at hlen ⊢
  obtain ⟨t, ts, head⟩ := Line.exists_tokens level more
  rw [head] at hlen ⊢
  have plain : (Expr.name at_ id).Plain := .name hid
  have small : Parses (rules bound).smallStmt 1 (.ident id :: ⟨.newline, "", default⟩ :: t :: ts)
      (⟨.newline, "", default⟩ :: t :: ts) _ := Recursion.smallStmt_expr plain rfl hlen
  have line : Parses (rules bound).simpleStmts 1 (.ident id :: ⟨.newline, "", default⟩ :: t :: ts)
      (t :: ts) _ := Recursion.simpleStmts_parses rfl (by change 0 < bound; omega) small
  have begins : Begins 0 [Token.ident id] := (Begins.words plain).mono (Nat.zero_le _)
  refine (statement_simple begins.append line).weaken ?_
  rintro _ ⟨_, rfl, site', e', rfl, same⟩
  exact ⟨_, rfl, .expr same⟩

theorem while_reads (hid : IsName id) (hne : body ≠ []) (hbody : Readable elif body)
    (horelse : Readable elif orelse) :
    ∃ deep ≤ 1, ReadsStmt elif (.whileLoop site (.name at_ id) body orelse) deep := by
  obtain ⟨deep, hdeep, block⟩ := hbody.block hne
  obtain ⟨deep', hdeep', clause⟩ := horelse.clause "else" "while parsing else clause"
  refine ⟨max 1 (max deep deep'), by omega, fun level more bound below apart hlen => ?_,
    fun h => by cases h⟩
  dsimp only at hlen ⊢
  rw [Stmt.lines, Expr.words, tokens_header] at hlen ⊢
  simp only [List.length_cons, List.length_append] at hlen
  have shorter := Line.length_tokens_le level (blockLines elif (level + 1) body)
    (clauseLines elif "else" level orelse ++ more)
  have body' := block level bound (clauseLines elif "else" level orelse ++ more)
    "while parsing while statement" (below_clauseLines below) (by omega)
  have orelse' := clause level more bound below (apart.mono (by decide)) (by dsimp only; omega)
  have test : Parses (rules bound).namedTest 1 _ _ _ :=
    name_test at_ (⟨.newline, "", default⟩ :: Line.tokens level (blockLines elif (level + 1) body
      ++ (clauseLines elif "else" level orelse ++ more))) hid (by rw [List.length_cons]; omega)
  refine .kind (.here fun _ => .word (Parses.bind_zero ?_ fun s' same => .pure ⟨s', rfl, same⟩))
  exact .here fun _ => .expect rfl (test.bind fun _ ht => body'.bind fun _ hb => orelse'.bind_zero
    fun _ ho => .stmtSite fun _ => .pure (.whileLoop ht hb ho))

theorem for_reads {at_' : Site} {target iter : String} (htarget : IsName target)
    (hiter : IsName iter) (hne : body ≠ []) (hbody : Readable elif body)
    (horelse : Readable elif orelse) :
    ∃ deep ≤ 1, ReadsStmt elif
      (.forLoop site (.name at_ target) (.name at_' iter) body orelse false) deep := by
  obtain ⟨deep, hdeep, block⟩ := hbody.block hne
  obtain ⟨deep', hdeep', clause⟩ := horelse.clause "else" "while parsing else clause"
  refine ⟨max 0 (max 1 (max deep deep')), by omega, fun level more bound below apart hlen => ?_,
    fun h => by cases h⟩
  dsimp only at hlen ⊢
  rw [Stmt.lines, Expr.words, Expr.words, tokens_header] at hlen ⊢
  simp only [List.length_cons, List.length_append] at hlen
  have shorter := Line.length_tokens_le level (blockLines elif (level + 1) body)
    (clauseLines elif "else" level orelse ++ more)
  have body' := block level bound (clauseLines elif "else" level orelse ++ more)
    "while parsing for statement" (below_clauseLines below) (by omega)
  have orelse' := clause level more bound below (apart.mono (by decide)) (by dsimp only; omega)
  have iter' : Parses (rules bound).exprList 1 _ _ _ :=
    name_list at_' (⟨.newline, "", default⟩ :: Line.tokens level (blockLines elif (level + 1) body
      ++ (clauseLines elif "else" level orelse ++ more))) hiter (by rw [List.length_cons]; omega)
  have target' : Parses (rules bound).targetList 0 _ _ _ :=
    name_target at_ (.ident iter :: .symbol ":" :: ⟨.newline, "", default⟩ :: Line.tokens level
      (blockLines elif (level + 1) body ++ (clauseLines elif "else" level orelse ++ more))) htarget
      (by simp only [List.length_cons]; omega)
  refine .kind (.here fun _ => .word (Parses.bind_zero ?_ fun s' same => .pure ⟨s', rfl, same⟩))
  exact .expect rfl (target'.bind fun _ ht => .expect rfl (iter'.bind fun _ hi => body'.bind
    fun _ hb => orelse'.bind_zero fun _ ho => .stmtSite fun _ => .pure (.forLoop ht hi hb ho)))

theorem withItem_readsItem {e : Expr} {bound : Nat} (hp : e.Plain) :
    Recursion.ReadsItem (rules bound).withItem (.symbol ":") bound
      (fun e i => ∃ e', i = ⟨e', none⟩ ∧ Expr.Same e e') e := by
  intro t ts ht hlen
  have words : ∀ w ∈ [",", ":"], operatorLevels.lookup w = none ∧ w ≠ "as" := by decide
  obtain ⟨stops, noAs⟩ := words _ ht
  have test : Parses (rules bound).test (e.nesting + 1) (e.words ++ t :: ts) (t :: ts)
      (Expr.Same e) :=
    Recursion.nested_parses .conditional (Recursion.parsed hp).top (.of_none stops) hlen
  exact test.bind_zero fun e' he => .refuse noAs (.pure ⟨e', rfl, he⟩)

theorem argNesting_named {es : List Expr} (h : ∀ e ∈ es, e.Named) : argNesting es ≤ 1 := by
  induction es with
  | nil => rw [argNesting]; exact Nat.zero_le 1
  | cons e es ih =>
    obtain ⟨⟨at_, id, rfl, -⟩, hes⟩ := List.forall_mem_cons.1 h
    have more := ih hes
    have name : (Expr.name at_ id).nesting = 0 := rfl
    rw [argNesting]
    omega

theorem with_reads {contexts : List Expr} (hcontexts : contexts ≠ [])
    (hnames : ∀ e ∈ contexts, e.Named) (hne : body ≠ [])
    (hbody : Readable elif body) :
    ∃ deep ≤ 1, ReadsStmt elif (.withBlock site (contexts.map (⟨·, none⟩)) body false) deep := by
  obtain ⟨deep, hdeep, block⟩ := hbody.block hne
  have shallow := argNesting_named hnames
  refine ⟨max (argNesting contexts) deep, by omega, fun level more bound below apart hlen => ?_,
    fun h => by cases h⟩
  have plain : ∀ e ∈ contexts, e.Plain := by
    intro e he
    obtain ⟨_, id, rfl, hid⟩ := hnames e he
    exact .name hid
  dsimp only at hlen ⊢
  rw [Stmt.lines, map_context, ← List.append_nil (blockLines elif (level + 1) body),
    tokens_header, List.nil_append] at hlen ⊢
  simp only [List.length_cons, List.length_append] at hlen
  have body' := block level bound more "while parsing with statement" below (by omega)
  have items : Parses (separated "," (fun _ => false) (rules bound).withItem bound)
      (argNesting contexts) _ _ _ :=
    Recursion.separated_parses hcontexts plain (fun e he => withItem_readsItem (plain e he))
      (by decide) (fun _ _ _ _ _ => rfl) (⟨.newline, "", default⟩
        :: Line.tokens level (blockLines elif (level + 1) body ++ more)) (by simp; omega)
  obtain ⟨t, ts, head⟩ : ∃ t ts, argWords contexts ++ .symbol ":" :: ⟨.newline, "", default⟩
      :: Line.tokens level (blockLines elif (level + 1) body ++ more) = t :: ts :=
    List.exists_cons_of_ne_nil (by simp)
  rw [head] at items ⊢
  refine .kind (.here fun _ => .word (Parses.bind_zero ?_ fun s' same => .pure ⟨s', rfl, same⟩))
  refine .expect rfl (items.bind fun is his => body'.bind_zero fun _ hb =>
    .stmtSite fun _ => .pure ?_)
  obtain ⟨es', rfl, same⟩ := Recursion.exists_map_of_forall₂ his
  exact .withBlock same hb

theorem parameters_none (ts : List Token) (bound : Nat) :
    Parses ((rules bound).parameters ")" true) 0 (.symbol ")" :: ts) (.symbol ")" :: ts)
      (· = ⟨[], none, [], none⟩) :=
  .word (.pure rfl)

theorem returns_none (ts : List Token) (bound : Nat) :
    Parses (rules bound).returns? 0 (.symbol ":" :: ts) (.symbol ":" :: ts) (· = none) :=
  .refuse (by decide) (.pure rfl)

theorem classArguments_none (ts : List Token) (bound : Nat) :
    Parses (rules bound).classArguments 0 (.symbol ":" :: ts) (.symbol ":" :: ts) (· = []) :=
  .refuse (by decide) (.pure rfl)

theorem function_reads {name : Ident} (hname : IsName name.text) (hne : body ≠ [])
    (hbody : Readable elif body) :
    ∃ deep ≤ 1, ReadsStmt elif
      (.functionDef ⟨site, name, ⟨[], none, [], none⟩, none, [], body, false⟩) deep := by
  obtain ⟨deep, hdeep, block⟩ := hbody.block hne
  refine ⟨deep, hdeep, fun level more bound below apart hlen => ?_, fun h => by cases h⟩
  dsimp only at hlen ⊢
  rw [Stmt.lines, ← List.append_nil (blockLines elif (level + 1) body), tokens_header,
    List.nil_append] at hlen ⊢
  simp only [List.length_cons, List.length_append] at hlen
  have body' := block level bound more "while parsing function definition" below (by omega)
  refine .kind (.here fun _ => .word (Parses.bind_zero ?_ fun s' same => .pure ⟨s', rfl, same⟩))
  refine .expect rfl (.ident rfl hname.2 fun name' hname' => .expect rfl
    ((parameters_none _ bound).zero_bind fun params hparams => .expect rfl
      ((returns_none _ bound).zero_bind fun returns hreturns => body'.bind_zero fun _ hb =>
        .stmtSite fun _ => .pure ?_)))
  rw [hparams, hreturns]
  exact .functionDef hname'.symm hb

theorem class_reads {name : Ident} (hname : IsName name.text) (hne : body ≠ [])
    (hbody : Readable elif body) :
    ∃ deep ≤ 1, ReadsStmt elif (.classDef ⟨site, name, [], [], [], body⟩) deep := by
  obtain ⟨deep, hdeep, block⟩ := hbody.block hne
  refine ⟨deep, hdeep, fun level more bound below apart hlen => ?_, fun h => by cases h⟩
  dsimp only at hlen ⊢
  rw [Stmt.lines, ← List.append_nil (blockLines elif (level + 1) body), tokens_header,
    List.nil_append] at hlen ⊢
  simp only [List.length_cons, List.length_append] at hlen
  have body' := block level bound more "while parsing class definition" below (by omega)
  refine .kind (.here fun _ => .word (Parses.bind_zero ?_ fun s' same => .pure ⟨s', rfl, same⟩))
  refine .expect rfl (.ident rfl hname.2 fun name' hname' =>
    ((classArguments_none _ bound).zero_bind fun arguments harguments => body'.bind_zero fun _ hb =>
      .stmtSite fun _ => .pure ?_))
  rw [harguments]
  exact .classDef hname'.symm hb

/-! ## Handlers -/

theorem below_handlerLines {level : Nat} {more : List Line} (h : Line.Below level more) :
    Line.Below level (handlerLines elif level handlers ++ more) := by
  cases handlers with
  | nil => rwa [handlerLines]
  | cons handler handlers =>
    rw [handlerLines]
    intro line hline
    cases hline
    exact Nat.le_refl level

/-- Handlers without types and names that have the same bodies. -/
def SameHandlers (handlers handlers' : List (Handler Stmt)) : Prop :=
  (∀ h ∈ handlers', h.type = none ∧ h.name = none) ∧
    List.Forall₂ (List.Forall₂ Stmt.Same) (handlers.map Handler.body) (handlers'.map Handler.body)

theorem handlers_read (hne : ∀ h ∈ handlers, h.body ≠ [])
    (h : ∀ h ∈ handlers, Readable elif h.body) :
    ∃ deep ≤ 1, ∀ level more bound n, Line.Below level more →
      Apart ["except"] (Line.tokens level more) →
      (Line.tokens level (handlerLines elif level handlers ++ more)).length < bound →
      (Line.tokens level (handlerLines elif level handlers ++ more)).length ≤ n →
      Parses (many (rules bound).handler? n) deep
        (Line.tokens level (handlerLines elif level handlers ++ more)) (Line.tokens level more)
        (SameHandlers handlers) := by
  induction handlers with
  | nil =>
    refine ⟨0, Nat.zero_le 1, fun level more bound n _ apart _ hn => ?_⟩
    obtain ⟨t, us, head⟩ := apart.exists_cons
    rw [handlerLines, List.nil_append] at hn ⊢
    rw [head] at apart hn ⊢
    have stop : Parses (rules bound).handler? 0 (t :: us) (t :: us) (· = none) :=
      .here fun _ => .refuse (apart.ne List.mem_cons_self) (.pure rfl)
    refine (Parses.many_none (by simp at hn; omega) stop).weaken ?_
    rintro _ rfl
    exact ⟨fun _ hmem => absurd hmem List.not_mem_nil, .nil⟩
  | cons handler handlers ih =>
    obtain ⟨span, type, name, body⟩ := handler
    obtain ⟨hbody, hne⟩ := List.forall_mem_cons.1 hne
    obtain ⟨hfirst, h⟩ := List.forall_mem_cons.1 h
    have first : Readable elif body := hfirst
    obtain ⟨deep, hdeep, block⟩ := first.block hbody
    obtain ⟨deep', hdeep', rest⟩ := ih hne h
    refine ⟨max deep deep', by omega, fun level more bound n below apart hlen hn => ?_⟩
    rw [handlerLines, tokens_header] at hlen hn ⊢
    simp only [List.length_cons, List.nil_append] at hbody hlen hn
    have shorter := Line.length_tokens_le level (blockLines elif (level + 1) body)
      (handlerLines elif level handlers ++ more)
    have body' := block level bound (handlerLines elif level handlers ++ more)
      "while parsing except clause" (below_handlerLines below) (by omega)
    have rest' := rest level more bound (n - 1) below apart (by omega) (by omega)
    refine .many_some
      (fun h' => (h'.type = none ∧ h'.name = none) ∧ List.Forall₂ Stmt.Same body h'.body)
      (by omega) ?_ (rest'.weaken ?_)
    · have bare : Parses (do
            if (← word) = ":" then return (none, none)
            let type ← (rules bound).test
            return (some type, ← Recursion.asName?) : Parse (Option Expr × Option Ident)) 0
          (.symbol ":" :: ⟨.newline, "", default⟩ :: Line.tokens level
            (blockLines elif (level + 1) body ++ (handlerLines elif level handlers ++ more))) _
          (· = (none, none)) :=
        .word (.pure rfl)
      refine .here fun _ => .accept rfl (bare.zero_bind fun found hfound => body'.bind_zero
        fun _ hb => .spanSince fun _ => .pure ?_)
      rw [hfound]
      exact ⟨_, rfl, ⟨rfl, rfl⟩, hb⟩
    · rintro handlers' ⟨plain, same⟩ handler' ⟨hplain, hsame⟩
      exact ⟨List.forall_mem_cons.2 ⟨hplain, plain⟩, .cons hsame same⟩

theorem try_reads {finalbody : List Stmt} (hne : body ≠ []) (hbody : Readable elif body)
    (hhandlers : ∀ h ∈ handlers, h.type = none ∧ h.name = none ∧ h.body ≠ [])
    (hcaught : ∀ h ∈ handlers, Readable elif h.body) (horelse : Readable elif orelse)
    (hfinal : Readable elif finalbody) (hany : handlers ≠ [] ∨ finalbody ≠ []) :
    ∃ deep ≤ 1, ReadsStmt elif (.tryBlock site body handlers orelse finalbody) deep := by
  obtain ⟨deep, hdeep, block⟩ := hbody.block hne
  obtain ⟨deep₁, hdeep₁, caught⟩ := handlers_read (fun h hmem => (hhandlers h hmem).2.2) hcaught
  obtain ⟨deep₂, hdeep₂, clause⟩ := horelse.clause "else" "while parsing else clause"
  obtain ⟨deep₃, hdeep₃, last⟩ := hfinal.clause "finally" "while parsing finally clause"
  refine ⟨max deep (max deep₁ (max deep₂ deep₃)), by omega,
    fun level more bound below apart hlen => ?_, fun h => by cases h⟩
  dsimp only at hlen ⊢
  rw [Stmt.lines, tokens_header, List.append_assoc, List.append_assoc] at hlen ⊢
  simp only [List.length_cons, List.nil_append] at hlen
  have below₃ : Line.Below level (clauseLines elif "finally" level finalbody ++ more) :=
    below_clauseLines below
  have below₂ : Line.Below level (clauseLines elif "else" level orelse
      ++ (clauseLines elif "finally" level finalbody ++ more)) := below_clauseLines below₃
  have apart₃ : Apart ["except", "else"]
      (Line.tokens level (clauseLines elif "finally" level finalbody ++ more)) :=
    apart_clauseLines (by decide) (apart.mono (by decide))
  have apart₂ : Apart ["except"] (Line.tokens level (clauseLines elif "else" level orelse
      ++ (clauseLines elif "finally" level finalbody ++ more))) :=
    apart_clauseLines (by decide) (apart₃.mono (by decide))
  have shorter := Line.length_tokens_le level (blockLines elif (level + 1) body)
    (handlerLines elif level handlers ++ (clauseLines elif "else" level orelse
      ++ (clauseLines elif "finally" level finalbody ++ more)))
  have shorter₁ := Line.length_tokens_le level (handlerLines elif level handlers)
    (clauseLines elif "else" level orelse ++ (clauseLines elif "finally" level finalbody ++ more))
  have shorter₂ := Line.length_tokens_le level (clauseLines elif "else" level orelse)
    (clauseLines elif "finally" level finalbody ++ more)
  have body' := block level bound (handlerLines elif level handlers
    ++ (clauseLines elif "else" level orelse
      ++ (clauseLines elif "finally" level finalbody ++ more)))
    "while parsing try statement" (below_handlerLines below₂) (by omega)
  have handlers' := caught level _ bound bound below₂ apart₂ (by omega) (by omega)
  have orelse' := clause level _ bound below₃ (apart₃.mono (by decide)) (by dsimp only; omega)
  have finalbody' := last level more bound below (apart.mono (by decide)) (by dsimp only; omega)
  refine .kind (.here fun _ => .word (Parses.bind_zero ?_ fun s' same => .pure ⟨s', rfl, same⟩))
  refine .here fun _ => .expect rfl (body'.bind fun _ hb => handlers'.bind fun hs' hsame =>
    orelse'.bind fun _ ho => finalbody'.bind_zero fun fs' hf => ?_)
  obtain ⟨bare, caught⟩ := hsame
  have any : ¬(hs'.isEmpty && fs'.isEmpty) = true := by
    rw [Bool.and_eq_true, List.isEmpty_iff, List.isEmpty_iff]
    rintro ⟨rfl, rfl⟩
    rw [List.forall₂_nil_right_iff] at hf
    rw [List.map_nil, List.forall₂_nil_right_iff, List.map_eq_nil_iff] at caught
    exact hany.elim (absurd caught) (absurd hf)
  rw [if_neg any]
  refine .stmtSite fun _ => .pure (.tryBlock hb ?_ caught ho hf)
  have bare' : ∀ h ∈ handlers, h.type = none ∧ h.name = none :=
    fun h hmem => ⟨(hhandlers h hmem).1, (hhandlers h hmem).2.1⟩
  exact List.forall_mem_append.2 ⟨bare', bare⟩


end

end Nesting

end Grammar

open Grammar Nesting in
/-- **Plain statements are read back from their lines.** -/
theorem Tree.Stmt.Plain.reads {elif : Tree.Site → Bool} {s : Tree.Stmt} (h : s.Plain) :
    ∃ deep ≤ 1, ReadsStmt elif s deep := by
  induction h with
  | pass => exact ⟨0, Nat.zero_le 1, pass_reads⟩
  | expr hvalue =>
    obtain ⟨_, id, rfl, hid⟩ := hvalue
    exact ⟨1, Nat.le_refl 1, expr_reads hid⟩
  | branch htest hne hbody horelse ihbody ihorelse =>
    obtain ⟨_, id, rfl, hid⟩ := htest
    obtain ⟨deep, hdeep, branch⟩ := branch_reads hid hne (fun s hs => ⟨hbody s hs, ihbody s hs⟩)
      (fun s hs => ⟨horelse s hs, ihorelse s hs⟩)
    refine ⟨deep, hdeep, fun level more bound below apart hlen => ?_, fun _ => branch "elif"⟩
    have reads := branch "if" level more bound below apart hlen
    dsimp only at reads ⊢
    rw [Stmt.lines, tokens_header] at reads ⊢
    exact .kind (.here fun _ => .word (reads.bind_zero fun s' same => .pure ⟨s', rfl, same⟩))
  | whileLoop htest hne hbody horelse ihbody ihorelse =>
    obtain ⟨_, id, rfl, hid⟩ := htest
    exact while_reads hid hne (fun s hs => ⟨hbody s hs, ihbody s hs⟩)
      fun s hs => ⟨horelse s hs, ihorelse s hs⟩
  | forLoop htarget hiter hne hbody horelse ihbody ihorelse =>
    obtain ⟨_, target, rfl, htarget⟩ := htarget
    obtain ⟨_, iter, rfl, hiter⟩ := hiter
    exact for_reads htarget hiter hne (fun s hs => ⟨hbody s hs, ihbody s hs⟩)
      fun s hs => ⟨horelse s hs, ihorelse s hs⟩
  | withBlock hcontexts hnames hne hbody ihbody =>
    exact with_reads hcontexts hnames hne fun s hs => ⟨hbody s hs, ihbody s hs⟩
  | tryBlock hne hbody hhandlers hcaught horelse hfinal hany ihbody ihcaught ihorelse ihfinal =>
    exact try_reads hne (fun s hs => ⟨hbody s hs, ihbody s hs⟩) hhandlers
      (fun h hmem s hs => ⟨hcaught h hmem s hs, ihcaught h hmem s hs⟩)
      (fun s hs => ⟨horelse s hs, ihorelse s hs⟩) (fun s hs => ⟨hfinal s hs, ihfinal s hs⟩) hany
  | functionDef hname hne hbody ihbody =>
    exact function_reads hname hne fun s hs => ⟨hbody s hs, ihbody s hs⟩
  | classDef hname hne hbody ihbody =>
    exact class_reads hname hne fun s hs => ⟨hbody s hs, ihbody s hs⟩

end SdkUsage
