/-
Statements printed as lines: one for each simple statement and for the header of each
clause, with the statements of a clause one block deeper. `Stmt.Plain` says which
statements are printed so, and `Stmt.Same` which are the same up to where they were
read and how they are numbered.
-/
import SdkUsage.Proofs.Token.Line
import SdkUsage.Proofs.Tree.Words
import SdkUsage.Tree.Stmt

namespace SdkUsage.Tree

variable {word : String} {level prev : Nat} {more : List Line} {es : List Expr} {ss : List Stmt}

/-! ## Lines -/

/-- The header of a clause. -/
def header (level : Nat) (word : String) (words : List Token) : Line :=
  ⟨level, .ident word :: (words ++ [.symbol ":"])⟩

/-- Whether a statement is a branch that is printed with `elif` where it is all of an else
clause. -/
def Stmt.asElif (elif : Site → Bool) : Stmt → Bool
  | .branch site .. => elif site
  | _ => false

section

variable (elif : Site → Bool)

mutual

/-- The lines of a statement. A branch starts with `word`, all others with their keyword. -/
def Stmt.lines (word : String) (level : Nat) : Stmt → List Line
  | .pass _ => [⟨level, [.ident "pass"]⟩]
  | .expr _ value => [⟨level, value.words⟩]
  | .branch _ test body orelse =>
    header level word test.words :: (blockLines (level + 1) body ++ orelseLines level orelse)
  | .whileLoop _ test body orelse =>
    header level "while" test.words
      :: (blockLines (level + 1) body ++ clauseLines "else" level orelse)
  | .forLoop _ target iter body orelse _ =>
    header level "for" (target.words ++ .ident "in" :: iter.words)
      :: (blockLines (level + 1) body ++ clauseLines "else" level orelse)
  | .withBlock _ items body _ =>
    header level "with" (argWords (items.map WithItem.context)) :: blockLines (level + 1) body
  | .tryBlock _ body handlers orelse finalbody =>
    header level "try" [] :: (blockLines (level + 1) body ++ (handlerLines level handlers
      ++ (clauseLines "else" level orelse ++ clauseLines "finally" level finalbody)))
  | .functionDef ⟨_, name, _, _, _, body, _⟩ =>
    header level "def" [.ident name.text, .symbol "(", .symbol ")"] :: blockLines (level + 1) body
  | .classDef ⟨_, name, _, _, _, body⟩ =>
    header level "class" [.ident name.text] :: blockLines (level + 1) body
  | _ => []

/-- The lines of the statements of a block. -/
def blockLines (level : Nat) : List Stmt → List Line
  | [] => []
  | s :: ss => s.lines "if" level ++ blockLines level ss

/-- The lines of a clause, none where it is empty. -/
def clauseLines (word : String) (level : Nat) : List Stmt → List Line
  | [] => []
  | s :: ss => header level word [] :: (s.lines "if" (level + 1) ++ blockLines (level + 1) ss)

/-- The lines of the else clause of a branch. -/
def orelseLines (level : Nat) : List Stmt → List Line
  | [] => []
  | s :: ss =>
    if ss.isEmpty && s.asElif elif then s.lines "elif" level
    else header level "else" [] :: (s.lines "if" (level + 1) ++ blockLines (level + 1) ss)

/-- The lines of handlers. -/
def handlerLines (level : Nat) : List (Handler Stmt) → List Line
  | [] => []
  | ⟨_, _, _, body⟩ :: handlers =>
    header level "except" [] :: (blockLines (level + 1) body ++ handlerLines level handlers)

end

end

/-! ## Plain statements -/

/-- A name that can be printed. -/
def Expr.Named (e : Expr) : Prop := ∃ site id, e = .name site id ∧ IsName id

/-- Statements made of `pass`, names, branches, loops, `with` and `try` blocks and definitions
without parameters, bases and decorators, with names where they hold expressions. -/
inductive Stmt.Plain : Stmt → Prop
  | pass {site} : Plain (.pass site)
  | expr {site value} : value.Named → Plain (.expr site value)
  | branch {site test body orelse} : test.Named → body ≠ [] → (∀ s ∈ body, Plain s) →
      (∀ s ∈ orelse, Plain s) → Plain (.branch site test body orelse)
  | whileLoop {site test body orelse} : test.Named → body ≠ [] → (∀ s ∈ body, Plain s) →
      (∀ s ∈ orelse, Plain s) → Plain (.whileLoop site test body orelse)
  | forLoop {site target iter body orelse} : target.Named → iter.Named → body ≠ [] →
      (∀ s ∈ body, Plain s) → (∀ s ∈ orelse, Plain s) →
      Plain (.forLoop site target iter body orelse false)
  | withBlock {site contexts body} : contexts ≠ [] → (∀ e ∈ contexts, Expr.Named e) → body ≠ [] →
      (∀ s ∈ body, Plain s) → Plain (.withBlock site (contexts.map (⟨·, none⟩)) body false)
  | tryBlock {site body handlers orelse finalbody} : body ≠ [] → (∀ s ∈ body, Plain s) →
      (∀ h ∈ handlers, Handler.type h = none ∧ Handler.name h = none ∧ Handler.body h ≠ []) →
      (∀ h ∈ handlers, ∀ s ∈ Handler.body h, Plain s) → (∀ s ∈ orelse, Plain s) →
      (∀ s ∈ finalbody, Plain s) → handlers ≠ [] ∨ finalbody ≠ [] →
      Plain (.tryBlock site body handlers orelse finalbody)
  | functionDef {site name body} : IsName (Ident.text name) → body ≠ [] → (∀ s ∈ body, Plain s) →
      Plain (.functionDef ⟨site, name, ⟨[], none, [], none⟩, none, [], body, false⟩)
  | classDef {site name body} : IsName (Ident.text name) → body ≠ [] → (∀ s ∈ body, Plain s) →
      Plain (.classDef ⟨site, name, [], [], [], body⟩)

/-- Plain statements that are the same tree: they differ only in sites and spans. -/
inductive Stmt.Same : Stmt → Stmt → Prop
  | pass {site site'} : Same (.pass site) (.pass site')
  | expr {site site' value value'} : Expr.Same value value' →
      Same (.expr site value) (.expr site' value')
  | branch {site site' test test' body body' orelse orelse'} : Expr.Same test test' →
      List.Forall₂ Same body body' → List.Forall₂ Same orelse orelse' →
      Same (.branch site test body orelse) (.branch site' test' body' orelse')
  | whileLoop {site site' test test' body body' orelse orelse'} : Expr.Same test test' →
      List.Forall₂ Same body body' → List.Forall₂ Same orelse orelse' →
      Same (.whileLoop site test body orelse) (.whileLoop site' test' body' orelse')
  | forLoop {site site' target target' iter iter' body body' orelse orelse'} :
      Expr.Same target target' → Expr.Same iter iter' → List.Forall₂ Same body body' →
      List.Forall₂ Same orelse orelse' →
      Same (.forLoop site target iter body orelse false)
        (.forLoop site' target' iter' body' orelse' false)
  | withBlock {site site' contexts contexts' body body'} :
      List.Forall₂ Expr.Same contexts contexts' → List.Forall₂ Same body body' →
      Same (.withBlock site (contexts.map (⟨·, none⟩)) body false)
        (.withBlock site' (contexts'.map (⟨·, none⟩)) body' false)
  | tryBlock {site site' body body' handlers handlers' orelse orelse' finalbody finalbody'} :
      List.Forall₂ Same body body' →
      (∀ h ∈ handlers ++ handlers', Handler.type h = none ∧ Handler.name h = none) →
      List.Forall₂ (List.Forall₂ Same) (handlers.map Handler.body) (handlers'.map Handler.body) →
      List.Forall₂ Same orelse orelse' → List.Forall₂ Same finalbody finalbody' →
      Same (.tryBlock site body handlers orelse finalbody)
        (.tryBlock site' body' handlers' orelse' finalbody')
  | functionDef {site site' name name' body body'} : Ident.text name = Ident.text name' →
      List.Forall₂ Same body body' →
      Same (.functionDef ⟨site, name, ⟨[], none, [], none⟩, none, [], body, false⟩)
        (.functionDef ⟨site', name', ⟨[], none, [], none⟩, none, [], body', false⟩)
  | classDef {site site' name name' body body'} : Ident.text name = Ident.text name' →
      List.Forall₂ Same body body' →
      Same (.classDef ⟨site, name, [], [], [], body⟩) (.classDef ⟨site', name', [], [], [], body'⟩)

/-! ## Tidy lines -/

theorem joins_ident (t : Token) (text : String) : t.Joins (.ident text) :=
  fun h => TokenKind.noConfusion h

theorem map_context (es : List Expr) :
    (es.map fun e => (⟨e, none⟩ : WithItem)).map WithItem.context = es := by
  rw [List.map_map]
  exact List.map_id es

/-- Names with commas between them, before a colon. -/
theorem contexts_chain (h : ∀ e ∈ es, e.Named) {id : String} (hid : IsName id) :
    (.ident id :: (moreArgWords es ++ [.symbol ":"])).IsChain Token.Joins := by
  induction es generalizing id with
  | nil =>
    exact .cons_cons (hid.isWord.joins_mark rfl (by decide)) (.singleton _)
  | cons e es ih =>
    obtain ⟨⟨_, id', rfl, hid'⟩, hes⟩ := List.forall_mem_cons.1 h
    rw [moreArgWords, Expr.words]
    exact .cons_cons (hid.isWord.joins_mark rfl (by decide)) (.cons_cons (joins_ident _ _) (ih hes hid'))

theorem contexts_balanced (h : ∀ e ∈ es, e.Named) :
    (moreArgWords es).foldl Token.depthPast 0 = 0 := by
  induction es with
  | nil => rw [moreArgWords]; rfl
  | cons e es ih =>
    obtain ⟨⟨_, id, rfl, -⟩, hes⟩ := List.forall_mem_cons.1 h
    rw [moreArgWords, Expr.words]
    exact ih hes

theorem contexts_words (h : ∀ e ∈ es, e.Named) : ∀ w ∈ moreArgWords es, w.IsWord := by
  induction es with
  | nil => rw [moreArgWords]; exact fun _ hmem => absurd hmem List.not_mem_nil
  | cons e es ih =>
    obtain ⟨⟨_, id, rfl, hid⟩, hes⟩ := List.forall_mem_cons.1 h
    rw [moreArgWords, Expr.words, List.forall_mem_cons, List.forall_mem_append,
      List.forall_mem_singleton]
    exact ⟨by decide, hid.isWord, ih hes⟩

theorem tidy_header (level : Nat) {words : List Token} (hword : (Token.ident word).IsWord)
    (hw : ∀ w ∈ words, w.IsWord)
    (hj : (.ident word :: (words ++ [.symbol ":"])).IsChain Token.Joins)
    (hb : words.foldl Token.depthPast 0 = 0) : (header level word words).Tidy := by
  refine ⟨?_, hj, List.cons_ne_nil _ _, ?_⟩
  · rw [header, List.forall_mem_cons, List.forall_mem_append, List.forall_mem_singleton]
    exact ⟨hword, hw, by decide⟩
  · have past : (words ++ [Token.symbol ":"]).foldl Token.depthPast 0 = 0 := by
      rw [List.foldl_append, hb]
      decide
    exact past

/-- A keyword alone, as in `else:`. -/
theorem tidy_keyword (level : Nat) (hword : (Token.ident word).IsWord) :
    (header level word []).Tidy :=
  tidy_header level hword (fun _ hmem => absurd hmem List.not_mem_nil)
    (.cons_cons (hword.joins_mark rfl (by decide)) (.singleton _)) rfl

/-- A keyword and a name, as in `if x:`. -/
theorem tidy_named (level : Nat) {id : String} (hword : (Token.ident word).IsWord)
    (hid : IsName id) : (header level word [.ident id]).Tidy :=
  tidy_header level hword (List.forall_mem_singleton.2 hid.isWord)
    (.cons_cons (joins_ident _ _) (.cons_cons (hid.isWord.joins_mark rfl (by decide)) (.singleton _)))
    rfl

/-! ## Laid out lines -/

section

variable {elif : Site → Bool}

/-- The lines of a statement can come where its level can, before what comes at its level. -/
def Stmt.Lays (elif : Site → Bool) (s : Stmt) : Prop :=
  ∀ word ∈ ["if", "elif"], ∀ level prev more, level ≤ prev + 1 → Laid level more →
    Laid prev (s.lines elif word level ++ more)

theorem lays_block (h : ∀ s ∈ ss, s.Lays elif) (hp : level ≤ prev) (hm : Laid level more) :
    Laid prev (blockLines elif level ss ++ more) := by
  induction ss generalizing prev with
  | nil => rw [blockLines]; exact hm.mono hp
  | cons s ss ih =>
    obtain ⟨hs, hss⟩ := List.forall_mem_cons.1 h
    rw [blockLines, List.append_assoc]
    exact hs "if" (by decide) level prev _ (by omega) (ih hss (Nat.le_refl level))

/-- A header and the statements of its clause. -/
theorem lays_clause {body : List Stmt} (hne : body ≠ []) (h : ∀ s ∈ body, s.Lays elif)
    {words : List Token} (hp : level ≤ prev + 1) (tidy : (header level word words).Tidy)
    (hm : Laid level more) :
    Laid prev (header level word words :: (blockLines elif (level + 1) body ++ more)) := by
  refine .cons hp tidy ?_
  cases body with
  | nil => exact absurd rfl hne
  | cons s ss =>
    obtain ⟨hs, hss⟩ := List.forall_mem_cons.1 h
    have deeper : Laid (level + 1) more := hm.mono (Nat.le_succ level)
    rw [blockLines, List.append_assoc]
    exact hs "if" (by decide) (level + 1) level _ (Nat.le_refl _)
      (lays_block hss (Nat.le_refl _) deeper)

theorem lays_clauseLines (h : ∀ s ∈ ss, s.Lays elif) (hw : (Token.ident word).IsWord)
    (hp : level ≤ prev) (hm : Laid level more) :
    Laid prev (clauseLines elif word level ss ++ more) := by
  cases ss with
  | nil => rw [clauseLines]; exact hm.mono hp
  | cons s ss =>
    have clause := lays_clause (List.cons_ne_nil s ss) h (Nat.le_succ_of_le hp)
      (tidy_keyword level hw) hm
    rwa [blockLines] at clause

/-- The else clause of a branch, in either form. -/
theorem lays_orelseLines (h : ∀ s ∈ ss, s.Lays elif) (hp : level ≤ prev) (hm : Laid level more) :
    Laid prev (orelseLines elif level ss ++ more) := by
  cases ss with
  | nil => rw [orelseLines]; exact hm.mono hp
  | cons s ss =>
    rw [orelseLines]
    split
    · exact h s List.mem_cons_self "elif" (by decide) level prev more (by omega) hm
    · have clause := lays_clause (List.cons_ne_nil s ss) h (Nat.le_succ_of_le hp)
        (tidy_keyword level (by decide : (Token.ident "else").IsWord)) hm
      rwa [blockLines] at clause

theorem lays_handlerLines {handlers : List (Handler Stmt)} (hne : ∀ h ∈ handlers, h.body ≠ [])
    (h : ∀ h ∈ handlers, ∀ s ∈ h.body, s.Lays elif) (hp : level ≤ prev) (hm : Laid level more) :
    Laid prev (handlerLines elif level handlers ++ more) := by
  induction handlers generalizing prev with
  | nil => rw [handlerLines]; exact hm.mono hp
  | cons handler handlers ih =>
    obtain ⟨_, _, _, body⟩ := handler
    obtain ⟨hbody, hne⟩ := List.forall_mem_cons.1 hne
    obtain ⟨hfirst, h⟩ := List.forall_mem_cons.1 h
    rw [handlerLines, List.cons_append, List.append_assoc]
    exact lays_clause hbody hfirst (by omega) (tidy_keyword level (by decide))
      (ih hne h (Nat.le_refl level))

/-- **Plain statements are laid out line by line.** -/
theorem Stmt.Plain.lays {s : Stmt} (h : s.Plain) : s.Lays elif := by
  induction h with
  | pass =>
    intro word _ level prev more hp hm
    rw [Stmt.lines]
    exact .cons hp ⟨List.forall_mem_singleton.2 (by decide), .singleton _, List.cons_ne_nil _ _, rfl⟩ hm
  | expr hvalue =>
    intro word _ level prev more hp hm
    obtain ⟨_, id, rfl, hid⟩ := hvalue
    rw [Stmt.lines, Expr.words]
    exact .cons hp ⟨List.forall_mem_singleton.2 hid.isWord, .singleton _, List.cons_ne_nil _ _, rfl⟩ hm
  | branch htest hne _ _ ihbody ihorelse =>
    intro word hword level prev more hp hm
    obtain ⟨_, id, rfl, hid⟩ := htest
    have keyword : (Token.ident word).IsWord := by
      simp only [List.mem_cons, List.not_mem_nil, or_false] at hword
      rcases hword with rfl | rfl <;> decide
    rw [Stmt.lines, Expr.words, List.cons_append, List.append_assoc]
    exact lays_clause hne ihbody hp (tidy_named level keyword hid)
      (lays_orelseLines ihorelse (Nat.le_refl level) hm)
  | whileLoop htest hne _ _ ihbody ihorelse =>
    intro word _ level prev more hp hm
    obtain ⟨_, id, rfl, hid⟩ := htest
    rw [Stmt.lines, Expr.words, List.cons_append, List.append_assoc]
    exact lays_clause hne ihbody hp (tidy_named level (by decide) hid)
      (lays_clauseLines ihorelse (by decide) (Nat.le_refl level) hm)
  | forLoop htarget hiter hne _ _ ihbody ihorelse =>
    intro word _ level prev more hp hm
    obtain ⟨_, target, rfl, htarget⟩ := htarget
    obtain ⟨_, iter, rfl, hiter⟩ := hiter
    rw [Stmt.lines, Expr.words, Expr.words, List.cons_append, List.append_assoc]
    refine lays_clause hne ihbody hp (tidy_header level (by decide) ?_ ?_ rfl)
      (lays_clauseLines ihorelse (by decide) (Nat.le_refl level) hm)
    · rw [List.forall_mem_append, List.forall_mem_singleton, List.forall_mem_cons,
        List.forall_mem_singleton]
      exact ⟨htarget.isWord, by decide, hiter.isWord⟩
    · exact .cons_cons (joins_ident _ _) (.cons_cons (joins_ident _ _) (.cons_cons (joins_ident _ _)
        (.cons_cons (hiter.isWord.joins_mark rfl (by decide)) (.singleton _))))
  | @withBlock site contexts _ hcontexts hnames hne _ ihbody =>
    intro word _ level prev more hp hm
    rw [Stmt.lines, map_context, List.cons_append]
    refine lays_clause hne ihbody hp ?_ hm
    cases contexts with
    | nil => exact absurd rfl hcontexts
    | cons e es =>
      obtain ⟨⟨_, id, rfl, hid⟩, hes⟩ := List.forall_mem_cons.1 hnames
      rw [argWords, Expr.words]
      refine tidy_header level (by decide) ?_ ?_ ?_
      · rw [List.forall_mem_append, List.forall_mem_singleton]
        exact ⟨hid.isWord, contexts_words hes⟩
      · exact .cons_cons (joins_ident _ _) (contexts_chain hes hid)
      · exact contexts_balanced hes
  | tryBlock hne _ hhandlers _ _ _ _ ihbody ihhandlers ihorelse ihfinal =>
    intro word _ level prev more hp hm
    rw [Stmt.lines, List.cons_append, List.append_assoc, List.append_assoc, List.append_assoc]
    exact lays_clause hne ihbody hp (tidy_keyword level (by decide))
      (lays_handlerLines (fun h hmem => (hhandlers h hmem).2.2) ihhandlers (Nat.le_refl level)
        (lays_clauseLines ihorelse (by decide) (Nat.le_refl level)
          (lays_clauseLines ihfinal (by decide) (Nat.le_refl level) hm)))
  | functionDef hname hne _ ihbody =>
    intro word _ level prev more hp hm
    rw [Stmt.lines, List.cons_append]
    refine lays_clause hne ihbody hp (tidy_header level (by decide) ?_ ?_ rfl) hm
    · rw [List.forall_mem_cons, List.forall_mem_cons, List.forall_mem_singleton]
      exact ⟨hname.isWord, by decide, by decide⟩
    · exact .cons_cons (joins_ident _ _) (.cons_cons (hname.isWord.joins_mark rfl (by decide))
        (.cons_cons (fun _ _ => rfl) (.cons_cons (fun _ _ => rfl) (.singleton _))))
  | classDef hname hne _ ihbody =>
    intro word _ level prev more hp hm
    rw [Stmt.lines, List.cons_append]
    exact lays_clause hne ihbody hp (tidy_named level (by decide) hname) hm

end

end SdkUsage.Tree
