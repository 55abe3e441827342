/-
Rules for statements follow themselves. One lemma for each rule of the grammar, in its
order. A statement starts in a line and ends at the start of a line, where the first text may
be over and the second go on; so clauses that may follow, such as `else`, are looked for
where only this is known. `statements_followed` ties the knot by induction on the bound.
-/
import SdkUsage.Proofs.Grammar.Follow.Expression
import SdkUsage.Proofs.Grammar.Statement

namespace SdkUsage.Grammar

open SdkUsage.Tree

/-! ## Lines and blocks -/

/-- The setting inside a block. -/
def Setting.inner (s : Setting) : Setting := { s with level := s.level + 1 }

/-- A rule for statements: it starts in a line and ends at the start of one. -/
abbrev MirrorsLine {α β : Type} (view : Shift → α → β) (c : Course) (s : Setting)
    (x : Parse α) : Prop :=
  Follows (InStep c s) x x (Ends true view c s)

namespace Follows

variable {α β : Type} {post : α → β → Parser → Parser → Prop} {c : Course} {s : Setting} {t : Token}
  {x : Parse α} {y : Parse β} {text : String}

theorem atBreak (h : Follows (AtBreak c s) x y post) : Follows (InStep c s) x y post :=
  fun _ _ _ _ hp heq => h hp.atBreak heq

/-- In a block the start of a line is like any other place, and so it is if the second text
does not go on. -/
theorem inStep {fresh : Bool} (hs : s.level ≠ 0 ∨ c.rest = Option.none)
    (h : Follows (InStep c s) x y post) : Follows (Together fresh c s) x y post :=
  fun _ _ _ _ hp heq => h (hp.inStep (.inr hs)) heq

/-- A fact about the first run alone. -/
theorem and_ensures {pre : Parser → Parser → Prop} {φ : α → Parser → Prop}
    (h : Follows pre x y post) (hx : Ensures (fun _ => True) x φ) :
    Follows pre x y fun v w p q => post v w p q ∧ φ v p := by
  intro p q v p' hp heq
  obtain ⟨w, q', hw, hpost⟩ := h hp heq
  exact ⟨w, q', hw, hpost, hx trivial heq⟩

theorem newline (ht : t.kind = .newline) :
    Follows (On c s t) Grammar.advance Grammar.advance fun _ _ => AtBreak c s := by
  rintro p q _ p' ⟨hp, rfl⟩ heq
  obtain ⟨q', hq, h⟩ := hp.pass (fun _ _ ha => ha.tail_newline ht) heq
  rw [Token.word, ht] at h
  exact ⟨(), q', hq, h⟩

theorem dedent (ht : t.kind = .dedent) :
    Follows (On c s.inner t) Grammar.advance Grammar.advance fun _ _ => AtBreak c s := by
  rintro p q _ p' ⟨hp, rfl⟩ heq
  obtain ⟨q', hq, h⟩ := hp.pass (fun _ _ ha => ha.tail_dedent ht) heq
  rw [Token.word, ht] at h
  exact ⟨(), q', hq, h⟩

/-- The first line of a block. -/
theorem indent {f : Unit → Parse α} {g : Unit → Parse β} {cause cause' : SyntaxError.Cause}
    (h : Follows (InStep c s.inner) (f ()) (g ()) post) :
    Follows (AtBreak c s)
      (Grammar.kind >>= fun k => if k ≠ .indent then Grammar.fail cause else Grammar.advance >>= f)
      (Grammar.kind >>= fun k => if k ≠ .indent then Grammar.fail cause' else Grammar.advance >>= g)
      post := by
  have passed (t : Token) (ht : t.kind = .indent) : Follows (On c s t) Grammar.advance
      Grammar.advance fun _ _ => InStep c s.inner := by
    rintro p q _ p' ⟨hp, rfl⟩ heq
    obtain ⟨q', hq, h⟩ := hp.pass (fun _ _ ha => ha.tail_indent ht) heq
    rw [Token.word, ht] at h
    exact ⟨(), q', hq, h.inStep (.inr (.inl (Nat.succ_ne_zero _)))⟩
  intro p q v p' hp heq
  by_cases hk : p.token.kind = .eof
  · change (if p.token.kind ≠ TokenKind.indent then Grammar.fail cause else Grammar.advance >>= f) p
      = _ at heq
    rw [if_pos (by rw [hk]; decide)] at heq
    cases heq
  · have hp := hp.inStep (.inl hk)
    refine on (fun t => kind (.ite (fun _ => .fail) fun ht => ?_)) hp heq
    exact (passed t (not_not.1 ht)).bind fun _ _ => h

/-- The end of a line, or of the text. -/
theorem lineEnd {context : String} {f : Unit → Parse α} {g : Unit → Parse β}
    (h : Follows (AtBreak c s) (f ()) (g ()) post) :
    Follows (InStep c s) (Grammar.expectLineEnd context >>= f)
      (Grammar.expectLineEnd context >>= g) post := by
  have passed : Follows (InStep c s) (Grammar.expectLineEnd context)
      (Grammar.expectLineEnd context) fun _ _ => AtBreak c s := by
    unfold Grammar.expectLineEnd
    refine on fun t => kind ?_
    cases hk : t.kind with
    | newline => exact newline hk
    | eof => exact .pure fun p q h => h.1.atBreak
    | _ => exact .fail
  exact passed.bind fun _ _ => h

/-- The end of a block: a token for it, or the end of the text. -/
theorem blockEnd (h : Follows (AtBreak c s) x y post) :
    Follows (fun p q => InStep c s.inner p q ∧ Nesting.endsBlock p.token = true)
      (Grammar.kind >>= fun k => if k = .dedent then Grammar.advance >>= fun _ => x else x)
      (Grammar.kind >>= fun k => if k = .dedent then Grammar.advance >>= fun _ => y else y)
      post := by
  rintro p q v p' ⟨hp, hends⟩ heq
  change (if p.token.kind = TokenKind.dedent then Grammar.advance >>= fun _ => x else x) p = _ at heq
  change ∃ w q', (if q.token.kind = TokenKind.dedent then Grammar.advance >>= fun _ => y else y) q
    = _ ∧ _
  rw [← hp.alike.kind]
  by_cases hk : p.token.kind = .dedent
  · rw [if_pos hk] at heq ⊢
    exact (dedent hk).bind (fun _ _ => h) ⟨hp, rfl⟩ heq
  · rw [if_neg hk] at heq ⊢
    have eof : p.token.kind = .eof := by simpa [Nesting.endsBlock, hk] using hends
    exact h (hp.of_eof eof) heq

theorem accept_eq_of_word_ne {p : Parser} (h : p.token.word ≠ text) :
    Grammar.accept text p = .ok false p := by
  change (if p.token.word = text then _ else _ : Parse Bool) p = _
  rw [if_neg h]
  rfl

theorem word_ne_of_past {p q : Parser} (ht : text ∈ clauseWords) (hp : p.token.kind = .eof)
    (hq : q.token.word ∉ clauseWords) : p.token.word ≠ text ∧ q.token.word ≠ text := by
  refine ⟨?_, fun h => hq (h ▸ ht)⟩
  rw [Token.word_eq_of_isLayout (Token.isLayout_of_eof hp)]
  rintro rfl
  exact absurd ht (by decide)

/-- A look for a clause that continues a statement. -/
theorem clauseWord {x' : Parse α} {y' : Parse β} (ht : text ∈ clauseWords)
    (htrue : ∀ t : Token, t.word = text → Follows (On c s t) x y post)
    (hfalse : Follows (AtBreak c s) x' y' post) :
    Follows (AtBreak c s) (Grammar.word >>= fun w => if w = text then x else x')
      (Grammar.word >>= fun w => if w = text then y else y') post := by
  intro p q v p' hp heq
  rcases hp.break_cases with hin | ⟨hk, hq⟩
  · exact on (fun t => word (.ite (htrue t) fun _ => .off hfalse.atBreak)) hin heq
  · obtain ⟨hne, hne'⟩ := word_ne_of_past ht hk hq
    change (if p.token.word = text then x else x') p = _ at heq
    rw [if_neg hne] at heq
    obtain ⟨w, q', hw, hpost⟩ := hfalse hp heq
    refine ⟨w, q', ?_, hpost⟩
    change (if q.token.word = text then y else y') q = _
    rw [if_neg hne', hw]

/-- A clause that continues a statement, if one follows. -/
theorem acceptClause {f : Bool → Parse α} {g : Bool → Parse β} (ht : text ∈ clauseWords)
    (hw : Leads text s s) (htrue : Follows (InStep c s) (f true) (g true) post)
    (hfalse : Follows (AtBreak c s) (f false) (g false) post) :
    Follows (AtBreak c s) (Grammar.accept text >>= f) (Grammar.accept text >>= g) post := by
  intro p q v p' hp heq
  rcases hp.break_cases with hin | ⟨hk, hq⟩
  · exact accept_bool hw htrue hfalse.atBreak hin heq
  · obtain ⟨hne, hne'⟩ := word_ne_of_past ht hk hq
    simp only [Bind.bind, EStateM.bind, accept_eq_of_word_ne hne] at heq
    simp only [Bind.bind, EStateM.bind, accept_eq_of_word_ne hne']
    exact hfalse hp heq

end Follows

namespace Recursion

variable {g : Recursion} {c : Course} {s : Setting}

/-! ## Simple statements -/

/-- The view of names. -/
abbrev naming (_ : Shift) (ident : Ident) : Ident := ident.bare

theorem text_eq_of_bare {name name' : Ident} (h : name.bare = name'.bare) :
    name.text = name'.text :=
  show name.bare.text = name'.bare.text from congrArg _ h

theorem dottedPart_mirrors (name : String) : Mirrors (maybe plainly) c s (dottedPart? name) :=
  .accept ⟨rfl, rfl⟩ (ident_mirrors.next fun _ _ hp => .some (by simp only [plainly, text_eq_of_bare hp]))
    (.done rfl)

theorem asName_mirrors : Mirrors (maybe naming) c s asName? :=
  .accept ⟨rfl, rfl⟩ (ident_mirrors.next fun _ _ hn => .done (congrArg some hn)) (.done rfl)

/-- The view of a dotted name. -/
abbrev nameOf (_ : Shift) (dotted : Span × String) : String := dotted.2

/-- The view of names of an import. -/
abbrev aliasing (_ : Shift) (name : Alias) : Alias := name.bare

theorem importedMember_mirrors : Mirrors aliasing c s importedMember :=
  ident_mirrors.next fun _ _ hn => asName_mirrors.next fun _ _ ha => .spanSince fun _ _ =>
    .done (by simp only [aliasing, Alias.bare, text_eq_of_bare hn, ha])

theorem importLevel_mirrors (level : Nat) : Mirrors (maybe plainly) c s (importLevel? level) :=
  .accept ⟨rfl, rfl⟩ (.done rfl) (.accept ⟨rfl, rfl⟩ (.done rfl) (.done rfl))

theorem dottedName_mirrors : Mirrors nameOf c s g.dottedName := by
  refine Follows.here fun a b => ident_mirrors.next fun first first' hf => ?_
  have same : plainly c.shift first.text = plainly {} first'.text := text_eq_of_bare hf
  refine (repeated_follows (fun v w hv => ?_) _ same).next
    fun name name' hn => .spanSince fun _ _ => .done hn
  cases hv
  exact dottedPart_mirrors v

theorem importedModule_mirrors : Mirrors aliasing c s g.importedModule := by
  refine dottedName_mirrors.next fun (_, name) (_, name') hn => ?_
  have hn : name = name' := hn
  refine asName_mirrors.next fun as as' ha => .spanSince fun _ _ => ?_
  exact .done (by simp only [aliasing, Alias.bare, hn, ha])

theorem importStmt_mirrors : Mirrors Stmt.bare c s g.importStmt := by
  refine Follows.here fun a b => .expect ⟨rfl, rfl⟩ ?_
  refine (separated_mirrors ⟨rfl, rfl⟩ (fun _ _ _ => rfl) importedModule_mirrors _).next
    fun names names' hn => .stmt fun st st' hst => ?_
  simp only [Stmt.bare, hst]
  exact congrArg _ hn

theorem importedMembers_mirrors : Mirrors (listing aliasing) c s g.importedMembers := by
  refine Follows.here fun a b => .accept ⟨rfl, rfl⟩ (.done rfl) (.accept_bool ⟨rfl, rfl⟩ ?_ ?_)
  · have last : Placeless fun t => true && isWord ")" t := isWord_placeless ")"
    exact (separated_mirrors ⟨rfl, rfl⟩ last importedMember_mirrors _).next fun names names' hn =>
      .expect_close ⟨rfl, rfl⟩ (.done hn)
  · have last : Placeless fun t => false && isWord ")" t := fun _ _ _ => rfl
    exact (separated_mirrors ⟨rfl, rfl⟩ last importedMember_mirrors _).next fun names names' hn => .done hn

theorem importFromStmt_mirrors : Mirrors Stmt.bare c s g.importFromStmt := by
  have levels : Mirrors plainly c s (repeated importLevel? g.bound 0) :=
    repeated_follows (fun v w hv => by cases hv; exact importLevel_mirrors v) _ rfl
  have path : Mirrors plainly c s
      (do if (← word) = "import" then return none
          return some (← g.dottedName).2 : Parse (Option String)) :=
    .on fun t => .word (.ite (fun _ => .off (.done rfl)) fun _ =>
      .off (dottedName_mirrors.next fun _ _ hv => .done (congrArg some hv)))
  refine Follows.here fun a b => .expect ⟨rfl, rfl⟩ (levels.next fun level level' hl => ?_)
  cases hl
  refine path.next fun path path' hp => ?_
  cases hp
  refine .ite (fun _ => .fail) fun _ => .expect ⟨rfl, rfl⟩ ?_
  refine importedMembers_mirrors.next fun names names' hn => .stmt fun st st' hst => ?_
  simp only [Stmt.bare, hst]
  exact congrArg _ hn

section

variable (hg : g.Followed)

include hg

theorem exprOrYield_mirrors : Mirrors Expr.bare c s g.exprOrYield :=
  .on fun _ => .word (.ite (fun _ => .off (yieldExpr_mirrors hg)) fun _ =>
    .off (exprList_mirrors hg))

theorem assignedSide_mirrors : Mirrors (maybe Expr.bare) c s g.assignedSide? :=
  .accept ⟨rfl, rfl⟩ ((exprOrYield_mirrors hg).next fun _ _ => .some) (.done rfl)

omit hg in
theorem augmentedOps_words : ∀ o ∈ augmentedOps, o.1 ≠ "" ∧ Follows.isBracket o.1 = false := by
  decide

theorem exprStmt_mirrors : Mirrors Stmt.bare c s g.exprStmt := by
  refine Follows.here fun a b => (exprOrYield_mirrors hg).next fun first first' hf => ?_
  refine (many_follows (assignedSide_mirrors hg) _).next fun sides sides' hs => ?_
  have final : sides.getLast?.map (Expr.bare c.shift) = sides'.getLast?.map (Expr.bare {}) := by
    rw [← List.getLast?_map, ← List.getLast?_map]
    exact congrArg _ hs
  have before : sides.dropLast.map (Expr.bare c.shift) = sides'.dropLast.map (Expr.bare {}) := by
    rw [List.map_dropLast, List.map_dropLast]
    exact congrArg _ hs
  cases hv : sides.getLast? with
  | some v =>
    rw [hv] at final
    obtain ⟨w, hw, hvw⟩ := Option.map_eq_some_iff.1 final.symm
    rw [hw]
    exact .stmt fun st st' hst => by simp only [Stmt.bare, List.map_cons, hst, hf, before, hvw]
  | none =>
    rw [hv] at final
    rw [Option.map_eq_none_iff.1 final.symm]
    refine .accept ⟨rfl, rfl⟩ ?_ (.on fun t => .word ?_)
    · refine (test_mirrors hg).next fun hint hint' hh => ?_
      refine (assignedSide_mirrors hg).next fun v w hv => ?_
      exact .stmt fun st st' hst => by simp only [Stmt.bare, hst, hf, hh, hv]
    · cases ho : augmentedOps.lookup t.word with
      | some op =>
        obtain ⟨hw, hb⟩ := augmentedOps_words _ (mem_of_lookup ho)
        refine .advance (Token.isLayout_of_word_ne hw) (fun _ => hb) ?_
        refine (exprOrYield_mirrors hg).next fun v w hv => ?_
        exact .stmt fun st st' hst => by simp only [Stmt.bare, hst, hf, hv]
      | none => exact .off (.stmt fun st st' hst => by simp only [Stmt.bare, hst, hf])

end

theorem endsStatement_placeless : Placeless endsStatement := by
  intro t u h
  unfold endsStatement
  rw [h.kind, h.word_eq]

theorem endsLine_placeless : Placeless endsLine := by
  intro t u h
  unfold endsLine
  rw [h.kind]

section

variable {t : Token}

theorem wordStmt_follows {build : Site → Stmt} {text : String} (ht : t.word = text)
    (hw : Follows.Leads text s s)
    (hb : ∀ st st' : Site, st.bare c.shift.stmts = st'.bare 0 →
      (build st).bare c.shift = (build st').bare {}) :
    Follows (On c s t) (wordStmt build) (wordStmt build) (Ends false Stmt.bare c s) :=
  .here fun _ _ => .advance_same ht hw (.stmt hb)

theorem nameListStmt_follows {build : Site → List Ident → Stmt} {text : String} (ht : t.word = text)
    (hw : Follows.Leads text s s)
    (hb : ∀ (st st' : Site) (names names' : List Ident), st.bare c.shift.stmts = st'.bare 0 →
      names.map Ident.bare = names'.map Ident.bare →
      (build st names).bare c.shift = (build st' names').bare {}) :
    Follows (On c s t) (g.nameListStmt build) (g.nameListStmt build)
      (Ends false Stmt.bare c s) :=
  .here fun _ _ => .advance_same ht hw
    ((separated_mirrors ⟨rfl, rfl⟩ (fun _ _ _ => rfl) ident_mirrors _).next
      fun names names' hns => .stmt fun st st' hst => hb st st' names names' hst hns)

variable (hg : g.Followed)

include hg

theorem returnStmt_follows (ht : t.word = "return") :
    Follows (On c s t) g.returnStmt g.returnStmt (Ends false Stmt.bare c s) := by
  refine Follows.here fun a b => .advance_same ht ⟨rfl, rfl⟩ (.on fun t =>
    .look endsStatement_placeless (fun _ => .off ?_) fun _ => .off ?_)
  · exact .stmt fun st st' hst => by simp only [Stmt.bare, Option.map_none, hst]
  · refine (exprList_mirrors hg).next fun v w hv => ?_
    exact .stmt fun st st' hst => by simp only [Stmt.bare, Option.map_some, hst, hv]

theorem raiseStmt_follows (ht : t.word = "raise") :
    Follows (On c s t) g.raiseStmt g.raiseStmt (Ends false Stmt.bare c s) := by
  refine Follows.here fun a b => .advance_same ht ⟨rfl, rfl⟩ (.on fun t =>
    .look endsStatement_placeless (fun _ => .off ?_) fun _ => .off ?_)
  · exact .stmt fun st st' hst => by simp only [Stmt.bare, Option.map_none, hst]
  refine (test_mirrors hg).next fun v w hv => .accept ⟨rfl, rfl⟩ ?_ ?_
  · refine (test_mirrors hg).next fun cause cause' hc => ?_
    exact .stmt fun st st' hst => by simp only [Stmt.bare, Option.map_some, hst, hv, hc]
  · exact .stmt fun st st' hst => by
      simp only [Stmt.bare, Option.map_some, Option.map_none, hst, hv]

theorem deleteStmt_follows (ht : t.word = "del") :
    Follows (On c s t) g.deleteStmt g.deleteStmt (Ends false Stmt.bare c s) := by
  refine Follows.here fun a b => .advance_same ht ⟨rfl, rfl⟩ ?_
  refine (targetList_mirrors hg).next fun v w hv => ?_
  split
  · next site items =>
    rw [Expr.bare, bareExprs_eq] at hv
    obtain ⟨site', items', rfl, hi⟩ := Expr.bare_eq_tuple hv.symm
    exact .stmt fun st st' hst => by simp only [Stmt.bare, hst, hi]
  · next other =>
    split
    · next site' items' =>
      rw [Expr.bare, bareExprs_eq] at hv
      obtain ⟨site, items, rfl, _⟩ := Expr.bare_eq_tuple hv
      exact absurd rfl (other site items)
    · exact .stmt fun st st' hst => by simp only [Stmt.bare, List.map_cons, List.map_nil, hst, hv]

theorem assertStmt_follows (ht : t.word = "assert") :
    Follows (On c s t) g.assertStmt g.assertStmt (Ends false Stmt.bare c s) := by
  refine Follows.here fun a b => .advance_same ht ⟨rfl, rfl⟩ ?_
  refine (test_mirrors hg).next fun v w hv => .accept ⟨rfl, rfl⟩ ?_ ?_
  · refine (test_mirrors hg).next fun text text' htext => ?_
    exact .stmt fun st st' hst => by simp only [Stmt.bare, Option.map_some, hst, hv, htext]
  · exact .stmt fun st st' hst => by simp only [Stmt.bare, Option.map_none, hst, hv]

theorem smallStmt_mirrors : Mirrors Stmt.bare c s g.smallStmt := by
  refine Follows.on fun t => .word ?_
  generalize ht : t.word = w
  split
  · exact wordStmt_follows ht ⟨rfl, rfl⟩ fun st st' hst => by simp only [Stmt.bare, hst]
  · exact wordStmt_follows ht ⟨rfl, rfl⟩ fun st st' hst => by simp only [Stmt.bare, hst]
  · exact wordStmt_follows ht ⟨rfl, rfl⟩ fun st st' hst => by simp only [Stmt.bare, hst]
  · exact returnStmt_follows hg ht
  · exact raiseStmt_follows hg ht
  · exact nameListStmt_follows ht ⟨rfl, rfl⟩ fun _ _ _ _ hst hn => by simp only [Stmt.bare, hst, hn]
  · exact nameListStmt_follows ht ⟨rfl, rfl⟩ fun _ _ _ _ hst hn => by simp only [Stmt.bare, hst, hn]
  · exact deleteStmt_follows hg ht
  · exact assertStmt_follows hg ht
  · exact .off importStmt_mirrors
  · exact .off importFromStmt_mirrors
  · exact .off (exprStmt_mirrors hg)

theorem simpleStmts_mirrors : MirrorsLine (listing Stmt.bare) c s g.simpleStmts :=
  (separated_mirrors ⟨rfl, rfl⟩ endsLine_placeless (smallStmt_mirrors hg) _).next fun _ _ hs =>
    .lineEnd (.done hs)

end

end Recursion

namespace Nesting

/-- The rules to come back to follow themselves. -/
structure Followed (g : Nesting) : Prop where
  rules : g.toRecursion.Followed
  statement : ∀ c s, MirrorsLine (listing Stmt.bare) c s (g.stmts .statement)
  elif : ∀ c s (t : Token), t.word = "elif" →
    Follows (On c s t) (g.stmts .elif) (g.stmts .elif) (Ends true (listing Stmt.bare) c s)

variable {g : Nesting} {c : Course} {s : Setting}

/-! ## Compound statements -/

/-- Statements are read up to a token that ends them. -/
theorem groups_end (g : Nesting) (ends : Token → Bool) (bound : Nat) :
    Ensures (fun _ => True) (many (g.group? ends) bound) fun _ p => ends p.token = true := by
  have round : Ensures (fun _ => True) (g.group? ends) fun o p => o = none → ends p.token = true := by
    refine Ensures.token.bind fun t => ?_
    split
    · next h => exact .pure fun p hp _ => by rw [hp.2, h]
    · have any : Ensures (fun _ => True) (g.stmts .statement) fun _ _ => True :=
        fun _ _ _ _ _ => trivial
      exact (any.weaken (fun _ _ => trivial) fun _ _ h => h).bind fun v =>
        .pure fun _ _ h => by cases h
  induction bound with
  | zero => exact .fail
  | succ bound ih =>
    refine round.bind fun o => ?_
    cases o with
    | none => exact .pure fun p hp => hp rfl
    | some v =>
      exact (ih.weaken (fun _ _ => trivial) fun _ _ h => h).bind fun vs => .pure fun _ h => h

theorem endsBlock_placeless : Placeless endsBlock := by
  intro t u h
  unfold endsBlock
  rw [h.kind]

section

variable (hg : g.Followed)

include hg

/-- One more line or compound statement, where the second text does not go on alone. -/
theorem group_mirrors {ends : Token → Bool} (he : Placeless ends)
    (hs : s.level ≠ 0 ∨ c.rest = none) : Mirrors (maybe (listing Stmt.bare)) c s (g.group? ends) :=
  .on fun _ => .look he (fun _ => .off (.done rfl)) fun _ =>
    .off ((hg.statement c s).next fun _ _ hv => .inStep hs (.some hv))

theorem stmtsUntil_mirrors {ends : Token → Bool} (he : Placeless ends)
    (hs : s.level ≠ 0 ∨ c.rest = none) : Mirrors (listing Stmt.bare) c s (g.stmtsUntil ends) :=
  (many_follows (group_mirrors hg he hs) _).next fun groups groups' hgs => .done (by
    simp only [listing, List.map_flatten]
    exact congrArg List.flatten hgs)

/-- The statements of a block, with the token that ends it. -/
theorem blockBody_follows :
    Follows (InStep c s.inner)
      (do let body ← g.stmtsUntil endsBlock
          if (← kind) = .dedent then advance
          return body)
      (do let body ← g.stmtsUntil endsBlock
          if (← kind) = .dedent then advance
          return body) (Ends true (listing Stmt.bare) c s) := by
  have ends : Ensures (fun _ => True) (g.stmtsUntil endsBlock) fun _ p => endsBlock p.token = true :=
    (groups_end g endsBlock g.bound).bind fun groups => .pure fun _ h => h
  have body := (stmtsUntil_mirrors (c := c) (s := s.inner) hg endsBlock_placeless
    (.inl (Nat.succ_ne_zero _))).and_ensures ends
  refine body.bind fun stmts stmts' => .assume fun p q hpq => ?_
  obtain ⟨⟨hs, hp⟩, hends⟩ := hpq
  have done : Follows (AtBreak c s) (pure stmts) (pure stmts')
      (Ends true (listing Stmt.bare) c s) := .done hs
  exact done.blockEnd.start ⟨hp, hends⟩

theorem block_mirrors (context : String) :
    MirrorsLine (listing Stmt.bare) c s (g.block context) :=
  .expect ⟨rfl, rfl⟩ (.on fun _ => .kind (.ite (fun _ => .off (Recursion.simpleStmts_mirrors hg.rules))
    fun hk => (Follows.newline (not_not.1 hk)).bind fun _ _ => .indent (blockBody_follows hg)))

theorem elseClause_follows :
    Follows (AtBreak c s) g.elseClause g.elseClause (Ends true (listing Stmt.bare) c s) :=
  .acceptClause (by decide) ⟨rfl, rfl⟩ (block_mirrors hg _) (.done rfl)

theorem finallyClause_follows :
    Follows (AtBreak c s) g.finallyClause g.finallyClause (Ends true (listing Stmt.bare) c s) :=
  .acceptClause (by decide) ⟨rfl, rfl⟩ (block_mirrors hg _) (.done rfl)

theorem ifStmt_follows {t : Token} {text : String} (ht : t.word = text)
    (hw : Follows.Leads text s s) :
    Follows (On c s t) g.ifStmt g.ifStmt (Ends true Stmt.bare c s) := by
  have orelse : Follows (AtBreak c s)
      (do if (← word) = "elif" then return ← g.stmts .elif
          g.elseClause : Parse (List Stmt))
      (do if (← word) = "elif" then return ← g.stmts .elif
          g.elseClause : Parse (List Stmt)) (Ends true (listing Stmt.bare) c s) :=
    .clauseWord (by decide) (hg.elif c s) (elseClause_follows hg)
  refine Follows.here fun a b => .advance_same ht hw ?_
  refine (Recursion.namedTest_mirrors hg.rules).next fun test test' ht => ?_
  refine (block_mirrors hg _).next fun body body' hb => orelse.next fun orelse orelse' ho => ?_
  exact .stmt fun st st' hst => by simp only [Stmt.bare, bareStmts_eq, hst, ht, hb, ho]

theorem whileStmt_mirrors : MirrorsLine Stmt.bare c s g.whileStmt := by
  refine Follows.here fun a b => .expect ⟨rfl, rfl⟩ ?_
  refine (Recursion.namedTest_mirrors hg.rules).next fun test test' ht => ?_
  refine (block_mirrors hg _).next fun body body' hb => ?_
  refine (elseClause_follows hg).next fun orelse orelse' ho => ?_
  exact .stmt fun st st' hst => by simp only [Stmt.bare, bareStmts_eq, hst, ht, hb, ho]

theorem forStmt_follows {a b : Span} (isAsync : Bool) :
    Follows (InStep c s) (g.forStmt a isAsync) (g.forStmt b isAsync)
      (Ends true Stmt.bare c s) := by
  refine Follows.expect ⟨rfl, rfl⟩ ?_
  refine (Recursion.targetList_mirrors hg.rules).next fun target target' ht => .expect ⟨rfl, rfl⟩ ?_
  refine (Recursion.exprList_mirrors hg.rules).next fun iter iter' hi => ?_
  refine (block_mirrors hg _).next fun body body' hb => ?_
  refine (elseClause_follows hg).next fun orelse orelse' ho => ?_
  exact .stmt fun st st' hst => by simp only [Stmt.bare, bareStmts_eq, hst, ht, hi, hb, ho]

theorem withItem_mirrors : Mirrors WithItem.bare c s g.withItem := by
  refine (Recursion.test_mirrors hg.rules).next fun context context' hc => .accept ⟨rfl, rfl⟩ ?_ ?_
  · refine (Recursion.starOr_mirrors hg.rules (hg.rules c s .bitOr)).next fun vars vars' hv => ?_
    exact .done (by simp only [WithItem.bare, Option.map_some, hc, hv])
  · exact .done (by simp only [WithItem.bare, Option.map_none, hc])

theorem withStmt_follows {a b : Span} (isAsync : Bool) :
    Follows (InStep c s) (g.withStmt a isAsync) (g.withStmt b isAsync)
      (Ends true Stmt.bare c s) := by
  refine Follows.expect ⟨rfl, rfl⟩ ?_
  refine (separated_mirrors ⟨rfl, rfl⟩ (fun _ _ _ => rfl) (withItem_mirrors hg) _).next
    fun items items' hi => ?_
  refine (block_mirrors hg _).next fun body body' hb => ?_
  exact .stmt fun st st' hst => by simp only [Stmt.bare, bareStmts_eq, hst, hi, hb]

/-- The view of what an `except` clause catches. -/
abbrev catching (shift : Shift) (caught : Option Expr × Option Ident) :
    Option Expr × Option Ident :=
  (caught.1.map (Expr.bare shift), caught.2.map Ident.bare)

theorem handler_follows :
    Follows (AtBreak c s) g.handler? g.handler? (Ends true (maybe Handler.bare) c s) := by
  have caught : Mirrors catching c s
      (do if (← word) = ":" then return (none, none)
          let type ← g.test
          return (some type, ← Recursion.asName?) : Parse (Option Expr × Option Ident)) := by
    refine .on fun t => .word (.ite (fun _ => .off (.done rfl)) fun _ => .off ?_)
    refine (Recursion.test_mirrors hg.rules).next fun type type' ht => ?_
    refine Recursion.asName_mirrors.next fun name name' hn => .done ?_
    simp only [catching, Option.map_some, ht]
    exact congrArg _ hn
  refine Follows.here fun a b => .acceptClause (by decide) ⟨rfl, rfl⟩ ?_ (.done rfl)
  refine caught.next fun (type, name) (type', name') hc => ?_
  simp only [catching, Prod.mk.injEq] at hc
  refine (block_mirrors hg _).next fun body body' hb => .spanSince fun _ _ => ?_
  exact .some (by simp only [Handler.bare, bareStmts_eq, hc, hb])

theorem tryStmt_mirrors : MirrorsLine Stmt.bare c s g.tryStmt := by
  refine Follows.here fun a b => .expect ⟨rfl, rfl⟩ ?_
  refine (block_mirrors hg _).next fun body body' hb => ?_
  refine (many_follows (handler_follows hg) _).next fun handlers handlers' hh => ?_
  refine (elseClause_follows hg).next fun orelse orelse' ho => ?_
  refine (finallyClause_follows hg).next fun final final' hf => ?_
  have none : (handlers.isEmpty && final.isEmpty) = (handlers'.isEmpty && final'.isEmpty) := by
    have hhe := congrArg List.isEmpty hh
    have hfe := congrArg List.isEmpty hf
    simp only [listing, List.isEmpty_map] at hhe hfe
    rw [hhe, hfe]
  rw [← none]
  refine .ite (fun _ => .failAt) fun _ => ?_
  exact .stmt fun st st' hst => by
    simp only [Stmt.bare, bareStmts_eq, bareHandlers_eq, hst, hb, hh, ho, hf]

theorem returns_mirrors : Mirrors (maybe Expr.bare) c s g.returns? :=
  .accept ⟨rfl, rfl⟩ ((Recursion.test_mirrors hg.rules).next fun _ _ => .some) (.done rfl)

section

variable {a b : Span} {decorators decorators' : List Expr}
  (hd : decorators.map (Expr.bare c.shift) = decorators'.map (Expr.bare {}))

include hd

theorem functionStmt_follows (isAsync : Bool) :
    Follows (InStep c s) (g.functionStmt a decorators isAsync)
      (g.functionStmt b decorators' isAsync) (Ends true Stmt.bare c s) := by
  refine Follows.expect ⟨rfl, rfl⟩ (ident_mirrors.next fun name name' hn => .expect_to ⟨rfl, rfl⟩ ?_)
  refine (Recursion.parameters_mirrors hg.rules ")" true).next fun ps ps' hp => ?_
  refine .expect_close ⟨rfl, rfl⟩ ((returns_mirrors hg).next fun returns returns' hr => ?_)
  refine (block_mirrors hg _).next fun body body' hb => .stmt fun st st' hst => ?_
  simp only [Stmt.bare, FunctionDef.bare, bareStmts_eq, hst, hn, hp, hr, hd, hb]

theorem classStmt_follows :
    Follows (InStep c s) (g.classStmt a decorators) (g.classStmt b decorators')
      (Ends true Stmt.bare c s) := by
  have arguments : Mirrors (listing Recursion.Argument.bare) c s g.classArguments :=
    .accept_bool ⟨rfl, rfl⟩ (Recursion.arguments_follows hg.rules) (.done rfl)
  refine Follows.expect ⟨rfl, rfl⟩ (ident_mirrors.next fun name name' hn => ?_)
  refine arguments.next fun as as' ha => ?_
  refine (block_mirrors hg _).next fun body body' hb => .stmt fun st st' hst => ?_
  simp only [Stmt.bare, ClassDef.bare, bareStmts_eq, Recursion.positionals_bare,
    Recursion.keywordsOf_bare, hst, hn, ha, hd, hb]

end

omit hg in
/-- At the end of the text there are no decorators. -/
theorem decorators_eof {α : Type} {f : List Expr → Parse α}
    (hf : ∀ ds, Ensures (fun p => p.token.kind = .eof) (f ds) fun _ _ => False) (b : Nat) :
    Ensures (fun p => p.token.kind = .eof) (many g.decorator? b >>= f) fun _ _ => False := by
  cases b with
  | zero => exact Ensures.bind .fail fun ds => hf ds
  | succ b =>
    intro p v q hp heq
    have word : p.token.word ≠ "@" := by
      rw [Token.word_eq_of_isLayout (Token.isLayout_of_eof hp)]
      decide
    have none : g.decorator? p = .ok none p := by
      unfold decorator?
      simp only [Bind.bind, EStateM.bind, Follows.accept_eq_of_word_ne word]
      rfl
    simp only [many, Bind.bind, EStateM.bind, none] at heq
    exact hf [] hp heq

/-- After a decorator a line starts. -/
theorem decorator_follows :
    Follows (InStep c s) g.decorator? g.decorator? fun o o' p q =>
      (o = none ∧ o' = none ∧ InStep c s p q) ∨
      ∃ e e', o = some e ∧ o' = some e' ∧ e.bare c.shift = e'.bare {} ∧ AtBreak c s p q := by
  refine Follows.accept ⟨rfl, rfl⟩ ?_ (.pure fun p q h => .inl ⟨rfl, rfl, h⟩)
  refine (Recursion.namedTest_mirrors hg.rules).next fun e e' he => .lineEnd ?_
  exact .pure fun p q h => .inr ⟨e, e', rfl, rfl, he, h⟩

/-- Decorators and the definition after them. Where the first text is over there is no
definition. -/
theorem decorators_follow {α : Type} {f f' : List Expr → Parse α}
    {post : α → α → Parser → Parser → Prop}
    (hf : ∀ ds ds', ds.map (Expr.bare c.shift) = ds'.map (Expr.bare {}) →
      Follows (InStep c s) (f ds) (f' ds') post)
    (heof : ∀ ds, Ensures (fun p => p.token.kind = .eof) (f ds) fun _ _ => False) (b : Nat) :
    Follows (InStep c s) (many g.decorator? b >>= f) (many g.decorator? b >>= f') post := by
  induction b generalizing f f' with
  | zero =>
    intro p q v p' _ heq
    cases heq
  | succ b ih =>
    rw [many]
    simp only [bind_assoc]
    refine (decorator_follows hg).bind fun o o' => .assume fun p q hpq => ?_
    rcases hpq with ⟨rfl, rfl, hp⟩ | ⟨e, e', rfl, rfl, he, hp⟩
    · simp only [pure_bind]
      exact (hf [] [] rfl).start hp
    · simp only [bind_assoc, pure_bind]
      rintro p₁ q₁ v p' ⟨rfl, rfl⟩ heq
      by_cases hk : p₁.token.kind = .eof
      · exact (decorators_eof (fun ds => heof (e :: ds)) b hk heq).elim
      · have rest : Follows (InStep c s) (many g.decorator? b >>= fun ds => f (e :: ds))
            (many g.decorator? b >>= fun ds => f' (e' :: ds)) post :=
          ih (fun ds ds' hds => hf _ _ (by rw [List.map_cons, List.map_cons, he, hds]))
            fun ds => heof (e :: ds)
        exact rest (hp.inStep (.inl hk)) heq

theorem decoratedStmt_mirrors : MirrorsLine Stmt.bare c s g.decoratedStmt := by
  refine Follows.here fun a b => decorators_follow hg ?_ ?_ _
  · intro ds ds' hds
    refine .on fun t => .word ?_
    generalize ht : t.word = w
    split
    · exact .off (functionStmt_follows hg hds false)
    · exact .off (classStmt_follows hg hds)
    · exact .advance_same ht ⟨rfl, rfl⟩ (functionStmt_follows hg hds true)
    · exact .fail
  · intro ds p v p' hp heq
    have word : Grammar.word p = .ok "" p :=
      congrArg (EStateM.Result.ok · p) (Token.word_eq_of_isLayout (Token.isLayout_of_eof hp))
    simp only [Bind.bind, EStateM.bind, word] at heq
    cases heq

theorem asyncStmt_mirrors : MirrorsLine Stmt.bare c s g.asyncStmt := by
  refine Follows.here fun a b => .expect ⟨rfl, rfl⟩ (.on fun t => .word ?_)
  generalize ht : t.word = w
  split
  · exact .off (functionStmt_follows hg rfl true)
  · exact .off (forStmt_follows hg true)
  · exact .off (withStmt_follows hg true)
  · exact .fail

omit hg in
/-- A statement alone. -/
theorem single_follows {x y : Parse Stmt} {pre : Parser → Parser → Prop}
    (h : Follows pre x y (Ends true Stmt.bare c s)) :
    Follows pre (do return [← x]) (do return [← y]) (Ends true (listing Stmt.bare) c s) :=
  h.next fun v w hv => .done (by simp only [listing, List.map_cons, List.map_nil, hv])

theorem stmtOfWord_mirrors : MirrorsLine (listing Stmt.bare) c s g.stmtOfWord := by
  refine Follows.here fun a b => .on fun t => .word ?_
  generalize ht : t.word = w
  split
  · exact single_follows (ifStmt_follows hg ht ⟨rfl, rfl⟩)
  · exact .off (single_follows (whileStmt_mirrors hg))
  · exact .off (single_follows (forStmt_follows hg false))
  · exact .off (single_follows (withStmt_follows hg false))
  · exact .off (single_follows (tryStmt_mirrors hg))
  · exact .off (single_follows (functionStmt_follows hg rfl false))
  · exact .off (single_follows (classStmt_follows hg rfl))
  · exact .off (single_follows (decoratedStmt_mirrors hg))
  · exact .off (single_follows (asyncStmt_mirrors hg))
  · exact .off (Recursion.simpleStmts_mirrors hg.rules)

theorem statement_mirrors : MirrorsLine (listing Stmt.bare) c s g.statement := by
  refine Follows.on fun t => .kind ?_
  cases hk : t.kind with
  | indent => exact .fail
  | newline => exact (Follows.newline hk).bind fun _ _ => .done rfl
  | symbol | string | number | ident | dedent | eof => exact .off (stmtOfWord_mirrors hg)

end

end Nesting

/-- **Every rule for statements follows itself.** -/
theorem statements_followed (bound : Nat) : Nesting.Followed (rules bound) := by
  induction bound with
  | zero => exact ⟨expression_followed 0, fun c s => .fail, fun c s t _ => .fail⟩
  | succ bound ih =>
    exact ⟨expression_followed (bound + 1), fun c s => Nesting.statement_mirrors ih,
      fun c s t ht => Nesting.single_follows (Nesting.ifStmt_follows ih ht ⟨rfl, rfl⟩)⟩

end SdkUsage.Grammar
