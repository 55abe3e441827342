/-
Texts of whole lines (`WholeLines`). What a scanner finds in one does not change if more text
comes behind it: indentations, blanks and tokens are passed as before, and each leaves some of
the text to read.
-/
import Mathlib.Data.List.Infix
import SdkUsage.Proofs.Token.Cover

namespace SdkUsage

variable {rest text token : List Char} {comment : Bool} {o l k width : Nat} {c : Char}
  {cursor : Cursor} {kind : TokenKind}

/-- A text of whole lines: it ends with a line feed, if it is not empty, and that line feed is not
joined to the next line by a backslash. -/
structure WholeLines (text : List Char) : Prop where
  lineFeed : ∀ c ∈ text.getLast?, c = '\n'
  joined : ¬ ['\\', '\n'] <:+ text
  returned : ¬ ['\\', '\r', '\n'] <:+ text

namespace WholeLines

theorem suffix (h : WholeLines text) (hr : rest <:+ text) : WholeLines rest := by
  refine ⟨fun c hc => ?_, fun hj => h.joined (hj.trans hr), fun hj => h.returned (hj.trans hr)⟩
  obtain ⟨front, rfl⟩ := hr
  refine h.lineFeed c ?_
  rw [Option.mem_def] at hc ⊢
  rw [List.getLast?_append, hc, Option.some_or]

theorem tail {cs : List Char} (h : WholeLines (c :: cs)) : WholeLines cs :=
  h.suffix (List.suffix_cons c cs)

theorem mem_lineFeed (h : WholeLines text) (ht : text ≠ []) : '\n' ∈ text := by
  obtain ⟨c, hc⟩ : ∃ c, text.getLast? = some c := by
    cases hl : text.getLast? with
    | none => exact absurd (List.getLast?_eq_none_iff.1 hl) ht
    | some c => exact ⟨c, rfl⟩
  rw [← h.lineFeed c hc]
  exact List.mem_of_getLast? hc

theorem singleton (h : WholeLines [c]) : c = '\n' := h.lineFeed c rfl

end WholeLines

namespace Cursor

/-! ## Blanks -/

/-- What one character does to an indentation: it ends it, or it is passed. -/
theorem indentation_cons (width : Nat) (comment : Bool) (c : Char) :
    (∀ cs o l k, indentation width comment (c :: cs) o l k = (some width, ⟨c :: cs, o, l, k⟩)) ∨
    ∃ width' comment', (c = '\n' → width' = 0 ∧ comment' = false) ∧ ∀ cs o l k, ∃ o' l' k',
      indentation width comment (c :: cs) o l k = indentation width' comment' cs o' l' k' := by
  by_cases hline : c = '\n'
  · exact .inr ⟨0, false, fun _ => ⟨rfl, rfl⟩, fun cs o l k => ⟨_, _, _, by
      rw [indentation, if_pos hline]⟩⟩
  by_cases hcomment : comment = true
  · exact .inr ⟨0, true, fun h => absurd h hline, fun cs o l k => ⟨_, _, _, by
      rw [indentation, if_neg hline, if_pos hcomment]⟩⟩
  by_cases hspace : c = ' '
  · exact .inr ⟨width + 1, false, fun h => absurd h hline, fun cs o l k => ⟨_, _, _, by
      rw [indentation, if_neg hline, if_neg hcomment, if_pos hspace]⟩⟩
  by_cases htab : c = '\t'
  · exact .inr ⟨_, false, fun h => absurd h hline, fun cs o l k => ⟨_, _, _, by
      rw [indentation, if_neg hline, if_neg hcomment, if_neg hspace, if_pos htab]⟩⟩
  by_cases hfeed : c = '\x0c'
  · exact .inr ⟨0, false, fun h => absurd h hline, fun cs o l k => ⟨_, _, _, by
      rw [indentation, if_neg hline, if_neg hcomment, if_neg hspace, if_neg htab, if_pos hfeed]⟩⟩
  by_cases hhash : c = '#'
  · exact .inr ⟨0, true, fun h => absurd h hline, fun cs o l k => ⟨_, _, _, by
      rw [indentation, if_neg hline, if_neg hcomment, if_neg hspace, if_neg htab, if_neg hfeed,
        if_pos hhash]⟩⟩
  by_cases hreturn : c = '\r'
  · exact .inr ⟨0, false, fun h => absurd h hline, fun cs o l k => ⟨_, _, _, by
      rw [indentation, if_neg hline, if_neg hcomment, if_neg hspace, if_neg htab, if_neg hfeed,
        if_neg hhash, if_pos hreturn]⟩⟩
  · exact .inl fun cs o l k => by
      rw [indentation, if_neg hline, if_neg hcomment, if_neg hspace, if_neg htab, if_neg hfeed,
        if_neg hhash, if_neg hreturn]

/-- The indentation of a line is read the same if more text follows the line. -/
theorem indentation_append {w : Nat} (h : indentation width comment rest o l k = (some w, cursor))
    (more : List Char) (o' l' k' : Nat) :
    ∃ last, indentation width comment (rest ++ more) o' l' k' = (some w, last) ∧
      last.rest = cursor.rest ++ more := by
  induction rest generalizing width comment o l k o' l' k' with
  | nil => cases h
  | cons c cs ih =>
    rw [List.cons_append]
    rcases indentation_cons width comment c with ends | ⟨width', comment', -, passed⟩
    · rw [ends] at h
      cases h
      exact ⟨_, ends _ _ _ _, rfl⟩
    · obtain ⟨_, _, _, same⟩ := passed cs o l k
      obtain ⟨_, _, _, same'⟩ := passed (cs ++ more) o' l' k'
      rw [same']
      exact ih (same.symm.trans h) _ _ _

/-- Blank lines before a text leave its first indentation as it is. -/
theorem indentation_append_none (h : (indentation width comment rest o l k).1 = none)
    (hl : ∀ c ∈ rest.getLast?, c = '\n') (hr : rest = [] → width = 0 ∧ comment = false)
    (more : List Char) (o' l' k' : Nat) :
    ∃ o'' l'' k'', indentation width comment (rest ++ more) o' l' k' =
      indentation 0 false more o'' l'' k'' := by
  induction rest generalizing width comment o l k o' l' k' with
  | nil =>
    obtain ⟨rfl, rfl⟩ := hr rfl
    exact ⟨o', l', k', rfl⟩
  | cons c cs ih =>
    rw [List.cons_append]
    rcases indentation_cons width comment c with ends | ⟨width', comment', line, passed⟩
    · rw [ends] at h
      cases h
    · obtain ⟨_, _, _, same⟩ := passed cs o l k
      obtain ⟨_, _, _, same'⟩ := passed (cs ++ more) o' l' k'
      rw [same] at h
      rw [same']
      refine ih h (fun d hd => hl d ?_) (fun hcs => line (hl c (by rw [hcs]; rfl))) _ _ _
      rw [Option.mem_def] at hd ⊢
      rw [List.getLast?_cons, hd, Option.getD_some]

/-- Blanks are passed the same if more text follows what is behind them. -/
theorem blanks_append {joined : Bool} (h : blanks joined comment rest o l k = (true, cursor))
    {more : List Char} (hm : cursor.rest ≠ [] ∨ more = []) (o' l' k' : Nat) :
    ∃ last, blanks joined comment (rest ++ more) o' l' k' = (true, last) ∧
      last.rest = cursor.rest ++ more := by
  fun_induction blanks joined comment rest o l k generalizing o' l' k' with
  | case1 =>
    cases h
    rcases hm with hm | rfl
    · exact absurd rfl hm
    · exact ⟨⟨[], o', l', k'⟩, by rw [List.append_nil, blanks], rfl⟩
  | case3 | case12 =>
    cases h
    refine ⟨⟨_ ++ more, o', l', k'⟩, ?_, rfl⟩
    rw [List.cons_append, blanks.eq_def]
    simp_all
  | _ =>
    simp only [List.cons_append]
    rw [blanks.eq_def]
    simp_all

/-- Outside brackets blanks do not lead to the end of a text of whole lines. -/
theorem blanks_ne_nil (h : blanks false comment rest o l k = (true, cursor)) (hw : WholeLines rest)
    (hr : rest ≠ []) : cursor.rest ≠ [] := by
  generalize hj : false = joined at h
  fun_induction blanks joined comment rest o l k with
  | case1 => exact absurd rfl hr
  | case2 => simp_all
  | case3 | case12 => cases h; simp
  | case9 comment offset line col cs _ _ _ _ _ _ ih =>
    refine ih hw.tail.tail ?_ h
    rintro rfl
    exact hw.joined (List.suffix_refl _)
  | case10 comment offset line col cs _ _ _ _ _ _ ih =>
    refine ih hw.tail.tail.tail ?_ h
    rintro rfl
    exact hw.returned (List.suffix_refl _)
  | case11 => cases h
  | case4 | case5 | case6 | case7 | case8 =>
    rename_i ih
    refine ih hw.tail ?_ h
    rintro rfl
    have := hw.singleton
    simp_all

/-- Whether a text holds blank lines only does not depend on where it stands. -/
theorem indentation_none (h : (indentation width comment rest o l k).1 = none) (o' l' k' : Nat) :
    (indentation width comment rest o' l' k').1 = none := by
  induction rest generalizing width comment o l k o' l' k' with
  | nil => rfl
  | cons c cs ih =>
    rcases indentation_cons width comment c with ends | ⟨width', comment', -, passed⟩
    · rw [ends] at h
      cases h
    · obtain ⟨_, _, _, same⟩ := passed cs o l k
      obtain ⟨_, _, _, same'⟩ := passed cs o' l' k'
      rw [same']
      exact ih (same ▸ h) _ _ _

/-! ## Strings -/

/-- A string ends with the quote that opens it. -/
theorem bodyAt?_getLast? {quote : Char} {triple escaped : Bool} {body : List Char}
    (h : bodyAt? quote triple escaped text = some body) : body.getLast? = some quote := by
  obtain ⟨inner, rfl⟩ := bodyAt?_closes h
  cases triple <;> simp [List.getLast?_append, List.replicate]

theorem stringAt?_getLast? {cs string : List Char} (h : stringAt? (c :: cs) = some string) :
    string.getLast? = some c := by
  rw [stringAt?] at h
  split at h
  · obtain ⟨body, hbody, rfl⟩ := Option.map_eq_some_iff.1 h
    rw [List.getLast?_append, bodyAt?_getLast? hbody, Option.some_or]
  · obtain ⟨body, hbody, rfl⟩ := Option.map_eq_some_iff.1 h
    rw [List.getLast?_cons, bodyAt?_getLast? hbody, Option.getD_some]

end Cursor

theorem stringAt?_lineFeed {string : List Char} (hq : startsQuote text = true)
    (h : Cursor.stringAt? text = some string) : string.getLast? ≠ some '\n' := by
  cases text with
  | nil => cases h
  | cons c cs =>
    rw [Cursor.stringAt?_getLast? h]
    rcases Cursor.quote_of_startsQuote hq with rfl | rfl
    · decide
    · decide

/-- No token ends with a line feed. -/
theorem tokenAt?_lineFeed (h : tokenAt? text = some (kind, token)) :
    token.getLast? ≠ some '\n' := by
  by_cases hk : kind = .string
  · subst hk
    cases tokenAt?_cases h with
    | string letters _ _ hq hstring =>
      obtain ⟨a, b, cs, rfl, -⟩ := Cursor.stringAt?_cons_cons hstring
      rw [List.getLast?_append_of_ne_nil _ (by simp)]
      exact stringAt?_lineFeed hq hstring
  · intro hlast
    exact notMem_of_tokenAt? (by decide) (by decide) (by decide) h hk (List.mem_of_getLast? hlast)

/-- In whole lines something comes after a token, with a line feed. -/
theorem WholeLines.after_token {after : List Char} (h : WholeLines (token ++ after))
    (ht : tokenAt? (token ++ after) = some (kind, token)) : after ≠ [] := by
  rintro rfl
  rw [List.append_nil] at h ht
  refine tokenAt?_lineFeed ht ?_
  obtain ⟨-, nonempty, -⟩ := tokenAt?_front ht
  rw [List.getLast?_eq_some_getLast nonempty]
  exact congrArg some (h.lineFeed _ (List.getLast?_eq_some_getLast nonempty))

/-- A token is the same with more text behind whole lines. -/
theorem tokenAt?_append {after more : List Char}
    (ht : tokenAt? (token ++ after) = some (kind, token))
    (hm : more = [] ∨ WholeLines (token ++ after)) :
    tokenAt? (token ++ (after ++ more)) = some (kind, token) := by
  rcases hm with rfl | lines
  · rwa [List.append_nil]
  · have line := (lines.suffix ⟨token, rfl⟩).mem_lineFeed (lines.after_token ht)
    exact tokenAt?_replaces ht (.append more line)

end SdkUsage
