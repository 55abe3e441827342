/-
The line table of a source. A text is cut at its line feeds into pieces, and the table marks one
line for each of them: the piece, without a carriage return that a line feed comes after.
-/
import SdkUsage.Proofs.Token.Cover

namespace SdkUsage

variable {source : Source} {piece : List Char}

namespace Text

/-- A piece of a text without a carriage return at its end. -/
def chomp (piece : List Char) : List Char :=
  if piece.getLast? = some '\r' then piece.dropLast else piece

/-- What is left out is one byte, or nothing. -/
theorem chomp_append (piece : List Char) : ∃ back, piece = chomp piece ++ back ∧
    byteLength back = if piece.getLast? = some '\r' then 1 else 0 := by
  unfold chomp
  split
  · next h => exact ⟨['\r'], (List.dropLast_append_getLast? '\r' h).symm, rfl⟩
  · exact ⟨[], (List.append_nil _).symm, rfl⟩

theorem chomp_of_notMem (h : '\r' ∉ piece) : chomp piece = piece :=
  if_neg fun hl => h (List.mem_of_getLast? hl)

theorem length_splitOn (text : List Char) :
    (text.splitOn '\n').length = text.count '\n' + 1 := by
  induction text with
  | nil => rfl
  | cons c cs ih =>
    rw [List.splitOn_cons_eq_if_modifyHead, List.count_cons]
    split <;> simp [ih]

/-- Two offsets mark a part of a text. -/
def Marks (text : List Char) (entry : Nat × Nat) (line : List Char) : Prop :=
  ∃ front back, text = front ++ line ++ back ∧
    entry = (byteLength front, byteLength front + byteLength line)

namespace Marks

variable {text line : List Char} {entry : Nat × Nat}

theorem slice (h : Marks text entry line) : Text.slice text entry.1 entry.2 = line := by
  obtain ⟨front, back, rfl, rfl⟩ := h
  exact slice_append front line back

theorem boundary (h : Marks text entry line) :
    entry.1 ≤ entry.2 ∧ Boundary text entry.1 ∧ Boundary text entry.2 := by
  obtain ⟨front, back, rfl, rfl⟩ := h
  refine ⟨Nat.le_add_right _ _, ⟨front, ?_, rfl⟩, front ++ line, ?_, byteLength_append ..⟩
  · rw [List.append_assoc]
    exact List.prefix_append ..
  · exact List.prefix_append ..

end Marks

theorem Boundary.le {offset : Nat} (h : Boundary source.chars offset) : offset ≤ source.length := by
  obtain ⟨front, ⟨more, hmore⟩, rfl⟩ := h
  rw [Source.length, ← hmore, byteLength_append]
  exact Nat.le_add_right _ _

end Text

namespace Source

open Text

theorem length_lineEntries (start pos : Nat) (afterReturn : Bool) (text : List Char) :
    (lineEntries start pos afterReturn text).length = text.count '\n' + 1 := by
  induction text generalizing start pos afterReturn with
  | nil =>
    unfold lineEntries
    split <;> rfl
  | cons c cs ih =>
    by_cases hc : c = '\n'
    · simp [lineEntries, hc, ih]
    · simp [lineEntries, hc, ih]

/-- **There is one line more than there are line feeds.** -/
theorem length_lineTable (source : Source) :
    source.lineTable.length = source.chars.count '\n' + 1 :=
  length_lineEntries ..

/-- The last line may be empty; then it is marked at the line feed before it, if there is one. -/
theorem last_marks {front : List Char} (hf : front = [] ∨ front.getLast? = some '\n')
    (last : List Char) :
    ∃ entry, (lineEntries (byteLength front) (byteLength front + byteLength last)
        (last.getLast? = some '\r') [])[0]? = some entry ∧ Marks (front ++ last) entry last := by
  rw [lineEntries]
  by_cases hl : last = []
  · refine ⟨(byteLength front - 1, byteLength front - 1), by simp [hl], ?_⟩
    rw [hl, List.append_nil]
    rcases hf with rfl | hf
    · exact ⟨[], [], rfl, rfl⟩
    · have whole := List.dropLast_append_getLast? '\n' hf
      have size : byteLength front = byteLength front.dropLast + 1 := by
        nth_rewrite 1 [← whole]
        exact byteLength_append ..
      exact ⟨front.dropLast, ['\n'], by simp [whole], by simp [size]⟩
  · refine ⟨_, by simp [byteLength_pos hl], front, [], by rw [List.append_nil], rfl⟩

/-- Entries mark the pieces, all but the last without a carriage return at their end. The part
`line` of the first piece is already read. -/
theorem lineEntries_marks {front line rest : List Char}
    (hf : front = [] ∨ front.getLast? = some '\n') (hl : '\n' ∉ line) {i : Nat}
    {piece : List Char} (h : ((line ++ rest).splitOn '\n')[i]? = some piece) :
    ∃ entry, (lineEntries (byteLength front) (byteLength front + byteLength line)
        (line.getLast? = some '\r') rest)[i]? = some entry ∧
      Marks (front ++ (line ++ rest)) entry
        (if i < rest.count '\n' then chomp piece else piece) := by
  induction rest generalizing front line i with
  | nil =>
    rw [List.append_nil, List.splitOn_eq_singleton hl] at h
    cases i with
    | zero =>
      cases h
      simpa using last_marks hf piece
    | succ i => cases h
  | cons c cs ih =>
    rw [lineEntries]
    by_cases hc : c = '\n'
    · subst hc
      rw [List.splitOn_append_cons_self, List.splitOn_eq_singleton hl, List.singleton_append] at h
      rw [if_pos rfl]
      cases i with
      | zero =>
        cases h
        obtain ⟨back, hback, size⟩ := chomp_append piece
        have whole := congrArg byteLength hback
        rw [byteLength_append, size] at whole
        rw [List.count_cons_self, if_pos (Nat.succ_pos _)]
        refine ⟨_, rfl, front, back ++ '\n' :: cs, ?_, Prod.ext rfl ?_⟩
        · nth_rewrite 1 [hback]
          simp only [List.append_assoc]
        · simp only [decide_eq_true_eq]
          split
          · next hr =>
            rw [if_pos hr] at whole
            omega
          · next hr => rw [whole, if_neg hr, Nat.add_zero]
      | succ i =>
        obtain ⟨entry, found, marks⟩ :=
          @ih (front ++ line ++ ['\n']) [] (.inr (by simp)) nofun i h
        rw [byteLength_append, byteLength_append] at found
        exact ⟨entry, found, by simpa using marks⟩
    · have whole : (line ++ [c]) ++ cs = line ++ c :: cs := by simp
      obtain ⟨entry, found, marks⟩ :=
        @ih front (line ++ [c]) hf (by simp [hl, Ne.symm hc]) i (whole ▸ h)
      rw [whole] at marks
      exact ⟨entry, by simpa [hc, Nat.add_assoc] using found, by simpa [hc] using marks⟩

/-- Entries are in order. -/
theorem lineEntries_ordered {start pos : Nat} (h : start ≤ pos) (afterReturn : Bool)
    (text : List Char) :
    (lineEntries start pos afterReturn text).Pairwise (·.2 ≤ ·.1) ∧
      ∀ entry ∈ lineEntries start pos afterReturn text, start - 1 ≤ entry.1 := by
  induction text generalizing start pos afterReturn with
  | nil =>
    unfold lineEntries
    refine ⟨by split <;> exact List.pairwise_singleton _ _, fun entry he => ?_⟩
    split at he <;> cases List.mem_singleton.1 he <;> dsimp only <;> omega
  | cons c cs ih =>
    rw [lineEntries]
    split
    · obtain ⟨ordered, later⟩ := ih (Nat.le_refl (pos + 1)) false
      refine ⟨List.pairwise_cons.2 ⟨fun entry he => ?_, ordered⟩, fun entry he => ?_⟩
      · have := later entry he
        dsimp only
        split <;> omega
      · rcases List.mem_cons.1 he with rfl | he
        · exact Nat.sub_le _ _
        · have := later entry he
          omega
    · exact ih (Nat.le_add_right_of_le h) _

/-- Every piece has an entry, which marks its line. -/
theorem lineTable_marks {i : Nat} (h : (source.chars.splitOn '\n')[i]? = some piece) :
    ∃ entry, source.lineTable[i]? = some entry ∧
      Marks source.chars entry (if i < source.chars.count '\n' then chomp piece else piece) := by
  exact @lineEntries_marks [] [] source.chars (.inl rfl) nofun i piece h

theorem line_of_splitOn {i : Nat} (h : (source.chars.splitOn '\n')[i]? = some piece) :
    source.line i =
      String.ofList (if i < source.chars.count '\n' then chomp piece else piece) := by
  obtain ⟨entry, found, marks⟩ := lineTable_marks h
  rw [line, found]
  exact congrArg String.ofList marks.slice

/-- **The line table is the split of the text.** Where a text is cut at its line feeds, each piece
is a line, without a carriage return that a line feed comes after; there are no more lines. The
entries are in order, and each is a part of the text. -/
theorem lines_split_text (source : Source) :
    (source.chars.splitOn '\n').length = source.chars.count '\n' + 1 ∧
    (∀ i piece, (source.chars.splitOn '\n')[i]? = some piece → source.line i =
      String.ofList (if i < source.chars.count '\n' then chomp piece else piece)) ∧
    (∀ i, source.chars.count '\n' < i → source.line i = "") ∧
    source.lineTable.Pairwise (·.2 ≤ ·.1) ∧
    ∀ entry ∈ source.lineTable, entry.1 ≤ entry.2 ∧ entry.2 ≤ source.length ∧
      Text.Boundary source.chars entry.1 ∧ Text.Boundary source.chars entry.2 := by
  refine ⟨length_splitOn _, fun _ _ => line_of_splitOn, fun i hi => ?_, ?_, fun entry he => ?_⟩
  · have none : source.lineTable[i]? = none :=
      List.getElem?_eq_none (by rw [length_lineTable]; omega)
    rw [line, none]
  · exact (lineEntries_ordered (Nat.le_refl 0) false _).1
  · obtain ⟨i, hi⟩ := List.mem_iff_getElem?.1 he
    have short : i < (source.chars.splitOn '\n').length := by
      rw [length_splitOn, ← length_lineTable]
      exact (List.getElem?_eq_some_iff.1 hi).1
    obtain ⟨_, found, marks⟩ := lineTable_marks (List.getElem?_eq_getElem short)
    cases hi.symm.trans found
    obtain ⟨ordered, starts, stops⟩ := marks.boundary
    exact ⟨ordered, stops.le, starts, stops⟩

/-- **A line is the text between two line feeds.** -/
theorem line_eq {front line tail : List Char} (h : source.chars = front ++ line ++ tail)
    (hf : front = [] ∨ front.getLast? = some '\n') (hl : '\n' ∉ line) (hr : '\r' ∉ line)
    (ht : ∀ c ∈ tail.head?, c = '\n') : source.line (front.count '\n') = String.ofList line := by
  have piece : (source.chars.splitOn '\n')[front.count '\n']? = some line := by
    have first : ((line ++ tail).splitOn '\n')[0]? = some line := by
      rcases tail with _ | ⟨c, tail⟩
      · rw [List.append_nil, List.splitOn_eq_singleton hl]
        rfl
      · cases ht c rfl
        rw [List.splitOn_append_cons_self, List.splitOn_eq_singleton hl]
        rfl
    rw [h, List.append_assoc]
    rcases hf with rfl | hf
    · exact first
    · rw [← List.dropLast_append_getLast? '\n' hf, List.append_assoc, List.singleton_append,
        List.splitOn_append_cons_self]
      have before : (front.dropLast.splitOn '\n').length = (front.dropLast ++ ['\n']).count '\n' := by
        rw [length_splitOn, List.count_append, List.count_singleton_self]
      rw [List.getElem?_append_right (Nat.le_of_eq before), before, Nat.sub_self]
      exact first
  rw [line_of_splitOn piece, chomp_of_notMem hr, ite_self]

end Source

end SdkUsage
