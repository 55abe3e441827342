/-
Texts as lists of characters, measured and cut in UTF-8 bytes.

Positions in a text are byte offsets. `byteLength` is the measure, `slice`
takes the characters between two offsets, and `cut?` takes an exact number of
bytes from the front, which fails when the cut falls inside a character.
-/
namespace SdkUsage.Text

/-- Number of bytes a text takes in UTF-8. -/
def byteLength : List Char → Nat
  | [] => 0
  | c :: cs => c.utf8Size + byteLength cs

/-- The text from the first character that starts at offset `n` or later. -/
def dropBytes (n : Nat) : List Char → List Char
  | [] => []
  | c :: cs => if n = 0 then c :: cs else dropBytes (n - c.utf8Size) cs

/-- The characters that start before offset `n`. -/
def takeBytes (n : Nat) : List Char → List Char
  | [] => []
  | c :: cs => if n = 0 then [] else c :: takeBytes (n - c.utf8Size) cs

/-- The text between the offsets `start` and `stop`. -/
def slice (text : List Char) (start stop : Nat) : List Char :=
  takeBytes (stop - start) (dropBytes start text)

/-- The first `n` bytes, when they are whole characters. -/
def cut? (n : Nat) : List Char → Option (List Char)
  | [] => some []
  | c :: cs =>
    if n = 0 then some []
    else if n < c.utf8Size then none
    else (cut? (n - c.utf8Size) cs).map (c :: ·)

@[simp] theorem byteLength_nil : byteLength [] = 0 := rfl

@[simp] theorem byteLength_cons (c : Char) (cs : List Char) :
    byteLength (c :: cs) = c.utf8Size + byteLength cs := rfl

@[simp] theorem byteLength_append (as bs : List Char) :
    byteLength (as ++ bs) = byteLength as + byteLength bs := by
  induction as with
  | nil => simp
  | cons a as ih => simp [ih, Nat.add_assoc]

/-- Dropping as many bytes as a front part has leaves the rest. -/
theorem dropBytes_append (as bs : List Char) : dropBytes (byteLength as) (as ++ bs) = bs := by
  induction as with
  | nil => cases bs <;> simp [dropBytes]
  | cons a as ih =>
    have pos := a.utf8Size_pos
    have ne : ¬ a.utf8Size + byteLength as = 0 := by omega
    simp only [List.cons_append, byteLength_cons, dropBytes, if_neg ne]
    rw [Nat.add_sub_cancel_left, ih]

/-- Taking as many bytes as a front part has gives that part. -/
theorem takeBytes_append (as bs : List Char) : takeBytes (byteLength as) (as ++ bs) = as := by
  induction as with
  | nil => cases bs <;> simp [takeBytes]
  | cons a as ih =>
    have pos := a.utf8Size_pos
    have ne : ¬ a.utf8Size + byteLength as = 0 := by omega
    simp only [List.cons_append, byteLength_cons, takeBytes, if_neg ne]
    rw [Nat.add_sub_cancel_left, ih]

/-- The slice at the offsets of a middle part is that part. -/
theorem slice_append (as bs cs : List Char) :
    slice (as ++ bs ++ cs) (byteLength as) (byteLength as + byteLength bs) = bs := by
  rw [slice, List.append_assoc, dropBytes_append, Nat.add_sub_cancel_left, takeBytes_append]

end SdkUsage.Text
