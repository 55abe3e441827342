/-
Finite maps as lists of entries in the order of their keys.

The order is part of the type, so a map has one representation: `ext` says
that maps with the same entries are equal, and listing a map gives its keys in
order. `get?_insert_self`, `get?_insert_other` and the like are all that other
modules need to know.
-/
import SdkUsage.Data.Key

namespace SdkUsage

namespace Entries

variable {κ α : Type} [Key κ]

/-- The value of a key among entries in order. -/
def get? (key : κ) : List (κ × α) → Option α
  | [] => none
  | e :: es =>
    if Key.lt key e.1 then none
    else if Key.lt e.1 key then get? key es
    else some e.2

/-- Gives a key a value. -/
def insert (key : κ) (value : α) : List (κ × α) → List (κ × α)
  | [] => [(key, value)]
  | e :: es =>
    if Key.lt key e.1 then (key, value) :: e :: es
    else if Key.lt e.1 key then e :: insert key value es
    else (key, value) :: es

/-- Removes a key. -/
def erase (key : κ) : List (κ × α) → List (κ × α)
  | [] => []
  | e :: es =>
    if Key.lt key e.1 then e :: es
    else if Key.lt e.1 key then e :: erase key es
    else es

/-- Entries stand in the order of their keys. -/
def Sorted (es : List (κ × α)) : Prop := es.Pairwise fun a b => Key.lt a.1 b.1 = true

theorem mem_insert {key : κ} {value : α} {es : List (κ × α)} {e : κ × α}
    (h : e ∈ insert key value es) : e = (key, value) ∨ e ∈ es := by
  induction es with
  | nil => simp_all [insert]
  | cons d ds ih =>
    rw [insert] at h
    split at h
    · simpa using h
    · split at h
      · rcases List.mem_cons.1 h with rfl | h
        · simp
        · rcases ih h with h | h <;> simp [h]
      · rcases List.mem_cons.1 h with h | h <;> simp [h]

theorem mem_erase {key : κ} {es : List (κ × α)} {e : κ × α} (h : e ∈ erase key es) : e ∈ es := by
  induction es with
  | nil => simp [erase] at h
  | cons d ds ih =>
    rw [erase] at h
    split at h
    · exact h
    · split at h
      · rcases List.mem_cons.1 h with rfl | h
        · simp
        · simp [ih h]
      · simp [h]

theorem Sorted.insert {key : κ} {value : α} {es : List (κ × α)} (h : Sorted es) :
    Sorted (insert key value es) := by
  induction es with
  | nil => simp [Entries.insert, Sorted]
  | cons d ds ih =>
    obtain ⟨hd, hs⟩ := List.pairwise_cons.1 h
    rw [Entries.insert]
    split
    · rename_i hk
      refine List.pairwise_cons.2 ⟨fun e he => ?_, h⟩
      rcases List.mem_cons.1 he with rfl | he
      · exact hk
      · exact Key.trans hk (hd e he)
    · split
      · rename_i hk
        refine List.pairwise_cons.2 ⟨fun e he => ?_, ih hs⟩
        rcases mem_insert he with rfl | he
        · exact hk
        · exact hd e he
      · rename_i h₁ h₂
        have e := Key.eq_of_not_lt (Bool.eq_false_iff.2 h₁) (Bool.eq_false_iff.2 h₂)
        subst e
        exact List.pairwise_cons.2 ⟨hd, hs⟩

theorem Sorted.erase {key : κ} {es : List (κ × α)} (h : Sorted es) : Sorted (erase key es) := by
  induction es with
  | nil => simp [Entries.erase, Sorted]
  | cons d ds ih =>
    obtain ⟨hd, hs⟩ := List.pairwise_cons.1 h
    rw [Entries.erase]
    split
    · exact h
    · split
      · exact List.pairwise_cons.2 ⟨fun e he => hd e (mem_erase he), ih hs⟩
      · exact hs

theorem get?_eq_none_of_lt {key : κ} {es : List (κ × α)}
    (h : ∀ e ∈ es, Key.lt key e.1 = true) : get? key es = none := by
  cases es with
  | nil => rfl
  | cons e es => simp [get?, h e (by simp)]

theorem get?_insert_self (key : κ) (value : α) (es : List (κ × α)) :
    get? key (insert key value es) = some value := by
  induction es with
  | nil => simp [insert, get?, Key.irrefl]
  | cons e es ih =>
    rw [insert]
    split
    · simp [get?, Key.irrefl]
    · split
      · rename_i h₁ h₂
        simp [get?, h₂, ih, Key.lt_asymm h₂]
      · simp [get?, Key.irrefl]

theorem get?_insert_other {key other : κ} (value : α) (es : List (κ × α)) (hne : other ≠ key) :
    get? other (insert key value es) = get? other es := by
  have head : ∀ rest : List (κ × α), (∀ e ∈ rest.head?, Key.lt key e.1 = true) →
      get? other ((key, value) :: rest) = get? other rest := by
    intro rest hrest
    rw [get?]
    split
    · rename_i h
      cases rest with
      | nil => rfl
      | cons e es => simp [get?, Key.trans h (hrest e (by simp))]
    · split
      · rfl
      · rename_i h₁ h₂
        exact absurd (Key.eq_of_not_lt (Bool.eq_false_iff.2 h₁) (Bool.eq_false_iff.2 h₂)) hne
  induction es with
  | nil => exact head [] (by simp)
  | cons e es ih =>
    rw [insert]
    split
    · rename_i h
      exact head _ (by simpa using h)
    · split
      · simp only [get?, ih]
      · rename_i h₁ h₂
        have hk := Key.eq_of_not_lt (Bool.eq_false_iff.2 h₁) (Bool.eq_false_iff.2 h₂)
        simp only [get?, ← hk]
        split
        · rfl
        · split
          · rfl
          · rename_i h₃ h₄
            exact absurd (Key.eq_of_not_lt (Bool.eq_false_iff.2 h₃) (Bool.eq_false_iff.2 h₄)) hne

theorem get?_erase_self (key : κ) {es : List (κ × α)} (h : Sorted es) :
    get? key (erase key es) = none := by
  induction es with
  | nil => rfl
  | cons e es ih =>
    obtain ⟨he, hs⟩ := List.pairwise_cons.1 h
    rw [erase]
    split
    · rename_i hk
      simp [get?, hk]
    · split
      · rename_i h₁ h₂
        simp [get?, h₁, h₂, ih hs]
      · rename_i h₁ h₂
        have hk := Key.eq_of_not_lt (Bool.eq_false_iff.2 h₁) (Bool.eq_false_iff.2 h₂)
        exact get?_eq_none_of_lt (hk ▸ he)

theorem get?_erase_other {key other : κ} {es : List (κ × α)} (h : Sorted es) (hne : other ≠ key) :
    get? other (erase key es) = get? other es := by
  induction es with
  | nil => rfl
  | cons e es ih =>
    obtain ⟨he, hs⟩ := List.pairwise_cons.1 h
    rw [erase]
    split
    · rfl
    · split
      · simp only [get?, ih hs]
      · rename_i h₁ h₂
        have hk := Key.eq_of_not_lt (Bool.eq_false_iff.2 h₁) (Bool.eq_false_iff.2 h₂)
        rw [get?]
        split
        · rename_i h₃
          exact get?_eq_none_of_lt fun d hd => Key.trans h₃ (he d hd)
        · split
          · rfl
          · rename_i h₃ h₄
            exact absurd ((Key.eq_of_not_lt (Bool.eq_false_iff.2 h₃)
              (Bool.eq_false_iff.2 h₄)).trans hk.symm) hne

theorem get?_of_mem {es : List (κ × α)} (h : Sorted es) {e : κ × α} (he : e ∈ es) :
    get? e.1 es = some e.2 := by
  induction es with
  | nil => simp at he
  | cons d ds ih =>
    obtain ⟨hd, hs⟩ := List.pairwise_cons.1 h
    rcases List.mem_cons.1 he with rfl | he
    · simp [get?, Key.irrefl]
    · have := hd e he
      simp [get?, this, Key.lt_asymm this, ih hs he]

theorem mem_of_get? {es : List (κ × α)} {key : κ} {value : α} (h : get? key es = some value) :
    (key, value) ∈ es := by
  induction es with
  | nil => simp [get?] at h
  | cons e es ih =>
    rw [get?] at h
    split at h
    · simp at h
    · split at h
      · exact List.mem_cons_of_mem _ (ih h)
      · rename_i h₁ h₂
        have hk := Key.eq_of_not_lt (Bool.eq_false_iff.2 h₁) (Bool.eq_false_iff.2 h₂)
        injection h with h
        simp [hk, ← h]

theorem eq_of_get?_eq {as bs : List (κ × α)} (ha : Sorted as) (hb : Sorted bs)
    (h : ∀ key, get? key as = get? key bs) : as = bs := by
  induction as generalizing bs with
  | nil =>
    cases bs with
    | nil => rfl
    | cons b bs =>
      have := h b.1
      simp [get?, Key.irrefl] at this
  | cons a as ih =>
    obtain ⟨haLt, haS⟩ := List.pairwise_cons.1 ha
    cases bs with
    | nil =>
      have := h a.1
      simp [get?, Key.irrefl] at this
    | cons b bs =>
      obtain ⟨hbLt, hbS⟩ := List.pairwise_cons.1 hb
      have hab : Key.lt a.1 b.1 = false := by
        refine Bool.eq_false_iff.2 fun hlt => ?_
        have := h a.1
        simp [get?, Key.irrefl, hlt] at this
      have hba : Key.lt b.1 a.1 = false := by
        refine Bool.eq_false_iff.2 fun hlt => ?_
        have := h b.1
        simp [get?, Key.irrefl, hlt] at this
      have hk := Key.eq_of_not_lt hab hba
      have hv : a.2 = b.2 := by
        have := h a.1
        simpa [get?, Key.irrefl, hab, hba] using this
      have hhead : a = b := Prod.ext hk hv
      subst hhead
      congr 1
      refine ih haS hbS fun key => ?_
      have hkey := h key
      simp only [get?] at hkey
      by_cases h₁ : Key.lt key a.1 = true
      · rw [get?_eq_none_of_lt fun e he => Key.trans h₁ (haLt e he),
          get?_eq_none_of_lt fun e he => Key.trans h₁ (hbLt e he)]
      · by_cases h₂ : Key.lt a.1 key = true
        · simpa [h₁, h₂] using hkey
        · have := Key.eq_of_not_lt (Bool.eq_false_iff.2 h₁) (Bool.eq_false_iff.2 h₂)
          subst this
          rw [get?_eq_none_of_lt haLt, get?_eq_none_of_lt hbLt]

end Entries

/-- A finite map, with its entries in the order of their keys. -/
structure SortedMap (κ α : Type) [Key κ] where
  entries : List (κ × α)
  sorted : Entries.Sorted entries

namespace SortedMap

variable {κ α : Type} [Key κ]

/-- The map without entries. -/
def empty : SortedMap κ α := ⟨[], List.Pairwise.nil⟩

instance : EmptyCollection (SortedMap κ α) := ⟨empty⟩

instance : Inhabited (SortedMap κ α) := ⟨empty⟩

/-- The value of a key. -/
def get? (map : SortedMap κ α) (key : κ) : Option α := Entries.get? key map.entries

/-- Gives a key a value. -/
def insert (map : SortedMap κ α) (key : κ) (value : α) : SortedMap κ α :=
  ⟨Entries.insert key value map.entries, map.sorted.insert⟩

/-- Removes a key. -/
def erase (map : SortedMap κ α) (key : κ) : SortedMap κ α :=
  ⟨Entries.erase key map.entries, map.sorted.erase⟩

/-- Whether a key has a value. -/
def contains (map : SortedMap κ α) (key : κ) : Bool := (map.get? key).isSome

/-- The keys in order. -/
def keys (map : SortedMap κ α) : List κ := map.entries.map (·.1)

/-- The values in the order of their keys. -/
def values (map : SortedMap κ α) : List α := map.entries.map (·.2)

/-- Whether there are no entries. -/
def isEmpty (map : SortedMap κ α) : Bool := map.entries.isEmpty

/-- Replaces each value by one computed from it and its key. -/
def mapValues {β : Type} (f : κ → α → β) (map : SortedMap κ α) : SortedMap κ β :=
  ⟨map.entries.map fun e => (e.1, f e.1 e.2), by
    simpa [Entries.Sorted, List.pairwise_map] using map.sorted⟩

@[simp] theorem get?_empty (key : κ) : (∅ : SortedMap κ α).get? key = none := rfl

@[simp] theorem get?_insert_self (map : SortedMap κ α) (key : κ) (value : α) :
    (map.insert key value).get? key = some value :=
  Entries.get?_insert_self key value map.entries

theorem get?_insert_other (map : SortedMap κ α) {key other : κ} (value : α) (hne : other ≠ key) :
    (map.insert key value).get? other = map.get? other :=
  Entries.get?_insert_other value map.entries hne

@[simp] theorem get?_erase_self (map : SortedMap κ α) (key : κ) :
    (map.erase key).get? key = none :=
  Entries.get?_erase_self key map.sorted

theorem get?_erase_other (map : SortedMap κ α) {key other : κ} (hne : other ≠ key) :
    (map.erase key).get? other = map.get? other :=
  Entries.get?_erase_other map.sorted hne

/-- Giving a key a value changes what that key has, and nothing else. -/
theorem get?_insert [DecidableEq κ] (map : SortedMap κ α) (key other : κ) (value : α) :
    (map.insert key value).get? other = if other = key then some value else map.get? other := by
  by_cases h : other = key
  · rw [if_pos h, h, get?_insert_self]
  · rw [if_neg h, get?_insert_other map value h]

/-- Removing a key changes what that key has, and nothing else. -/
theorem get?_erase [DecidableEq κ] (map : SortedMap κ α) (key other : κ) :
    (map.erase key).get? other = if other = key then none else map.get? other := by
  by_cases h : other = key
  · rw [if_pos h, h, get?_erase_self]
  · rw [if_neg h, get?_erase_other map h]

theorem mem_entries_iff {map : SortedMap κ α} {key : κ} {value : α} :
    (key, value) ∈ map.entries ↔ map.get? key = some value :=
  ⟨Entries.get?_of_mem map.sorted, Entries.mem_of_get?⟩

theorem get?_mapValues {β : Type} (map : SortedMap κ α) (f : κ → α → β) (key : κ) :
    (map.mapValues f).get? key = (map.get? key).map (f key) := by
  cases h : map.get? key with
  | some value =>
    exact mem_entries_iff.1 (List.mem_map.2 ⟨(key, value), mem_entries_iff.2 h, rfl⟩)
  | none =>
    cases h' : (map.mapValues f).get? key with
    | none => rfl
    | some value =>
      obtain ⟨⟨_, value'⟩, hmem, heq⟩ := List.mem_map.1 (mem_entries_iff.2 h')
      cases heq
      cases h.symm.trans (mem_entries_iff.1 hmem)

/-- **Maps with the same entries are equal.** -/
theorem ext {as bs : SortedMap κ α} (h : ∀ key, as.get? key = bs.get? key) : as = bs := by
  obtain ⟨as, ha⟩ := as
  obtain ⟨bs, hb⟩ := bs
  have e : as = bs := Entries.eq_of_get?_eq ha hb h
  subst e
  rfl

end SortedMap

end SdkUsage
