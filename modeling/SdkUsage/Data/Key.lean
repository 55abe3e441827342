/-
Orders of keys. The order is a function to truth values with the laws of a
strict linear order. Numbers, texts and pairs of keys are keys.
-/
namespace SdkUsage

/-- Types whose values are compared by a strict linear order. -/
class Key (κ : Type) where
  lt : κ → κ → Bool
  irrefl : ∀ a, lt a a = false
  trans : ∀ {a b c}, lt a b = true → lt b c = true → lt a c = true
  eq_of_not_lt : ∀ {a b}, lt a b = false → lt b a = false → a = b

instance : Key Nat where
  lt a b := decide (a < b)
  irrefl a := by simp
  trans h₁ h₂ := by simp only [decide_eq_true_eq] at *; omega
  eq_of_not_lt h₁ h₂ := by simp only [decide_eq_false_iff_not] at *; omega

namespace Key

variable {κ : Type} [Key κ]

theorem lt_asymm {a b : κ} (h : lt a b = true) : lt b a = false := by
  by_cases h' : lt b a = true
  · have := irrefl a
    rw [trans h h'] at this
    exact absurd this (by decide)
  · exact Bool.eq_false_iff.2 h'

end Key

/-! ## Pairs -/

/-- Pairs are compared by their first parts, and by their second parts where
those are equal. -/
instance {α β : Type} [Key α] [Key β] : Key (α × β) where
  lt a b := Key.lt a.1 b.1 || (!Key.lt b.1 a.1 && Key.lt a.2 b.2)
  irrefl a := by simp [Key.irrefl]
  trans := by
    rintro ⟨a₁, a₂⟩ ⟨b₁, b₂⟩ ⟨c₁, c₂⟩ h₁ h₂
    simp only [Bool.or_eq_true, Bool.and_eq_true, Bool.not_eq_true'] at *
    rcases h₁ with h₁ | ⟨e₁, h₁⟩ <;> rcases h₂ with h₂ | ⟨e₂, h₂⟩
    · exact .inl (Key.trans h₁ h₂)
    · by_cases h : Key.lt b₁ c₁ = true
      · exact .inl (Key.trans h₁ h)
      · exact .inl (Key.eq_of_not_lt (Bool.eq_false_iff.2 h) e₂ ▸ h₁)
    · by_cases h : Key.lt a₁ b₁ = true
      · exact .inl (Key.trans h h₂)
      · exact .inl (Key.eq_of_not_lt (Bool.eq_false_iff.2 h) e₁ ▸ h₂)
    · by_cases h : Key.lt a₁ b₁ = true
      · by_cases h' : Key.lt b₁ c₁ = true
        · exact .inl (Key.trans h h')
        · exact .inl (Key.eq_of_not_lt (Bool.eq_false_iff.2 h') e₂ ▸ h)
      · have e := Key.eq_of_not_lt (Bool.eq_false_iff.2 h) e₁
        subst e
        by_cases h' : Key.lt a₁ c₁ = true
        · exact .inl h'
        · exact .inr ⟨e₂, Key.trans h₁ h₂⟩
  eq_of_not_lt := by
    rintro ⟨a₁, a₂⟩ ⟨b₁, b₂⟩ h₁ h₂
    simp only [Bool.or_eq_false_iff] at h₁ h₂
    have e := Key.eq_of_not_lt h₁.1 h₂.1
    subst e
    simp only [Key.irrefl, Bool.not_false, Bool.true_and, true_and] at h₁ h₂
    rw [Key.eq_of_not_lt h₁ h₂]

/-! ## Texts -/

/-- Texts are compared by code points, which is the order of their bytes. -/
instance : Key String where
  lt a b := @decide _ (String.decidableLT a b)
  irrefl a := decide_eq_false (String.lt_irrefl a)
  trans h₁ h₂ := decide_eq_true (String.lt_trans (of_decide_eq_true h₁) (of_decide_eq_true h₂))
  eq_of_not_lt h₁ h₂ := String.le_antisymm (of_decide_eq_false h₂) (of_decide_eq_false h₁)

end SdkUsage
