import Mathlib.Data.List.Lex
import Mathlib.Data.List.Infix
import Mathlib.Order.Lattice

/-!
# Prefix-free codes

A code is **prefix-free** when no code word begins another one. Words can then be put one after
the other: a concatenation begins another one exactly when their first words are the same and
the rest of the one begins the rest of the other.
-/

namespace PrefixCode

open List

variable {α β : Type} {s r : List β} {a b : α} {code : α → List β}

/-- No code word begins another one. -/
def Free (code : α → List β) : Prop := ∀ a b, code a <+: code b → a = b

theorem Free.append_isPrefix_iff (h : Free code) :
    code a ++ r <+: code b ++ s ↔ a = b ∧ r <+: s := by
  constructor
  · intro hr
    have ha : code a <+: code b ++ s := (prefix_append _ _).trans hr
    have hab : a = b := by
      rcases prefix_or_prefix_of_prefix ha (prefix_append (code b) s) with hp | hp
      · exact h a b hp
      · exact (h b a hp).symm
    subst hab
    exact ⟨rfl, (prefix_append_right_inj _).mp hr⟩
  · rintro ⟨rfl, hr⟩
    exact (prefix_append_right_inj _).mpr hr

/-- A word is the first one of a concatenation. -/
theorem Free.isPrefix_append_iff (h : Free code) : code a <+: code b ++ s ↔ a = b := by
  have hiff := h.append_isPrefix_iff (a := a) (b := b) (r := []) (s := s)
  rw [append_nil] at hiff
  exact hiff.trans (and_iff_left nil_prefix)

/-- A common beginning does not matter to the order. -/
theorem append_lt_append_iff [LinearOrder β] (l : List β) : l ++ r < l ++ s ↔ r < s :=
  StrictMono.lt_iff_lt fun _ _ => append_left_lt

end PrefixCode
