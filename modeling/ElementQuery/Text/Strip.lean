/-
Taking characters off the ends of a text. `strip p` removes the longest run of characters in `p`
from both ends; `trim` does so for white space.
-/
import ElementQuery.Text.Blank

namespace ElementQuery.Text

/-- The text without its longest leading run of characters in `p`. -/
def stripStart (p : Char → Bool) (cs : List Char) : List Char := cs.dropWhile p

/-- The text without its longest trailing run of characters in `p`. -/
def stripEnd (p : Char → Bool) (cs : List Char) : List Char := (cs.reverse.dropWhile p).reverse

/-- The text without its longest runs of characters in `p` at both ends. -/
def strip (p : Char → Bool) (cs : List Char) : List Char := stripEnd p (stripStart p cs)

/-- The text without the white space at its ends. -/
def trim (cs : List Char) : List Char := strip isBlank cs

@[simp] theorem strip_nil (p : Char → Bool) : strip p [] = [] := rfl

/-- What is taken off is a leading run, then what remains, then a trailing run. -/
theorem takeWhile_append_stripStart (p : Char → Bool) (cs : List Char) :
    cs.takeWhile p ++ stripStart p cs = cs :=
  List.takeWhile_append_dropWhile

theorem stripEnd_append_takeWhile (p : Char → Bool) (cs : List Char) :
    stripEnd p cs ++ (cs.reverse.takeWhile p).reverse = cs := by
  rw [stripEnd, ← List.reverse_append, List.takeWhile_append_dropWhile, List.reverse_reverse]

/-- Nothing is taken off a text that has no character in `p`. -/
theorem strip_eq_self {p : Char → Bool} {cs : List Char} (h : ∀ c ∈ cs, p c = false) :
    strip p cs = cs := by
  have hdrop : ∀ ds : List Char, (∀ c ∈ ds, p c = false) → ds.dropWhile p = ds := by
    intro ds hds
    cases ds with
    | nil => rfl
    | cons d ds => simp [hds d List.mem_cons_self]
  rw [strip, stripStart, hdrop cs h, stripEnd, hdrop cs.reverse, List.reverse_reverse]
  intro c hc
  exact h c (List.mem_reverse.1 hc)

end ElementQuery.Text
