/-!
# Splitting text at a separator
-/

namespace ClassMachine.Text

/-- The parts between separators, of which there is one more than separators. -/
def splitChars (separator : Char) : List Char → List (List Char)
  | [] => [[]]
  | c :: rest =>
    if c = separator then [] :: splitChars separator rest
    else
      match splitChars separator rest with
      | [] => [[c]]
      | part :: parts => (c :: part) :: parts

theorem length_splitChars (separator : Char) (text : List Char) :
    (splitChars separator text).length = text.count separator + 1 := by
  induction text with
  | nil => rfl
  | cons c rest ih =>
    by_cases h : c = separator
    · simp [splitChars, h, ih]
    · have hc : rest.count separator + 1 = (c :: rest).count separator + 1 := by
        rw [List.count_cons_of_ne h]
      rw [← hc, ← ih, splitChars, if_neg h]
      cases hs : splitChars separator rest with
      | nil => simp [hs] at ih
      | cons part parts => rfl

def split (separator : Char) (text : String) : List String :=
  (splitChars separator text.toList).map String.ofList

end ClassMachine.Text
