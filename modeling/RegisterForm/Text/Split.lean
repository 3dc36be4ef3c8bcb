/-!
# Splitting text

A text cut at every occurrence of one character.
-/
namespace RegisterForm.Text

/-- The part of a text before the first `sep`, and the parts after each `sep`. -/
def split (sep : Char) : List Char → List Char × List (List Char)
  | [] => ([], [])
  | c :: cs =>
    let (head, parts) := split sep cs
    if c = sep then ([], head :: parts) else (c :: head, parts)

/-- The part of a text after the last `sep`. -/
def lastPart (sep : Char) (cs : List Char) : List Char :=
  let (head, parts) := split sep cs
  parts.getLast?.getD head

/-- The parts, each set off from the first by the separator, are the text again. -/
theorem split_join (sep : Char) (cs : List Char) :
    (split sep cs).1 ++ (split sep cs).2.flatMap (sep :: ·) = cs := by
  induction cs with
  | nil => rfl
  | cons c cs ih =>
    simp only [split]
    split
    · next h => subst h; simp [ih]
    · simp [ih]

end RegisterForm.Text
