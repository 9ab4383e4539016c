/-!
# Splitting outside quotes

A text is cut at every separator that stands outside double quotes. Each quote switches between
outside and inside, so a separator counts when an even number of quotes stands before it. There is
always at least one piece, and an unclosed quote hides every later separator.
-/
namespace CoverageQuery.Text

def splitQuoted (separator : Char) : Bool → List Char → List Char × List (List Char)
  | _, [] => ([], [])
  | quoted, c :: cs =>
    if c = '"' then
      let (first, others) := splitQuoted separator (!quoted) cs
      (c :: first, others)
    else if c = separator ∧ ¬ quoted then
      let (first, others) := splitQuoted separator quoted cs
      ([], first :: others)
    else
      let (first, others) := splitQuoted separator quoted cs
      (c :: first, others)

def splitOutsideQuotes (separator : Char) (cs : List Char) : List (List Char) :=
  let (first, others) := splitQuoted separator false cs
  first :: others

theorem splitOutsideQuotes_ne_nil (separator : Char) (cs : List Char) :
    splitOutsideQuotes separator cs ≠ [] := by
  simp [splitOutsideQuotes]

end CoverageQuery.Text
