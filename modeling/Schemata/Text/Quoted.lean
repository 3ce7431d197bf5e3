/-!
# Names and texts inside SQL

A name stands in brackets and a text between quotes. Inside, the closing delimiter is written twice,
so that no name can end its own brackets.
-/
namespace Schemata.Text

/-- Every occurrence of the delimiter is written twice and all else once. -/
def doubled (delimiter : Char) (text : List Char) : List Char :=
  text.flatMap fun c => if c = delimiter then [c, c] else [c]

/-- A text in which the closing bracket is written twice. -/
def escapedName (name : String) : String := String.ofList (doubled ']' name.toList)

def bracketed (name : String) : String := "[" ++ escapedName name ++ "]"

def literal (text : String) : String := "'" ++ String.ofList (doubled '\x27' text.toList) ++ "'"

def parameterName (name : String) : String := "@" ++ name

@[simp] theorem doubled_nil (d : Char) : doubled d [] = [] := rfl

@[simp] theorem doubled_cons (d c : Char) (rest : List Char) :
    doubled d (c :: rest) = (if c = d then [c, c] else [c]) ++ doubled d rest := rfl

theorem toList_bracketed (name : String) :
    (bracketed name).toList = '[' :: doubled ']' name.toList ++ [']'] := by
  simp [bracketed, escapedName]

theorem toList_literal (text : String) :
    (literal text).toList = '\x27' :: doubled '\x27' text.toList ++ ['\x27'] := by
  simp [literal]

end Schemata.Text
