/-!
# Words of a text

A text is cut into words at its breaks; between two breaks that follow one another there is no word.
-/
namespace Schemata.Text

/-- The character is a blank in any script, or ends a line or a record. -/
def isBlank (c : Char) : Bool :=
  let n := c.toNat
  (9 ≤ n && n ≤ 13) || (28 ≤ n && n ≤ 32) || (8192 ≤ n && n ≤ 8202) ||
    [133, 160, 5760, 8232, 8233, 8239, 8287, 12288].contains n

/-- Puts a character in front of the first of some pieces, or a break in front of all of them. -/
def putFront (isBreak : Char → Bool) (c : Char) : List (List Char) → List (List Char)
  | [] => if isBreak c then [] else [[c]]
  | piece :: rest => if isBreak c then [] :: piece :: rest else (c :: piece) :: rest

def wordsOf (isBreak : Char → Bool) (text : String) : List String :=
  ((text.toList.foldr (putFront isBreak) []).filter (· ≠ [])).map String.ofList

theorem isBreak_of_mem_putFront {isBreak : Char → Bool} {c d : Char} {pieces : List (List Char)}
    (h : ∀ piece ∈ pieces, ∀ e ∈ piece, isBreak e = false) {piece : List Char}
    (hp : piece ∈ putFront isBreak c pieces) (hd : d ∈ piece) : isBreak d = false := by
  cases pieces with
  | nil => grind [putFront]
  | cons first rest => grind [putFront]

/-- No word has a break in it. -/
theorem isBreak_of_mem_wordsOf {isBreak : Char → Bool} {text word : String}
    (hw : word ∈ wordsOf isBreak text) {d : Char} (hd : d ∈ word.toList) : isBreak d = false := by
  have pieces (cs : List Char) :
      ∀ piece ∈ cs.foldr (putFront isBreak) [], ∀ e ∈ piece, isBreak e = false := by
    induction cs with
    | nil => simp
    | cons c cs ih => exact fun piece hp e he => isBreak_of_mem_putFront ih hp he
  obtain ⟨piece, hp, rfl⟩ := List.mem_map.1 hw
  exact pieces text.toList piece (List.mem_filter.1 hp).1 d (by simpa using hd)

end Schemata.Text
