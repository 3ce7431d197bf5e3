import Mathlib.Data.List.TakeWhile
import Schemata.Proofs.Text.Quoted

/-!
# Words

What is not quoted is read by its longest word. A declaration that begins with a name of its own,
which cannot be quoted, is read as it was written if the name is a word.
-/
namespace Schemata
open Text

/-- The letters and digits that words are made of. Which there are beyond ASCII is left open. -/
structure Alphabet where
  contains : Char → Bool
  ascii : ∀ c : Char, c.toNat < 128 → contains c = c.isAlphanum

/-- The text is made of letters and digits that every alphabet has. -/
def IsAscii (text : String) : Prop :=
  text ≠ "" ∧ ∀ c ∈ text.toList, c.toNat < 128 ∧ c.isAlphanum = true

instance (text : String) : Decidable (IsAscii text) :=
  -- The list is short, and all characters are many.
  haveI := List.decidableBAll (fun c : Char => c.toNat < 128 ∧ c.isAlphanum = true) text.toList
  inferInstanceAs (Decidable (_ ∧ _))

namespace Alphabet

def isWordChar (a : Alphabet) (c : Char) : Bool := a.contains c || c ∈ ['_', '@', '#', '$']

structure IsWord (a : Alphabet) (text : String) : Prop where
  ne : text ≠ ""
  chars : ∀ c ∈ text.toList, a.isWordChar c = true

/-- The longest word at the beginning of a text, and what follows it. -/
def readWord (a : Alphabet) (text : String) : Option (String × String) :=
  let word := text.toList.takeWhile a.isWordChar
  if word = [] then none
  else some (String.ofList word, String.ofList (text.toList.dropWhile a.isWordChar))

/-- The name of a type at the beginning of a text, in brackets or as a word, and what follows it. -/
def readType (a : Alphabet) (text : String) : Option (String × String) :=
  if text.toList.head? = some '[' then readName text else a.readWord text

def readDeclaration (a : Alphabet) (text : String) : Option (String × String × String) := do
  let text ← after? "@" text
  let (name, text) ← a.readWord text
  let text ← after? " " text
  let (type, rest) ← a.readType text
  return (name, type, rest)

def Ends (a : Alphabet) (text : String) : Prop := ∀ c ∈ text.toList.head?, a.isWordChar c = false

variable {a : Alphabet} {word type text rest : String}

theorem isWordChar_ascii {c : Char} (h : c.toNat < 128) :
    a.isWordChar c = (c.isAlphanum || c ∈ ['_', '@', '#', '$']) := by
  rw [isWordChar, a.ascii c h]

theorem isWord_of_ascii (h : IsAscii word) : a.IsWord word :=
  ⟨h.1, fun c hc => by rw [isWordChar_ascii (h.2 c hc).1, (h.2 c hc).2, Bool.true_or]⟩

theorem not_isWord_of_blank (h : ' ' ∈ word.toList) : ¬ a.IsWord word := by
  intro isWord
  have hchar := isWord.chars ' ' h
  rw [isWordChar_ascii (by decide)] at hchar
  exact absurd hchar (by decide)

theorem of_readWord (h : a.readWord text = some (word, rest)) :
    text = word ++ rest ∧ a.IsWord word := by
  rw [readWord] at h
  split at h
  case isTrue => cases h
  case isFalse ne =>
    cases h
    refine ⟨?_, by simpa using ne, fun c hc => List.mem_takeWhile_imp (by simpa using hc)⟩
    rw [← String.ofList_append, List.takeWhile_append_dropWhile, String.ofList_toList]

theorem readWord_append (h : a.IsWord word) (ends : a.Ends rest) :
    a.readWord (word ++ rest) = some (word, rest) := by
  have htake : (word ++ rest).toList.takeWhile a.isWordChar = word.toList := by
    rw [String.toList_append, List.takeWhile_append_of_pos h.chars]
    cases hr : rest.toList with
    | nil => simp
    | cons c cs => simp [ends c (by simp [hr])]
  have hdrop : (word ++ rest).toList.dropWhile a.isWordChar = rest.toList := by
    rw [String.toList_append, List.dropWhile_append_of_pos h.chars]
    cases hr : rest.toList with
    | nil => simp
    | cons c cs => simp [ends c (by simp [hr])]
  have hne : word.toList ≠ [] := by simpa using h.ne
  rw [readWord, htake, hdrop, if_neg hne, String.ofList_toList, String.ofList_toList]

theorem readType_bracketed (follows : rest.toList.head? ≠ some ']') :
    a.readType (bracketed type ++ rest) = some (type, rest) := by
  rw [readType, if_pos (by simp [toList_bracketed])]
  exact readName_eq_some_iff.mpr ⟨rfl, follows⟩

theorem IsWord.head?_ne (h : a.IsWord word) (rest : String) :
    (word ++ rest).toList.head? ≠ some '[' := by
  obtain ⟨c, cs, hc⟩ := List.exists_cons_of_ne_nil (show word.toList ≠ [] by simpa using h.ne)
  have hchar := h.chars c (by simp [hc])
  intro hb
  obtain rfl : c = '[' := by simpa [hc] using hb
  rw [isWordChar_ascii (by decide)] at hchar
  exact absurd hchar (by decide)

/-- What is not in brackets is read as it was written if it is a word. -/
theorem readType_append_iff (ends : a.Ends rest) :
    a.readType (type ++ rest) = some (type, rest) ↔ a.IsWord type := by
  constructor
  · intro h
    rw [readType] at h
    split at h
    · have e := (readName_eq_some_iff.mp h).1
      exact absurd ((String.append_left_inj _).mp e) (ne_bracketed type)
    · exact (of_readWord h).2
  · intro h
    rw [readType, if_neg (h.head?_ne rest), readWord_append h ends]

/-- A declaration is read as it was written if what is declared is a word, and its type is read
so. -/
theorem readDeclaration_iff :
    a.readDeclaration ("@" ++ (word ++ (" " ++ text))) = some (word, type, rest) ↔
    a.IsWord word ∧ a.readType text = some (type, rest) := by
  simp only [readDeclaration, after?_append, Option.bind_eq_bind, Option.bind_some]
  constructor
  · intro h
    obtain ⟨⟨name, text'⟩, hname, h⟩ := Option.bind_eq_some_iff.mp h
    obtain ⟨text'', hblank, h⟩ := Option.bind_eq_some_iff.mp h
    obtain ⟨⟨type, rest⟩, htype, h⟩ := Option.bind_eq_some_iff.mp h
    cases h
    obtain ⟨e, isWord⟩ := of_readWord hname
    obtain rfl := (String.append_right_inj _).mp e
    rw [after?_append] at hblank
    cases hblank
    exact ⟨isWord, htype⟩
  · rintro ⟨isWord, htype⟩
    have ends : a.Ends (" " ++ text) := by
      intro c hc
      obtain rfl : ' ' = c := by simpa using hc
      rw [isWordChar_ascii (by decide)]
      decide
    simp [readWord_append isWord ends, htype]

end Alphabet

end Schemata
