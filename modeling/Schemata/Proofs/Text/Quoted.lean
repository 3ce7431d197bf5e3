import Mathlib.Data.List.Infix
import Schemata.Text.Quoted

/-!
# Reading what is quoted

Whoever reads a statement takes what stands between two delimiters, where a closing delimiter that
is written twice stands for itself. This accepts exactly what was written by doubling, so a name or
a text comes back as it was, whatever it is made of and whatever follows it.
-/
namespace Schemata.Text

def after? (beginning text : String) : Option String :=
  (beginning.toList.isPrefixOf? text.toList).map String.ofList

@[simp] theorem after?_append (beginning rest : String) :
    after? beginning (beginning ++ rest) = some rest := by
  rw [after?, String.toList_append, List.isPrefixOf?_eq_some_iff_append_eq.mpr rfl]
  simp

/-- What stands before the first closing delimiter that is not doubled, and what follows. -/
def readTo (closing : Char) : List Char → Option (List Char × List Char)
  | [] => none
  | [c] => if c = closing then some ([], []) else none
  | c :: d :: rest =>
    if c ≠ closing then (readTo closing (d :: rest)).map fun (text, rest) => (c :: text, rest)
    else if d = closing then (readTo closing rest).map fun (text, rest) => (closing :: text, rest)
    else some ([], d :: rest)

def readQuoted (opening closing : Char) (text : String) : Option (String × String) :=
  match text.toList with
  | [] => none
  | c :: rest =>
    if c = opening then (readTo closing rest).map (Prod.map String.ofList String.ofList) else none

def readName : String → Option (String × String) := readQuoted '[' ']'

def readLiteral : String → Option (String × String) := readQuoted '\x27' '\x27'

variable {closing opening c : Char} {s t text : List Char}

theorem readTo_cons_of_ne (h : c ≠ closing) (text : List Char) :
    readTo closing (c :: text) = (readTo closing text).map fun (s, t) => (c :: s, t) := by
  cases text with
  | nil => simp [readTo, h]
  | cons d rest => rw [readTo, if_pos h]

/-- The reader stops at the closing delimiter, since those before it are doubled and no further one
follows. -/
theorem readTo_doubled (s : List Char) (h : t.head? ≠ some closing) :
    readTo closing (doubled closing s ++ closing :: t) = some (s, t) := by
  induction s with
  | nil =>
    cases t with
    | nil => simp [readTo]
    | cons d rest => simp [readTo, show d ≠ closing by simpa using h]
  | cons c s ih =>
    by_cases hc : c = closing
    · simp [readTo, hc, ih]
    · rw [doubled_cons, if_neg hc, List.singleton_append, List.cons_append,
        readTo_cons_of_ne hc, ih]
      rfl

/-- Only what was written by doubling is read. -/
theorem of_readTo (h : readTo closing text = some (s, t)) :
    text = doubled closing s ++ closing :: t ∧ t.head? ≠ some closing := by
  induction text using readTo.induct closing generalizing s with
  | case1 => cases h
  | case2 =>
    rw [readTo, if_pos rfl] at h
    cases h
    simp
  | case3 c hc =>
    rw [readTo, if_neg hc] at h
    cases h
  | case4 c d rest hc ih =>
    rw [readTo_cons_of_ne hc] at h
    obtain ⟨⟨s, t⟩, hr, h⟩ := Option.map_eq_some_iff.mp h
    cases h
    obtain ⟨e, follows⟩ := ih hr
    exact ⟨by simp [e, hc], follows⟩
  | case5 c rest hc ih =>
    obtain rfl := Classical.not_not.mp hc
    simp only [readTo, ne_eq, not_true_eq_false, if_false, if_true] at h
    obtain ⟨⟨s, t⟩, hr, h⟩ := Option.map_eq_some_iff.mp h
    cases h
    obtain ⟨e, follows⟩ := ih hr
    exact ⟨by simp [e], follows⟩
  | case6 c d rest hc hd =>
    obtain rfl := Classical.not_not.mp hc
    simp only [readTo, ne_eq, not_true_eq_false, if_false, if_neg hd] at h
    cases h
    simp [hd]

theorem readTo_eq_some_iff : readTo closing text = some (s, t) ↔
    text = doubled closing s ++ closing :: t ∧ t.head? ≠ some closing :=
  ⟨of_readTo, fun ⟨e, follows⟩ => e ▸ readTo_doubled s follows⟩

theorem readQuoted_eq_some_iff {text s t : String} : readQuoted opening closing text = some (s, t) ↔
    text.toList = opening :: doubled closing s.toList ++ closing :: t.toList ∧
      t.toList.head? ≠ some closing := by
  rw [readQuoted]
  cases h : text.toList with
  | nil => simp
  | cons c rest =>
    by_cases hc : c = opening
    · have hread : (readTo closing rest).map (Prod.map String.ofList String.ofList) = some (s, t) ↔
          readTo closing rest = some (s.toList, t.toList) := by
        rw [Option.map_eq_some_iff]
        constructor
        · rintro ⟨⟨s, t⟩, hr, e⟩
          cases e
          simpa using hr
        · exact fun hr => ⟨_, hr, by simp⟩
      simp only [hc, if_true, hread, readTo_eq_some_iff, List.cons_append,
        List.cons.injEq, true_and]
    · simp [hc]

theorem length_doubled (c : Char) (l : List Char) : l.length ≤ (doubled c l).length := by
  induction l with
  | nil => simp
  | cons d l ih =>
    rw [doubled_cons, List.length_append, List.length_cons]
    split <;> simp <;> omega

theorem ne_bracketed (name : String) : name ≠ bracketed name := by
  intro e
  have h := length_doubled ']' name.toList
  have e := congrArg (·.toList.length) e
  simp [toList_bracketed] at e h
  omega

theorem readName_eq_some_iff {text s t : String} :
    readName text = some (s, t) ↔ text = bracketed s ++ t ∧ t.toList.head? ≠ some ']' := by
  rw [readName, readQuoted_eq_some_iff, ← String.toList_inj, String.toList_append, toList_bracketed]
  simp

example : readName "[a]]b] [int]" = some ("a]b", " [int]") := by decide +kernel

theorem readLiteral_eq_some_iff {text s t : String} :
    readLiteral text = some (s, t) ↔ text = literal s ++ t ∧ t.toList.head? ≠ some '\x27' := by
  rw [readLiteral, readQuoted_eq_some_iff, ← String.toList_inj, String.toList_append,
    toList_literal]
  simp

/-- What is written comes back, and what follows it stays, unless it begins with the closing
delimiter. Nothing else is accepted, and no two texts are written alike. -/
structure Recovers (write : String → String) (read : String → Option (String × String))
    (closing : Char) : Prop where
  read_write : ∀ s t, read (write s ++ t) = some (s, t) ↔ t.toList.head? ≠ some closing
  written : ∀ text s t, read text = some (s, t) → text = write s ++ t
  injective : Function.Injective write

theorem Recovers.of_iff {write : String → String} {read : String → Option (String × String)}
    (h : ∀ {text s t}, read text = some (s, t) ↔ text = write s ++ t ∧
      t.toList.head? ≠ some closing) :
    Recovers write read closing := by
  have reads (s t : String) : read (write s ++ t) = some (s, t) ↔ t.toList.head? ≠ some closing :=
    h.trans ⟨And.right, fun follows => ⟨rfl, follows⟩⟩
  refine ⟨reads, fun text s t hr => (h.mp hr).1, fun s s' e => ?_⟩
  have alone (s : String) : read (write s ++ "") = some (s, "") := (reads s "").mpr (by simp)
  have hs := alone s
  rw [e, alone s'] at hs
  exact (Prod.mk.inj (Option.some.inj hs)).1.symm

/-- No name can end its own brackets, and no text its own quotes. -/
theorem recovers_bracketed_literal :
    Recovers bracketed readName ']' ∧ Recovers literal readLiteral '\x27' :=
  ⟨.of_iff readName_eq_some_iff, .of_iff readLiteral_eq_some_iff⟩

end Schemata.Text
