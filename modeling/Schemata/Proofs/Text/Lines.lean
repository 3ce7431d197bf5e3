import Mathlib.Data.List.Chain
import Mathlib.Data.Nat.Digits.Defs
import Schemata.Script.Batch

/-!
# Lines of scripts

A script is cut at the lines that hold the separator alone. Joining batches is undone by this if no
line of a batch is the separator, and no line is if none begins with the same letter. Texts of that
kind can be put together freely: where one of them ends in the middle of a line, what follows only
makes the line longer.
-/
namespace Schemata
namespace Text

/-- The lines of a text; the last of them is not ended. -/
def linesOf (text : String) : List String := (text.toList.splitOn '\n').map String.ofList

def Unbroken (text : String) : Prop := '\n' ∉ text.toList

instance (text : String) : Decidable (Unbroken text) :=
  inferInstanceAs (Decidable ('\n' ∉ text.toList))

/-- No line of the text, and so not its first, begins as the separator does. -/
def Opened (text : String) : Prop :=
  ('\n' :: text.toList).IsChain fun c d => c = '\n' → d ≠ 'G'

instance (text : String) : Decidable (Opened text) :=
  inferInstanceAs (Decidable (List.IsChain _ _))

variable {s t : String} {texts : List String}

@[simp] theorem toString_text (s : String) : toString s = s := rfl

/-! ## Texts on one line -/

@[simp] theorem unbroken_append : Unbroken (s ++ t) ↔ Unbroken s ∧ Unbroken t := by
  simp [Unbroken]

theorem mem_of_mem_doubled {d c : Char} {text : List Char} (h : c ∈ doubled d text) : c ∈ text := by
  obtain ⟨e, he, hc⟩ := List.mem_flatMap.mp h
  split at hc <;> simp_all

@[simp] theorem unbroken_bracketed (h : Unbroken s) : Unbroken (bracketed s) := by
  intro hn
  have hn : '\n' ∈ doubled ']' s.toList := by simpa [toList_bracketed] using hn
  exact h (mem_of_mem_doubled hn)

@[simp] theorem unbroken_literal (h : Unbroken s) : Unbroken (literal s) := by
  intro hn
  have hn : '\n' ∈ doubled '\x27' s.toList := by simpa [toList_literal] using hn
  exact h (mem_of_mem_doubled hn)

theorem unbroken_intercalate (hs : Unbroken s) (h : ∀ text ∈ texts, Unbroken text) :
    Unbroken (s.intercalate texts) := by
  induction texts with
  | nil => simp [Unbroken]
  | cons text rest ih =>
    obtain ⟨htext, hrest⟩ := List.forall_mem_cons.mp h
    cases rest with
    | nil => simpa using htext
    | cons next rest => simp [htext, hs, ih hrest]

theorem unbroken_toString_nat (n : Nat) : Unbroken (toString n) := by
  intro h
  have hdigit := Nat.isDigit_of_mem_toDigits (by decide) (by decide)
    (show '\n' ∈ Nat.toDigits 10 n by simpa [Nat.toString_eq_repr, Nat.repr] using h)
  exact absurd hdigit (by decide)

@[simp] theorem unbroken_toString (i : Int) : Unbroken (toString i) := by
  cases i with
  | ofNat n => exact unbroken_toString_nat n
  | negSucc n => exact unbroken_append.mpr ⟨by decide, unbroken_toString_nat (n + 1)⟩

/-! ## Texts whose lines do not begin as the separator does -/

theorem opened_of_unbroken (h : Unbroken s) (head : s.toList.head? ≠ some 'G') : Opened s := by
  refine List.isChain_cons.mpr ⟨fun d hd _ he => head (he ▸ hd), List.Pairwise.isChain ?_⟩
  exact List.pairwise_of_forall_mem_list fun c hc _ _ hn => absurd (hn ▸ hc) h

/-- What the generator writes itself can be looked at. -/
theorem opened_ofList {l : List Char} (h : ('\n' :: l).IsChain fun c d => c = '\n' → d ≠ 'G') :
    Opened (String.ofList l) := by
  rwa [Opened, String.toList_ofList]

theorem Opened.append (hs : Opened s) (ht : Opened t) : Opened (s ++ t) := by
  obtain ⟨hhead, hchain⟩ := List.isChain_cons.mp ht
  rw [Opened, String.toList_append, ← List.cons_append, List.isChain_append]
  exact ⟨hs, hchain, fun _ _ d hd _ => hhead d hd rfl⟩

theorem opened_bracketed (h : Unbroken s) : Opened (bracketed s) :=
  opened_of_unbroken (unbroken_bracketed h) (by simp [toList_bracketed])

theorem opened_literal (h : Unbroken s) : Opened (literal s) :=
  opened_of_unbroken (unbroken_literal h) (by simp [toList_literal])

theorem opened_parameterName (h : Unbroken s) : Opened (parameterName s) :=
  opened_of_unbroken (unbroken_append.mpr ⟨by decide, h⟩) (by simp [parameterName])

theorem opened_intercalate (hs : Opened s) (h : ∀ text ∈ texts, Opened text) :
    Opened (s.intercalate texts) := by
  induction texts with
  | nil => simp [Opened]
  | cons text rest ih =>
    obtain ⟨htext, hrest⟩ := List.forall_mem_cons.mp h
    cases rest with
    | nil => simpa using htext
    | cons next rest => simpa using (htext.append hs).append (ih hrest)

theorem opened_join (h : ∀ text ∈ texts, Opened text) : Opened (String.join texts) := by
  induction texts with
  | nil => exact opened_ofList (by decide)
  | cons text rest ih =>
    obtain ⟨htext, hrest⟩ := List.forall_mem_cons.mp h
    simpa using htext.append (ih hrest)

/-- The lines of a text behind some character. The first of them is a whole line only if that
character is the end of another line. -/
theorem head?_of_splitOn_eq_cons {l first : List Char} {rest : List (List Char)} {c : Char}
    (h : (c :: l).IsChain fun c d => c = '\n' → d ≠ 'G') (hl : l.splitOn '\n' = first :: rest) :
    (c = '\n' → first.head? ≠ some 'G') ∧ ∀ line ∈ rest, line.head? ≠ some 'G' := by
  induction l generalizing c first rest with
  | nil =>
    obtain ⟨rfl, rfl⟩ : [] = first ∧ [] = rest := by simpa using hl
    simp
  | cons x l ih =>
    obtain ⟨hx, hchain⟩ := List.isChain_cons_cons.mp h
    obtain ⟨next, lines, hnext⟩ := List.exists_cons_of_ne_nil (List.splitOn_ne_nil '\n' l)
    obtain ⟨hhead, hlines⟩ := ih hchain hnext
    rw [List.splitOn_cons_eq_if_modifyHead, hnext] at hl
    by_cases hline : x = '\n'
    · obtain ⟨rfl, rfl⟩ : [] = first ∧ next :: lines = rest := by simpa [hline] using hl
      exact ⟨by simp, List.forall_mem_cons.mpr ⟨hhead hline, hlines⟩⟩
    · obtain ⟨rfl, rfl⟩ : x :: next = first ∧ lines = rest := by simpa [hline] using hl
      exact ⟨fun hc he => hx hc (by simpa using he), hlines⟩

theorem Opened.separator_not_mem (h : Opened s) : separator ∉ linesOf s := by
  intro hmem
  obtain ⟨line, hline, he⟩ := List.mem_map.mp hmem
  obtain ⟨first, rest, hlines⟩ := List.exists_cons_of_ne_nil (List.splitOn_ne_nil '\n' s.toList)
  obtain ⟨hfirst, hrest⟩ := head?_of_splitOn_eq_cons h hlines
  have hhead : line.head? ≠ some 'G' := by
    obtain rfl | hline := List.mem_cons.mp (hlines ▸ hline)
    · exact hfirst rfl
    · exact hrest line hline
  have hline : line = separator.toList := by simpa using congrArg String.toList he
  exact hhead (hline ▸ rfl)

end Text
open Text

/-! ## Cutting a script -/

/-- The parts of a script between the lines that hold the separator alone. Behind the last of them
nothing is left to execute in a script that was made of batches. -/
def batchesIn (script : String) : List String :=
  ((linesOf script).splitOn separator).map "\n".intercalate

theorem linesOf_append_line (s t : String) : linesOf (s ++ "\n" ++ t) = linesOf s ++ linesOf t := by
  simp [linesOf, List.splitOn_append_cons_self]

theorem intercalate_linesOf (s : String) : "\n".intercalate (linesOf s) = s := by
  apply String.toList_injective
  simp [linesOf, Function.comp_def, List.intercalate_splitOn]

/-- A batch is cut off a script that goes on behind it. -/
theorem batchesIn_append {batch : String} (h : separator ∉ linesOf batch) (rest : String) :
    batchesIn (batch ++ s!"\n{separator}\n" ++ rest) = batch :: batchesIn rest := by
  have hsplit :
      batch ++ s!"\n{separator}\n" ++ rest = batch ++ "\n" ++ (separator ++ "\n" ++ rest) := by
    simp only [toString_text, String.append_assoc]
  have hseparator : linesOf separator = [separator] := by decide
  rw [batchesIn, hsplit, linesOf_append_line, linesOf_append_line, hseparator,
    List.singleton_append,
    List.splitOn_append_cons_self_of_not_mem h, List.map_cons, intercalate_linesOf, batchesIn]

theorem batchesIn_joinBatches {batches : List String} (ne : batches ≠ [])
    (h : ∀ batch ∈ batches, separator ∉ linesOf batch) :
    batchesIn (joinBatches batches) = batches ++ [""] := by
  induction batches with
  | nil => exact absurd rfl ne
  | cons batch rest ih =>
    obtain ⟨hbatch, hrest⟩ := List.forall_mem_cons.mp h
    cases rest with
    | nil =>
      have hcut := batchesIn_append hbatch ""
      have hempty : batchesIn "" = [""] := by decide
      rwa [hempty, String.append_empty] at hcut
    | cons next rest =>
      have hjoin : joinBatches (batch :: next :: rest) =
          batch ++ s!"\n{separator}\n" ++ joinBatches (next :: rest) := by
        simp [joinBatches, String.append_assoc]
      rw [hjoin, batchesIn_append hbatch, ih (by simp) hrest]
      rfl

end Schemata
