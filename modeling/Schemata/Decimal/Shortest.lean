import Schemata.Decimal.Binary

/-!
# The shortest text of a decimal

A decimal is written with as few digits as tell it from every other decimal that can be kept, and
with an exponent if it is very large or very small.
-/
namespace Schemata.Decimal

/-- The decimal with its last digits, `count` of them, rounded to zero: to the nearer side or,
failing that, to the other one, provided that what comes out is kept as the decimal is. -/
def cut? (d : Decimal) (count : Nat) : Option Decimal :=
  let unit := Nat.pow 10 count
  let below := d.digits / unit
  let nearer := roundQuotient d.digits unit
  let other := if nearer = below then below + 1 else below
  ([nearer, other].map fun n => { d with digits := n * unit }).find? fun c => c.kept.SameSize d

theorem kept_sameSize_of_cut? {d c : Decimal} {count : Nat} (h : d.cut? count = some c) :
    c.kept.SameSize d := by
  simpa using List.find?_some h

/-- The decimal with the fewest digits that is kept as this one is. Seventeen digits tell apart all
decimals of 53 bits. -/
def shortest (d : Decimal) : Decimal :=
  let length := (Nat.toDigits 10 d.digits).length
  ((List.range 17).findSome? fun n => d.cut? (length - (n + 1))).getD d

/-- Nothing is lost: the shortest decimal is kept as the one that it stands for. -/
theorem kept_shortest_sameSize {d : Decimal} (h : d.kept.SameSize d) :
    d.shortest.kept.SameSize d := by
  rw [shortest]
  generalize hfound : (List.range 17).findSome? _ = found
  cases found with
  | none => exact h
  | some c =>
    obtain ⟨n, -, hcut⟩ := List.exists_of_findSome?_eq_some hfound
    exact kept_sameSize_of_cut? hcut

/-- Significant digits around the point, with at least one on either side; the first of them counts
`10 ^ exponent`. -/
def pointed (digits : List Char) (exponent : Int) : String :=
  let places := List.replicate (-exponent).toNat '0' ++ digits
  let count := exponent.toNat + 1
  let whole := places.take count ++ List.replicate (count - places.length) '0'
  let fraction := if places.length ≤ count then ['0'] else places.drop count
  String.ofList (whole ++ '.' :: fraction)

/-- Significant digits with the point behind the first of them, and the exponent in two digits or
more. -/
def scientific (digits : List Char) (exponent : Int) : String :=
  let point := if digits.length ≤ 1 then [] else ['.']
  let sign := if exponent < 0 then '-' else '+'
  let size := Nat.toDigits 10 exponent.natAbs
  let size := if size.length < 2 then '0' :: size else size
  String.ofList (digits.take 1 ++ point ++ digits.drop 1 ++ 'e' :: sign :: size)

def text (d : Decimal) : String :=
  let all := Nat.toDigits 10 d.shortest.digits
  let digits := (all.reverse.dropWhile (· == '0')).reverse
  let exponent : Int := if digits = [] then 0 else (all.length : Int) - 1 - d.places
  let sign := if d.negative then "-" else ""
  sign ++ if -4 ≤ exponent ∧ exponent < 16 then pointed digits exponent
    else scientific digits exponent

example : (kept ⟨false, 1, 1⟩).text = "0.1" := by decide
example : (kept ⟨true, 0, 1⟩).text = "-0.0" := by decide
example : pointed ['1', '5'] (-2) = "0.015" := by decide
example : scientific ['1', '5'] 300 = "1.5e+300" := by decide

end Schemata.Decimal
