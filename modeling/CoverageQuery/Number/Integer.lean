import CoverageQuery.Number.Digits

/-!
# Whole numbers in text

A whole number is written with a minus sign when it is negative and read with an optional sign of
either kind. A bounded number is read only when it lies in its range: sixty-four bits with sign for
coordinates and expressions, thirty-two or sixty-four bits without sign for settings. A number
without sign takes no minus, not even before zero.
-/
namespace CoverageQuery.Integer

def write (n : Int) : List Char :=
  if n < 0 then '-' :: Digits.write n.natAbs else Digits.write n.natAbs

def splitSign : List Char → Bool × List Char
  | '-' :: cs => (true, cs)
  | '+' :: cs => (false, cs)
  | cs => (false, cs)

def readNat? (cs : List Char) : Option Nat :=
  if cs.isEmpty ∨ ¬ cs.all Char.isDigit then none else some (Digits.read cs)

def readInt? (cs : List Char) : Option Int :=
  let (negative, digits) := splitSign cs
  (readNat? digits).map fun n => if negative then -(n : Int) else n

def fits (n : Int) : Bool := -(Nat.pow 2 63 : Int) ≤ n ∧ n < Nat.pow 2 63

def toInt64? (n : Int) : Option Int64 :=
  if fits n then some (Int64.ofInt n) else none

def readInt64? (cs : List Char) : Option Int64 :=
  (readInt? cs).bind toInt64?

def readBelow? (limit : Nat) (cs : List Char) : Option Nat :=
  let digits := match cs with
    | '+' :: rest => rest
    | _ => cs
  (readNat? digits).filter (· < limit)

def readUInt32? (cs : List Char) : Option UInt32 :=
  (readBelow? (Nat.pow 2 32) cs).map UInt32.ofNat

def readUInt64? (cs : List Char) : Option UInt64 :=
  (readBelow? (Nat.pow 2 64) cs).map UInt64.ofNat

theorem read_of_sign (negative : Bool) (n : Nat) :
    readInt? ((if negative then ['-'] else []) ++ Digits.write n)
      = some (if negative then -(n : Int) else n) := by
  have hall : (Digits.write n).all Char.isDigit = true :=
    List.all_eq_true.2 fun c hc => Digits.isDigit_of_mem_write hc
  have hne : (Digits.write n).isEmpty = false := by
    simpa using Digits.write_ne_nil n
  have hnat : readNat? (Digits.write n) = some n := by
    simp [readNat?, hall, hne, Digits.read_write]
  cases negative with
  | true => simp [readInt?, splitSign, hnat]
  | false =>
    have hsign : splitSign (Digits.write n) = (false, Digits.write n) := by
      match hw : Digits.write n with
      | [] => rfl
      | c :: cs =>
        have hc : c.isDigit = true := Digits.isDigit_of_mem_write (n := n) (by simp [hw])
        unfold splitSign
        split
        · simp_all
        · simp_all
        · rfl
    simp [readInt?, hsign, hnat]

theorem readInt_write (n : Int) : readInt? (write n) = some n := by
  unfold write
  split
  · rename_i h
    have := read_of_sign true n.natAbs
    simp only [if_true, List.singleton_append] at this
    rw [this]
    congr 1
    omega
  · rename_i h
    have := read_of_sign false n.natAbs
    simp only [Bool.false_eq_true, if_false, List.nil_append] at this
    rw [this]
    congr 1
    omega

end CoverageQuery.Integer
