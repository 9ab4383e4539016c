/-!
# Decimal digits

A natural number in base ten, written most significant digit first and read back. Zero has the one
digit `0`, and no other number starts with it. The reader takes any digit text, leading zeros
included; on written numbers it is the inverse of the writer.
-/
namespace CoverageQuery.Digits

def char (d : Nat) : Char := Char.ofNat (48 + d)

def value (c : Char) : Nat := c.toNat - 48

def write (n : Nat) : List Char :=
  if n < 10 then [char n] else write (n / 10) ++ [char (n % 10)]
termination_by n
decreasing_by omega

def read (cs : List Char) : Nat :=
  cs.foldl (fun n c => 10 * n + value c) 0

def count (n : Nat) : Nat := (write n).length

theorem value_char {d : Nat} (h : d < 10) : value (char d) = d := by
  match d, h with
  | 0, _ | 1, _ | 2, _ | 3, _ | 4, _ | 5, _ | 6, _ | 7, _ | 8, _ | 9, _ => decide

theorem isDigit_char {d : Nat} (h : d < 10) : (char d).isDigit = true := by
  match d, h with
  | 0, _ | 1, _ | 2, _ | 3, _ | 4, _ | 5, _ | 6, _ | 7, _ | 8, _ | 9, _ => decide

theorem read_append_singleton (a : List Char) (c : Char) :
    read (a ++ [c]) = 10 * read a + value c := by
  simp [read]

theorem read_write (n : Nat) : read (write n) = n := by
  fun_induction write n with
  | case1 n h => simp [read, value_char h]
  | case2 n h ih =>
    rw [read_append_singleton, ih, value_char (Nat.mod_lt _ (by omega))]
    omega

theorem isDigit_of_mem_write {n : Nat} {c : Char} (h : c ∈ write n) : c.isDigit = true := by
  fun_induction write n with
  | case1 n hn =>
    obtain rfl := List.mem_singleton.1 h
    exact isDigit_char hn
  | case2 n hn ih =>
    rcases List.mem_append.1 h with h | h
    · exact ih h
    · obtain rfl := List.mem_singleton.1 h
      exact isDigit_char (Nat.mod_lt _ (by omega))

theorem write_ne_nil (n : Nat) : write n ≠ [] := by
  fun_cases write n <;> simp

def hexChar (d : Nat) : Char :=
  if d < 10 then char d else Char.ofNat (87 + d)

def value? (base : Nat) (c : Char) : Option Nat :=
  let d :=
    if c.isDigit then value c
    else if 'a' ≤ c ∧ c ≤ 'f' then c.toNat - 87
    else if 'A' ≤ c ∧ c ≤ 'F' then c.toNat - 55
    else base
  if d < base then some d else none

def readBase? (base : Nat) (cs : List Char) : Option Nat :=
  if cs.isEmpty then none
  else cs.foldlM (fun n c => (value? base c).map (base * n + ·)) 0

end CoverageQuery.Digits
