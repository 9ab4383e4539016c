/-!
# Trying again

A request is made again after a failure that may pass, up to a number of times. The outcomes that the
requests would have are a sequence without end; trying again reads a beginning of it and answers with
the last outcome that it read.
-/
namespace CoverageQuery.Retry

variable {ε α : Type}

def isPassing (mayPass : ε → Bool) : Except ε α → Bool
  | .error e => mayPass e
  | .ok _ => false

def count (mayPass : ε → Bool) (outcomes : Nat → Except ε α) : Nat → Nat
  | 0 => 1
  | retries + 1 =>
    if isPassing mayPass (outcomes 0) then 1 + count mayPass (fun n => outcomes (n + 1)) retries
    else 1

def answer (mayPass : ε → Bool) (outcomes : Nat → Except ε α) (retries : Nat) : Except ε α :=
  outcomes (count mayPass outcomes retries - 1)

theorem count_pos (mayPass : ε → Bool) (outcomes : Nat → Except ε α) (retries : Nat) :
    0 < count mayPass outcomes retries := by
  fun_cases count mayPass outcomes retries <;> omega

theorem count_le (mayPass : ε → Bool) (outcomes : Nat → Except ε α) (retries : Nat) :
    count mayPass outcomes retries ≤ retries + 1 := by
  induction retries generalizing outcomes with
  | zero => simp [count]
  | succ n ih =>
    unfold count
    split
    · have := ih fun n => outcomes (n + 1)
      omega
    · omega

def stay {β : Type} (list : List β) (otherwise : β) (n : Nat) : β :=
  list[min n (list.length - 1)]?.getD otherwise

end CoverageQuery.Retry
