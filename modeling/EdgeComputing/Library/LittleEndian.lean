import Mathlib.Algebra.Order.Ring.Int

/-!
Unsigned integers as bytes, the least significant one first. What is written in `k` bytes is read
back up to a multiple of `256 ^ k`.
-/

namespace EdgeComputing.Library

def leBytes : Nat → Nat → List Nat
  | 0, _ => []
  | k + 1, n => n % 256 :: leBytes k (n / 256)

def ofLeBytes : List Nat → Nat
  | [] => 0
  | b :: bs => b + 256 * ofLeBytes bs

theorem length_leBytes (k n : Nat) : (leBytes k n).length = k := by
  induction k generalizing n with
  | zero => rfl
  | succ k ih => rw [leBytes, List.length_cons, ih]

theorem ofLeBytes_leBytes (k n : Nat) : ofLeBytes (leBytes k n) = n % 256 ^ k := by
  induction k generalizing n with
  | zero => simp [leBytes, ofLeBytes, Nat.mod_one]
  | succ k ih => rw [leBytes, ofLeBytes, ih, Nat.pow_succ', Nat.mod_mul]

theorem take_leBytes_append (k n : Nat) (rest : List Nat) :
    (leBytes k n ++ rest).take k = leBytes k n :=
  List.take_left' (length_leBytes k n)

theorem drop_leBytes_append (k n : Nat) (rest : List Nat) :
    (leBytes k n ++ rest).drop k = rest :=
  List.drop_left' (length_leBytes k n)

end EdgeComputing.Library
