import Mathlib.Data.Nat.Notation

/-!
# Numerals

Reading back what a number is printed as.
-/

namespace Numerals

def readDigits (digits : List Char) : Option Nat :=
  if digits ≠ [] ∧ digits.all Char.isDigit then some (Nat.ofDigitChars 10 digits 0) else none

def readInt (text : String) : Option Int :=
  if text.toList.head? = some '-' then (readDigits text.toList.tail).map fun n => -(n : Int)
  else (readDigits text.toList).map fun n => (n : Int)

theorem all_isDigit (n : Nat) : n.repr.toList.all Char.isDigit = true := by
  rw [Nat.toList_repr, List.all_eq_true]
  exact fun c hc => Nat.isDigit_of_mem_toDigits (by decide) (by decide) hc

theorem toList_ne_nil (n : Nat) : n.repr.toList ≠ [] := by
  rw [Nat.toList_repr]
  exact Nat.toDigits_ne_nil

theorem readDigits_repr (n : Nat) : readDigits n.repr.toList = some n := by
  rw [readDigits, if_pos ⟨toList_ne_nil n, all_isDigit n⟩, Nat.toList_repr]
  simp [Nat.ofDigitChars_toDigits]

theorem readInt_toString (n : Nat) : readInt (toString n) = some (n : Int) := by
  have hhead : n.repr.toList.head? ≠ some '-' := by
    intro h
    have hdigit := List.all_eq_true.mp (all_isDigit n) '-' (List.mem_of_head? h)
    exact absurd hdigit (by decide)
  show readInt n.repr = _
  rw [readInt, if_neg hhead, readDigits_repr]
  rfl

theorem toString_inj {m n : Nat} (h : toString m = toString n) : m = n := by
  have hread := readInt_toString n
  rw [← h, readInt_toString m] at hread
  exact Int.ofNat.inj (Option.some.inj hread)

end Numerals
