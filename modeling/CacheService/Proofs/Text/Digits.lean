import CacheService.Text.Integer
import Mathlib.Data.Nat.Digits.Defs

/-!
# CacheService.Proofs.Text.Digits

Numbers in decimal digits. `continued` is the number that digits write behind those of
another; reading digits up to a bound gives that number, or the fault of a number
beyond the bound (`readDigits_eq`). So `readNat` reads a text of digits as their number
(`readNat_ofList`), and a number is read again from the text of its own digits
(`readNat_toString`).
-/

namespace CacheService.Text

/-- The digits by their numbers. -/
theorem isDigit_iff (c : Char) : c.isDigit = true ↔ 48 ≤ c.toNat ∧ c.toNat ≤ 57 := by
  simp [Char.isDigit, UInt32.le_iff_toNat_le]

/-- The number that the digits write behind those of `n`. -/
def continued (n : Nat) (digits : List Char) : Nat :=
  digits.foldl (fun n c => 10 * n + (c.toNat - '0'.toNat)) n

/-- More digits make no number smaller: `continued` only grows. -/
theorem le_continued (n : Nat) (digits : List Char) : n ≤ continued n digits := by
  induction digits generalizing n with
  | nil => exact Nat.le_refl n
  | cons c digits ih =>
      have hmore := ih (10 * n + (c.toNat - '0'.toNat))
      rw [continued, List.foldl_cons]
      rw [continued] at hmore
      omega

theorem readDigits_eq {max n : Nat} {digits : List Char} (hdigits : ∀ c ∈ digits, c.isDigit = true)
    (hn : n ≤ max) (excess : IntegerFault) :
    readDigits max excess n digits =
      if continued n digits ≤ max then .ok (continued n digits) else .error excess := by
  induction digits generalizing n with
  | nil => exact (if_pos hn).symm
  | cons c digits ih =>
      have hc := hdigits c List.mem_cons_self
      have hmore := le_continued (10 * n + (c.toNat - '0'.toNat)) digits
      have hcons : continued n (c :: digits) = continued (10 * n + (c.toNat - '0'.toNat)) digits :=
        rfl
      rw [readDigits, digitValue?, if_pos hc]
      dsimp only
      split
      · next hle => rw [ih (fun c hc => hdigits c (List.mem_cons_of_mem _ hc)) hle, hcons]
      · next hgt => rw [if_neg (by omega)]

/-- Digits have no sign before them, so `readNat` reads all of them. -/
theorem readNat_ofList {digits : List Char} (hdigits : ∀ c ∈ digits, c.isDigit = true)
    (hne : digits ≠ []) (max : Nat) : readNat max (String.ofList digits) =
      if continued 0 digits ≤ max then .ok (continued 0 digits) else .error .tooLarge := by
  rw [← readDigits_eq hdigits (Nat.zero_le max), readNat, String.toList_ofList]
  split
  · exact absurd rfl hne
  · exact absurd (hdigits '+' List.mem_cons_self) (by decide)
  · rw [readMagnitude, if_neg (mt List.isEmpty_iff.mp hne)]

/-- What `readNat` reads is within the bound. -/
theorem readNat_le {max n : Nat} {s : String} (h : readNat max s = .ok n) : n ≤ max := by
  have hmagnitude {cs : List Char} (h : readMagnitude max .tooLarge cs = .ok n) : n ≤ max := by
    unfold readMagnitude at h
    split at h
    · contradiction
    · exact readDigits_le (Nat.zero_le max) h
  unfold readNat at h
  split at h
  · contradiction
  · exact hmagnitude h
  · exact hmagnitude h

/-- A number is printed in digits. -/
theorem isDigit_of_mem_toString {n : Nat} {c : Char} (h : c ∈ (toString n).toList) :
    c.isDigit = true := by
  rw [Nat.toString_eq_repr, Nat.toList_repr] at h
  exact Nat.isDigit_of_mem_toDigits (by decide) (by decide) h

/-- A number is read again from its digits. -/
theorem readNat_toString {n max : Nat} (h : n ≤ max) : readNat max (toString n) = .ok n := by
  have hdigits : ∀ c ∈ Nat.toDigits 10 n, c.isDigit = true := fun c hc =>
    Nat.isDigit_of_mem_toDigits (by decide) (by decide) hc
  have hvalue : continued 0 (Nat.toDigits 10 n) = n := Nat.ofDigitChars_ten_toDigits
  have htext : toString n = String.ofList (Nat.toDigits 10 n) := by
    rw [Nat.toString_eq_repr, ← Nat.toList_repr, String.ofList_toList]
  rw [htext, readNat_ofList hdigits Nat.toDigits_ne_nil, hvalue, if_pos h]

end CacheService.Text
