/-!
# CacheService.Text.Blank

Character classes that configuration texts and keys are judged by: the blanks
of the `White_Space` property, the control characters of the category `Cc`,
and trimming and splitting by such a class.

Main statement: `not_sep_of_mem_splitList` (no piece of a split text holds a
separator).
-/

namespace CacheService.Text

/-! ## Classes -/

/-- A character with the property `White_Space`. -/
def isBlank (c : Char) : Bool :=
  let n := c.toNat
  (9 ≤ n && n ≤ 13) || n == 0x20 || n == 0x85 || n == 0xA0 || n == 0x1680
    || (0x2000 ≤ n && n ≤ 0x200A) || n == 0x2028 || n == 0x2029 || n == 0x202F
    || n == 0x205F || n == 0x3000

/-- A control character: the two blocks of the category `Cc`. -/
def isControl (c : Char) : Bool :=
  c.toNat ≤ 0x1F || (0x7F ≤ c.toNat && c.toNat ≤ 0x9F)

/-! ## Trimming -/

/-- The list without the characters of the class `p` at either end. -/
def trimList (p : Char → Bool) (cs : List Char) : List Char :=
  ((cs.dropWhile p).reverse.dropWhile p).reverse

/-- The text without blanks at either end. -/
def trim (s : String) : String := String.ofList (trimList isBlank s.toList)

/-! ## Splitting -/

/-- The pieces between the characters of the class `p`, empty ones included. -/
def splitList (p : Char → Bool) : List Char → List (List Char)
  | [] => [[]]
  | c :: cs =>
    if p c then [] :: splitList p cs
    else
      match splitList p cs with
      | [] => [[c]]
      | piece :: rest => (c :: piece) :: rest

/-- No piece holds a separator. -/
theorem not_sep_of_mem_splitList {p : Char → Bool} {cs piece : List Char} {c : Char}
    (h : piece ∈ splitList p cs) (hc : c ∈ piece) : p c = false := by
  induction cs generalizing piece with
  | nil => simp_all [splitList]
  | cons a cs ih =>
    rw [splitList] at h
    split at h
    · rcases List.mem_cons.1 h with rfl | h
      · simp at hc
      · exact ih h hc
    · rename_i ha
      split at h
      · simp only [List.mem_singleton] at h
        subst h
        simp_all
      · rename_i first rest hs
        rcases List.mem_cons.1 h with rfl | h
        · rcases List.mem_cons.1 hc with rfl | hc
          · simpa using ha
          · exact ih (by rw [hs]; exact List.mem_cons_self) hc
        · exact ih (by rw [hs]; exact List.mem_cons_of_mem _ h) hc

end CacheService.Text
