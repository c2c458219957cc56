import CacheService.Text.Printable
import Mathlib.Algebra.Group.Nat.Defs

/-!
# CacheService.Proofs.Text.Printable

The search for hidden characters. `inRanges` halves the distance between two indices
round by round; in ranges that are `Ascending` it finds a number exactly where one of
them holds it (`inRanges_iff`). The ranges of `hiddenRanges` are ascending, so above
ASCII `isPrintable` says that no hidden range holds the character
(`isPrintable_iff`).
-/

namespace CacheService.Text

/-- Ranges that are not empty, in ascending order and apart from each other. -/
structure Ascending (ranges : Array (Nat × Nat)) : Prop where
  proper : ∀ r ∈ ranges, r.1 ≤ r.2
  apart : ranges.toList.Pairwise fun r r' => r.2 < r'.1

/-- The range at a later index begins after one at an earlier index has ended. -/
theorem Ascending.lt {ranges : Array (Nat × Nat)} (h : Ascending ranges) {i j : Nat}
    {r r' : Nat × Nat} (hr : ranges[i]? = some r) (hr' : ranges[j]? = some r') (hij : i < j) :
    r.2 < r'.1 := by
  obtain ⟨hi, rfl⟩ := Array.getElem?_eq_some_iff.mp hr
  obtain ⟨hj, rfl⟩ := Array.getElem?_eq_some_iff.mp hr'
  exact List.pairwise_iff_getElem.mp h.apart i j hi hj hij

/-- A number that comes before the range at one index is in no range from that index on. -/
theorem Ascending.index_lt {ranges : Array (Nat × Nat)} (h : Ascending ranges) {i j n : Nat}
    {r r' : Nat × Nat} (hr : ranges[i]? = some r) (hbelow : n < r.1)
    (hr' : ranges[j]? = some r') (hin : r'.1 ≤ n) : j < i := by
  refine Nat.lt_of_not_le fun hle => ?_
  obtain hlt | rfl := Nat.lt_or_eq_of_le hle
  · have hproper := h.proper r (Array.mem_of_getElem? hr)
    have hapart := h.lt hr hr' hlt
    omega
  · obtain rfl := Option.some.inj (hr.symm.trans hr')
    omega

/-- A number that comes behind the range at one index is in no range up to that index. -/
theorem Ascending.lt_index {ranges : Array (Nat × Nat)} (h : Ascending ranges) {i j n : Nat}
    {r r' : Nat × Nat} (hr : ranges[i]? = some r) (habove : r.2 < n)
    (hr' : ranges[j]? = some r') (hin : n ≤ r'.2) : i < j := by
  refine Nat.lt_of_not_le fun hle => ?_
  obtain hlt | rfl := Nat.lt_or_eq_of_le hle
  · have hproper := h.proper r (Array.mem_of_getElem? hr)
    have hapart := h.lt hr' hr hlt
    omega
  · obtain rfl := Option.some.inj (hr.symm.trans hr')
    omega

/-- **The search** `inRanges` finds a number in ascending ranges where there is one
around it, if the rounds suffice to halve the distance to nothing. -/
theorem inRanges_iff {ranges : Array (Nat × Nat)} (h : Ascending ranges) (n : Nat)
    {rounds lo hi : Nat} (hhi : hi ≤ ranges.size) (hrounds : hi < lo + 2 ^ rounds) :
    inRanges ranges n rounds lo hi = true ↔
      ∃ i r, lo ≤ i ∧ i < hi ∧ ranges[i]? = some r ∧ r.1 ≤ n ∧ n ≤ r.2 := by
  induction rounds generalizing lo hi with
  | zero =>
      refine iff_of_false (by simp [inRanges]) ?_
      rintro ⟨i, r, hlo, hi, -⟩
      omega
  | succ rounds ih =>
      rw [Nat.pow_succ] at hrounds
      by_cases hempty : hi ≤ lo
      · refine iff_of_false ?_ ?_
        · unfold inRanges
          dsimp only
          split <;> simp [hempty]
        · rintro ⟨i, r, hlo, hi, -⟩
          omega
      · have hmid : (lo + hi) / 2 < ranges.size := by omega
        have hr := Array.getElem?_eq_getElem hmid
        generalize ranges[(lo + hi) / 2] = r at hr
        unfold inRanges
        simp only [hr, hempty, if_false]
        split
        · -- below the middle range, so in none from there on
          rename_i hbelow
          rw [ih (by omega) (by omega)]
          exact exists_congr fun i => exists_congr fun r' =>
            ⟨fun ⟨hlo, hi, hrest⟩ => ⟨hlo, by omega, hrest⟩,
              fun ⟨hlo, hi, hr', hin⟩ => ⟨hlo, h.index_lt hr hbelow hr' hin.1, hr', hin⟩⟩
        · split
          · -- above it, so in none up to there
            rename_i habove
            rw [ih hhi (by omega)]
            exact exists_congr fun i => exists_congr fun r' =>
              ⟨fun ⟨hlo, hi, hrest⟩ => ⟨by omega, hi, hrest⟩,
                fun ⟨hlo, hi, hr', hin⟩ => ⟨h.lt_index hr habove hr' hin.2, hi, hr', hin⟩⟩
          · exact iff_of_true rfl ⟨_, r, by omega, by omega, hr, by omega, by omega⟩

/-- Whether ranges ascend from `bound` on. -/
def ascends (bound : Nat) : List (Nat × Nat) → Bool
  | [] => true
  | (first, last) :: rest => bound ≤ first && first ≤ last && ascends (last + 1) rest

/-- Ranges that `ascends` from a bound on lie above it, and are not empty. -/
theorem le_of_ascends {bound : Nat} {ranges : List (Nat × Nat)} (h : ascends bound ranges = true) :
    ∀ r ∈ ranges, bound ≤ r.1 ∧ r.1 ≤ r.2 := by
  induction ranges generalizing bound with
  | nil => simp
  | cons r ranges ih =>
      simp only [ascends, Bool.and_eq_true, decide_eq_true_eq] at h
      intro r' hr'
      obtain rfl | hr' := List.mem_cons.mp hr'
      · exact h.1
      · have := ih h.2 r' hr'
        omega

/-- They are in order and apart from each other. -/
theorem pairwise_of_ascends {bound : Nat} {ranges : List (Nat × Nat)}
    (h : ascends bound ranges = true) : ranges.Pairwise fun r r' => r.2 < r'.1 := by
  induction ranges generalizing bound with
  | nil => exact .nil
  | cons r ranges ih =>
      simp only [ascends, Bool.and_eq_true] at h
      exact .cons (fun r' hr' => (le_of_ascends h.2 r' hr').1) (ih h.2)

/-- The hidden ranges are `Ascending`. -/
theorem ascending_hiddenRanges : Ascending hiddenRanges :=
  have h : ascends 0 hiddenRanges.toList = true := by decide +kernel
  ⟨fun r hr => (le_of_ascends h r (Array.mem_toList_iff.mpr hr)).2, pairwise_of_ascends h⟩

/-- Above ASCII `isPrintable` shows a character unless it lies in a hidden range. -/
theorem isPrintable_iff {c : Char} (h : 0x7F < c.toNat) :
    isPrintable c = true ↔ ∀ r ∈ hiddenRanges, ¬(r.1 ≤ c.toNat ∧ c.toNat ≤ r.2) := by
  have hsearch : inRanges hiddenRanges c.toNat 16 0 hiddenRanges.size = true ↔
      ∃ r ∈ hiddenRanges, r.1 ≤ c.toNat ∧ c.toNat ≤ r.2 := by
    rw [inRanges_iff ascending_hiddenRanges c.toNat (Nat.le_refl _) (by decide +kernel)]
    constructor
    · rintro ⟨i, r, -, -, hr, hin⟩
      exact ⟨r, Array.mem_of_getElem? hr, hin⟩
    · rintro ⟨r, hr, hin⟩
      obtain ⟨i, hi, rfl⟩ := Array.getElem_of_mem hr
      exact ⟨i, _, Nat.zero_le i, hi, Array.getElem?_eq_getElem hi, hin⟩
  have hcontrol : ¬c.toNat < 0x20 := by omega
  have hascii : ¬c.toNat < 0x7F := by omega
  have hdelete : ¬(c.toNat == 0x7F) = true := by simp only [beq_iff_eq]; omega
  have hprintable : isPrintable c = !inRanges hiddenRanges c.toNat 16 0 hiddenRanges.size := by
    unfold isPrintable
    dsimp only
    rw [if_neg hcontrol, if_neg hascii, if_neg hdelete]
  rw [hprintable, Bool.not_eq_true', ← Bool.not_eq_true, hsearch]
  exact ⟨fun hnone r hr hin => hnone ⟨r, hr, hin⟩, fun hnone ⟨r, hr, hin⟩ => hnone r hr hin⟩

example : ['é', '\u0e33', '\u20c1', '\uff9e'].all isPrintable := by decide +kernel
example : ['\u0301', '\u0e31', '\u0ece', '\u200d', '\ufeff'].all (!isPrintable ·) := by
  decide +kernel

end CacheService.Text
