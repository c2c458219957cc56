import CacheService.Duration
import CacheService.Proofs.Text.Digits
import CacheService.Proofs.Text.Encoding
import Mathlib.Data.List.TakeWhile

/-!
# CacheService.Proofs.Duration

Duration expressions against their grammar. The grammar is about characters, while the scan
goes from byte to byte and cuts the text by positions. Each position that it stops at is a
boundary of characters (`RestAt`): a byte in the class of digits or of letters is a whole
character, since the characters beyond ASCII are encoded by other bytes.

* `RestAt.runEnd_eq`, `RestAt.cut_eq` — runs of bytes and cuts, in terms of characters;
* `RestAt.group_eq_ok`, `RestAt.group_cases` — a group that stands at a position is what is
  read there;
* `RestAt.scan_groups`, `RestAt.scan_refused` — the scan of groups, and of anything else. A sum
  has its parts within the bound, so that the three checks are one on the sum;
* `parse_grammar` — the expressions that are read, and what is said of the others.
-/

namespace CacheService.Duration

/-! ## Characters and bytes -/

/-- The byte that the encoding of a character begins with. -/
def firstByte (c : Char) : UInt8 := (String.utf8EncodeChar c).head String.utf8EncodeChar_ne_nil

/-- Beyond ASCII the first byte is one of those that ASCII does not use. -/
theorem firstByte_cases (c : Char) :
    ((firstByte c).toNat = c.toNat ∧ c.utf8Size = 1) ∨
      128 ≤ c.toNat ∧ 128 ≤ (firstByte c).toNat := by
  rcases Text.encode_cases c with ⟨hascii, hbytes⟩ | ⟨hbeyond, hbytes⟩
  · left
    have hone : c.utf8Size = 1 := by
      rw [Char.utf8Size_eq_one_iff, UInt32.le_iff_toNat_le]
      exact Nat.le_of_lt_succ hascii
    refine ⟨?_, hone⟩
    simp only [firstByte, hbytes, List.head_cons]
    exact UInt8.toNat_ofNat_of_lt' (Nat.lt_trans hascii (by decide))
  · exact .inr ⟨hbeyond, hbytes _ (List.head_mem _)⟩

/-- A class of bytes that are characters of a class, each a single byte. -/
structure AsciiClass (p : UInt8 → Bool) (q : Char → Bool) : Prop where
  firstByte_eq : ∀ c, p (firstByte c) = q c
  utf8Size_eq : ∀ c, q c = true → c.utf8Size = 1

/-- The letters of ASCII by their numbers. -/
theorem isAlpha_iff (c : Char) :
    c.isAlpha = true ↔ (65 ≤ c.toNat ∧ c.toNat ≤ 90) ∨ (97 ≤ c.toNat ∧ c.toNat ≤ 122) := by
  show (decide (c.val ≥ 'A'.val ∧ c.val ≤ 'Z'.val) ||
    decide (c.val ≥ 'a'.val) && decide (c.val ≤ 'z'.val)) = true ↔ _
  simp [UInt32.le_iff_toNat_le]

/-- `isDigitByte` is the class of digits. -/
theorem asciiClass_digit : AsciiClass isDigitByte Char.isDigit where
  firstByte_eq c := by
    rw [Bool.eq_iff_iff, Text.isDigit_iff]
    simp only [isDigitByte, Bool.and_eq_true, decide_eq_true_eq, UInt8.le_iff_toNat_le]
    have hbyte := firstByte_cases c
    show 48 ≤ _ ∧ _ ≤ 57 ↔ _
    omega
  utf8Size_eq c hc := by
    rw [Text.isDigit_iff] at hc
    have hbyte := firstByte_cases c
    omega

/-- `isLetterByte` is the class of letters. -/
theorem asciiClass_letter : AsciiClass isLetterByte Char.isAlpha where
  firstByte_eq c := by
    rw [Bool.eq_iff_iff, isAlpha_iff]
    simp only [isLetterByte, Bool.and_eq_true, Bool.or_eq_true, decide_eq_true_eq,
      UInt8.le_iff_toNat_le]
    have hbyte := firstByte_cases c
    show (65 ≤ _ ∧ _ ≤ 90) ∨ (97 ≤ _ ∧ _ ≤ 122) ↔ _
    omega
  utf8Size_eq c hc := by
    rw [isAlpha_iff] at hc
    have hbyte := firstByte_cases c
    omega

/-! ## Positions -/

/-- The bytes that characters take. -/
def width (cs : List Char) : Nat := (String.ofList cs).utf8ByteSize

@[simp] theorem width_nil : width [] = 0 := rfl

/-- `width` adds up over characters put together. -/
@[simp] theorem width_append (cs cs' : List Char) : width (cs ++ cs') = width cs + width cs' := by
  rw [width, String.ofList_append, String.utf8ByteSize_append]
  rfl

/-- `width` adds up character by character. -/
@[simp] theorem width_cons (c : Char) (cs : List Char) :
    width (c :: cs) = c.utf8Size + width cs := by
  rw [← List.singleton_append, width_append, width, ← String.singleton_eq_ofList,
    String.utf8ByteSize_singleton]

theorem width_pos {cs : List Char} (h : cs ≠ []) : 0 < width cs := by
  obtain ⟨c, cs, rfl⟩ := List.exists_cons_of_ne_nil h
  rw [width_cons]
  exact Nat.add_pos_left (Char.utf8Size_pos c) _

/-- The position is a boundary of characters of the text, and `rest` is behind it. -/
def RestAt (s : String) (pos : Nat) (rest : List Char) : Prop :=
  ∃ front, s.toList = front ++ rest ∧ pos = width front

variable {s : String} {pos : Nat} {mid rest : List Char} {c : Char}

/-- All of a text is behind its beginning. -/
theorem restAt_zero (s : String) : RestAt s 0 s.toList := ⟨[], rfl, rfl⟩

/-- A text goes on behind the next of its characters. -/
theorem RestAt.skip (h : RestAt s pos (mid ++ rest)) : RestAt s (pos + width mid) rest := by
  obtain ⟨front, hs, rfl⟩ := h
  exact ⟨front ++ mid, by rw [hs, List.append_assoc], (width_append front mid).symm⟩

theorem RestAt.eq_append (h : RestAt s pos rest) :
    ∃ front, s = String.ofList front ++ String.ofList rest ∧ pos = width front := by
  obtain ⟨front, hs, rfl⟩ := h
  exact ⟨front, by rw [← String.ofList_append, ← hs, String.ofList_toList], rfl⟩

theorem RestAt.size_eq (h : RestAt s pos rest) : s.utf8ByteSize = pos + width rest := by
  obtain ⟨front, rfl, rfl⟩ := h.eq_append
  exact String.utf8ByteSize_append

/-- The byte at a boundary is the `firstByte` of the next character. -/
theorem RestAt.byte (h : RestAt s pos (c :: rest)) :
    ∃ hpos : pos < s.toByteArray.size, s.toByteArray[pos] = firstByte c := by
  have hsize := h.size_eq
  obtain ⟨front, rfl, rfl⟩ := h.eq_append
  have hfront : (String.ofList front).toByteArray.size = width front := rfl
  have hfirst := Char.utf8Size_pos c
  have hbytes : (String.ofList (c :: rest)).toByteArray =
      (String.utf8EncodeChar c).toByteArray ++ rest.utf8Encode := by
    rw [String.toByteArray_ofList, List.utf8Encode_cons, List.utf8Encode_singleton]
  have hpos : 0 < (String.utf8EncodeChar c).toByteArray.size := by
    rw [List.size_toByteArray, String.length_utf8EncodeChar]
    exact hfirst
  refine ⟨by rw [String.size_toByteArray, hsize, width_cons]; omega, ?_⟩
  simp only [String.toByteArray_append, hbytes]
  rw [ByteArray.getElem_append_right (Nat.le_of_eq hfront)]
  simp only [hfront, Nat.sub_self]
  rw [ByteArray.getElem_append_left hpos, List.getElem_toByteArray, firstByte, List.head_eq_getElem]

/-- A run of bytes of a class ends where the run of its characters does. -/
theorem RestAt.runEnd_eq {p : UInt8 → Bool} {q : Char → Bool} (hp : AsciiClass p q)
    (h : RestAt s pos rest) : runEnd p s.toByteArray pos = pos + width (rest.takeWhile q) := by
  induction rest generalizing pos with
  | nil =>
      have hsize := h.size_eq
      rw [runEnd, dif_neg (by rw [String.size_toByteArray, hsize]; simp)]
      rfl
  | cons c rest ih =>
      obtain ⟨hpos, hbyte⟩ := h.byte
      rw [runEnd, dif_pos hpos, hbyte, hp.firstByte_eq]
      cases hq : q c with
      | false => simp [hq]
      | true =>
          have hnext : RestAt s (pos + width [c]) rest := h.skip
          rw [width_cons, width_nil, hp.utf8Size_eq c hq] at hnext
          rw [if_pos rfl, ih hnext, List.takeWhile_cons_of_pos hq, width_cons, hp.utf8Size_eq c hq,
            Nat.add_assoc]

/-- The middle of three arrays of bytes. -/
theorem extract_append_middle (a b c : ByteArray) :
    (a ++ (b ++ c)).extract a.size (a.size + b.size) = b := by
  have hskip := @ByteArray.extract_append_size_add a (b ++ c) 0 b.size
  rw [Nat.add_zero] at hskip
  rw [hskip, ByteArray.extract_append_eq_left rfl]

/-- A cut between boundaries is the characters between them. -/
theorem RestAt.cut_eq (h : RestAt s pos (mid ++ rest)) :
    cut s pos (pos + width mid) = .ok (String.ofList mid) := by
  obtain ⟨front, hs, rfl⟩ := h.eq_append
  rw [String.ofList_append] at hs
  have hstart : String.Pos.Raw.IsValid s ⟨width front⟩ :=
    String.Pos.Raw.isValid_iff_exists_append.mpr ⟨_, _, hs, rfl⟩
  have hstop : String.Pos.Raw.IsValid s ⟨width front + width mid⟩ := by
    refine String.Pos.Raw.isValid_iff_exists_append.mpr
      ⟨String.ofList front ++ String.ofList mid, String.ofList rest, ?_, ?_⟩
    · rw [hs, String.append_assoc]
    · rw [String.Pos.Raw.ext_iff]
      exact String.utf8ByteSize_append.symm
  have hbytes : s.toByteArray = (String.ofList front).toByteArray ++
      ((String.ofList mid).toByteArray ++ (String.ofList rest).toByteArray) := by
    rw [hs, String.toByteArray_append, String.toByteArray_append]
  have hmiddle := extract_append_middle (String.ofList front).toByteArray
    (String.ofList mid).toByteArray (String.ofList rest).toByteArray
  rw [String.size_toByteArray, String.size_toByteArray, ← hbytes] at hmiddle
  rw [cut, dif_pos ⟨Nat.le_add_right _ _, hstart, hstop⟩, Except.ok.injEq, ← String.toByteArray_inj,
    String.toByteArray_extract]
  exact hmiddle

/-! ## The grammar -/

/-- The units of time, by the names that they have in expressions. -/
inductive TimeUnit
  | d
  | h
  | mi
  | min
  | mn
  | s
  deriving DecidableEq, Repr

/-- The name of a unit in expressions. -/
def TimeUnit.name : TimeUnit → String
  | .d => "d"
  | .h => "h"
  | .mi => "mi"
  | .min => "min"
  | .mn => "mn"
  | .s => "s"

/-- The seconds of a unit. -/
def TimeUnit.seconds : TimeUnit → Nat
  | .d => 86400
  | .h => 3600
  | .mi | .min | .mn => 60
  | .s => 1

/-- One or more digits and a unit. -/
structure Group where
  digits : List Char
  unit : TimeUnit
  nonempty : digits ≠ []
  numeric : ∀ c ∈ digits, c.isDigit = true

namespace Group

/-- The characters of a group, digits and unit. -/
def chars (g : Group) : List Char := g.digits ++ g.unit.name.toList

/-- The number that the digits of a group write, the first of which counts most. -/
def amount (g : Group) : Nat := Nat.ofDigits 10 (g.digits.map fun c => c.toNat - '0'.toNat).reverse

/-- The seconds that a group stands for. -/
def seconds (g : Group) : Nat := g.amount * g.unit.seconds

end Group

/-! ## Amounts and units -/

/-- `checked` takes what is within the bound. -/
theorem checked_of_le {n : Nat} (h : n ≤ maxSeconds) : checked n = .ok n := if_pos h

/-- `checked` refuses what is beyond it. -/
theorem checked_of_lt {n : Nat} (h : maxSeconds < n) : checked n = .error .refused :=
  if_neg (Nat.not_le.mpr h)

/-- The `amount` of a group is the number that its digits continue from nothing. -/
theorem Group.amount_eq (g : Group) : g.amount = Text.continued 0 g.digits := by
  rw [amount, Nat.ofDigits_eq_foldr, List.foldr_reverse, List.foldl_map, Text.continued]
  simp only [Nat.cast_id, Nat.add_comm]

/-- The digits of a group are read as its `amount`, unless it is too large. -/
theorem readNat_digits (g : Group) : Text.readNat maxSeconds (String.ofList g.digits) =
    if g.amount ≤ maxSeconds then .ok g.amount else .error .tooLarge := by
  rw [g.amount_eq]
  exact Text.readNat_ofList g.numeric g.nonempty maxSeconds

/-- `amount` checks the number that the digits write. -/
theorem amount_digits (g : Group) : amount (String.ofList g.digits) = checked g.amount := by
  rw [amount, readNat_digits, checked]
  by_cases hle : g.amount ≤ maxSeconds
  · rw [if_pos hle, if_pos hle]
  · rw [if_neg hle, if_neg hle]

/-- The name of a unit is read as its seconds. -/
theorem unitSeconds_name (u : TimeUnit) : unitSeconds u.name = .ok u.seconds := by
  cases u <;> rfl

/-- What is not the name of a unit is refused. -/
theorem unitSeconds_cases (name : String) :
    (∃ u : TimeUnit, name = u.name) ∨ unitSeconds name = .error .refused := by
  unfold unitSeconds
  split
  · exact .inl ⟨.d, rfl⟩
  · exact .inl ⟨.h, rfl⟩
  · exact .inl ⟨.mi, rfl⟩
  · exact .inl ⟨.min, rfl⟩
  · exact .inl ⟨.mn, rfl⟩
  · exact .inl ⟨.s, rfl⟩
  · exact .inr rfl

theorem TimeUnit.seconds_pos (u : TimeUnit) : 0 < u.seconds := by
  cases u <;> decide

theorem TimeUnit.isAlpha_of_mem_name (u : TimeUnit) : ∀ c ∈ u.name.toList, c.isAlpha = true := by
  rw [← List.all_eq_true]
  cases u <;> rfl

theorem TimeUnit.takeWhile_isDigit_name (u : TimeUnit) (rest : List Char) :
    (u.name.toList ++ rest).takeWhile Char.isDigit = [] := by
  cases u <;> rfl

/-! ## Groups -/

variable {total n : Nat}

theorem Group.width_pos (g : Group) : 0 < width g.chars := by
  rw [chars, width_append]
  exact Nat.add_pos_left (Duration.width_pos g.nonempty) _

/-- An amount that is too large is so in any unit, so one `checked` suffices. -/
theorem checked_mul (n : Nat) (u : TimeUnit) :
    ((checked n).bind fun n => (Except.ok u.seconds).bind fun perUnit => checked (n * perUnit)) =
      checked (n * u.seconds) := by
  have hle : n ≤ n * u.seconds := Nat.le_mul_of_pos_right n u.seconds_pos
  unfold checked
  split
  · rfl
  · next hgt =>
      rw [if_neg (by omega)]
      rfl

/-- A group in terms of the positions where its runs end. -/
theorem group_eq {unitStart next : Nat} (hdigits : runEnd isDigitByte s.toByteArray pos = unitStart)
    (hletters : runEnd isLetterByte s.toByteArray unitStart = next) (hne : unitStart ≠ pos)
    (advances : pos < next) :
    group s pos = (groupSeconds s pos unitStart next).map fun seconds =>
      ⟨seconds, next, advances⟩ := by
  subst hdigits hletters
  rw [group, dif_neg hne]

/-- What is read of digits and letters that stand at a position. -/
theorem RestAt.groupSeconds_eq {digits letters : List Char}
    (h : RestAt s pos (digits ++ (letters ++ rest))) :
    groupSeconds s pos (pos + width digits) (pos + width digits + width letters) =
      (amount (String.ofList digits)).bind fun n =>
        (unitSeconds (String.ofList letters)).bind fun perUnit => checked (n * perUnit) := by
  rw [groupSeconds, h.cut_eq, h.skip.cut_eq]
  rfl

/-- **A group that stands at a position** is read by `group`, unless it is too large. -/
theorem RestAt.group_eq_ok (g : Group) (h : RestAt s pos (g.chars ++ rest))
    (hend : rest.takeWhile Char.isAlpha = []) :
    group s pos = (checked g.seconds).map
      fun seconds => ⟨seconds, pos + width g.chars, Nat.lt_add_of_pos_right g.width_pos⟩ := by
  rw [Group.chars, List.append_assoc] at h
  have hdigits := h.runEnd_eq asciiClass_digit
  rw [List.takeWhile_append_of_pos g.numeric, g.unit.takeWhile_isDigit_name, List.append_nil]
    at hdigits
  have hletters := h.skip.runEnd_eq asciiClass_letter
  rw [List.takeWhile_append_of_pos g.unit.isAlpha_of_mem_name, hend, List.append_nil] at hletters
  have hseconds := h.groupSeconds_eq
  rw [amount_digits, String.ofList_toList, unitSeconds_name] at hseconds
  have hnext : pos + width g.chars = pos + width g.digits + width g.unit.name.toList := by
    rw [Group.chars, width_append, Nat.add_assoc]
  rw [← hnext] at hletters hseconds
  have hpos := width_pos g.nonempty
  rw [group_eq hdigits hletters (by omega) (Nat.lt_add_of_pos_right g.width_pos), hseconds,
    Group.seconds]
  congr 1
  exact checked_mul g.amount g.unit

/-- A group stands at a position and is read, or nothing is read. In no case is a text cut
inside a character. -/
theorem RestAt.group_cases (h : RestAt s pos rest) :
    (∃ (g : Group) (later : List Char), rest = g.chars ++ later ∧
      group s pos = (checked g.seconds).map
      fun seconds => ⟨seconds, pos + width g.chars, Nat.lt_add_of_pos_right g.width_pos⟩) ∨
    group s pos = .error .refused := by
  have hdigits := h.runEnd_eq asciiClass_digit
  have hsplit := List.takeWhile_append_dropWhile (p := Char.isDigit) (l := rest)
  have hnumeric : ∀ c ∈ rest.takeWhile Char.isDigit, c.isDigit = true :=
    fun c => List.mem_takeWhile_imp
  generalize rest.takeWhile Char.isDigit = digits at hdigits hsplit hnumeric
  generalize rest.dropWhile Char.isDigit = behind at hsplit
  subst hsplit
  rcases eq_or_ne digits [] with rfl | hne
  · right
    rw [group, dif_pos (by simpa using hdigits)]
  · have hletters := h.skip.runEnd_eq asciiClass_letter
    have hsplit := List.takeWhile_append_dropWhile (p := Char.isAlpha) (l := behind)
    have hend := List.takeWhile_eq_nil_iff.mpr (List.dropWhile_get_zero_not Char.isAlpha behind)
    generalize behind.takeWhile Char.isAlpha = letters at hletters hsplit
    generalize behind.dropWhile Char.isAlpha = later at hsplit hend
    subst hsplit
    rcases unitSeconds_cases (String.ofList letters) with ⟨u, hu⟩ | hnone
    · left
      have hchars : digits ++ (letters ++ later) = digits ++ u.name.toList ++ later := by
        rw [← hu, String.toList_ofList, List.append_assoc]
      rw [hchars] at h
      exact ⟨⟨digits, u, hne, hnumeric⟩, later, hchars, h.group_eq_ok _ hend⟩
    · right
      have hpos := width_pos hne
      rw [group_eq hdigits hletters (by omega) (by omega), h.groupSeconds_eq,
        amount_digits ⟨digits, .s, hne, hnumeric⟩, hnone, checked]
      split <;> rfl

/-! ## Expressions -/

/-- Groups, one after the other, have no letter at their beginning. -/
theorem takeWhile_isAlpha_groups (groups : List Group) :
    (groups.flatMap Group.chars).takeWhile Char.isAlpha = [] := by
  cases groups with
  | nil => rfl
  | cons g groups =>
      obtain ⟨c, cs, hcons⟩ := List.exists_cons_of_ne_nil g.nonempty
      have hdigit := (Text.isDigit_iff c).mp (g.numeric c (by simp [hcons]))
      have hletter : ¬ c.isAlpha = true := by
        rw [isAlpha_iff]
        omega
      rw [List.flatMap_cons, Group.chars, hcons, List.cons_append, List.cons_append,
        List.takeWhile_cons_of_neg hletter]

/-- A group is added to the sum, which is too large if a part of it is. -/
theorem scan_of_group {next : Nat} {advances : pos < next} (hpos : pos < s.utf8ByteSize)
    (hgroup : group s pos = (checked n).map fun seconds => ⟨seconds, next, advances⟩)
    (total : Nat) :
    scan s pos total = (checked (total + n)).bind (scan s next) := by
  rw [scan, if_pos hpos, hgroup]
  rcases Nat.lt_or_ge maxSeconds n with hlarge | hle
  · rw [checked_of_lt hlarge, checked_of_lt (by omega)]
    rfl
  · rw [checked_of_le hle]
    rfl

/-- **Groups that are the rest of a text** are summed up by `scan`. -/
theorem RestAt.scan_groups {groups : List Group} (h : RestAt s pos (groups.flatMap Group.chars))
    (htotal : total ≤ maxSeconds) :
    scan s pos total = checked (total + (groups.map Group.seconds).sum) := by
  induction groups generalizing pos total with
  | nil =>
      have hsize := h.size_eq
      rw [scan, if_neg (by rw [hsize]; simp)]
      exact (checked_of_le htotal).symm
  | cons g groups ih =>
      have hsize := h.size_eq
      have hpos := g.width_pos
      rw [List.flatMap_cons, width_append] at hsize
      have hgroup := h.group_eq_ok g (takeWhile_isAlpha_groups groups)
      rw [scan_of_group (by omega) hgroup, List.map_cons, List.sum_cons, ← Nat.add_assoc]
      rcases Nat.lt_or_ge maxSeconds (total + g.seconds) with hlarge | hsum
      · rw [checked_of_lt hlarge, checked_of_lt (by omega)]
        rfl
      · rw [checked_of_le hsum]
        exact ih h.skip hsum

/-- A rest that does not consist of groups is refused by `scan`. -/
theorem RestAt.scan_refused (h : RestAt s pos rest)
    (hnone : ∀ groups : List Group, rest ≠ groups.flatMap Group.chars) (total : Nat) :
    scan s pos total = .error .refused := by
  -- on what is left of the text, behind a group less than before
  induction hleft : width rest using Nat.strong_induction_on generalizing rest pos total with
  | _ left ih =>
      have hsize := h.size_eq
      have hrest : 0 < width rest := width_pos (hnone [])
      rcases h.group_cases with ⟨g, later, rfl, hgroup⟩ | hgroup
      · rw [scan_of_group (by omega) hgroup]
        have hlater : ∀ groups : List Group, later ≠ groups.flatMap Group.chars := by
          rintro groups rfl
          exact hnone (g :: groups) List.flatMap_cons.symm
        have hless : width later < left := by
          have hpos := g.width_pos
          rw [← hleft, width_append]
          omega
        rcases Nat.lt_or_ge maxSeconds (total + g.seconds) with hlarge | hle
        · rw [checked_of_lt hlarge]
          rfl
        · rw [checked_of_le hle]
          exact ih _ hless h.skip hlater _ rfl
      · rw [scan, if_pos (by omega), hgroup]
        rfl

theorem flatMap_chars_ne_nil {groups : List Group} (h : groups ≠ []) :
    groups.flatMap Group.chars ≠ [] := by
  obtain ⟨g, groups, rfl⟩ := List.exists_cons_of_ne_nil h
  simp [Group.chars, g.nonempty]

variable {expression : String}

theorem toList_eq_nil_iff : expression.toList = [] ↔ expression.utf8ByteSize = 0 := by
  rw [String.utf8ByteSize_eq_zero_iff, String.toList_eq_nil_iff]

/-- An expression that consists of groups is read as their sum, unless that is too
large. -/
theorem read_groups {groups : List Group} (hne : groups ≠ [])
    (hchars : expression.toList = groups.flatMap Group.chars) :
    read expression = checked (groups.map Group.seconds).sum := by
  have hstart := restAt_zero expression
  have htext : ¬ expression.utf8ByteSize = 0 := by
    rw [← toList_eq_nil_iff, hchars]
    exact flatMap_chars_ne_nil hne
  rw [hchars] at hstart
  rw [read, if_neg htext, hstart.scan_groups (Nat.zero_le maxSeconds), Nat.zero_add]

/-- Any other expression is refused. -/
theorem read_refused (hnone : ∀ groups : List Group, groups ≠ [] →
    expression.toList ≠ groups.flatMap Group.chars) : read expression = .error .refused := by
  rw [read]
  split
  · rfl
  · next htext =>
      refine (restAt_zero expression).scan_refused (fun groups hchars => ?_) 0
      rcases eq_or_ne groups [] with rfl | hne
      · exact htext (toList_eq_nil_iff.mp hchars)
      · exact hnone groups hne hchars

/-- `read` comes to one of the two. -/
theorem read_cases (expression : String) :
    (∃ groups : List Group, groups ≠ [] ∧ expression.toList = groups.flatMap Group.chars ∧
      read expression = checked (groups.map Group.seconds).sum) ∨
        read expression = .error .refused := by
  by_cases hgroups :
    ∃ groups : List Group, groups ≠ [] ∧ expression.toList = groups.flatMap Group.chars
  · obtain ⟨groups, hne, hchars⟩ := hgroups
    exact .inl ⟨groups, hne, hchars, read_groups hne hchars⟩
  · exact .inr (read_refused fun groups hne hchars => hgroups ⟨groups, hne, hchars⟩)

/-- **What is read**: the sum of the groups that the expression consists of, if that is not
too large. -/
theorem read_eq_ok {m : Nat} : read expression = .ok m ↔ m ≤ maxSeconds ∧ ∃ groups : List Group,
    groups ≠ [] ∧ expression.toList = groups.flatMap Group.chars ∧
      (groups.map Group.seconds).sum = m := by
  constructor
  · intro hread
    rcases read_cases expression with ⟨groups, hne, hchars, hsum⟩ | hnone
    · rw [hsum, checked] at hread
      split at hread
      · next hle =>
          obtain rfl := Except.ok.inj hread
          exact ⟨hle, groups, hne, hchars, rfl⟩
      · contradiction
    · rw [hnone] at hread
      contradiction
  · rintro ⟨hle, groups, hne, hchars, rfl⟩
    rw [read_groups hne hchars, checked_of_le hle]

/-- No text is ever cut inside a character, so `read` does not crash. -/
theorem read_ne_crashed (expression : String) : read expression ≠ .error .crashed := by
  rcases read_cases expression with ⟨groups, -, -, hread⟩ | hread
  · rw [hread, checked]
    split <;> simp
  · rw [hread]
    simp

/-- `parse` takes what `read` does. -/
theorem parse_eq_ok {n : UInt32} : parse expression = .ok n ↔ read expression = .ok n.toNat := by
  unfold parse
  cases hread : read expression with
  | error failure => simp
  | ok m =>
      have hlt : m < UInt32.size := Nat.lt_of_le_of_lt (read_eq_ok.mp hread).1 (by decide)
      rw [Except.ok.injEq, Except.ok.injEq, ← UInt32.toNat_inj, UInt32.toNat_ofNat_of_lt' hlt]

/-- `parse` refuses anything else, with the expression. -/
theorem parse_eq_error {e : CacheError} : parse expression = .error e ↔
    e = .invalidRequest (.badDuration expression) ∧ ∀ m, read expression ≠ .ok m := by
  unfold parse
  cases read expression with
  | error failure => simp [eq_comm]
  | ok m => simp

/-- **Duration expressions** are read exactly by their grammar. An expression is accepted as
`n` seconds if it consists of one or more groups that come to `n`, and then `n` is below
2^32. Any other text, whatever its bytes, and any sum that is too large is an error that
quotes the text as it is. The scan never cuts the text inside a character; that it ends is
part of its definition. -/
theorem parse_grammar (expression : String) :
    (∀ n : UInt32, parse expression = .ok n ↔ ∃ groups : List Group, groups ≠ [] ∧
      expression.toList = groups.flatMap Group.chars ∧ (groups.map Group.seconds).sum = n.toNat) ∧
    (∀ e, parse expression = .error e ↔ e = .invalidRequest (.badDuration expression) ∧
      ∀ groups : List Group, groups ≠ [] → expression.toList = groups.flatMap Group.chars →
        2 ^ 32 ≤ (groups.map Group.seconds).sum) ∧
    (CacheError.invalidRequest (.badDuration expression)).message =
      "Invalid request: Invalid duration pattern : " ++ expression ∧
    read expression ≠ .error .crashed := by
  have hmax : maxSeconds = 2 ^ 32 - 1 := rfl
  refine ⟨fun n => ?_, fun e => ?_, ?_, read_ne_crashed expression⟩
  · have hle : n.toNat ≤ maxSeconds := Nat.le_pred_of_lt n.toNat_lt
    rw [parse_eq_ok, read_eq_ok, and_iff_right hle]
  · rw [parse_eq_error]
    refine and_congr_right fun _ => ⟨fun hnot groups hne hchars => ?_, fun hlarge m hread => ?_⟩
    · by_contra hlt
      exact hnot _ (read_eq_ok.mpr ⟨by omega, groups, hne, hchars, rfl⟩)
    · obtain ⟨hle, groups, hne, hchars, rfl⟩ := read_eq_ok.mp hread
      have hsum := hlarge groups hne hchars
      omega
  · show "Invalid request" ++ ": " ++ ("Invalid duration pattern : " ++ expression) = _
    rw [← String.append_assoc]
    exact congrArg (· ++ expression) (by decide)

/-- Leading zeros count for nothing, and units may come again, in any order. -/
example : (parse "007s1mn1d2mi").toOption = some 86587 := by cbv

end CacheService.Duration
