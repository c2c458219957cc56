import Mathlib.Tactic.SplitIfs

/-!
# CacheService.Proofs.Text.Encoding

Texts as bytes. A character of ASCII is a single byte with its number, and beyond
ASCII no byte of a character is one that ASCII uses (`encode_cases`). So a class of
bytes within ASCII is found among the bytes of a text where its characters are
(`any_toUTF8`). And a text is read back from its bytes (`fromUTF8?_toUTF8`).
-/

namespace CacheService.Text

/-- What the loop of `ByteArray.toList` adds to what it has. -/
theorem toList_loop (bs : ByteArray) (i : Nat) (front : List UInt8) :
    ByteArray.toList.loop bs i front = front.reverse ++ bs.data.toList.drop i := by
  fun_induction ByteArray.toList.loop bs i front with
  | case1 i front h ih =>
    have hlt : i < bs.data.toList.length := by simpa using h
    have hget : bs.get! i = bs.data.toList[i] := by
      simp [ByteArray.get!, getElem!_pos, h]
    rw [ih, List.drop_eq_getElem_cons hlt, hget]
    simp
  | case2 i front h =>
    rw [List.drop_eq_nil_of_le (by simpa using h)]
    simp

/-- The bytes of an array as a list. -/
theorem toList_eq_data (bs : ByteArray) : bs.toList = bs.data.toList := by
  rw [ByteArray.toList, toList_loop]
  rfl

/-- The bytes of a text are those of its characters in turn. -/
theorem toList_toUTF8 (s : String) : s.toUTF8.toList = s.toList.flatMap String.utf8EncodeChar := by
  rw [toList_eq_data, String.toUTF8_eq_toByteArray, ← String.utf8Encode_toList]
  simp [List.utf8Encode]

/-- **A character as bytes**: one byte with its number, or bytes beyond ASCII. -/
theorem encode_cases (c : Char) :
    (c.toNat < 128 ∧ String.utf8EncodeChar c = [UInt8.ofNat c.toNat]) ∨
      (128 ≤ c.toNat ∧ ∀ b ∈ String.utf8EncodeChar c, 128 ≤ b.toNat) := by
  have hval : c.val.toNat = c.toNat := rfl
  by_cases hascii : c.toNat ≤ 127
  · exact .inl ⟨by omega, by simp only [String.utf8EncodeChar, hval, hascii, if_true]⟩
  · have hbyte {n : Nat} (hle : 128 ≤ n) (hlt : n < 256) : 128 ≤ (UInt8.ofNat n).toNat := by
      rwa [UInt8.toNat_ofNat_of_lt' hlt]
    refine .inr ⟨by omega, ?_⟩
    -- two, three or four bytes
    simp only [String.utf8EncodeChar, hval, hascii, if_false]
    split_ifs <;>
      simp only [List.forall_mem_cons, List.not_mem_nil, false_imp_iff, implies_true, and_true] <;>
      and_intros <;> exact hbyte (by omega) (by omega)

/-- A character of ASCII is one byte. -/
theorem encode_of_ascii {c : Char} (h : c.toNat < 128) :
    String.utf8EncodeChar c = [UInt8.ofNat c.toNat] := by
  rcases encode_cases c with ⟨-, hbytes⟩ | ⟨hbeyond, -⟩
  · exact hbytes
  · omega

/-- A class of ASCII bytes is met in a text (`toUTF8`) where its characters are. -/
theorem any_toUTF8 {p : UInt8 → Bool} (hp : ∀ b, p b = true → b.toNat < 128) (s : String) :
    s.toUTF8.toList.any p = true ↔
      ∃ c ∈ s.toList, c.toNat < 128 ∧ p (UInt8.ofNat c.toNat) = true := by
  rw [toList_toUTF8]
  constructor
  · intro h
    obtain ⟨b, hb, hpb⟩ := List.any_eq_true.mp h
    obtain ⟨c, hc, hb⟩ := List.mem_flatMap.mp hb
    rcases encode_cases c with ⟨hascii, hbytes⟩ | ⟨-, hbytes⟩
    · obtain rfl := List.mem_singleton.mp (hbytes ▸ hb)
      exact ⟨c, hc, hascii, hpb⟩
    · exact absurd (hp b hpb) (Nat.not_lt.mpr (hbytes b hb))
  · rintro ⟨c, hc, hascii, hpc⟩
    exact List.any_eq_true.mpr
      ⟨_, List.mem_flatMap.mpr ⟨c, hc, encode_of_ascii hascii ▸ List.mem_singleton_self _⟩, hpc⟩

/-- A text is read from its own bytes. -/
theorem fromUTF8?_toUTF8 (s : String) : String.fromUTF8? s.toUTF8 = some s := by
  simp only [String.fromUTF8?, String.toUTF8_eq_toByteArray, s.isValidUTF8, dif_pos]
  rfl

end CacheService.Text
