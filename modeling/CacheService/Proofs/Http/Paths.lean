import CacheService.Http.Route
import CacheService.Proofs.Text.Encoding
import Mathlib.Data.List.TakeWhile

/-!
# CacheService.Proofs.Http.Paths

Keys in the targets of requests. A segment in which every byte of a key is escaped
(`escaped`) is read as that key, whatever its characters are (`segmentText?_escaped`):
no escape holds what ends a segment or the path (`mem_escaped`), and `unescape` reads
each as its byte (`unescape_escaped`). So a target can name every key that is not empty
(`exists_target`).
-/

namespace CacheService.Http

/-! ## Escapes -/

/-- A byte as an escape. -/
def escape (b : UInt8) : List Char :=
  ['%', Nat.digitChar (b.toNat / 16), Nat.digitChar (b.toNat % 16)]

/-- Bytes with every one of them escaped. -/
def escaped (bs : List UInt8) : List Char := bs.flatMap escape

/-- A hexadecimal digit is read as what it stands for. -/
theorem hexValue?_digitChar : ∀ n < 16,
    (Nat.digitChar n).toNat < 128 ∧
      Text.hexValue? (UInt8.ofNat (Nat.digitChar n).toNat) = some n := by
  decide

/-- No escape holds what ends a segment. -/
theorem mem_escape {b : UInt8} {c : Char} (h : c ∈ escape b) : c ≠ '/' ∧ endsPath c = false := by
  have hdigit : ∀ n < 16, Nat.digitChar n ≠ '/' ∧ endsPath (Nat.digitChar n) = false := by decide
  have hbyte := b.toNat_lt
  simp only [escape, List.mem_cons, List.not_mem_nil, or_false] at h
  rcases h with rfl | rfl | rfl
  · decide
  · exact hdigit _ (by omega)
  · exact hdigit _ (by omega)

/-- Nor do several. -/
theorem mem_escaped {bs : List UInt8} {c : Char} (h : c ∈ escaped bs) :
    c ≠ '/' ∧ endsPath c = false := by
  obtain ⟨b, -, hc⟩ := List.mem_flatMap.mp h
  exact mem_escape hc

/-- `unescape` reads an escape as its byte. -/
theorem unescape_escape (b : UInt8) (rest : List UInt8) :
    unescape ((escape b).flatMap String.utf8EncodeChar ++ rest) = b :: unescape rest := by
  have hbyte := b.toNat_lt
  obtain ⟨hhigh, hhighValue⟩ := hexValue?_digitChar (b.toNat / 16) (by omega)
  obtain ⟨hlow, hlowValue⟩ := hexValue?_digitChar (b.toNat % 16) (by omega)
  have hbytes : (escape b).flatMap String.utf8EncodeChar =
      [0x25, UInt8.ofNat (Nat.digitChar (b.toNat / 16)).toNat,
        UInt8.ofNat (Nat.digitChar (b.toNat % 16)).toNat] := by
    simp only [escape, List.flatMap_cons, List.flatMap_nil, Text.encode_of_ascii hhigh,
      Text.encode_of_ascii hlow]
    rfl
  have hvalue : 16 * (b.toNat / 16) + b.toNat % 16 = b.toNat := Nat.div_add_mod b.toNat 16
  simp only [hbytes, List.cons_append, List.nil_append, unescape, hhighValue, hlowValue, hvalue,
    UInt8.ofNat_toNat]

/-- It reads several as their bytes. -/
theorem unescape_escaped (bs : List UInt8) :
    unescape ((escaped bs).flatMap String.utf8EncodeChar) = bs := by
  induction bs with
  | nil => rfl
  | cons b bs ih =>
    rw [escaped, List.flatMap_cons, List.flatMap_append, unescape_escape]
    exact congrArg (b :: ·) ih

/-- **An escaped key** is read as the key by `segmentText?`. -/
theorem segmentText?_escaped (key : String) :
    segmentText? (escaped key.toUTF8.toList) = some key := by
  rw [segmentText?, Text.toList_toUTF8, String.toList_ofList, unescape_escaped, Text.toList_eq_data]
  exact Text.fromUTF8?_toUTF8 key

/-! ## Targets -/

/-- **Every key** that is not empty can be named. -/
theorem exists_target {key : String} (h : key ≠ "") :
    ∃ (target : String) (segment : List Char),
      route? (pathOf target.toList) = some (.entry segment) ∧ segmentText? segment = some key := by
  let segment := escaped key.toUTF8.toList
  have hnonempty : segment ≠ [] := by
    intro hnil
    have hread : segmentText? segment = some key := segmentText?_escaped key
    have hempty : segmentText? [] = some "" := by
      simpa [Text.toList_toUTF8, escaped] using segmentText?_escaped ""
    rw [hnil, hempty] at hread
    exact h (Option.some.inj hread).symm
  have hslash : '/' ∉ segment := fun hmem => (mem_escaped hmem).1 rfl
  have hpath : pathOf ("/get/".toList ++ segment) = "/get/".toList ++ segment := by
    have hfront : ("/get/".toList.all (!endsPath ·)) = true := by decide
    have hall : ∀ c ∈ "/get/".toList ++ segment, (!endsPath c) = true := by
      intro c hc
      rcases List.mem_append.mp hc with hc | hc
      · exact List.all_eq_true.mp hfront c hc
      · simp [(mem_escaped hc).2]
    exact List.takeWhile_eq_self_iff.mpr hall
  refine ⟨String.ofList ("/get/".toList ++ segment), segment, ?_, segmentText?_escaped key⟩
  rw [String.toList_ofList, hpath]
  exact route?_get hnonempty hslash

end CacheService.Http
