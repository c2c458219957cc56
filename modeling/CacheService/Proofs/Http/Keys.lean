import CacheService.Proofs.Http.Service
import CacheService.Proofs.Text.Encoding
import CacheService.Remote.Server

/-!
# CacheService.Proofs.Http.Keys

The keys that the service takes, beside those that a server takes. The service judges
the characters of a key (`WriteRequest.keyFault?`) and the client the bytes
(`Remote.validateKey`); both refuse an ASCII control character and the space
(`Text.IsAsciiBreak`, `Remote.any_isForbiddenByte`), and the service refuses more beyond
ASCII (`Text.IsWideBreak`).

So what the service takes, the client takes as well (`validateKey_of_accepted`), and
`stricter_iff` says which keys the service alone refuses. A write that it takes is lost
to the client only by the node of its key (`refused_of_dropped`).
-/

namespace CacheService

open Text (isBlank isControl)

/-! ## Characters -/

/-- A character that no key may hold: a control character of ASCII, or the space. -/
def Text.IsAsciiBreak (c : Char) : Prop := c.toNat < 128 ∧ (isControl c = true ∨ c = ' ')

/-- A blank or a control character beyond ASCII. -/
def Text.IsWideBreak (c : Char) : Prop := 128 ≤ c.toNat ∧ (isBlank c = true ∨ isControl c = true)

/-- The space by its number. -/
theorem Text.eq_space_iff {c : Char} : c = ' ' ↔ c.toNat = 32 := by
  rw [← Char.toNat_inj]
  rfl

/-- Within ASCII, blanks (`isBlank`) are control characters or the space. -/
theorem Text.isBlank_or_isControl_iff (c : Char) :
    (isBlank c || isControl c) = true ↔ IsAsciiBreak c ∨ IsWideBreak c := by
  simp only [IsAsciiBreak, IsWideBreak, isBlank, isControl, eq_space_iff, Bool.or_eq_true,
    Bool.and_eq_true, decide_eq_true_eq, beq_iff_eq]
  omega

/-- The bytes that a key may not hold are the characters that `IsAsciiBreak` names. -/
theorem Remote.isForbiddenByte_iff {c : Char} (h : c.toNat < 128) :
    isForbiddenByte (UInt8.ofNat c.toNat) = true ↔ Text.IsAsciiBreak c := by
  have hbyte : (UInt8.ofNat c.toNat).toNat = c.toNat :=
    UInt8.toNat_ofNat_of_lt' (Nat.lt_trans h (by decide))
  simp only [isForbiddenByte, Text.IsAsciiBreak, isControl, Text.eq_space_iff, Bool.or_eq_true,
    Bool.and_eq_true, decide_eq_true_eq, beq_iff_eq, UInt8.le_iff_toNat_le, ← UInt8.toNat_inj,
    hbyte]
  have h20 : UInt8.toNat 0x20 = 32 := rfl
  have h7F : UInt8.toNat 0x7F = 127 := rfl
  omega

/-! ## Keys -/

variable {key : String}

/-- A key holds such a byte exactly if it holds such a character. -/
theorem Remote.any_isForbiddenByte :
    key.toUTF8.toList.any isForbiddenByte = true ↔ ∃ c ∈ key.toList, Text.IsAsciiBreak c := by
  have hascii (b : UInt8) (hb : isForbiddenByte b = true) : b.toNat < 128 := by
    simp only [isForbiddenByte, Bool.or_eq_true, decide_eq_true_eq, beq_iff_eq,
      UInt8.le_iff_toNat_le] at hb
    rcases hb with hb | rfl
    · exact Nat.lt_of_le_of_lt hb (by decide)
    · decide
  rw [Text.any_toUTF8 hascii]
  refine exists_congr fun c => and_congr_right fun _ => ?_
  constructor
  · rintro ⟨hc, hbyte⟩
    exact (isForbiddenByte_iff hc).mp hbyte
  · intro hc
    exact ⟨hc.1, (isForbiddenByte_iff hc.1).mpr hc⟩

/-- What a server takes as a key, by `validateKey`. -/
theorem Remote.validateKey_eq_ok :
    validateKey key = .ok () ↔
      (1 ≤ key.utf8ByteSize ∧ key.utf8ByteSize ≤ maxKeyLength) ∧
        ∀ c ∈ key.toList, ¬Text.IsAsciiBreak c := by
  unfold validateKey keyFault?
  by_cases hsize : key.utf8ByteSize = 0 ∨ maxKeyLength < key.utf8ByteSize
  · simp only [if_pos hsize]
    exact ⟨nofun, fun h => absurd h.1 (by omega)⟩
  · by_cases hbytes : key.toUTF8.toList.any isForbiddenByte = true
    · simp only [if_neg hsize, if_pos hbytes]
      obtain ⟨c, hc, hbreak⟩ := any_isForbiddenByte.mp hbytes
      exact ⟨nofun, fun h => absurd hbreak (h.2 c hc)⟩
    · simp only [if_neg hsize, if_neg hbytes, true_iff]
      exact ⟨by omega, fun c hc hbreak => hbytes (any_isForbiddenByte.mpr ⟨c, hc, hbreak⟩)⟩

namespace Http

/-- What the service takes as a key, and why it refuses one of a fit length. -/
theorem WriteRequest.keyFault?_cases (key : String) :
    (keyFault? key = none ∧ (1 ≤ key.utf8ByteSize ∧ key.utf8ByteSize ≤ Remote.maxKeyLength) ∧
        ∀ c ∈ key.toList, ¬Text.IsAsciiBreak c ∧ ¬Text.IsWideBreak c) ∨
      (keyFault? key = some .blankKey ∧
        (1 ≤ key.utf8ByteSize ∧ key.utf8ByteSize ≤ Remote.maxKeyLength) ∧
        ∃ c ∈ key.toList, Text.IsAsciiBreak c ∨ Text.IsWideBreak c) ∨
      (keyFault? key ≠ none ∧
        ¬(1 ≤ key.utf8ByteSize ∧ key.utf8ByteSize ≤ Remote.maxKeyLength)) := by
  unfold keyFault?
  by_cases hempty : key.isEmpty = true
  · have hsize : key.utf8ByteSize = 0 := by simpa [String.isEmpty] using hempty
    exact .inr (.inr ⟨by simp [hempty], by omega⟩)
  · have hsize : key.utf8ByteSize ≠ 0 := by simpa [String.isEmpty] using hempty
    by_cases hlong : Remote.maxKeyLength < key.utf8ByteSize
    · exact .inr (.inr ⟨by simp [hempty, hlong], by omega⟩)
    · simp only [if_neg hempty, if_neg hlong]
      by_cases hbreak : key.toList.any (fun c => isBlank c || isControl c) = true
      · obtain ⟨c, hc, hbreak'⟩ := List.any_eq_true.mp hbreak
        exact .inr (.inl
          ⟨if_pos hbreak, by omega, c, hc, (Text.isBlank_or_isControl_iff c).mp hbreak'⟩)
      · refine .inl ⟨if_neg hbreak, by omega, fun c hc => not_or.mp fun h => hbreak ?_⟩
        exact List.any_eq_true.mpr ⟨c, hc, (Text.isBlank_or_isControl_iff c).mpr h⟩

/-- **What the service takes**, a server takes as well: `keyFault?` finds no fault
only where `validateKey` finds none. -/
theorem validateKey_of_accepted (h : WriteRequest.keyFault? key = none) :
    Remote.validateKey key = .ok () := by
  rcases WriteRequest.keyFault?_cases key with ⟨-, hsize, hnone⟩ | ⟨hfault, -⟩ | ⟨hfault, -⟩
  · exact Remote.validateKey_eq_ok.mpr ⟨hsize, fun c hc => (hnone c hc).1⟩
  · rw [hfault] at h
    contradiction
  · contradiction

/-- Where the service is stricter than a server. -/
theorem stricter_iff :
    (WriteRequest.keyFault? key ≠ none ∧ Remote.validateKey key = .ok ()) ↔
      (1 ≤ key.utf8ByteSize ∧ key.utf8ByteSize ≤ Remote.maxKeyLength) ∧
        (∀ c ∈ key.toList, ¬Text.IsAsciiBreak c) ∧ ∃ c ∈ key.toList, Text.IsWideBreak c := by
  rw [Remote.validateKey_eq_ok]
  rcases WriteRequest.keyFault?_cases key with
    ⟨hnone, hsize, hclean⟩ | ⟨hfault, hsize, c, hc, hbreak⟩ | ⟨hfault, hsize⟩
  · refine ⟨fun h => absurd hnone h.1, ?_⟩
    rintro ⟨-, -, c, hc, hwide⟩
    exact absurd hwide (hclean c hc).2
  · constructor
    · rintro ⟨-, -, hascii⟩
      exact ⟨hsize, hascii, c, hc, hbreak.resolve_left (hascii c hc)⟩
    · rintro ⟨-, hascii, -⟩
      exact ⟨by simp [hfault], hsize, hascii⟩
  · exact ⟨fun h => absurd h.2.1 hsize, fun h => absurd h.1 hsize⟩

/-- Where the service alone refuses a key, it is for a blank or a control character. -/
theorem blankKey_of_stricter (hfault : WriteRequest.keyFault? key ≠ none)
    (hkey : Remote.validateKey key = .ok ()) : WriteRequest.keyFault? key = some .blankKey := by
  rcases WriteRequest.keyFault?_cases key with ⟨hnone, -⟩ | ⟨hblank, -⟩ | ⟨-, hsize⟩
  · exact absurd hnone hfault
  · exact hblank
  · exact absurd (Remote.validateKey_eq_ok.mp hkey).1 hsize

/-- A write under a key that a server takes is lost to the client only if the node of the
key refuses it. -/
theorem refused_of_dropped (c : Remote.Cluster) (unixSeconds : Int) (value : ByteArray)
    (ttl : UInt32) (hkey : Remote.validateKey key = .ok ())
    (h : (c.startSet unixSeconds key value ttl).cluster.droppedWrites ≠ c.droppedWrites) :
    ∃ n e, c.nodes[c.nodeOf key]? = some n ∧
      n.submitWrite key value (Remote.wireExpiration ttl unixSeconds) = .error e := by
  simp only [Remote.Cluster.startSet, hkey] at h
  cases hnode : c.nodes[c.nodeOf key]? with
  | none => simp [hnode, Remote.Cluster.Turn.returned] at h
  | some n =>
    cases hsubmit : n.submitWrite key value (Remote.wireExpiration ttl unixSeconds) with
    | error e => exact ⟨n, e, rfl, hsubmit⟩
    | ok n' => simp [hnode, hsubmit, Remote.Cluster.Turn.returned] at h

/-- **The service is the stricter judge of keys.** What it takes, a server takes; so the key of a
write that was answered as a success is one that servers take, and the remote client drops no
write under a key that the service takes unless the node of the key refuses it. The two judge
a key differently exactly if it is from 1 to 250 bytes long, has no control character of ASCII
and no space, and has a blank or a control character beyond ASCII; then the service alone
refuses it. -/
theorem stricter_keys (σ : Type) [Remote.Network σ] :
    (∀ key, WriteRequest.keyFault? key = none → Remote.validateKey key = .ok ()) ∧
      (∀ (c : Cache) (w : World σ) (fresh : String) (r : Request),
        r.method = "PUT" → r.route? = some .entries → (respond c w fresh r).1.status = .ok →
          ∃ write, r.write = .ok write ∧ Remote.validateKey write.key = .ok ()) ∧
      (∀ (c : Remote.Cluster) (unixSeconds : Int) (key : String) (value : ByteArray) (ttl : UInt32),
        WriteRequest.keyFault? key = none →
          (c.startSet unixSeconds key value ttl).cluster.droppedWrites ≠ c.droppedWrites →
            ∃ n e, c.nodes[c.nodeOf key]? = some n ∧
              n.submitWrite key value (Remote.wireExpiration ttl unixSeconds) = .error e) ∧
      ∀ key,
        let differs := (1 ≤ key.utf8ByteSize ∧ key.utf8ByteSize ≤ 250) ∧
          (∀ c ∈ key.toList, ¬Text.IsAsciiBreak c) ∧ ∃ c ∈ key.toList, Text.IsWideBreak c
        (¬(WriteRequest.keyFault? key = none ↔ Remote.validateKey key = .ok ()) ↔ differs) ∧
          (differs →
            WriteRequest.keyFault? key = some .blankKey ∧ Remote.validateKey key = .ok ()) := by
  refine ⟨fun key => validateKey_of_accepted, ?_, ?_, ?_⟩
  · intro c w fresh r hmethod hroute hok
    have hanswer := respond_put (c := c) (w := w) hmethod hroute fresh
    rw [hanswer.status_eq] at hok
    obtain ⟨write, ttl, hread, hcheck, -⟩ := write_of_put_ok hok
    exact ⟨write, hread, validateKey_of_accepted (WriteRequest.check_eq_ok.mp hcheck).1⟩
  · intro c unixSeconds key value ttl hkey hdropped
    exact refused_of_dropped c unixSeconds value ttl (validateKey_of_accepted hkey) hdropped
  · intro key differs
    have hiff : WriteRequest.keyFault? key ≠ none ∧ Remote.validateKey key = .ok () ↔ differs :=
      stricter_iff
    have himp : WriteRequest.keyFault? key = none → Remote.validateKey key = .ok () :=
      validateKey_of_accepted
    refine ⟨by grind, fun h => ?_⟩
    obtain ⟨hfault, hkey⟩ := hiff.mpr h
    exact ⟨blankKey_of_stricter hfault hkey, hkey⟩

/-- A key with a wide space is refused by the service alone. One that it takes is stored, and
lost to the remote client where the worker of its node is gone. -/
theorem stricter_keys_wide_space :
    let r : Request :=
      { method := "PUT", target := "/set", headers := [("content-type", "application/json")],
        body := "[\"k\",true,1]".toUTF8 }
    let settings : RemoteSettings := ⟨[⟨"a", 1⟩], .ofSeconds 1, 4, none, none⟩
    let c : Remote.Cluster :=
      { timeout := settings.timeout
        nodes := [{ Remote.Node.create settings ⟨"a", 1⟩ with worker := .gone }] }
    (WriteRequest.keyFault? "a\u3000b" = some .blankKey ∧ Remote.validateKey "a\u3000b" = .ok ()) ∧
      (∃ write, r.write = .ok write ∧ Remote.validateKey write.key = .ok ()) ∧
      ∃ n e, c.nodes[c.nodeOf "k"]? = some n ∧
        n.submitWrite "k" ⟨#[7]⟩ (Remote.wireExpiration 0 5) = .error e := by
  intro r settings c
  obtain ⟨-, hstored, hlost, hdiffers⟩ := stricter_keys Remote.ServerFarm
  have hchars : "a\u3000b".toList = ['a', '\u3000', 'b'] := by decide
  refine ⟨(hdiffers "a\u3000b").2 ⟨by decide, ?_, '\u3000', ?_, ?_⟩, ?_, ?_⟩
  · rw [hchars]
    simp only [List.forall_mem_cons, List.not_mem_nil, false_imp_iff, implies_true, and_true]
    unfold Text.IsAsciiBreak
    decide
  · simp [hchars]
  · unfold Text.IsWideBreak
    decide
  · exact hstored { config := .disabled } { clock := 5, network := { servers := [] } } "1" r rfl
      (by decide) (by decide +kernel)
  · exact hlost c 5 "k" ⟨#[7]⟩ 0 (by decide) (by decide +kernel)

end Http

end CacheService
