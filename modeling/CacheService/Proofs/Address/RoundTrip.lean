import CacheService.Address.Parse
import CacheService.Proofs.Outcome
import CacheService.Proofs.Text
import CacheService.Proofs.Text.Digits

/-!
# CacheService.Proofs.Address.RoundTrip

Addresses are read again from the texts that they are printed as. A host that has been read
neither begins with an opening bracket nor ends with a closing one (`IsBare`), whatever stands
inside it; so the brackets that are printed around it are the ones that reading takes off.

* `splitLast?_eq_some`, `bareHost_bracketed` — the parts of an address, whose port is read
  again by `Text.readNat_toString`;
* `ofList?_eq_some`, `ofList?_toList` — one address;
* `parseList_eq_ok`, `Lists.printable` — lists, item by item;
* `survive_printing` — both, for whatever has been read.
-/

namespace CacheService.Address

open Text (isBlank readNat readNat_le readNat_toString isDigit_of_mem_toString splitList IsItem
  Joined isItem_of_mem_splitList filter_splitList_of_joined joined_filter_splitList
  joined_intercalate)

variable {a : Address} {cs front back host : List Char} {c sep : Char} {s : String}

/-! ## The last separator -/

/-- `splitLast?` cuts where no separator follows. -/
theorem splitLast?_append (front : List Char) (h : sep ∉ back) :
    splitLast? sep (front ++ sep :: back) = some (front, back) := by
  have hne : ∀ c ∈ back.reverse, (c != sep) = true := fun c hc =>
    bne_iff_ne.mpr fun heq => h (heq ▸ List.mem_reverse.mp hc)
  have hreverse : (front ++ sep :: back).reverse = back.reverse ++ sep :: front.reverse := by simp
  rw [splitLast?, hreverse, List.dropWhile_append_of_pos hne, List.takeWhile_append_of_pos hne]
  simp

/-- `splitLast?` cuts at the last separator. -/
theorem splitLast?_eq_some :
    splitLast? sep cs = some (front, back) ↔ cs = front ++ sep :: back ∧ sep ∉ back := by
  constructor
  · intro h
    by_cases hmem : sep ∈ cs.reverse
    · obtain ⟨before, after, hcs, hbefore⟩ := List.eq_append_cons_of_mem hmem
      have hcs : cs = after.reverse ++ sep :: before.reverse := by
        rw [← List.reverse_reverse cs, hcs]
        simp
      have hbefore : sep ∉ before.reverse := by simpa using hbefore
      rw [hcs, splitLast?_append _ hbefore] at h
      obtain ⟨rfl, rfl⟩ := Prod.mk.inj (Option.some.inj h)
      exact ⟨hcs, hbefore⟩
    · have hnone : cs.reverse.dropWhile (· != sep) = [] := by
        rw [List.dropWhile_eq_nil_iff]
        exact fun c hc => bne_iff_ne.mpr fun heq => hmem (heq ▸ hc)
      rw [splitLast?, hnone] at h
      contradiction
  · rintro ⟨rfl, hback⟩
    exact splitLast?_append front hback

/-! ## Hosts -/

/-- A host from which no bracket can be taken off. -/
structure IsBare (host : List Char) : Prop where
  ne_nil : host ≠ []
  head_ne : host.head? ≠ some '['
  last_ne : host.getLast? ≠ some ']'

/-- What does not begin with a character loses nothing at its front. -/
theorem dropWhile_eq_self {d : Char} (h : host.head? ≠ some d) :
    host.dropWhile (· == d) = host := by
  cases host with
  | nil => rfl
  | cons c host => exact List.dropWhile_cons_of_neg fun hc => h (by rw [beq_iff_eq.mp hc]; rfl)

theorem head?_dropWhile_ne (d : Char) (cs : List Char) :
    (cs.dropWhile (· == d)).head? ≠ some d := by
  intro h
  have hnot := List.head?_dropWhile_not (· == d) cs
  simp [h] at hnot

/-- `bareHost` leaves a bare host as it is. -/
theorem IsBare.bareHost_eq (h : IsBare host) : bareHost host = host := by
  rw [bareHost, dropWhile_eq_self h.head_ne, dropWhile_eq_self (by simpa using h.last_ne),
    List.reverse_reverse]

/-- Brackets around a host that `IsBare` are taken off. -/
theorem IsBare.bareHost_bracketed (h : IsBare host) : bareHost ('[' :: (host ++ [']'])) = host := by
  have hopen : ('[' :: (host ++ [']'])).dropWhile (· == '[') = host ++ [']'] := by
    rw [List.dropWhile_cons_of_pos (by rfl), dropWhile_eq_self]
    rw [List.head?_append_of_ne_nil _ h.ne_nil]
    exact h.head_ne
  rw [bareHost, hopen, List.reverse_append, List.reverse_singleton, List.singleton_append,
    List.dropWhile_cons_of_pos (by rfl), dropWhile_eq_self (by simpa using h.last_ne),
    List.reverse_reverse]

/-- What is left of a host by `bareHost` is bare. -/
theorem isBare_bareHost (h : bareHost cs ≠ []) : IsBare (bareHost cs) where
  ne_nil := h
  head_ne := by
    obtain ⟨tail, htail⟩ : bareHost cs <+: cs.dropWhile (· == '[') := by
      rw [bareHost, ← List.reverse_suffix, List.reverse_reverse]
      exact List.dropWhile_suffix _
    have hhead := head?_dropWhile_ne '[' cs
    rwa [← htail, List.head?_append_of_ne_nil _ h] at hhead
  last_ne := by
    rw [bareHost, List.getLast?_reverse]
    exact head?_dropWhile_ne ']' _

/-- `bareHost` only takes characters off. -/
theorem mem_of_mem_bareHost (h : c ∈ bareHost cs) : c ∈ cs := by
  have hopen := (List.dropWhile_suffix _).subset (List.mem_reverse.mp h)
  exact (List.dropWhile_suffix _).subset (List.mem_reverse.mp hopen)

/-! ## One address -/

/-- An address is read from what stands before its last colon and behind it. -/
theorem ofList?_append (front : List Char) (h : ':' ∉ back) :
    ofList? (front ++ ':' :: back) =
      if bareHost front = [] then none
      else (readNat (UInt16.size - 1) (String.ofList back)).toOption.map
        fun port => ⟨String.ofList (bareHost front), UInt16.ofNat port⟩ := by
  simp only [ofList?, splitLast?_append front h, Option.bind_eq_bind, Option.bind_some,
    List.isEmpty_iff, Option.bind_none, Option.map_eq_bind]
  rfl

/-- What an address is read from: a host, the last colon, and a port. -/
theorem ofList?_eq_some :
    ofList? cs = some a ↔ ∃ front back, cs = front ++ ':' :: back ∧ ':' ∉ back ∧
    bareHost front = a.host.toList ∧ bareHost front ≠ [] ∧
    readNat (UInt16.size - 1) (String.ofList back) = .ok a.port.toNat := by
  constructor
  · intro h
    have hcut : ∃ front back, cs = front ++ ':' :: back ∧ ':' ∉ back := by
      obtain ⟨⟨front, back⟩, hcut, -⟩ := Option.bind_eq_some_iff.mp h
      exact ⟨front, back, splitLast?_eq_some.mp hcut⟩
    obtain ⟨front, back, rfl, hback⟩ := hcut
    rw [ofList?_append front hback] at h
    split at h
    · contradiction
    · next hhost =>
        obtain ⟨port, hport, rfl⟩ := Option.map_eq_some_iff.mp h
        rw [toOption_eq_some] at hport
        have hsize : port < UInt16.size := Nat.lt_of_le_of_lt (readNat_le hport) (by decide)
        refine ⟨front, back, rfl, hback, String.toList_ofList.symm, hhost, ?_⟩
        rw [hport, UInt16.toNat_ofNat_of_lt' hsize]
  · rintro ⟨front, back, rfl, hback, hhost, hne, hport⟩
    rw [ofList?_append front hback, if_neg hne, hport, hhost, String.ofList_toList]
    show some (Address.mk a.host (UInt16.ofNat a.port.toNat)) = some a
    rw [UInt16.ofNat_toNat]

/-- A host that has been read `IsBare`. -/
theorem isBare_of_ofList? (h : ofList? cs = some a) : IsBare a.host.toList := by
  obtain ⟨front, back, -, -, hhost, hne, -⟩ := ofList?_eq_some.mp h
  exact hhost ▸ isBare_bareHost hne

/-- **An address is read from its text.** -/
theorem ofList?_toList (h : IsBare a.host.toList) : ofList? a.toList = some a := by
  have hport : ':' ∉ (toString a.port.toNat).toList := fun hmem => by
    have hdigit := isDigit_of_mem_toString hmem
    contradiction
  have hread : readNat (UInt16.size - 1) (String.ofList (toString a.port.toNat).toList) =
      .ok a.port.toNat := by
    rw [String.ofList_toList]
    exact readNat_toString (Nat.le_pred_of_lt a.port.toNat_lt)
  rw [toList]
  split
  · refine ofList?_eq_some.mpr ⟨'[' :: (a.host.toList ++ [']']), _, ?_, hport, ?_, ?_, hread⟩
    · simp
    · exact h.bareHost_bracketed
    · rw [h.bareHost_bracketed]
      exact h.ne_nil
  · refine ofList?_eq_some.mpr ⟨a.host.toList, _, rfl, hport, h.bareHost_eq, ?_, hread⟩
    rw [h.bareHost_eq]
    exact h.ne_nil

/-- `parse` reads an address as `ofList?` does. -/
theorem parse_eq_ok : parse s = .ok a ↔ ofList? s.toList = some a := by
  rw [parse]
  cases ofList? s.toList with
  | none => exact ⟨nofun, nofun⟩
  | some b =>
      exact ⟨fun h => congrArg some (Except.ok.inj h),
        fun h => congrArg Except.ok (Option.some.inj h)⟩

/-- An address whose host `IsBare` is read from its `text`. -/
theorem parse_text (h : IsBare a.host.toList) : parse a.text = .ok a := by
  rw [parse_eq_ok, text, String.toList_ofList, ofList?_toList h]

/-! ## Lists -/

/-- No digit is a separator. -/
theorem isSeparator_of_isDigit (h : c.isDigit = true) : isSeparator c = false := by
  rw [Text.isDigit_iff] at h
  have hcomma : (c == ',') = false := by
    rw [beq_eq_false_iff_ne]
    rintro rfl
    exact absurd h (by decide)
  simp only [isSeparator, isBlank, hcomma, Bool.or_false, Bool.or_eq_false_iff,
    Bool.and_eq_false_iff, decide_eq_false_iff_not, beq_eq_false_iff_ne]
  omega

/-- The text of an address that has been read from an item is an item. -/
theorem isItem_toList (h : ofList? cs = some a) (hitem : IsItem isSeparator cs) :
    IsItem isSeparator a.toList := by
  obtain ⟨front, back, rfl, -, hhost, -⟩ := ofList?_eq_some.mp h
  have hmarks : isSeparator '[' = false ∧ isSeparator ']' = false ∧ isSeparator ':' = false := by
    decide
  have hin : ∀ c ∈ a.host.toList, isSeparator c = false := fun c hc =>
    hitem.2 c (List.mem_append_left _ (mem_of_mem_bareHost (hhost ▸ hc)))
  have hport : ∀ c ∈ (toString a.port.toNat).toList, isSeparator c = false := fun c hc =>
    isSeparator_of_isDigit (isDigit_of_mem_toString hc)
  rw [toList]
  split
  · exact ⟨by simp, by grind⟩
  · exact ⟨by simp, by grind⟩

variable {list : List Address} {items : List (List Char)}

/-- The items that blanks and commas divide a text into (`Joined`). -/
structure ItemsOf (items : List (List Char)) (s : String) : Prop where
  joined : Joined isSeparator items s.toList
  isItem : ∀ item ∈ items, IsItem isSeparator item

/-- `splitList` finds such items in every text. -/
theorem itemsOf_splitList (s : String) :
    ItemsOf ((splitList isSeparator s.toList).filter (!·.isEmpty)) s :=
  ⟨joined_filter_splitList _ _, fun _ hitem => isItem_of_mem_splitList hitem⟩

/-- `parseList` reads each item as an address. -/
theorem ItemsOf.parseList_eq (h : ItemsOf items s) :
    parseList s = items.mapM fun item => parse (String.ofList item) := by
  rw [parseList, filter_splitList_of_joined h.joined h.isItem]

/-- A text is a list of addresses: each of its items is one of them, in their order. -/
def Lists (s : String) (list : List Address) : Prop :=
  ∃ items, ItemsOf items s ∧
    List.Forall₂ (fun item a => parse (String.ofList item) = .ok a) items list

/-- `parseList` reads a text as a list exactly if it `Lists` the addresses. -/
theorem parseList_eq_ok : parseList s = .ok list ↔ Lists s list := by
  constructor
  · intro h
    exact ⟨_, itemsOf_splitList s, mapM_eq_ok.mp h⟩
  · rintro ⟨items, hitems, hread⟩
    rw [hitems.parseList_eq, mapM_eq_ok]
    exact hread

/-- What is read from a list can be printed in a list. -/
theorem Lists.printable (h : Lists s list) (ha : a ∈ list) :
    IsBare a.host.toList ∧ IsItem isSeparator a.text.toList := by
  obtain ⟨items, hitems, hread⟩ := h
  obtain ⟨item, hitem, hparse⟩ := exists_of_forall₂ hread.flip ha
  have hread := parse_eq_ok.mp hparse
  rw [String.toList_ofList] at hread
  refine ⟨isBare_of_ofList? hread, ?_⟩
  rw [text, String.toList_ofList]
  exact isItem_toList hread (hitems.isItem item hitem)

/-- **Addresses survive printing.** Whatever an address was read from, it is read from its own
text too. Whatever a list was read from, the texts of its addresses are read as the list
again, with any one separator between them that consists of blanks and commas, and with any
mix of blanks and commas between them and around them. -/
theorem survive_printing :
    (∀ s a, parse s = .ok a → parse a.text = .ok a) ∧
    ∀ s list, parseList s = .ok list →
      (∀ separator : String, separator ≠ "" → (∀ c ∈ separator.toList, isBlank c = true ∨ c = ',') →
        parseList (separator.intercalate (list.map text)) = .ok list) ∧
      ∀ t : String, Joined isSeparator (list.map fun a => a.text.toList) t.toList →
        parseList t = .ok list := by
  have hlist {s t : String} {list : List Address} (h : parseList s = .ok list)
      (ht : Joined isSeparator (list.map fun a => a.text.toList) t.toList) :
        parseList t = .ok list := by
    have hprinted (a : Address) (ha : a ∈ list) := (parseList_eq_ok.mp h).printable ha
    refine parseList_eq_ok.mpr ⟨_, ⟨ht, ?_⟩, ?_⟩
    · rw [List.forall_mem_map]
      exact fun a ha => (hprinted a ha).2
    · rw [List.forall₂_map_left_iff, List.forall₂_same]
      intro a ha
      rw [String.ofList_toList]
      exact parse_text (hprinted a ha).1
  refine ⟨fun s a h => parse_text (isBare_of_ofList? (parse_eq_ok.mp h)), fun s list h =>
    ⟨fun separator hne hseps => hlist h ?_, fun t ht => hlist h ht⟩⟩
  rw [String.toList_intercalate, List.map_map]
  refine joined_intercalate (by simpa using hne) (fun c hc => ?_) _
  simpa [isSeparator] using hseps c hc

/-- Brackets around a host and inside it, colons of a host, and ports with a sign or with zeros
before them. -/
theorem survive_printing_brackets :
    parse "[[fe80::1]:+08080" = .ok ⟨"fe80::1", 8080⟩ ∧
      parse "[fe80::1]:8080" = .ok ⟨"fe80::1", 8080⟩ ∧
    parseList "a]b[:0443,,[::1]:+1\n" = .ok [⟨"a]b[", 443⟩, ⟨"::1", 1⟩] ∧
    parseList "a]b[:443 [::1]:1" = .ok [⟨"a]b[", 443⟩, ⟨"::1", 1⟩] ∧
    parseList ", a]b[:443\u2003,[::1]:1" = .ok [⟨"a]b[", 443⟩, ⟨"::1", 1⟩] := by
  have hone : parse "[[fe80::1]:+08080" = .ok ⟨"fe80::1", 8080⟩ := by decide
  have hlist : parseList "a]b[:0443,,[::1]:+1\n" = .ok [⟨"a]b[", 443⟩, ⟨"::1", 1⟩] := by decide
  obtain ⟨hspace, hmixed⟩ := survive_printing.2 _ _ hlist
  refine ⟨hone, survive_printing.1 _ _ hone, hlist, ?_, ?_⟩
  · exact hspace " " (by decide) (by simp [isBlank])
  · refine hmixed ", a]b[:443\u2003,[::1]:1" ?_
    exact .sep (by decide)
      (.sep (by decide) (.item "a]b[:443".toList (by decide) (.sep (by decide) (.last _))))

end CacheService.Address
