import CacheService.Text.Blank
import Mathlib.Data.List.TakeWhile

/-!
# CacheService.Proofs.Text

Pieces of configuration texts. A text is cut at each character of a class, and the pieces
between such characters are what it consists of.

* `trimList_concat` — what is trimmed away counts for nothing;
* `splitList_append_sep` — the first piece, and the pieces behind it; with it goes an
  induction over a text piece by piece, `induction_pieces`;
* `Joined` — items with separators between them and around them. The pieces that are not
  empty are the items (`filter_splitList_of_joined`), and each text consists of some
  (`joined_filter_splitList`).
-/

namespace CacheService.Text

variable {p : Char → Bool} {c : Char} {cs piece : List Char} {items : List (List Char)}

/-! ## Trimming -/

/-- A character of the class at the end of a text is trimmed away. -/
theorem trimList_concat (cs : List Char) (h : p c = true) :
    trimList p (cs ++ [c]) = trimList p cs := by
  rw [trimList, trimList, List.dropWhile_append]
  split
  · next hblank =>
      rw [List.isEmpty_iff.mp hblank, List.dropWhile_cons_of_pos h]
      rfl
  · rw [List.reverse_append, List.reverse_singleton, List.singleton_append,
      List.dropWhile_cons_of_pos h]

/-! ## Splitting -/

/-- `splitList` is `List.splitOnP`. -/
theorem splitList_eq_splitOnP (cs : List Char) : splitList p cs = cs.splitOnP p := by
  induction cs with
  | nil => rfl
  | cons c cs ih =>
      rw [splitList, List.splitOnP_cons_eq_if_modifyHead, ih]
      split
      · rfl
      · cases h : cs.splitOnP p with
        | nil => exact absurd h (List.splitOnP_ne_nil p cs)
        | cons => rfl

/-- A text without separators is one piece. -/
theorem splitList_of_not_sep (h : ∀ c ∈ cs, p c = false) : splitList p cs = [cs] := by
  rw [splitList_eq_splitOnP]
  exact List.splitOnP_eq_singleton h

/-- The first piece ends at the first separator. -/
theorem splitList_append_sep (h : ∀ c ∈ piece, p c = false) (hc : p c = true) (cs : List Char) :
    splitList p (piece ++ c :: cs) = piece :: splitList p cs := by
  rw [splitList_eq_splitOnP, splitList_eq_splitOnP]
  exact List.splitOnP_append_cons_of_forall_mem h c hc cs

theorem splitList_ne_nil (p : Char → Bool) (cs : List Char) : splitList p cs ≠ [] := by
  rw [splitList_eq_splitOnP]
  exact List.splitOnP_ne_nil p cs

/-- Induction over the pieces of a text, the last of which no separator ends. -/
@[elab_as_elim]
theorem induction_pieces (p : Char → Bool) {motive : List Char → Prop}
    (last : ∀ piece, (∀ c ∈ piece, p c = false) → motive piece)
    (more : ∀ piece c cs, (∀ c ∈ piece, p c = false) → p c = true → motive cs →
      motive (piece ++ c :: cs)) (cs : List Char) : motive cs := by
  induction hn : cs.length using Nat.strongRecOn generalizing cs with
  | ind n ih =>
      have hfront : ∀ c ∈ cs.takeWhile (!p ·), p c = false := fun c hc => by
        simpa using List.mem_takeWhile_imp hc
      have hcut := List.takeWhile_append_dropWhile (p := (!p ·)) (l := cs)
      cases hback : cs.dropWhile (!p ·) with
      | nil =>
          rw [hback, List.append_nil] at hcut
          rw [← hcut]
          exact last _ hfront
      | cons c rest =>
          have hc : p c = true := by
            have hhead := List.head?_dropWhile_not (!p ·) cs
            simpa [hback] using hhead
          rw [hback] at hcut
          rw [← hcut] at hn ⊢
          exact more _ c rest hfront hc (ih rest.length (by rw [← hn]; simp; omega) rest rfl)

/-! ## Items -/

/-- Items that are written one behind the other, with separators between them and, it
may be, around them. -/
inductive Joined (p : Char → Bool) : List (List Char) → List Char → Prop
  | nil : Joined p [] []
  | sep {items : List (List Char)} {c : Char} {cs : List Char} :
      p c = true → Joined p items cs → Joined p items (c :: cs)
  | last (item : List Char) : Joined p [item] item
  | item (item : List Char) {items : List (List Char)} {c : Char} {cs : List Char} :
      p c = true → Joined p items cs → Joined p (item :: items) (item ++ c :: cs)

/-- What can be an item: a piece that is not empty. -/
def IsItem (p : Char → Bool) (item : List Char) : Prop := item ≠ [] ∧ ∀ c ∈ item, p c = false

/-- A piece that is not empty is an item. -/
theorem isItem_of_mem_splitList {item : List Char}
    (h : item ∈ (splitList p cs).filter (!·.isEmpty)) :
    IsItem p item := by
  obtain ⟨hmem, hne⟩ := List.mem_filter.mp h
  exact ⟨by simpa using hne, fun c hc => not_sep_of_mem_splitList hmem hc⟩

/-- **Items are found** whatever separators stand between them. -/
theorem filter_splitList_of_joined (h : Joined p items cs)
    (hitems : ∀ item ∈ items, IsItem p item) :
    (splitList p cs).filter (!·.isEmpty) = items := by
  induction h with
  | nil => rfl
  | sep hc _ ih =>
      rw [splitList, if_pos hc, List.filter_cons_of_neg (by simp), ih hitems]
  | last item =>
      obtain ⟨hne, hsep⟩ := hitems item List.mem_cons_self
      rw [splitList_of_not_sep hsep, List.filter_cons_of_pos (by simpa using hne), List.filter_nil]
  | item item hc _ ih =>
      obtain ⟨hne, hsep⟩ := hitems item List.mem_cons_self
      rw [splitList_append_sep hsep hc, List.filter_cons_of_pos (by simpa using hne),
        ih fun item hitem => hitems item (List.mem_cons_of_mem _ hitem)]

/-- Each text consists of items: it is `Joined` of the pieces that are not empty. -/
theorem joined_filter_splitList (p : Char → Bool) (cs : List Char) :
    Joined p ((splitList p cs).filter (!·.isEmpty)) cs := by
  induction cs using induction_pieces p with
  | last piece hsep =>
      rw [splitList_of_not_sep hsep]
      cases piece with
      | nil => exact .nil
      | cons => exact .last _
  | more piece c cs hsep hc ih =>
      rw [splitList_append_sep hsep hc]
      cases piece with
      | nil => exact .sep hc ih
      | cons => exact .item _ hc ih

/-- Separators before items. -/
theorem Joined.seps {seps : List Char} (hseps : ∀ c ∈ seps, p c = true) (h : Joined p items cs) :
    Joined p items (seps ++ cs) := by
  induction seps with
  | nil => exact h
  | cons c seps ih =>
      obtain ⟨hc, hseps⟩ := List.forall_mem_cons.mp hseps
      exact .sep hc (ih hseps)

/-- Items with one separator between them are `Joined`. -/
theorem joined_intercalate {seps : List Char} (hne : seps ≠ []) (hseps : ∀ c ∈ seps, p c = true)
    (items : List (List Char)) : Joined p items (seps.intercalate items) := by
  induction items with
  | nil => exact .nil
  | cons item items ih =>
      cases items with
      | nil =>
          rw [List.intercalate_singleton]
          exact .last item
      | cons item' items =>
          obtain ⟨c, seps, rfl⟩ := List.exists_cons_of_ne_nil hne
          obtain ⟨hc, hseps⟩ := List.forall_mem_cons.mp hseps
          rw [List.intercalate_cons_cons, List.append_assoc]
          exact .item item hc (ih.seps hseps)

end CacheService.Text
