import CacheService.Properties
import CacheService.Proofs.Text
import Mathlib.Data.List.Perm.Basic
import Mathlib.Data.String.Basic

/-!
# CacheService.Proofs.Properties

Configuration texts and what they say. A text may be divided into its lines in more ways than
one: a carriage return before a line feed belongs to the line or to its end, and behind a last
line feed there is an empty line or none. All of them say the same (`readLines_lines`), so that
what is shown here holds for any division (`LinesOf`).

* `read_of_silent`, `read_of_gives`, `read_of_malformed` — the three kinds of lines;
* `readLines_ok`, `readLines_error` — what lines come to: of several lines for a key the last
  wins, and the first malformed line is the error;
* `last_line_wins` — texts, texts put together, and texts with their lines in another order.
-/

namespace CacheService.Properties

open Text (trimList trimList_concat isBlank splitList splitList_of_not_sep splitList_append_sep
  splitList_ne_nil induction_pieces trim)

variable {p q : Properties} {key value : String} {line cs : List Char} {ls ms : List (List Char)}

/-! ## Contents -/

/-- `keys` are those that have a value. -/
theorem mem_keys : key ∈ p.keys ↔ ∃ value, p.get? key = some value := by
  rw [keys, Std.TreeMap.mem_keys, Std.TreeMap.mem_iff_isSome_getElem?, Option.isSome_iff_exists]
  rfl

/-- `contains` asks whether a key has a value. -/
theorem contains_iff : p.contains key = true ↔ ∃ value, p.get? key = some value :=
  Option.isSome_iff_exists

/-- `keys` come in the order of their texts. -/
theorem pairwise_keys (p : Properties) : p.keys.Pairwise (· < ·) :=
  List.Pairwise.imp (fun h => compare_lt_iff_lt.mp h) Std.TreeMap.ordered_keys

/-- `get?` shows all there is. -/
theorem toList_eq_of_get? (h : ∀ key, p.get? key = q.get? key) : p.toList = q.toList :=
  (Std.TreeMap.Equiv.of_forall_constGet?_eq h).toList_eq

/-- The configuration `p` overridden by `q`. -/
def override (p q : Properties) : Properties := ⟨p.values ∪ q.values⟩

/-- A key has the value of the second configuration, or else that of the first. -/
theorem get?_override (p q : Properties) (key : String) :
    (p.override q).get? key = (q.get? key).or (p.get? key) :=
  Std.TreeMap.getElem?_union

/-! ## Kinds of lines -/

/-- A line that says nothing: it is blank or a comment. -/
def Silent (line : List Char) : Prop :=
  trimList isBlank line = [] ∨ (trimList isBlank line).head? = some '#' ∨
    (trimList isBlank line).head? = some '!'

instance (line : List Char) : Decidable (Silent line) := inferInstanceAs (Decidable (_ ∨ _ ∨ _))

/-- A line that gives `key` its value: what stands before its first equals sign and what
stands behind it. -/
def Gives (line : List Char) (key value : String) : Prop :=
  ¬Silent line ∧ ∃ front back, trimList isBlank line = front ++ '=' :: back ∧ '=' ∉ front ∧
    key = trim (String.ofList front) ∧ value = trim (String.ofList back)

/-- A line that is neither `Silent` nor has an equals sign. -/
def Malformed (line : List Char) : Prop := ¬Silent line ∧ '=' ∉ trimList isBlank line

instance (line : List Char) : Decidable (Malformed line) := inferInstanceAs (Decidable (_ ∧ _))

/-- A line is of one of the three kinds. -/
theorem line_cases (line : List Char) :
    Silent line ∨ Malformed line ∨ ∃ key value, Gives line key value := by
  by_cases hsilent : Silent line
  · exact .inl hsilent
  · by_cases hsign : '=' ∈ trimList isBlank line
    · obtain ⟨front, back, htrim, hfront⟩ := List.eq_append_cons_of_mem hsign
      exact .inr (.inr ⟨_, _, hsilent, front, back, htrim, hfront, rfl, rfl⟩)
    · exact .inr (.inl ⟨hsilent, hsign⟩)

/-- `Line.read` passes over a `Silent` line. -/
theorem read_of_silent (h : Silent line) : Line.read line = .silent := by
  unfold Line.read
  split
  · rfl
  · rfl
  · rfl
  · next hnil hhash hbang =>
      rcases h with h | h | h
      · exact absurd h hnil
      · obtain ⟨rest, hrest⟩ := List.head?_eq_some_iff.mp h
        exact absurd hrest (hhash rest)
      · obtain ⟨rest, hrest⟩ := List.head?_eq_some_iff.mp h
        exact absurd hrest (hbang rest)

/-- A line that is not silent is cut at its first equals sign. -/
theorem read_of_not_silent (h : ¬Silent line) :
    Line.read line =
      if '=' ∈ trimList isBlank line then
        .pair (trim (String.ofList ((trimList isBlank line).takeWhile (· != '='))))
          (trim (String.ofList ((trimList isBlank line).dropWhile (· != '=')).tail))
      else .bad (String.ofList (trimList isBlank line)) := by
  unfold Line.read Silent at *
  split
  · next hnil => exact absurd (.inl hnil) h
  · next hhash => exact absurd (.inr (.inl (by rw [hhash]; rfl))) h
  · next hbang => exact absurd (.inr (.inr (by rw [hbang]; rfl))) h
  · dsimp only
    split
    · next hrest =>
        have hsign : '=' ∉ trimList isBlank line := fun hmem => by
          simpa using List.dropWhile_eq_nil_iff.mp hrest _ hmem
        rw [if_neg hsign]
    · next c back hrest =>
        have hsign : '=' ∈ trimList isBlank line := by
          by_contra hsign
          have hall : ∀ c ∈ trimList isBlank line, (c != '=') = true :=
            fun c hc => bne_iff_ne.mpr fun heq => hsign (heq ▸ hc)
          rw [List.dropWhile_eq_nil_iff.mpr hall] at hrest
          contradiction
        rw [if_pos hsign, hrest, trim, trim, String.toList_ofList, String.toList_ofList,
          List.tail_cons]

/-- A `Malformed` line is bad, and reported trimmed. -/
theorem read_of_malformed (h : Malformed line) :
    Line.read line = .bad (String.ofList (trimList isBlank line)) := by
  rw [read_of_not_silent h.1, if_neg h.2]

/-- A line that `Gives` a key its value is read as the two. -/
theorem read_of_gives (h : Gives line key value) : Line.read line = .pair key value := by
  obtain ⟨hsilent, front, back, htrim, hfront, rfl, rfl⟩ := h
  have hne : ∀ c ∈ front, (c != '=') = true :=
    fun c hc => bne_iff_ne.mpr fun heq => hfront (heq ▸ hc)
  rw [read_of_not_silent hsilent, htrim, if_pos (by simp), List.dropWhile_append_of_pos hne,
    List.takeWhile_append_of_pos hne]
  simp

/-- `Line.read` finds a pair exactly where a line `Gives` one. -/
theorem gives_iff : Gives line key value ↔ Line.read line = .pair key value := by
  refine ⟨read_of_gives, fun h => ?_⟩
  rcases line_cases line with hsilent | hbad | ⟨k, v, hgives⟩
  · rw [read_of_silent hsilent] at h
    contradiction
  · rw [read_of_malformed hbad] at h
    contradiction
  · rw [read_of_gives hgives, Line.pair.injEq] at h
    obtain ⟨rfl, rfl⟩ := h
    exact hgives

/-! ## Values of a key -/

/-- The value that a line gives `key`, if it gives it one. -/
def valueOf? (key : String) (line : List Char) : Option String :=
  match Line.read line with
  | .pair k v => if k = key then some v else none
  | _ => none

/-- `valueOf?` finds what the line `Gives`. -/
theorem valueOf?_eq_some : valueOf? key line = some value ↔ Gives line key value := by
  rw [gives_iff, valueOf?]
  split
  · next k v hread =>
      rw [hread, Line.pair.injEq]
      split
      · next hkey => simp [hkey]
      · next hkey => simp [hkey]
  · next hread => exact ⟨nofun, fun h => absurd h (hread key value)⟩

theorem valueOf?_eq_none : valueOf? key line = none ↔ ∀ value, ¬Gives line key value := by
  simp only [Option.eq_none_iff_forall_ne_some, ne_eq, valueOf?_eq_some]

/-- The value that the last line for `key` gives it. -/
def lastValue? (key : String) (ls : List (List Char)) : Option String :=
  ls.reverse.findSome? (valueOf? key)

/-- Lines behind others decide. -/
theorem lastValue?_append (key : String) (ls ms : List (List Char)) :
    lastValue? key (ls ++ ms) = (lastValue? key ms).or (lastValue? key ls) := by
  rw [lastValue?, List.reverse_append, List.findSome?_append]
  rfl

theorem lastValue?_singleton (key : String) (line : List Char) :
    lastValue? key [line] = valueOf? key line := by
  rw [lastValue?, List.reverse_singleton, List.findSome?_singleton]

/-- A key has a value if some line gives it one. -/
theorem isSome_lastValue? : (lastValue? key ls).isSome = true ↔
    ∃ line ∈ ls, ∃ value, Gives line key value := by
  rw [lastValue?, List.findSome?_isSome_iff]
  simp only [List.mem_reverse, Option.isSome_iff_exists, valueOf?_eq_some]

/-- The last line that gives a key its value decides. -/
theorem lastValue?_of_last {before after : List (List Char)} (hgives : Gives line key value)
    (hafter : ∀ l ∈ after, ∀ v, ¬Gives l key v) :
    lastValue? key (before ++ line :: after) = some value := by
  have hnone : lastValue? key after = none := by
    rw [lastValue?, List.findSome?_eq_none_iff]
    exact fun l hl => valueOf?_eq_none.mpr (hafter l (List.mem_reverse.mp hl))
  rw [← List.singleton_append, lastValue?_append, lastValue?_append, hnone, lastValue?_singleton,
    valueOf?_eq_some.mpr hgives]
  rfl

/-- Lines of which no two give one key a value. -/
def KeysDistinct (ls : List (List Char)) : Prop :=
  ls.Pairwise fun l m => ∀ key v w, Gives l key v → ¬Gives m key w

/-- `KeysDistinct` does not depend on the order. -/
theorem KeysDistinct.perm (h : KeysDistinct ls) (hperm : ls.Perm ms) : KeysDistinct ms :=
  (hperm.pairwise_iff fun hdistinct key v w hl hm => hdistinct key w v hm hl).mp h

/-- A key that only one line gives a value has that value, wherever the line stands. -/
theorem KeysDistinct.lastValue?_eq_some (h : KeysDistinct ls) :
    lastValue? key ls = some value ↔ ∃ line ∈ ls, Gives line key value := by
  constructor
  · intro hlast
    obtain ⟨line, hline, hvalue⟩ := List.exists_of_findSome?_eq_some hlast
    exact ⟨line, List.mem_reverse.mp hline, valueOf?_eq_some.mp hvalue⟩
  · rintro ⟨line, hline, hgives⟩
    obtain ⟨before, after, rfl⟩ := List.append_of_mem hline
    have hlater := (List.pairwise_cons.mp (List.pairwise_append.mp h).2.1).1
    exact lastValue?_of_last hgives fun l hl v => hlater l hl key value v hgives

/-! ## Reading lines -/

/-- `readLines` passes over a `Silent` line. -/
theorem readLines_cons_silent (h : Silent line) (n : Nat) (p : Properties) (ls : List (List Char)) :
    readLines n p (line :: ls) = readLines (n + 1) p ls := by
  rw [readLines, read_of_silent h]

/-- Lines none of which is `Malformed` give each key the value of the last line for it. -/
theorem readLines_ok (h : ∀ line ∈ ls, ¬Malformed line) (n : Nat) (p : Properties) :
    ∃ q, readLines n p ls = .ok q ∧ ∀ key, q.get? key = (lastValue? key ls).or (p.get? key) := by
  induction ls generalizing n p with
  | nil => exact ⟨p, rfl, fun key => rfl⟩
  | cons line ls ih =>
      obtain ⟨hline, hrest⟩ := List.forall_mem_cons.mp h
      have hlast (key : String) : lastValue? key (line :: ls) =
          (lastValue? key ls).or (valueOf? key line) := by
        rw [← List.singleton_append, lastValue?_append, lastValue?_singleton]
      rcases line_cases line with hsilent | hbad | ⟨k, v, hgives⟩
      · obtain ⟨q, hq, hget⟩ := ih hrest (n + 1) p
        refine ⟨q, by rw [readLines_cons_silent hsilent, hq], fun key => ?_⟩
        have hnone : valueOf? key line = none := by rw [valueOf?, read_of_silent hsilent]
        rw [hlast, hnone, Option.or_none, hget]
      · exact absurd hbad hline
      · obtain ⟨q, hq, hget⟩ := ih hrest (n + 1) (p.insert k v)
        refine ⟨q, by rw [readLines, read_of_gives hgives]; exact hq, fun key => ?_⟩
        have hvalue : (p.insert k v).get? key = (valueOf? key line).or (p.get? key) := by
          rw [get?_insert, valueOf?, read_of_gives hgives]
          dsimp only
          split <;> rfl
        rw [hlast, hget, hvalue, Option.or_assoc]

/-- The first malformed line is the error, with its number. -/
theorem readLines_error {before : List (List Char)} (hbefore : ∀ l ∈ before, ¬Malformed l)
    (hline : Malformed line) (n : Nat) (p : Properties) (after : List (List Char)) :
    readLines n p (before ++ line :: after) =
      .error (.configuration (.badLine (n + before.length) (trim (String.ofList line)))) := by
  induction before generalizing n p with
  | nil =>
      rw [List.nil_append, readLines, read_of_malformed hline, trim, String.toList_ofList]
      rfl
  | cons l before ih =>
      obtain ⟨hl, hbefore⟩ := List.forall_mem_cons.mp hbefore
      have hnumber : n + (l :: before).length = n + 1 + before.length := by simp; omega
      rw [List.cons_append, hnumber]
      rcases line_cases l with hsilent | hbad | ⟨k, v, hgives⟩
      · rw [readLines_cons_silent hsilent, ih hbefore]
      · exact absurd hbad hl
      · rw [readLines, read_of_gives hgives]
        exact ih hbefore (n + 1) (p.insert k v)

/-! ## Lines of a text -/

/-- Lines and a text that they make up. Each ends in a line feed, before which a
carriage return may stand, or with the text. -/
inductive LinesOf : List (List Char) → List Char → Prop
  | nil : LinesOf [] []
  | last {line : List Char} : '\n' ∉ line → LinesOf [line] line
  | feed {line : List Char} {ls : List (List Char)} {cs : List Char} :
      '\n' ∉ line → LinesOf ls cs → LinesOf (line :: ls) (line ++ '\n' :: cs)
  | returnFeed {line : List Char} {ls : List (List Char)} {cs : List Char} :
      '\n' ∉ line → LinesOf ls cs → LinesOf (line :: ls) (line ++ '\r' :: '\n' :: cs)

theorem not_feed (h : '\n' ∉ line) : ∀ c ∈ line, (c == '\n') = false :=
  fun _ hc => beq_eq_false_iff_ne.mpr fun heq => h (heq ▸ hc)

/-- A text without a line feed is one line, or none. -/
theorem lines_of_not_feed (h : '\n' ∉ line) : lines line = if line.isEmpty then [] else [line] := by
  rw [lines, splitList_of_not_sep (not_feed h)]
  rfl

/-- `lines` cuts at the first line feed, and takes a carriage return off before it. -/
theorem lines_append_feed (h : '\n' ∉ line) (cs : List Char) :
    lines (line ++ '\n' :: cs) = lines.chomp line :: lines cs := by
  rw [lines, splitList_append_sep (not_feed h) rfl, lines]
  cases hcs : splitList (· == '\n') cs with
  | nil => exact absurd hcs (splitList_ne_nil _ cs)
  | cons => rfl

/-- `chomp` takes off a carriage return, if there is one. -/
theorem chomp_cases (line : List Char) :
    lines.chomp line = line ∨ line = lines.chomp line ++ ['\r'] := by
  unfold lines.chomp
  split
  · next hlast =>
      obtain ⟨front, rfl⟩ := List.getLast?_eq_some_iff.mp hlast
      exact .inr (by rw [List.dropLast_concat])
  · exact .inl rfl

/-- What a carriage return at its end adds to a line is trimmed away. -/
theorem read_concat_return (line : List Char) : Line.read (line ++ ['\r']) = Line.read line := by
  have hblank : isBlank '\r' = true := by decide
  rw [Line.read, Line.read, trimList_concat line hblank]

/-- What `chomp` takes off makes no difference to what a line says. -/
theorem read_chomp (line : List Char) : Line.read (lines.chomp line) = Line.read line := by
  rcases chomp_cases line with h | h
  · rw [h]
  · conv_rhs => rw [h, read_concat_return]

theorem silent_nil : Silent [] := .inl rfl

/-- **All divisions of a text into lines** say the same. -/
theorem readLines_lines (h : LinesOf ls cs) (n : Nat) (p : Properties) :
    readLines n p (lines cs) = readLines n p ls := by
  have hcons {l m : List Char} {rest : List Char} {ms : List (List Char)}
      (hread : Line.read l = Line.read m)
      (ih : ∀ n p, readLines n p (lines rest) = readLines n p ms) (n : Nat) (p : Properties) :
      readLines n p (l :: lines rest) = readLines n p (m :: ms) := by
    rw [readLines, readLines, hread]
    cases Line.read m with
    | silent => exact ih (n + 1) p
    | pair key value => exact ih (n + 1) (p.insert key value)
    | bad content => rfl
  induction h generalizing n p with
  | nil => rfl
  | @last line hline =>
      rw [lines_of_not_feed hline]
      cases line with
      | nil => exact (readLines_cons_silent silent_nil n p []).symm
      | cons => rfl
  | feed hline _ ih =>
      rw [lines_append_feed hline]
      exact hcons (read_chomp _) ih n p
  | @returnFeed line _ _ hline _ ih =>
      have hreturn : '\n' ∉ line ++ ['\r'] := by simpa using hline
      rw [List.append_cons, lines_append_feed hreturn]
      exact hcons ((read_chomp _).trans (read_concat_return line)) ih n p

/-- Each text can be divided into lines: `lines` divides it. -/
theorem linesOf_lines (cs : List Char) : LinesOf (lines cs) cs := by
  induction cs using induction_pieces (· == '\n') with
  | last piece hsep =>
      have hpiece : '\n' ∉ piece := fun hmem => by simpa using hsep _ hmem
      rw [lines_of_not_feed hpiece]
      cases piece with
      | nil => exact .nil
      | cons => exact .last hpiece
  | more piece c cs hsep hc ih =>
      have hpiece : '\n' ∉ piece := fun hmem => by simpa using hsep _ hmem
      obtain rfl : c = '\n' := beq_iff_eq.mp hc
      rw [lines_append_feed hpiece]
      rcases chomp_cases piece with h | h
      · rw [h]
        exact .feed hpiece ih
      · have hchomp : '\n' ∉ lines.chomp piece :=
          fun hmem => hpiece (h ▸ List.mem_append_left _ hmem)
        conv_rhs => rw [h, List.append_assoc, List.singleton_append]
        exact .returnFeed hchomp ih

/-- A text has a division that goes on with the lines of any text behind a new line. -/
theorem LinesOf.exists_open (h : LinesOf ls cs) :
    ∃ ls', LinesOf ls' cs ∧ ∀ newline, newline = ['\n'] ∨ newline = ['\r', '\n'] →
      ∀ ms ds, LinesOf ms ds → LinesOf (ls' ++ ms) (cs ++ newline ++ ds) := by
  have hlast {line : List Char} (hline : '\n' ∉ line) (newline : List Char)
      (hnewline : newline = ['\n'] ∨ newline = ['\r', '\n']) (ms ds) (hms : LinesOf ms ds) :
      LinesOf ([line] ++ ms) (line ++ newline ++ ds) := by
    rw [List.append_assoc]
    rcases hnewline with rfl | rfl
    · exact .feed hline hms
    · exact .returnFeed hline hms
  induction h with
  | nil => exact ⟨[[]], .last List.not_mem_nil, hlast List.not_mem_nil⟩
  | last hline => exact ⟨_, .last hline, hlast hline⟩
  | feed hline _ ih =>
      obtain ⟨ls', hls', hopen⟩ := ih
      refine ⟨_ :: ls', .feed hline hls', fun newline hnewline ms ds hms => ?_⟩
      have hmore := LinesOf.feed hline (hopen newline hnewline ms ds hms)
      simpa using hmore
  | returnFeed hline _ ih =>
      obtain ⟨ls', hls', hopen⟩ := ih
      refine ⟨_ :: ls', .returnFeed hline hls', fun newline hnewline ms ds hms => ?_⟩
      have hmore := LinesOf.returnFeed hline (hopen newline hnewline ms ds hms)
      simpa using hmore

/-! ## Reading a text -/

variable {text rest : String}

/-- `parse` reads the lines of any division. -/
theorem parse_eq (h : LinesOf ls text.toList) : parse text = readLines 1 empty ls :=
  readLines_lines h 1 empty

/-- A text without a `Malformed` line gives each key its last value. -/
theorem parse_ok (h : LinesOf ls text.toList) (hls : ∀ line ∈ ls, ¬Malformed line) :
    ∃ p, parse text = .ok p ∧ ∀ key, p.get? key = lastValue? key ls := by
  obtain ⟨p, hp, hget⟩ := readLines_ok hls 1 empty
  exact ⟨p, by rw [parse_eq h, hp], fun key => by rw [hget, get?_empty, Option.or_none]⟩

/-- The first `Malformed` line of a text is its error. -/
theorem parse_malformed {before after : List (List Char)}
    (h : LinesOf (before ++ line :: after) text.toList)
    (hbefore : ∀ l ∈ before, ¬Malformed l) (hline : Malformed line) :
    parse text =
      .error (.configuration (.badLine (before.length + 1) (trim (String.ofList line)))) := by
  rw [parse_eq h, readLines_error hbefore hline, Nat.add_comm]

/-- A text is refused exactly if one of its lines is `Malformed`. -/
theorem parse_eq_error_iff (h : LinesOf ls text.toList) :
    (∃ e, parse text = .error e) ↔ ∃ line ∈ ls, Malformed line := by
  constructor
  · rintro ⟨e, he⟩
    by_contra hnone
    obtain ⟨p, hp, -⟩ := parse_ok h fun line hline hbad => hnone ⟨line, hline, hbad⟩
    rw [hp] at he
    contradiction
  · rintro ⟨line, hline, hbad⟩
    have hfind : (ls.find? (decide <| Malformed ·)).isSome = true := by
      rw [List.find?_isSome]
      exact ⟨line, hline, decide_eq_true hbad⟩
    obtain ⟨first, hfirst⟩ := Option.isSome_iff_exists.mp hfind
    obtain ⟨hmalformed, before, after, rfl, hbefore⟩ := List.find?_eq_some_iff_append.mp hfirst
    exact ⟨_,
      parse_malformed h (fun l hl => by simpa using hbefore l hl) (of_decide_eq_true hmalformed)⟩

/-- It is read exactly if none is. -/
theorem parse_eq_ok_iff (h : LinesOf ls text.toList) :
    (∃ p, parse text = .ok p) ↔ ∀ line ∈ ls, ¬Malformed line := by
  constructor
  · rintro ⟨p, hp⟩ line hline hbad
    obtain ⟨e, he⟩ := (parse_eq_error_iff h).mpr ⟨line, hline, hbad⟩
    rw [hp] at he
    contradiction
  · intro hls
    obtain ⟨p, hp, -⟩ := parse_ok h hls
    exact ⟨p, hp⟩

/-- A key has the value of the last line for it. -/
theorem get?_of_parse (h : LinesOf ls text.toList) (hp : parse text = .ok p) (key : String) :
    p.get? key = lastValue? key ls := by
  obtain ⟨q, hq, hget⟩ := parse_ok h ((parse_eq_ok_iff h).mp ⟨p, hp⟩)
  rw [Except.ok.inj (hp.symm.trans hq), hget]

/-- Two texts with a new line between them: the second overrides the first. -/
theorem parse_append {newline : String} (hnewline : newline = "\n" ∨ newline = "\r\n")
    (text rest : String) :
    ((∃ r, parse (text ++ newline ++ rest) = .ok r) ↔
      (∃ p, parse text = .ok p) ∧ ∃ q, parse rest = .ok q) ∧
    ∀ p q r, parse text = .ok p → parse rest = .ok q → parse (text ++ newline ++ rest) = .ok r →
      r.toList = (p.override q).toList := by
  have hchars : newline.toList = ['\n'] ∨ newline.toList = ['\r', '\n'] := by
    rcases hnewline with rfl | rfl
    · exact .inl rfl
    · exact .inr rfl
  obtain ⟨ls, hls, hopen⟩ := (linesOf_lines text.toList).exists_open
  have hms := linesOf_lines rest.toList
  have hboth : LinesOf (ls ++ lines rest.toList) (text ++ newline ++ rest).toList := by
    rw [String.toList_append, String.toList_append]
    exact hopen _ hchars _ _ hms
  constructor
  · rw [parse_eq_ok_iff hboth, parse_eq_ok_iff hls, parse_eq_ok_iff hms, List.forall_mem_append]
  · intro p q r hp hq hr
    refine toList_eq_of_get? fun key => ?_
    rw [get?_of_parse hboth hr, lastValue?_append, get?_override, get?_of_parse hls hp,
      get?_of_parse hms hq]

/-- Lines in another order, of which no two are for one key. -/
theorem parse_perm {text' : String} (h : LinesOf ls text.toList) (h' : LinesOf ms text'.toList)
    (hperm : ms.Perm ls) (hdistinct : KeysDistinct ls) (hp : parse text = .ok p) :
    ∃ q, parse text' = .ok q ∧ q.toList = p.toList := by
  have hls := (parse_eq_ok_iff h).mp ⟨p, hp⟩
  obtain ⟨q, hq, hget⟩ := parse_ok h' fun line hline => hls line (hperm.mem_iff.mp hline)
  refine ⟨q, hq, toList_eq_of_get? fun key => Option.ext fun value => ?_⟩
  have hmem (line : List Char) : line ∈ ms ↔ line ∈ ls := hperm.mem_iff
  rw [hget, get?_of_parse h hp, (hdistinct.perm hperm.symm).lastValue?_eq_some,
    hdistinct.lastValue?_eq_some]
  simp only [hmem]

/-- The message of a malformed line tells its number and its content. -/
theorem message_badLine (number : Nat) (content : String) :
    (CacheError.configuration (.badLine number content)).message =
      "Configuration error: Line " ++ toString number ++ " is not a key=value pair: " ++
        content := by
  have hfront : "Configuration error" ++ ": " ++ "Line " = "Configuration error: Line " := by decide
  show "Configuration error" ++ ": " ++
    ("Line " ++ toString number ++ " is not a key=value pair: " ++ content) = _
  simp only [← String.append_assoc]
  rw [hfront]

/-- **The last line for a key wins.** A text, in any division into lines, is refused exactly if
one of them is malformed, and the error tells the number of the first such line and its trimmed
content. Else it gives values to the keys that its lines name, to each the value of the last
line for it. So a text behind another one and a new line overrides it, and both are needed for
the whole to be accepted; and the order of lines that are for different keys makes no
difference. -/
theorem last_line_wins (text : String) :
    (∃ ls, LinesOf ls text.toList) ∧
    ∀ ls, LinesOf ls text.toList →
      ((∃ e, parse text = .error e) ↔ ∃ line ∈ ls, Malformed line) ∧
      (∀ before line after, ls = before ++ line :: after → (∀ l ∈ before, ¬Malformed l) →
        Malformed line →
        ∃ e, parse text = .error e ∧
          e = .configuration (.badLine (before.length + 1) (trim (String.ofList line))) ∧
          e.message = "Configuration error: Line " ++ toString (before.length + 1) ++
            " is not a key=value pair: " ++ trim (String.ofList line)) ∧
      (∀ p, parse text = .ok p →
        (∀ key, key ∈ p.keys ↔ ∃ line ∈ ls, ∃ value, Gives line key value) ∧
        ∀ before line after key value, ls = before ++ line :: after → Gives line key value →
          (∀ l ∈ after, ∀ v, ¬Gives l key v) → p.get? key = some value) ∧
      (∀ newline rest, newline = "\n" ∨ newline = "\r\n" →
        ((∃ r, parse (text ++ newline ++ rest) = .ok r) ↔
          (∃ p, parse text = .ok p) ∧ ∃ q, parse rest = .ok q) ∧
        ∀ p q r, parse text = .ok p → parse rest = .ok q → parse (text ++ newline ++ rest) = .ok r →
          r.toList = (p.override q).toList) ∧
      ∀ text' ms, LinesOf ms text'.toList → ms.Perm ls → KeysDistinct ls →
        ∀ p, parse text = .ok p → ∃ q, parse text' = .ok q ∧ q.toList = p.toList := by
  refine ⟨⟨_, linesOf_lines _⟩,
    fun ls h => ⟨parse_eq_error_iff h, ?_, fun p hp => ⟨fun key => ?_, ?_⟩,
    fun newline rest hnewline => parse_append hnewline text rest,
    fun text' ms h' hperm hdistinct p hp => parse_perm h h' hperm hdistinct hp⟩⟩
  · rintro before line after rfl hbefore hline
    exact ⟨_, parse_malformed h hbefore hline, rfl, message_badLine _ _⟩
  · rw [mem_keys, ← Option.isSome_iff_exists, get?_of_parse h hp, isSome_lastValue?]
  · rintro before line after key value rfl hgives hafter
    rw [get?_of_parse h hp, lastValue?_of_last hgives hafter]

/-- A comment gives nothing, and a value may hold equals signs. The lines may come in another
order, with other line ends; a malformed line behind them has the number of all lines. -/
theorem last_line_wins_reordered :
    LinesOf ["k = 1".toList, "#k=2".toList, " l=a=b\r".toList] "k = 1\r\n#k=2\n l=a=b\r".toList ∧
    ∃ p q e, parse "k = 1\r\n#k=2\n l=a=b\r" = .ok p ∧ p.get? "l" = some "a=b" ∧
      parse " l=a=b\r\nk = 1\n#k=2" = .ok q ∧ q.toList = p.toList ∧
      parse ("k = 1\r\n#k=2\n l=a=b\r" ++ "\n" ++ "l:c") = .error e ∧
      e.message = "Configuration error: Line 4 is not a key=value pair: l:c" := by
  have hfirst : Line.read "k = 1".toList = .pair "k" "1" := by decide
  have hsecond : Line.read "#k=2".toList = .silent := by decide
  have hlast : Line.read " l=a=b\r".toList = .pair "l" "a=b" := by decide
  have hlines : LinesOf ["k = 1".toList, "#k=2".toList, " l=a=b\r".toList]
      "k = 1\r\n#k=2\n l=a=b\r".toList :=
    .returnFeed (by decide) (.feed (by decide) (.last (by decide)))
  have hlines' : LinesOf [" l=a=b\r".toList, "k = 1".toList, "#k=2".toList]
      " l=a=b\r\nk = 1\n#k=2".toList :=
    .feed (by decide) (.feed (by decide) (.last (by decide)))
  have hmore : LinesOf ["k = 1".toList, "#k=2".toList, " l=a=b\r".toList, "l:c".toList]
      ("k = 1\r\n#k=2\n l=a=b\r" ++ "\n" ++ "l:c").toList :=
    .returnFeed (by decide) (.feed (by decide) (.feed (by decide) (.last (by decide))))
  have hdistinct : KeysDistinct ["k = 1".toList, "#k=2".toList, " l=a=b\r".toList] := by
    simp only [KeysDistinct, gives_iff, List.pairwise_cons, List.forall_mem_cons, hfirst,
      hsecond, hlast]
    simp +contextual [eq_comm]
  have hperm : [" l=a=b\r".toList, "k = 1".toList, "#k=2".toList].Perm
      ["k = 1".toList, "#k=2".toList, " l=a=b\r".toList] := by decide
  obtain ⟨herror, -, hvalues, -, hreordered⟩ := (last_line_wins _).2 _ hlines
  obtain ⟨-, hrefused, -⟩ := (last_line_wins _).2 _ hmore
  obtain ⟨e, he, -, hmessage⟩ := hrefused
    ["k = 1".toList, "#k=2".toList, " l=a=b\r".toList] "l:c".toList [] rfl (by decide) (by decide)
  cases hparse : parse "k = 1\r\n#k=2\n l=a=b\r" with
  | ok p =>
      obtain ⟨q, hq, hsame⟩ := hreordered _ _ hlines' hperm hdistinct p hparse
      have hvalue : p.get? "l" = some "a=b" := (hvalues p hparse).2
        ["k = 1".toList, "#k=2".toList] _ [] "l" "a=b" rfl (gives_iff.mpr hlast) (by simp)
      exact ⟨hlines, p, q, e, rfl, hvalue, hq, hsame, he, hmessage⟩
  | error e =>
      have hnone : ¬∃ line ∈ ["k = 1".toList, "#k=2".toList, " l=a=b\r".toList],
          Malformed line := by
        decide
      exact absurd (herror.mp ⟨e, hparse⟩) hnone

end CacheService.Properties
