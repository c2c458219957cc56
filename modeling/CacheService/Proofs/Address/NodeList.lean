import CacheService.Proofs.Address.RoundTrip
import CacheService.Proofs.Properties

/-!
# CacheService.Proofs.Address.NodeList

The node list of a configuration. The keys of numbered hosts come in the order of their
numbers. The sort is stable, and configurations list their keys in the order of their texts, so
that keys of one number stay in that order (`pairwise_numbered`).

* `hostNumber?_eq_some` — which keys are numbered, and how;
* `filter_mergeSort`, `pairwise_numbered` — their order;
* `gather_eq_ok`, `ofProperties_eq_ok` — the lists under them, one behind the other;
* `node_list` — what comes of any configuration.
-/

namespace CacheService.Address

variable {p : Properties} {key : String} {n : Nat} {nodes : List Address}

/-! ## Numbered keys -/

/-- `stripFront?` takes a text off the front of another. -/
theorem stripFront?_eq_some {front cs rest : List Char} :
    stripFront? front cs = some rest ↔ cs = front ++ rest := by
  rw [stripFront?]
  constructor
  · intro h
    split at h
    · next hfront =>
        obtain ⟨rest', rfl⟩ := List.isPrefixOf_iff_prefix.mp hfront
        rw [List.drop_left] at h
        rw [Option.some.inj h]
    · contradiction
  · rintro rfl
    rw [if_pos (List.isPrefixOf_iff_prefix.mpr (List.prefix_append front rest)), List.drop_left]

/-- `stripBack?` takes it off the back. -/
theorem stripBack?_eq_some {back cs rest : List Char} :
    stripBack? back cs = some rest ↔ cs = rest ++ back := by
  rw [stripBack?, Option.map_eq_some_iff]
  simp only [stripFront?_eq_some]
  constructor
  · rintro ⟨rest', h, rfl⟩
    rw [← List.reverse_reverse cs, h, List.reverse_append, List.reverse_reverse]
  · rintro rfl
    exact ⟨rest.reverse, List.reverse_append, List.reverse_reverse rest⟩

/-- The key of the hosts with the number `n`. What stands for the number in it may have
a sign and zeros before it. -/
def NamesNode (n : Nat) (key : String) : Prop :=
  ∃ middle : String, key = "cache.remote." ++ middle ++ ".host" ∧
    Text.readNat (UInt32.size - 1) middle = .ok n

/-- `hostNumber?` reads the number that a key names. -/
theorem hostNumber?_eq_some : hostNumber? key = some n ↔ NamesNode n key := by
  have hkey (middle : String) : key = "cache.remote." ++ middle ++ ".host" ↔
      key.toList = "cache.remote.".toList ++ (middle.toList ++ ".host".toList) := by
    rw [← String.toList_inj, String.toList_append, String.toList_append, List.append_assoc]
  rw [hostNumber?]
  simp only [Option.bind_eq_bind, Option.bind_eq_some_iff, stripFront?_eq_some, stripBack?_eq_some,
    toOption_eq_some]
  constructor
  · rintro ⟨rest, hrest, middle, rfl, hn⟩
    refine ⟨String.ofList middle, (hkey _).mpr ?_, hn⟩
    rw [@String.toList_ofList middle, hrest]
  · rintro ⟨middle, h, hn⟩
    exact ⟨_, (hkey middle).mp h, middle.toList, rfl, by rwa [String.ofList_toList]⟩

/-! ## The order of keys -/

/-- The keys of numbered hosts with their numbers, in the order of their texts. -/
def found (p : Properties) : List (Nat × String) :=
  p.keys.filterMap fun key => (hostNumber? key).map fun n => (n, key)

/-- The keys of numbered hosts with their numbers, in the order in which they count. -/
def numbered (p : Properties) : List (Nat × String) := (found p).mergeSort fun a b => a.1 ≤ b.1

/-- `numberedHosts` are the keys of `numbered`. -/
theorem numberedHosts_eq (p : Properties) : numberedHosts p = (numbered p).map (·.2) := rfl

/-- `numbered` are the keys of the configuration that name a node. -/
theorem mem_numbered :
    (n, key) ∈ numbered p ↔ (∃ value, p.get? key = some value) ∧ NamesNode n key := by
  rw [numbered, List.mem_mergeSort, found, List.mem_filterMap, ← Properties.mem_keys,
    ← hostNumber?_eq_some]
  simp only [Option.map_eq_some_iff, Prod.mk.injEq]
  constructor
  · rintro ⟨key', hkey, n', hn, rfl, rfl⟩
    exact ⟨hkey, hn⟩
  · rintro ⟨hkey, hn⟩
    exact ⟨key, hkey, n, hn, rfl, rfl⟩

/-- Keys come in the order of their texts. -/
theorem pairwise_found (p : Properties) : (found p).Pairwise fun a b => a.2 < b.2 := by
  rw [found, List.pairwise_filterMap]
  refine p.pairwise_keys.imp fun hlt a ha b hb => ?_
  obtain ⟨m, -, rfl⟩ := Option.map_eq_some_iff.mp ha
  obtain ⟨n, -, rfl⟩ := Option.map_eq_some_iff.mp hb
  exact hlt

/-- `mergeSort` keeps the order of what has one number. -/
theorem filter_mergeSort (n : Nat) (pairs : List (Nat × String)) :
    (pairs.mergeSort fun a b => a.1 ≤ b.1).filter (·.1 == n) = pairs.filter (·.1 == n) := by
  have hsame : (pairs.filter (·.1 == n)).Pairwise fun a b => decide (a.1 ≤ b.1) = true := by
    refine List.pairwise_of_forall_mem_list fun a ha b hb => ?_
    rw [decide_eq_true_eq, beq_iff_eq.mp (List.mem_filter.mp ha).2,
      beq_iff_eq.mp (List.mem_filter.mp hb).2]
  have hsub := (List.sublist_mergeSort (fun a b c => by simpa using Nat.le_trans)
    (fun a b => by simpa using Nat.le_total a.1 b.1) hsame List.filter_sublist).filter (·.1 == n)
  rw [List.filter_filter] at hsub
  simp only [Bool.and_self] at hsub
  have hlength := ((List.mergeSort_perm pairs fun a b => a.1 ≤ b.1).filter (·.1 == n)).length_eq
  exact (hsub.eq_of_length hlength.symm).symm

/-- In `numbered`, numbers ascend, and the texts of keys of one number. -/
theorem pairwise_numbered (p : Properties) :
    (numbered p).Pairwise fun a b => a.1 < b.1 ∨ a.1 = b.1 ∧ a.2 < b.2 := by
  have hle : (numbered p).Pairwise fun a b => decide (a.1 ≤ b.1) = true :=
    List.pairwise_mergeSort (fun a b c => by simpa using Nat.le_trans)
      (fun a b => by simpa using Nat.le_total a.1 b.1) (found p)
  rw [List.pairwise_iff_forall_sublist] at hle ⊢
  intro a b hab
  rcases Nat.lt_or_eq_of_le (of_decide_eq_true (hle hab)) with hlt | heq
  · exact .inl hlt
  · have hfilter := hab.filter (·.1 == b.1)
    rw [numbered, filter_mergeSort] at hfilter
    have hfound : [a, b].Sublist (found p) := by
      simp only [List.filter_cons, heq, beq_self_eq_true, if_true, List.filter_nil] at hfilter
      exact hfilter.trans List.filter_sublist
    exact .inr ⟨heq, List.pairwise_iff_forall_sublist.mp (pairwise_found p) hfound⟩

/-- No other list of these keys is in this order. -/
theorem numbered_eq {pairs : List (Nat × String)} (hperm : pairs.Perm (found p))
    (hpairs : pairs.Pairwise fun a b => a.1 < b.1 ∨ a.1 = b.1 ∧ a.2 < b.2) :
    numbered p = pairs := by
  refine List.Perm.eq_of_pairwise (fun a b _ _ hab hba => ?_) (pairwise_numbered p) hpairs
    ((List.mergeSort_perm (found p) _).trans hperm.symm)
  rcases hab with hab | ⟨heq, hab⟩
  · rcases hba with hba | ⟨heq, -⟩
    · exact absurd hba (Nat.lt_asymm hab)
    · exact absurd heq (Nat.ne_of_gt hab)
  · rcases hba with hba | ⟨-, hba⟩
    · exact absurd heq (Nat.ne_of_gt hba)
    · exact absurd hba (String.lt_asymm hab)

/-! ## The lists of a configuration -/

/-- The nodes that have been found, of which there must be one. -/
def nonempty (nodes : List Address) : Except CacheError (List Address) :=
  if nodes.isEmpty then .error (.configuration .missingHosts) else .ok nodes

/-- `nonempty` refuses only a list without nodes. -/
theorem nonempty_eq_ok {found : List Address} :
    nonempty found = .ok nodes ↔ found = nodes ∧ nodes ≠ [] := by
  cases found with
  | nil => exact ⟨nofun, fun h => absurd h.1.symm h.2⟩
  | cons a found =>
      have hok : nonempty (a :: found) = .ok (a :: found) := rfl
      rw [hok, Except.ok.injEq]
      exact ⟨fun h => ⟨h, h ▸ List.cons_ne_nil a found⟩, fun h => h.1⟩

/-- The key without a number decides alone. -/
theorem ofProperties_of_single {value : String} (h : p.get? hostKey = some value) :
    ofProperties p = parseList value >>= nonempty := by
  rw [ofProperties, h]
  rfl

/-- Without it, the `numberedHosts` are gathered. -/
theorem ofProperties_of_numbered (h : p.get? hostKey = none) :
    ofProperties p = gather p (numberedHosts p) >>= nonempty := by
  rw [ofProperties, h]
  rfl

/-- A node list that resolves has a node. -/
theorem ofProperties_ne_nil (h : ofProperties p = .ok nodes) : nodes ≠ [] := by
  cases hsingle : p.get? hostKey with
  | some value =>
      rw [ofProperties_of_single hsingle] at h
      obtain ⟨_, -, h⟩ := bind_eq_ok.mp h
      exact (nonempty_eq_ok.mp h).2
  | none =>
      rw [ofProperties_of_numbered hsingle] at h
      obtain ⟨_, -, h⟩ := bind_eq_ok.mp h
      exact (nonempty_eq_ok.mp h).2

/-- The lists under keys, in the order of the keys. -/
def ListsUnder (p : Properties) (keys : List (Nat × String)) (lists : List (List Address)) : Prop :=
  List.Forall₂ (fun nk list => ∃ value, p.get? nk.2 = some value ∧ Lists value list) keys lists

/-- The list under a key. -/
def listAt (p : Properties) (key : String) : Except CacheError (List Address) :=
  match p.get? key with
  | some value => parseList value
  | none => .ok []

theorem listAt_of_some {value : String} (h : p.get? key = some value) :
    listAt p key = parseList value := by
  rw [listAt, h]

/-- `gather` puts the lists under keys one behind the other. -/
theorem gather_eq_ok {keys : List (Nat × String)}
    (hkeys : ∀ nk ∈ keys, ∃ value, p.get? nk.2 = some value) :
    gather p (keys.map (·.2)) = .ok nodes ↔
      ∃ lists, ListsUnder p keys lists ∧ nodes = lists.flatten := by
  have hpresent (nk : Nat × String) (list : List Address) :
      ((∃ value, p.get? nk.2 = some value) ∧ listAt p nk.2 = .ok list) ↔
        ∃ value, p.get? nk.2 = some value ∧ Lists value list := by
    constructor
    · rintro ⟨⟨value, hvalue⟩, hlist⟩
      exact ⟨value, hvalue, parseList_eq_ok.mp (listAt_of_some hvalue ▸ hlist)⟩
    · rintro ⟨value, hvalue, hlist⟩
      exact ⟨⟨value, hvalue⟩, (listAt_of_some hvalue).trans (parseList_eq_ok.mpr hlist)⟩
  have hlists (lists : List (List Address)) :
      (keys.map (·.2)).mapM (listAt p) = .ok lists ↔ ListsUnder p keys lists := by
    simp only [ListsUnder, ← hpresent]
    rw [mapM_eq_ok, List.forall₂_map_left_iff, List.forall₂_and_left, and_iff_right hkeys]
  have hgather : gather p (keys.map (·.2)) =
      (keys.map (·.2)).mapM (listAt p) >>= fun lists => pure lists.flatten := rfl
  rw [hgather, bind_eq_ok]
  simp only [hlists]
  exact exists_congr fun lists => and_congr_right fun _ =>
    ⟨fun h => (Except.ok.inj h).symm, fun h => h ▸ rfl⟩

/-- The node list of numbered hosts is their lists, one behind the other. -/
theorem ofProperties_eq_ok (h : p.get? hostKey = none) :
    ofProperties p = .ok nodes ↔
      nodes ≠ [] ∧ ∃ lists, ListsUnder p (numbered p) lists ∧ nodes = lists.flatten := by
  have hkeys : ∀ nk ∈ numbered p, ∃ value, p.get? nk.2 = some value :=
    fun nk hnk => (mem_numbered.mp hnk).1
  rw [ofProperties_of_numbered h, numberedHosts_eq, bind_eq_ok]
  simp only [nonempty_eq_ok, gather_eq_ok hkeys]
  constructor
  · rintro ⟨_, hlists, rfl, hne⟩
    exact ⟨hne, hlists⟩
  · rintro ⟨hne, hlists⟩
    exact ⟨_, hlists, rfl, hne⟩

/-! ## Refusals -/

variable {e : CacheError} {s : String}

/-- An address that cannot be read is refused with its text. -/
theorem parse_error (h : parse s = .error e) : e = .configuration (.badAddress s) := by
  unfold parse at h
  split at h
  · contradiction
  · exact (Except.error.inj h).symm

theorem parseList_error (h : parseList s = .error e) : ∃ fault, e = .configuration fault := by
  obtain ⟨item, -, hparse⟩ := mapM_eq_error h
  exact ⟨_, parse_error hparse⟩

theorem listAt_error (h : listAt p key = .error e) : ∃ fault, e = .configuration fault := by
  unfold listAt at h
  split at h
  · exact parseList_error h
  · contradiction

theorem nonempty_error (h : nonempty nodes = .error e) : e = .configuration .missingHosts := by
  unfold nonempty at h
  split at h
  · exact (Except.error.inj h).symm
  · contradiction

/-- Whatever is wrong with a node list, it is a fault of the `configuration`. -/
theorem ofProperties_error (h : ofProperties p = .error e) : ∃ fault, e = .configuration fault := by
  cases hsingle : p.get? hostKey with
  | some value =>
      rw [ofProperties_of_single hsingle] at h
      rcases bind_eq_error.mp h with h | ⟨nodes, -, h⟩
      · exact parseList_error h
      · exact ⟨_, nonempty_error h⟩
  | none =>
      rw [ofProperties_of_numbered hsingle] at h
      rcases bind_eq_error.mp h with h | ⟨nodes, -, h⟩
      · rcases bind_eq_error.mp h with h | ⟨lists, -, h⟩
        · obtain ⟨key, -, h⟩ := mapM_eq_error h
          exact listAt_error h
        · contradiction
      · exact ⟨_, nonempty_error h⟩

/-- Each item of a list that is read is an address. -/
theorem Lists.parse_item {list : List Address} {items : List (List Char)} {item : List Char}
    (h : Lists s list) (hitems : ItemsOf items s) (hitem : item ∈ items) :
    ∃ a, parse (String.ofList item) = .ok a := by
  rw [← parseList_eq_ok, hitems.parseList_eq] at h
  obtain ⟨a, -, ha⟩ := exists_of_forall₂ (mapM_eq_ok.mp h) hitem
  exact ⟨a, ha⟩

/-- One malformed item under one numbered key is enough. -/
theorem ofProperties_of_malformed {nk : Nat × String} {value : String} {items : List (List Char)}
    {item : List Char} (hnone : p.get? hostKey = none) (hnk : nk ∈ numbered p)
    (hvalue : p.get? nk.2 = some value) (hitems : ItemsOf items value) (hitem : item ∈ items)
    (hbad : ∀ a, parse (String.ofList item) ≠ .ok a) :
    ∃ fault, ofProperties p = .error (.configuration fault) := by
  cases hresult : ofProperties p with
  | error e =>
      obtain ⟨fault, rfl⟩ := ofProperties_error hresult
      exact ⟨fault, rfl⟩
  | ok nodes =>
      obtain ⟨-, lists, hlists, -⟩ := (ofProperties_eq_ok hnone).mp hresult
      obtain ⟨list, -, value', hvalue', hlist⟩ := exists_of_forall₂ hlists hnk
      obtain rfl := Option.some.inj (hvalue.symm.trans hvalue')
      obtain ⟨a, ha⟩ := hlist.parse_item hitems hitem
      exact absurd ha (hbad a)

/-- **The node list of a configuration.** The key without a number decides alone if it is
there. Else the keys of numbered hosts count, in the order of their numbers, and those of one
number in the order of their texts. The configuration resolves exactly if the value of each of
these keys is a list and a node is found, and then to all the lists, one behind the other; one
malformed item is enough to refuse it. What is refused is a fault of the configuration. -/
theorem node_list (p : Properties) :
    (∀ value, p.get? hostKey = some value →
      (∀ q, q.get? hostKey = some value → ofProperties q = ofProperties p) ∧
      ∀ nodes, ofProperties p = .ok nodes ↔ nodes ≠ [] ∧ Lists value nodes) ∧
    (p.get? hostKey = none → ∃ keys : List (Nat × String),
      (∀ n key, (n, key) ∈ keys ↔ (∃ value, p.get? key = some value) ∧ NamesNode n key) ∧
      keys.Pairwise (fun a b => a.1 < b.1 ∨ a.1 = b.1 ∧ a.2 < b.2) ∧
      (∀ nodes, ofProperties p = .ok nodes ↔
        nodes ≠ [] ∧ ∃ lists, ListsUnder p keys lists ∧ nodes = lists.flatten) ∧
      ∀ nk ∈ keys, ∀ value items item, p.get? nk.2 = some value → ItemsOf items value →
        item ∈ items →
        (∀ a, parse (String.ofList item) ≠ .ok a) →
        ∃ fault, ofProperties p = .error (.configuration fault)) ∧
    ∀ e, ofProperties p = .error e → ∃ fault, e = .configuration fault := by
  refine ⟨fun value hvalue => ⟨fun q hq => ?_, fun nodes => ?_⟩, fun hnone => ?_,
    fun e he => ofProperties_error he⟩
  · rw [ofProperties_of_single hq, ofProperties_of_single hvalue]
  · rw [ofProperties_of_single hvalue, bind_eq_ok]
    simp only [parseList_eq_ok, nonempty_eq_ok]
    constructor
    · rintro ⟨_, hlist, rfl, hne⟩
      exact ⟨hne, hlist⟩
    · rintro ⟨hne, hlist⟩
      exact ⟨_, hlist, rfl, hne⟩
  · exact ⟨numbered p, fun n key => mem_numbered, pairwise_numbered p,
      fun nodes => ofProperties_eq_ok hnone,
      fun nk hnk value items item hvalue hitems hitem hbad =>
        ofProperties_of_malformed hnone hnk hvalue hitems hitem hbad⟩

/-- `numbered` puts three spellings of 2 before 10 and leaves `-1` out; one port
out of range refuses all. -/
theorem node_list_spellings :
    let p := Properties.ofList
      [("cache.remote.10.host", "c:3"), ("cache.remote.2.host", "b:1, a:1"),
        ("cache.remote.02.host", "b:1"), ("cache.remote.+2.host", "z:9"),
        ("cache.remote.-1.host", "w")]
    p.get? hostKey = none ∧
      ofProperties p = .ok [⟨"z", 9⟩, ⟨"b", 1⟩, ⟨"b", 1⟩, ⟨"a", 1⟩, ⟨"c", 3⟩] ∧
    (∃ keys lists, ListsUnder p keys lists ∧
      lists.flatten = [⟨"z", 9⟩, ⟨"b", 1⟩, ⟨"b", 1⟩, ⟨"a", 1⟩, ⟨"c", 3⟩]) ∧
    (∃ fault, ofProperties (p.insert "cache.remote.4294967295.host" "d:4,e:65536") =
      .error (.configuration fault)) ∧
    ∀ q, q.get? hostKey = some "d:4" →
      ofProperties q = ofProperties (p.insert hostKey "d:4") := by
  intro p
  have hnone : p.get? hostKey = none := by decide
  have hresult : ofProperties p = .ok [⟨"z", 9⟩, ⟨"b", 1⟩, ⟨"b", 1⟩, ⟨"a", 1⟩, ⟨"c", 3⟩] := by
    have hnumbered : numbered p =
        [(2, "cache.remote.+2.host"), (2, "cache.remote.02.host"),
          (2, "cache.remote.2.host"), (10, "cache.remote.10.host")] :=
      numbered_eq (by decide) (by decide)
    rw [ofProperties_of_numbered hnone, numberedHosts_eq, hnumbered]
    decide
  have hadded (key value : String) : (p.insert key value).get? key = some value := by
    rw [Properties.get?_insert, if_pos rfl]
  refine ⟨hnone, hresult, ?_, ?_, fun q hq => ((node_list _).1 "d:4" (hadded hostKey "d:4")).1 q hq⟩
  · obtain ⟨keys, -, -, hok, -⟩ := (node_list p).2.1 hnone
    obtain ⟨-, lists, hlists, hflatten⟩ := (hok _).mp hresult
    exact ⟨keys, lists, hlists, hflatten.symm⟩
  · have hnone' : (p.insert "cache.remote.4294967295.host" "d:4,e:65536").get? hostKey = none := by
      rw [Properties.get?_insert, if_neg (by decide), hnone]
    have hitems : ItemsOf ["d:4".toList, "e:65536".toList] "d:4,e:65536" := by
      refine ⟨.item "d:4".toList (by decide) (.last _), ?_⟩
      simp [Text.IsItem, isSeparator, Text.isBlank]
    obtain ⟨keys, hmem, -, -, hrefused⟩ := (node_list _).2.1 hnone'
    have hkey := (hmem 4294967295 "cache.remote.4294967295.host").mpr
      ⟨⟨_, hadded _ _⟩, "4294967295", rfl, by decide⟩
    have hbad : parse (String.ofList "e:65536".toList) =
        .error (.configuration (.badAddress "e:65536")) := by
      decide
    refine hrefused _ hkey _ _ _ (hadded _ _) hitems (List.mem_cons_of_mem _ List.mem_cons_self)
      fun a ha => ?_
    rw [hbad] at ha
    contradiction

end CacheService.Address
