import CacheService.Proofs.Remote.Healthy

/-!
# CacheService.Proofs.Remote.Promises

What is already decided about answers that have not come. A queue is a list of
commands that will run in order, so the values that its reads will find, and
what the server will store at the end, are settled once the commands are queued,
whenever the worker gets to them. `Cluster.Tracks` says this for a whole client:
a function gives the value due under each ticket, and one map the values that
the servers will store in the end. Workers keep both; queueing a command adds to
them.
-/

namespace CacheService.Remote

/-! ## The commands of one node -/

/-- Every awaited answer of commands that will run in order on `m` is the one `due`
under its ticket. -/
def Pledges (due : Ticket → Option ByteArray) : Contents → List Command → Prop
  | _, [] => True
  | m, c :: commands =>
    (∀ ticket, c.ticket? = some ticket → due ticket = c.found m) ∧ Pledges due (c.apply m) commands

/-- The tickets of commands, as far as they have one. -/
def ticketsOf (commands : List Command) : List Ticket := commands.filterMap Command.ticket?

variable {due due' : Ticket → Option ByteArray} {m : Contents} {commands : List Command}

/-- A command behind the others finds what they leave (`Contents.after`). -/
theorem pledges_append {c : Command} :
    Pledges due m (commands ++ [c]) ↔
      Pledges due m commands ∧
        ∀ ticket, c.ticket? = some ticket → due ticket = c.found (m.after commands) := by
  induction commands generalizing m with
  | nil => simp [Pledges]
  | cons c' commands ih => simp [Pledges, ih, and_assoc]

/-- `Pledges` depends on what is due under tickets of the commands only. -/
theorem pledges_congr (h : Pledges due m commands)
    (hdue : ∀ ticket ∈ ticketsOf commands, due' ticket = due ticket) : Pledges due' m commands := by
  induction commands generalizing m with
  | nil => trivial
  | cons c commands ih =>
      obtain ⟨hc, hrest⟩ := h
      refine ⟨fun ticket hticket => ?_, ih hrest fun ticket hmem => hdue ticket ?_⟩
      · rw [hdue ticket (List.mem_filterMap.mpr ⟨c, List.mem_cons_self, hticket⟩),
          hc ticket hticket]
      · obtain ⟨c', hc', hticket⟩ := List.mem_filterMap.mp hmem
        exact List.mem_filterMap.mpr ⟨c', List.mem_cons_of_mem c hc', hticket⟩

/-- A ticket is that of the first command or one of the others. -/
@[simp] theorem mem_ticketsOf_cons {c : Command} {ticket : Ticket} :
    ticket ∈ ticketsOf (c :: commands) ↔ c.ticket? = some ticket ∨ ticket ∈ ticketsOf commands := by
  simp [ticketsOf]

/-- The tickets of two lists of commands are those of the first and then those of the
second. -/
theorem ticketsOf_append (commands commands' : List Command) :
    ticketsOf (commands ++ commands') = ticketsOf commands ++ ticketsOf commands' :=
  List.filterMap_append

/-- What a step that runs some of the commands leaves of promises: the end is the same,
answers are those due, and one that someone waits for is not lost. -/
structure KeepsPromises (due : Ticket → Option ByteArray) (wanted : Ticket → Bool) (m : Contents)
    (commands : List Command) (m' : Contents) (left : List Command)
    (answers : List (Ticket × Finding)) : Prop where
  contents : m'.after left = m.after commands
  pledges : Pledges due m' left
  issued : ∀ ticket ∈ ticketsOf left, ticket ∈ ticketsOf commands
  right : ∀ p ∈ answers, p.1 ∈ ticketsOf commands ∧ p.2 = .ok (due p.1)
  answered : ∀ ticket ∈ ticketsOf commands, wanted ticket = true →
    ticket ∈ answers.map (·.1) ∨ ticket ∈ ticketsOf left

/-- A step that runs nothing keeps all promises. -/
theorem keepsPromises_refl (h : Pledges due m commands) (wanted : Ticket → Bool) :
    KeepsPromises due wanted m commands m commands [] :=
  ⟨rfl, h, fun _ ht => ht, by simp, fun _ ht _ => .inr ht⟩

/-- One command runs, and answers as `Command.found` says. -/
theorem keepsPromises_cons {c : Command} (h : Pledges due m (c :: commands))
    {wanted : Ticket → Bool}
    {answers : List (Ticket × Finding)}
    (hright : ∀ p ∈ answers, c.ticket? = some p.1 ∧ p.2 = .ok (c.found m))
    (hanswered : ∀ ticket, c.ticket? = some ticket → wanted ticket = true →
      ticket ∈ answers.map (·.1)) :
    KeepsPromises due wanted m (c :: commands) (c.apply m) commands answers := by
  refine ⟨rfl, h.2, fun ticket ht => by simp [ht], fun p hp => ?_, fun ticket ht hwanted => ?_⟩
  · obtain ⟨hticket, hfinding⟩ := hright p hp
    exact ⟨by simp [hticket], by rw [hfinding, h.1 p.1 hticket]⟩
  · obtain ht | ht := mem_ticketsOf_cons.mp ht
    · exact .inl (hanswered ticket ht hwanted)
    · exact .inr ht

namespace Node

variable {n n' : Node} {wanted : Ticket → Bool}

/-- **The next step** of a worker whose server is well (`Node.Serves`) keeps what its
node has promised. -/
theorem Serves.keepsPromises {progress : Node × List Event} {m' : Contents}
    (h : n.Serves wanted m progress m') (hn : Pledges due m n.backlog) :
    KeepsPromises due wanted m n.backlog m' progress.1.backlog
      (Cluster.kept wanted progress.2) := by
  cases h with
  | idle _ => exact keepsPromises_refl hn wanted
  | goesOn n' _ hbacklog _ =>
      rw [hbacklog]
      exact keepsPromises_refl hn wanted
  | passesOver n' key ticket _ hunwanted hbacklog _ =>
      rw [hbacklog] at hn ⊢
      refine keepsPromises_cons hn (by simp [Cluster.kept]) fun ticket' hticket hwanted => ?_
      obtain rfl : ticket = ticket' := Option.some.inj hticket
      rw [hunwanted] at hwanted
      contradiction
  | answers n' c ticket _ hasked hbacklog _ =>
      rw [hbacklog] at hn ⊢
      refine keepsPromises_cons hn (fun p hp => ?_) fun ticket' hticket hwanted => ?_
      · cases hw : wanted ticket with
        | true =>
            obtain rfl : p = (ticket, .ok (c.found m)) := by simpa [Cluster.kept, hw] using hp
            exact ⟨hasked, rfl⟩
        | false => simp [Cluster.kept, hw] at hp
      · obtain rfl : ticket = ticket' := Option.some.inj (hasked.symm.trans hticket)
        simp [Cluster.kept, hwanted]
  | stores n' key value expiration _ hbacklog _ =>
      rw [hbacklog] at hn ⊢
      exact keepsPromises_cons hn (by simp [Cluster.kept]) (by simp [Command.ticket?])

end Node

/-! ## Clients -/

/-- A healthy node whose commands will give the answers due, under tickets that have
been given out. -/
structure Node.Pledged (n : Node) (due : Ticket → Option ByteArray) (next : Ticket) (m : Contents) :
    Prop where
  healthy : n.Healthy
  issued : ∀ ticket ∈ ticketsOf n.backlog, ticket < next
  pledges : Pledges due m n.backlog

namespace Cluster

/-- What is already decided: the value due under each ticket, and the one map that the
servers will store in the end, each the keys that belong to it. The map says nothing
about nodes that have still to be flushed. -/
structure Tracks (c : Cluster) (servers : Nat → Server) (m : Contents)
    (due : Ticket → Option ByteArray) (unflushed : List Nat) : Prop where
  nonempty : c.nodes ≠ []
  running : c.stopped = false
  nodes : ∀ (i : Nat) (n : Node), c.nodes[i]? = some n →
    n.Pledged due c.nextTicket (n.dataAt (servers i))
  arrived : ∀ p ∈ c.arrived, p.1 < c.nextTicket ∧ p.2 = .ok (due p.1)
  contents : ∀ (i : Nat) (n : Node), c.nodes[i]? = some n → i ∉ unflushed →
    ∀ key, c.nodeOf key = i →
    (n.dataAt (servers i)).after n.backlog key = m key

/-- The answer under a ticket of a node has arrived, or its command is in the node's
`backlog`. -/
def Awaits (c : Cluster) (i : Nat) (ticket : Ticket) : Prop :=
  ticket ∈ c.arrived.map (·.1) ∨ ∃ n, c.nodes[i]? = some n ∧ ticket ∈ ticketsOf n.backlog

variable {c : Cluster} {servers : Nat → Server} {unflushed : List Nat} {i : Nat} {n n' : Node}
  {ticket : Ticket}

/-- **A worker** that takes its next step keeps what `Tracks` says of its client. -/
theorem Tracks.work (h : c.Tracks servers m due unflushed) (hi : c.nodes[i]? = some n)
    (wanted : Ticket → Bool) :
    (c.worked i wanted (n.advance wanted (n.serve (servers i)).1)).Tracks
      (Function.update servers i (n.serve (servers i)).2) m due unflushed := by
  rw [worked_eq]
  have hn := h.nodes i n hi
  have hkeeps := (hn.healthy.serves wanted (servers i)).keepsPromises hn.pledges
  refine ⟨by simpa using h.nonempty, h.running, fun j n' hj => ?_, fun p hp => ?_, ?_⟩
  · obtain ⟨rfl, rfl⟩ | ⟨hne, hj⟩ := getElem?_set_cases hj
    · rw [Function.update_self]
      exact ⟨hn.healthy.advance wanted (servers j),
        fun ticket ht => hn.issued ticket (hkeeps.issued ticket ht), hkeeps.pledges⟩
    · rw [Function.update_of_ne hne]
      exact h.nodes j n' hj
  · obtain hp | hp := List.mem_append.mp hp
    · obtain ⟨hissued, hright⟩ := hkeeps.right p hp
      exact ⟨hn.issued p.1 hissued, hright⟩
    · exact h.arrived p hp
  · intro j n' hj hflushed key hkey
    replace hkey : c.nodeOf key = j := by simpa [nodeOf] using hkey
    obtain ⟨rfl, rfl⟩ | ⟨hne, hj⟩ := getElem?_set_cases hj
    · rw [Function.update_self, hkeeps.contents]
      exact h.contents j n hi hflushed key hkey
    · rw [Function.update_of_ne hne]
      exact h.contents j n' hj hflushed key hkey

/-- `Awaits` goes through a step of a worker: an answer that someone waits for is not
lost. -/
theorem Tracks.awaits_work (h : c.Tracks servers m due unflushed) (hi : c.nodes[i]? = some n)
    {wanted : Ticket → Bool} (hwanted : wanted ticket = true) {j : Nat} (ha : c.Awaits j ticket) :
    (c.worked i wanted (n.advance wanted (n.serve (servers i)).1)).Awaits j ticket := by
  rw [worked_eq]
  have hn := h.nodes i n hi
  have hkeeps := (hn.healthy.serves wanted (servers i)).keepsPromises hn.pledges
  obtain ha | ⟨n', hj, ht⟩ := ha
  · exact .inl (by simp only [List.map_append, List.mem_append, ha, or_true])
  · by_cases hne : j = i
    · subst hne
      obtain rfl : n = n' := Option.some.inj (hi.symm.trans hj)
      obtain ht | ht := hkeeps.answered ticket ht hwanted
      · exact .inl (by simp only [List.map_append, List.mem_append, ht, true_or])
      · exact .inr ⟨_, getElem?_set_of_some hi, ht⟩
    · exact .inr ⟨n', by rw [List.getElem?_set_ne (Ne.symm hne), hj], ht⟩

/-- **A command** that is queued adds to `Tracks`: a value due under its ticket if it
has one, and its effect on the map. -/
theorem Tracks.queue (h : c.Tracks servers m due unflushed) (hi : c.nodes[i]? = some n)
    {command : Command} (hhealthy : n'.Healthy) (hbacklog : n'.backlog = n.backlog ++ [command])
    (hdata : n'.dataAt = n.dataAt) {next : Ticket} (hnext : c.nextTicket ≤ next)
    (hdue : ∀ t < c.nextTicket, due' t = due t)
    (hticket : ∀ t, command.ticket? = some t → t < next ∧
      due' t = command.found ((n.dataAt (servers i)).after n.backlog))
    {m' : Contents} {unflushed' : List Nat}
    (hother : ∀ key, c.nodeOf key ≠ i → c.nodeOf key ∉ unflushed' →
      c.nodeOf key ∉ unflushed ∧ m' key = m key)
    (hsame : ∀ key, c.nodeOf key = i → i ∉ unflushed' →
      command.apply ((n.dataAt (servers i)).after n.backlog) key = m' key) :
    { c with nodes := c.nodes.set i n', nextTicket := next }.Tracks servers m' due' unflushed' := by
  refine ⟨by simpa using h.nonempty, h.running, fun j k hj => ?_, fun p hp => ?_, ?_⟩
  · obtain ⟨rfl, rfl⟩ | ⟨hne, hj⟩ := getElem?_set_cases hj
    · have hn := h.nodes j n hi
      have hold : Pledges due' (n.dataAt (servers j)) n.backlog :=
        pledges_congr hn.pledges fun t ht => hdue t (hn.issued t ht)
      rw [hdata]
      refine ⟨hhealthy, fun t ht => ?_, ?_⟩
      · rw [hbacklog, ticketsOf_append] at ht
        obtain ht | ht := List.mem_append.mp ht
        · exact (hn.issued t ht).trans_le hnext
        · exact (hticket t (by simpa [ticketsOf] using ht)).1
      · rw [hbacklog, pledges_append]
        exact ⟨hold, fun t ht => (hticket t ht).2⟩
    · -- Another node answers under older tickets only, whose values are as before.
      have hk := h.nodes j k hj
      exact ⟨hk.healthy, fun t ht => (hk.issued t ht).trans_le hnext,
        pledges_congr hk.pledges fun t ht => hdue t (hk.issued t ht)⟩
  · obtain ⟨hissued, hright⟩ := h.arrived p hp
    exact ⟨hissued.trans_le hnext, by rw [hright, hdue p.1 hissued]⟩
  · intro j k hj hflushed key hkey
    replace hkey : c.nodeOf key = j := by simpa [nodeOf] using hkey
    obtain ⟨rfl, rfl⟩ | ⟨hne, hj⟩ := getElem?_set_cases hj
    · rw [hbacklog, hdata, Contents.after_append]
      exact hsame key hkey hflushed
    · subst hkey
      obtain ⟨hflushed, hm⟩ := hother key hne hflushed
      rw [hm]
      exact h.contents _ k hj hflushed key rfl

/-- The answer to a command that is queued is awaited. -/
theorem awaits_queued (hi : c.nodes[i]? = some n) {command : Command} {next : Ticket}
    (hbacklog : n'.backlog = n.backlog ++ [command]) (hticket : command.ticket? = some ticket) :
    { c with nodes := c.nodes.set i n', nextTicket := next }.Awaits i ticket := by
  refine .inr ⟨n', getElem?_set_of_some hi, ?_⟩
  rw [hbacklog, ticketsOf_append]
  exact List.mem_append_right _ (by simp [ticketsOf, hticket])

/-- `Awaits` goes through queueing: what was awaited before still is. -/
theorem awaits_queue (hi : c.nodes[i]? = some n) {command : Command} {next : Ticket}
    (hbacklog : n'.backlog = n.backlog ++ [command]) {j : Nat} (ha : c.Awaits j ticket) :
    { c with nodes := c.nodes.set i n', nextTicket := next }.Awaits j ticket := by
  obtain ha | ⟨k, hk, ht⟩ := ha
  · exact .inl ha
  · by_cases hne : j = i
    · subst hne
      obtain rfl : n = k := Option.some.inj (hi.symm.trans hk)
      refine .inr ⟨n', getElem?_set_of_some hi, ?_⟩
      rw [hbacklog, ticketsOf_append]
      exact List.mem_append_left _ ht
    · exact .inr ⟨k, by rw [List.getElem?_set_ne (Ne.symm hne), hk], ht⟩

end Cluster

end CacheService.Remote
