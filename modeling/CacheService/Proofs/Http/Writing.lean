import CacheService.Proofs.Cache.Refusals
import CacheService.Proofs.Cache.TypedValues
import CacheService.Proofs.Http.Paths
import CacheService.Proofs.Http.Service
import CacheService.Remote.Server

/-!
# CacheService.Proofs.Http.Writing

Writes over HTTP, all or nothing. A write that is not answered as a success leaves the
cache as it was, whichever of the four stages refused it (`left_of_refused_put`). One
that is, on a cache that keeps its values in this process, has been stored with the
lifetime that the answer shows (`WriteRequest.AsksFor`); a read of its key
(`Request.Reads`) at the same clock finds it if some tier admits it (`get_after_set`).
Every key that the service takes can be read (`exists_reads`).
-/

namespace CacheService

open Remote (Network)

variable {σ : Type} [Network σ]

/-! ## Stored values -/

namespace Cache

variable {c : Cache} {plan : CapacityPlan} {n : Nat} {α : Type}

/-- A write that a local cache takes is one on a cache in use, which may have been built for it. -/
theorem exists_serving (hc : c.InUse (.localTiers plan) (fun _ b => b.HasStore plan) n)
    {w : World σ} {codec : Codec α} {key : String} {value : α} {ttl : UInt32}
    (hset : (c.set w codec key value ttl).1 = .ok ()) :
    ∃ (c₀ : Cache) (s : Store) (w₀ : World σ), c₀.ServesTyped σ s ∧ s.Valid plan .entryTtl ∧
      w₀.now = w.now ∧ c.set w codec key value ttl = c₀.set w₀ codec key value ttl := by
  cases hstate : c.state with
  | uninitialized =>
      have hb : Backend.ofConfig c.config = .ok (.localTiers (some (.empty plan .entryTtl))) := by
        rw [hc.sound.config]
        rfl
      have hv := Store.valid_empty plan .entryTtl
      exact ⟨c.built _ w, _, w.tell _, servesTyped_of_valid hv rfl, hv, rfl,
        set_built hstate hb codec key value ttl⟩
  | active b sweep =>
      obtain ⟨calls, rfl⟩ := hc.holds b sweep hstate
      have hv := Store.valid_after (Store.valid_empty plan .entryTtl) calls
      exact ⟨c, _, w, servesTyped_of_valid hv hstate, hv, rfl, rfl⟩
  | stopped =>
      have hactivate : c.activate w = (.error (.illegalState .cacheStopped), c, w) := by
        simp only [activate, hstate]
      rw [set_refused hactivate] at hset
      contradiction

/-- **A value that a local cache takes** is there at the clock of its write if some tier of the
plan admits its bytes, unless its lifetime is cut off by the largest time. -/
theorem get_after_set (hc : c.InUse (.localTiers plan) (fun _ b => b.HasStore plan) n)
    {w w' : World σ} {codec : Codec α} {key : String} {value : α} {bytes : ByteArray} {ttl : UInt32}
    (hbytes : codec.encode value = some bytes) (hagain : codec.decode bytes = some value)
    (hset : (c.set w codec key value ttl).1 = .ok ()) (hclock : w'.now = w.now) (d : Diagnostics) :
    ((c.set w codec key value ttl).2.1.get w' d codec key).1 =
      if (Store.empty plan .entryTtl).admits (key.utf8ByteSize + bytes.size + Entry.overhead) ∧
          (ttl = 0 ∨ w.now.toNat < 2 ^ 64 - 1) then some value
      else none := by
  obtain ⟨c₀, s, w₀, hserves, hv, hclock₀, hsame⟩ := exists_serving hc hset
  have hread := (hserves.roundTrip w₀ w' codec codec d key value bytes value ttl hbytes hagain
    (hclock.trans hclock₀.symm)).2
  rw [hsame, hread, hclock₀, (Store.valid_empty plan .entryTtl).admits_congr hv]

end Cache

namespace Http

variable {c : Cache} {w : World σ} {r : Request}

/-! ## Reads -/

/-- A request reads the value under `key`. -/
def Request.Reads (r : Request) (key : String) : Prop :=
  r.method = "GET" ∧ ∃ segment, r.route? = some (.entry segment) ∧ segmentText? segment = some key

/-- **Every key** that the service takes can be read. -/
theorem exists_reads {key : String} (h : WriteRequest.keyFault? key = none) :
    ∃ r : Request, r.Reads key := by
  have hkey : key ≠ "" := by
    rintro rfl
    contradiction
  obtain ⟨target, segment, hroute, hsegment⟩ := exists_target hkey
  exact ⟨{ method := "GET", target }, rfl, segment, hroute, hsegment⟩

/-- What all reads of a key are answered when the clock reads `now`: a value, or that there
is none. -/
def Answers (σ : Type) [Network σ] (c : Cache) (now : UInt64) (key : String) (found : Option Json) :
    Prop :=
  ∀ (w : World σ) (fresh : String) (r : Request), w.now = now → r.Reads key →
    let answer := (respond c w fresh r).1
    match found with
    | some value => answer.status = .ok ∧ answer.body = (foundBody key value).text
    | none => answer.status = .notFound

/-- A read of the key is answered with what `Cache.get` finds. -/
theorem answers_of_get {now : UInt64} {key : String} {found : Option Json}
    (h : ∀ (w : World σ) (d : Diagnostics), w.now = now →
      (c.get w d codec key).1 = found.map Datum.json) : Answers σ c now key found := by
  rintro w fresh r hclock ⟨hmethod, segment, hroute, hsegment⟩ answer
  have hanswer := respond_served (c := c) (w := w) hroute (by simp [Route.methods, hmethod])
    (by simp [hmethod]) fresh
  have hserved : serve c w (r.context fresh) r (.entry segment) =
      getEntry c w (r.context fresh) key := by
    simp only [serve, withKey, hsegment]
  have hget := h w (r.context fresh) hclock
  rw [hserved] at hanswer
  unfold getEntry at hanswer
  rcases hread : c.get w (r.context fresh) codec key with ⟨x, c', w'⟩
  rw [hread] at hget hanswer
  obtain rfl := hget
  cases found with
  | some value => exact ⟨hanswer.status_eq, hanswer.body_eq⟩
  | none => exact hanswer.status_eq

/-! ## Writes -/

/-- The lifetime that a write asks for. -/
inductive WriteRequest.AsksFor (r : WriteRequest) : UInt32 → Prop
  | given (ttl : UInt32) (hgiven : r.ttl = some ttl) : AsksFor r ttl
  | said (ttl : UInt32) (expression : String) (hgiven : r.ttl = none)
      (hsaid : r.expiration = some expression) (hmeant : Duration.parse expression = .ok ttl) :
      AsksFor r ttl
  /-- 30 days. -/
  | neither (hgiven : r.ttl = none) (hsaid : r.expiration = none) : AsksFor r (30 * 24 * 60 * 60)

/-- What `lifetime` reads is what the write asks for. -/
theorem WriteRequest.asksFor_of_lifetime {write : WriteRequest} {ttl : UInt32}
    (h : write.lifetime = .ok ttl) : write.AsksFor ttl := by
  unfold lifetime at h
  cases hgiven : write.ttl with
  | some seconds =>
      rw [hgiven] at h
      obtain rfl := Except.ok.inj h
      exact .given _ hgiven
  | none =>
      rw [hgiven] at h
      cases hsaid : write.expiration with
      | some expression =>
          rw [hsaid] at h
          exact .said ttl expression hgiven hsaid h
      | none =>
          rw [hsaid] at h
          obtain rfl := Except.ok.inj h
          exact .neither hgiven hsaid

/-- **A write that is refused** leaves the cache as it was. Of a remote backend, answers
for which nobody waits may be gone (`Cache.forget`). -/
theorem left_of_refused_put (h : (put c w r).1.status ≠ .ok) :
    (put c w r).2 = (c, w) ∨ (put c w r).2 = (c.forget, w) := by
  have hcase := put_cases c w r
  generalize put c w r = answer at h hcase
  cases hcase with
  | unread fault => exact .inl rfl
  | refused write e => exact .inl rfl
  | failed write ttl e hread hcheck hset =>
      rcases c.set_cases w codec write.key (.json write.value) ttl with hdone | ⟨e', hleft⟩
      · rw [hdone] at hset
        contradiction
      · exact .inr (congrArg Prod.snd hleft)
  | written => exact absurd rfl h

/-- **All or nothing.** A write that is not answered as a success leaves the cache and its
surroundings as they were, in whatever state they are: the backend is not built, no entry,
no counter and no order of use changes; a remote client in use may forget answers for which
no call waits. A write that is answered as a success, on a cache that keeps its values in
this process, after any run, shows the lifetime that was asked for; and if its value is read
back from its own text, every read of the key at the same clock is answered with the value
if some tier admits it, and else as a key that is not there. Only a lifetime that the largest
time cuts off to nothing is over at once. -/
theorem put_all_or_nothing (σ : Type) [Network σ] :
    (∀ (c : Cache) (w : World σ) (fresh : String) (r : Request),
      r.method = "PUT" → r.route? = some .entries → (respond c w fresh r).1.status ≠ .ok →
        (respond c w fresh r).2 = (c, w) ∨
          ∃ cluster sweep, c.state = .active (.remote cluster) sweep ∧
            (respond c w fresh r).2 =
              ({ c with state := .active (.remote cluster.forgetAnswers) sweep }, w)) ∧
    ∀ (plan : CapacityPlan) (interval : Span) (hasTimer : Bool) (steps : List (Cache.Step σ))
      (w : World σ) (fresh : String) (r : Request),
      let c := Cache.after
        { config := .localTiers plan, cleanupInterval := interval, hasTimer } steps
      let answer := respond c w fresh r
      r.method = "PUT" → r.route? = some .entries → answer.1.status = .ok →
        ∃ write ttl, r.write = .ok write ∧ write.AsksFor ttl ∧
          answer.1.body = (writtenBody write.key ttl).text ∧
          (∃ read : Request, read.Reads write.key) ∧
          (codec.decode write.value.text.toUTF8 = some (.json write.value) →
            Answers σ answer.2.1 w.now write.key
              (if (Store.empty plan .entryTtl).admits
                    (write.key.utf8ByteSize + write.value.text.utf8ByteSize + Entry.overhead) ∧
                  (ttl = 0 ∨ w.now.toNat < 2 ^ 64 - 1) then some write.value
              else none)) := by
  refine ⟨fun c w fresh r hmethod hroute hstatus => ?_, ?_⟩
  · have hanswer := respond_put (c := c) (w := w) hmethod hroute fresh
    rw [hanswer.status_eq] at hstatus
    rw [hanswer.left_eq]
    rcases left_of_refused_put hstatus with hleft | hleft
    · exact .inl hleft
    · rw [hleft]
      rcases c.forget_cases with hsame | ⟨cluster, sweep, hstate, hforgot⟩
      · exact .inl (by rw [hsame])
      · exact .inr ⟨cluster, sweep, hstate, by rw [hforgot]⟩
  · intro plan interval hasTimer steps w fresh r c answer hmethod hroute hstatus
    have hc := Cache.inUse_after (Backend.preserved_hasStore (σ := σ) plan) interval hasTimer steps
    have hanswer := respond_put (c := c) (w := w) hmethod hroute fresh
    rw [hanswer.status_eq] at hstatus
    obtain ⟨write, ttl, hread, hcheck, hset, hput⟩ := write_of_put_ok hstatus
    obtain ⟨hkey, hlifetime⟩ := WriteRequest.check_eq_ok.mp hcheck
    have hbody : answer.1.body = (writtenBody write.key ttl).text := by
      rw [hanswer.body_eq, hput]
      rfl
    have hleft : answer.2.1 = (c.set w codec write.key (.json write.value) ttl).2.1 := by
      rw [hanswer.left_eq, hput]
    refine ⟨write, ttl, hread, WriteRequest.asksFor_of_lifetime hlifetime, hbody,
      exists_reads hkey, fun hagain => ?_⟩
    rw [hleft]
    refine answers_of_get fun w' d hclock => ?_
    rw [Cache.get_after_set hc rfl hagain hset hclock d, apply_ite (Option.map Datum.json)]
    rfl

/-- A body in the form of an array, whose end is missing. -/
theorem write_of_array :
    let r : Request :=
      { method := "PUT", target := "/set", headers := [("content-type", "application/json")],
        body := "[\"k\",true,1]".toUTF8 }
    r.write = .ok ⟨"k", .bool true, some 1, none⟩ := by
  intro r
  have hfields : r.write.toOption.map (fun write => (write.key, write.ttl, write.expiration,
      match write.value with
      | .bool b => some b
      | _ => none)) = some ("k", some 1, none, some true) := by decide +kernel
  cases hwrite : r.write with
  | error fault => simp [hwrite, Except.toOption] at hfields
  | ok write =>
    obtain ⟨key, value, ttl, expiration⟩ := write
    cases value <;> simp_all [Except.toOption]

/-- A write with a misspelt expression does not even build the backend. Another for one second
does, and is read back. -/
theorem put_all_or_nothing_read :
    let plan : CapacityPlan := ⟨some (.entries 1), none⟩
    let w : World Remote.ServerFarm := { clock := 5, network := { servers := [] } }
    let write : Request :=
      { method := "PUT", target := "/set", headers := [("content-type", "application/json")],
        body := "[\"k\",true,1]".toUTF8 }
    let misspelt : Request := { write with body := "[\"k\",true,null,\"1x\"]".toUTF8 }
    let c := Cache.after { config := .localTiers plan } ([] : List (Cache.Step Remote.ServerFarm))
    let answer := respond c w "1" write
    (respond c w "0" misspelt).1.status = .badRequest ∧ (respond c w "0" misspelt).2 = (c, w) ∧
      answer.1.status = .ok ∧ answer.1.body = (writtenBody "k" 1).text ∧
      Answers Remote.ServerFarm answer.2.1 5 "k" (some (.bool true)) := by
  intro plan w write misspelt c answer
  obtain ⟨hrefused, hwritten⟩ := put_all_or_nothing Remote.ServerFarm
  have hmisspelt : (respond c w "0" misspelt).1.status = .badRequest := by decide +kernel
  have hleft : (respond c w "0" misspelt).2 = (c, w) := by
    rcases hrefused c w "0" misspelt rfl (by decide) (by simp [hmisspelt]) with
      hleft | ⟨cluster, sweep, hstate, -⟩
    · exact hleft
    · contradiction
  have hstatus : answer.1.status = .ok := by decide +kernel
  obtain ⟨r, ttl, hread, hasked, hbody, -, hanswers⟩ :=
    hwritten plan (.ofSeconds 1) true [] w "1" write rfl (by decide) hstatus
  obtain rfl := Except.ok.inj (hread.symm.trans write_of_array)
  obtain rfl : ttl = 1 := by
    cases hasked with
    | given _ hgiven => exact (Option.some.inj hgiven).symm
    | said _ _ hgiven => contradiction
    | neither hgiven => contradiction
  have hfound := hanswers (by cbv)
  rw [if_pos (by decide)] at hfound
  exact ⟨hmisspelt, hleft, hstatus, hbody, hfound⟩

/-- At the largest time that a clock can read, a write for one second is answered as a success
and is not there for a read at that very time, though a tier admits it. -/
theorem put_expired_at_once :
    let plan : CapacityPlan := ⟨some (.entries 1), none⟩
    let w : World Remote.ServerFarm := { clock := 2 ^ 64 - 1, network := { servers := [] } }
    let write : Request :=
      { method := "PUT", target := "/set", headers := [("content-type", "application/json")],
        body := "[\"k\",true,1]".toUTF8 }
    let read : Request := { method := "GET", target := "/get/k" }
    let c := Cache.after { config := .localTiers plan } ([] : List (Cache.Step Remote.ServerFarm))
    let answer := respond c w "1" write
    write.write = .ok ⟨"k", .bool true, some 1, none⟩ ∧ answer.1.status = .ok ∧
      (Store.empty plan .entryTtl).admits
        ("k".utf8ByteSize + (Json.bool true).text.utf8ByteSize + Entry.overhead) = true ∧
      codec.decode (Json.bool true).text.toUTF8 = some (.json (.bool true)) ∧
      read.Reads "k" ∧ (respond answer.2.1 w "2" read).1.status = .notFound := by
  intro plan w write read c answer
  exact ⟨write_of_array, by decide +kernel, by decide, by cbv, ⟨rfl, ['k'], by decide, by cbv⟩,
    by decide +kernel⟩

end Http

end CacheService
