import CacheService.Http.Service

/-!
# CacheService.Proofs.Http.Service

How the service comes to its answers. A request whose route takes its method is
answered by what serves the route, up to its headers (`AnsweredAs`, `respond_served`),
and a write is answered in one of four ways (`PutCase`, `put_cases`): its body is not
read, it asks for no write that can be carried out, the cache refuses it, or it is
carried out. The last alone is a success (`write_of_put_ok`), since no error is answered
as one (`statusOf_ne_ok`).
-/

namespace CacheService.Http

variable {σ : Type} [Remote.Network σ] {c : Cache} {w : World σ} {r : Request}

/-! ## Statuses -/

/-- No error has the status of a success. -/
theorem statusOf_ne_ok (e : CacheError) : statusOf e ≠ .ok := by
  cases e <;> simp [statusOf]

/-- No answer to an error has. -/
theorem status_ofError_ne_ok (e : CacheError) : (Response.ofError e).status ≠ .ok :=
  statusOf_ne_ok e

/-- Nor has one to a body that cannot be read. -/
theorem BodyFault.status_response_ne_ok (fault : BodyFault) : fault.response.status ≠ .ok := by
  match fault with
  | .wrongType | .tooLarge | .unreadable .malformed | .unreadable .mismatch => exact nofun

/-! ## Routes -/

/-- The diagnostic context of a request. -/
def Request.context (r : Request) (fresh : String) : Diagnostics :=
  Diagnostics.none.enter [(requestIdName, r.id fresh)]

/-- The route of a request. -/
def Request.route? (r : Request) : Option Route := Http.route? (pathOf r.target.toList)

/-- What is answered to a request beside its headers, and what the request leaves. -/
structure AnsweredAs (answer served : Response × Cache × World σ) : Prop where
  status_eq : answer.1.status = served.1.status
  body_eq : answer.1.body = served.1.body
  left_eq : answer.2 = served.2

/-- A request whose route takes its method is answered by what serves the route. -/
theorem respond_served {route : Route} (hroute : r.route? = some route)
    (hmethod : r.method ∈ route.methods) (hbody : r.method ≠ "HEAD") (fresh : String) :
    AnsweredAs (respond c w fresh r) (serve c w (r.context fresh) r route) := by
  have hasked : r.method ≠ "OPTIONS" := by
    intro h
    rw [h] at hmethod
    cases route <;> simp [Route.methods] at hmethod
  have hdispatch : dispatch c w (r.context fresh) r = serve c w (r.context fresh) r route := by
    unfold dispatch
    rw [show Http.route? (pathOf r.target.toList) = some route from hroute]
    exact if_pos hmethod
  rw [← hdispatch]
  simp only [respond, if_neg hasked, if_neg hbody]
  exact ⟨rfl, rfl, rfl⟩

/-! ## Writes -/

/-- A write that `check` takes has a key that the service takes, and a lifetime. -/
theorem WriteRequest.check_eq_ok {write : WriteRequest} {ttl : UInt32} :
    write.check = .ok ttl ↔ keyFault? write.key = none ∧ write.lifetime = .ok ttl := by
  unfold check
  cases keyFault? write.key <;> simp

/-- A request that writes is answered by `put`. -/
theorem respond_put (hmethod : r.method = "PUT") (hroute : r.route? = some .entries)
    (fresh : String) : AnsweredAs (respond c w fresh r) (put c w r) :=
  respond_served hroute (by simp [Route.methods, hmethod]) (by simp [hmethod]) fresh

/-- How a write is answered, and what it leaves. -/
inductive PutCase (c : Cache) (w : World σ) (r : Request) : Response × Cache × World σ → Prop
  /-- The body asks for no write. -/
  | unread (fault : BodyFault) (hread : r.write = .error fault) :
      PutCase c w r (fault.response, c, w)
  /-- The write may not be carried out. -/
  | refused (write : WriteRequest) (e : CacheError) (hread : r.write = .ok write)
      (hcheck : write.check = .error e) : PutCase c w r (.ofError e, c, w)
  /-- The cache does not take the write. -/
  | failed (write : WriteRequest) (ttl : UInt32) (e : CacheError) (hread : r.write = .ok write)
      (hcheck : write.check = .ok ttl)
      (hset : (c.set w codec write.key (.json write.value) ttl).1 = .error e) :
      PutCase c w r (.ofError e, (c.set w codec write.key (.json write.value) ttl).2)
  | written (write : WriteRequest) (ttl : UInt32) (hread : r.write = .ok write)
      (hcheck : write.check = .ok ttl)
      (hset : (c.set w codec write.key (.json write.value) ttl).1 = .ok ()) :
      PutCase c w r (.json .ok (writtenBody write.key ttl),
        (c.set w codec write.key (.json write.value) ttl).2)

/-- `put` comes to one of `PutCase`. -/
theorem put_cases (c : Cache) (w : World σ) (r : Request) : PutCase c w r (put c w r) := by
  unfold put
  cases hread : r.write with
  | error fault => exact .unread fault hread
  | ok write =>
    unfold putEntry
    dsimp only
    cases hcheck : write.check with
    | error e => exact .refused write e hread hcheck
    | ok ttl =>
      have hfailed (e : CacheError) := PutCase.failed (c := c) (w := w) write ttl e hread hcheck
      have hwritten := PutCase.written (c := c) (w := w) write ttl hread hcheck
      rcases hset : c.set w codec write.key (.json write.value) ttl with ⟨e | ⟨⟩, c', w'⟩
      · simpa only [hset] using hfailed e (by rw [hset])
      · simpa only [hset] using hwritten (by rw [hset])

/-- A write that is answered as a success has been carried out. -/
theorem write_of_put_ok (h : (put c w r).1.status = .ok) :
    ∃ write ttl, r.write = .ok write ∧ write.check = .ok ttl ∧
      (c.set w codec write.key (.json write.value) ttl).1 = .ok () ∧
      put c w r = (.json .ok (writtenBody write.key ttl),
        (c.set w codec write.key (.json write.value) ttl).2) := by
  have hcase := put_cases c w r
  generalize put c w r = answer at h hcase
  cases hcase with
  | unread fault => exact absurd h fault.status_response_ne_ok
  | refused _ e => exact absurd h (status_ofError_ne_ok e)
  | failed _ _ e => exact absurd h (status_ofError_ne_ok e)
  | written write ttl hread hcheck hset => exact ⟨write, ttl, hread, hcheck, hset, rfl⟩

end CacheService.Http
