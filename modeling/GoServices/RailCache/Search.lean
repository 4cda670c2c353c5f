/-
The read path of RailCache: `Search`, its background refreshes and `Invalidate`.

A request reads the cache.
-/
import GoServices.Base.Run
import GoServices.Base.Table
import GoServices.RailCache.Query

namespace GoServices.RailCache.Search

/-- Nothing here reads more of a train than that it is there; two fields tell trains apart. -/
structure Train where
  number : String
  available : Int
  deriving DecidableEq

structure SearchResult where
  query : Query
  trains : List Train
  deriving DecidableEq

structure Answer where
  asked : Query
  number : Nat
  result : SearchResult
  deriving DecidableEq

/-- `CacheEnvelope`. -/
structure Envelope where
  answer : Answer
  empty : Bool
  cachedAt : Int
  freshUntil : Int
  deriving DecidableEq

def Envelope.stale (e : Envelope) (t : Int) : Bool := ¬ t < e.freshUntil

inductive CacheStatus
  | hit
  | stale
  | miss
  | fallback
  deriving DecidableEq

structure Outcome where
  answer : Answer
  status : CacheStatus
  dbHit : Bool
  dbTook : Int
  suppressed : Bool
  asOf : Int
  deriving DecidableEq

/-- The errors of `Search`, with the cause that the source or the context gave. -/
inductive SearchError
  | fill (key cause : String)
  | wait (key cause : String)
  | budgetExhausted (key cause : String)
  | fallback (cause : String)
  deriving DecidableEq

/-- What `fillAndStore` returns when the source has answered. -/
structure FillOutput where
  answer : Answer
  took : Int
  asOf : Int
  deriving DecidableEq

structure Metrics where
  hits : Nat
  stale : Nat
  misses : Nat
  herdSuppressed : Nat
  fallbacks : Nat
  errors : Nat
  refreshes : Nat
  dbFills : Nat

/-! ## The outcomes -/

def Envelope.outcome (e : Envelope) (status : CacheStatus) (suppressed : Bool) : Outcome :=
  { answer := e.answer, status := status, dbHit := false, dbTook := 0, suppressed := suppressed,
    asOf := e.cachedAt }

def FillOutput.own (out : FillOutput) : Outcome :=
  { answer := out.answer, status := .miss, dbHit := true, dbTook := out.took, suppressed := false,
    asOf := out.asOf }

def FillOutput.coalesced (out : FillOutput) : Outcome :=
  { answer := out.answer, status := .hit, dbHit := false, dbTook := 0, suppressed := true,
    asOf := out.asOf }

def FillOutput.fallback (out : FillOutput) : Outcome :=
  { answer := out.answer, status := .fallback, dbHit := true, dbTook := out.took,
    suppressed := false, asOf := out.asOf }

/-- The envelope that `store` writes.  It reads the clock at `now`, and `freshnessFor`
reads it at `later`. -/
def newEnvelope (p : Params) (now later offset : Int) (answer : Answer) : Envelope :=
  let logical := if answer.result.trains.length > 0 then p.freshnessFor answer.result.query later
    else p.negativeTTL
  { answer := answer, empty := answer.result.trains.length = 0, cachedAt := now,
    freshUntil := now + jitterTTL logical p.jitter offset }

/-! ## Requests and refreshes -/

/-- Who runs `fillAndStore` or the query of `doRefresh`. -/
inductive Role
  | winner
  | leader
  | refresh
  deriving DecidableEq

inductive Pc
  | get
  | acquire
  /-- Another filler holds the lock; so many reads are left, then `fillSF.Do`. -/
  | wait (tries : Nat)
  | query (role : Role)
  | store (role : Role) (out : FillOutput)
  /-- The function of `fillSF.Do` has returned. -/
  | land (fill : Except String FillOutput)
  /-- Another request runs the function of `fillSF.Do`. -/
  | flying (leader : Nat)
  | release (result : Except SearchError Outcome)
  | fallback
  /-- The value read is stale: `triggerRefresh`, then it is served. -/
  | revalidate (env : Envelope)
  | done (result : Except SearchError Outcome)
  | refreshAcquire
  | refreshRelease
  /-- `refreshing.Delete`. -/
  | ungate
  | refreshed
  deriving DecidableEq

structure Call where
  query : Query
  ctxDone : Bool
  pc : Pc

/-- A call of `fillSF`: who runs its function and how many others wait for it. -/
structure Flight where
  leader : Nat
  dups : Nat

structure State where
  /-- The codes of `StationCache`. -/
  stations : List String
  cache : Table String Envelope
  locks : Table String Nat
  stored : List (String × Envelope)
  answers : List Answer
  calls : Table Nat Call
  flights : Table String Flight
  landed : Table Nat (Except String FillOutput)
  refreshing : List String
  metrics : Metrics

def initial : State :=
  { stations := [], cache := .empty, locks := .empty, stored := [], answers := [],
    calls := .empty, flights := .empty, landed := .empty, refreshing := [],
    metrics := ⟨0, 0, 0, 0, 0, 0, 0, 0⟩ }

inductive Reply
  | ok
  | failed (applied : Bool)

def Reply.applied : Reply → Bool
  | .ok => true
  | .failed applied => applied

def Reply.errors : Reply → Nat
  | .ok => 0
  | .failed _ => 1

inductive GetReply
  | value (env : Envelope)
  | corrupt
  | miss
  | failed

inductive LockReply
  | won
  | refused
  | failed (applied : Bool)

inductive Label
  | refreshStations (codes : List String)
  /-- A request is validated and starts `Search`. -/
  | request (call : Nat) (raw : Query) (now : Int)
  | cancel (call : Nat)
  | get (call : Nat) (reply : GetReply) (now : Int)
  | acquire (call : Nat) (reply : LockReply)
  | reread (call : Nat) (reply : GetReply)
  | giveUp (call : Nat) (cause : String)
  | join (call : Nat)
  | answer (call : Nat) (reply : Except String SearchResult) (took now : Int)
  | store (call : Nat) (reply : Reply) (now later offset : Int)
  | land (call : Nat)
  | wake (call : Nat)
  | release (call : Nat) (reply : Reply)
  | revalidate (call worker : Nat)
  | ungate (call : Nat)
  | invalidate (raw : Query) (reply : Reply)
  | expire (key : String)

/-! ## Steps -/

namespace State

variable (s : State) (n : Nat)

def setPc (c : Call) (pc : Pc) : State :=
  { s with calls := s.calls.set n { c with pc := pc } }

def count (f : Metrics → Metrics) : State := { s with metrics := f s.metrics }

def nextAnswer (q : Query) (result : SearchResult) : Answer :=
  { asked := q, number := s.answers.length, result := result }

variable (key : String)

def Returns : GetReply → Prop
  | .value env => (key, env) ∈ s.stored
  | _ => True

instance (s : State) (key : String) : ∀ reply, Decidable (s.Returns key reply) := fun _ => by
  unfold Returns
  split <;> infer_instance

/-- `Search` after `GetWithTTL`. -/
def afterGet (c : Call) (now : Int) : GetReply → State
  | .value env =>
    if env.stale now then s.setPc n c (.revalidate env)
    else (s.count fun m => { m with hits := m.hits + 1 }).setPc n c
      (.done (.ok (env.outcome .hit false)))
  | .corrupt => (s.count fun m => { m with errors := m.errors + 1 }).setPc n c .acquire
  | .miss => s.setPc n c .acquire
  | .failed => s.setPc n c .fallback

/-- A loser of the lock after `GetWithTTL`, with so many reads left. -/
def afterReread (c : Call) (tries : Nat) : GetReply → State
  | .value env => (s.count fun m => { m with herdSuppressed := m.herdSuppressed + 1 }).setPc n c
      (.done (.ok (env.outcome .hit true)))
  | .corrupt | .miss => s.setPc n c (.wait tries)
  | .failed => s.setPc n c .fallback

/-- `Acquire` at the store. -/
def lock (n : Nat) : LockReply → State
  | .won | .failed true => { s with locks := s.locks.set (lockKey key) n }
  | .refused | .failed false => s

/-- `fill` after `Acquire`. -/
def afterAcquire (p : Params) (n : Nat) (c : Call) : LockReply → State
  | .won => s.setPc n c (.query .winner)
  | .refused => s.setPc n c (.wait p.waitTries.toNat)
  | .failed _ => s.setPc n c .fallback

/-- `doRefresh` after `Acquire`. -/
def afterRefreshAcquire (c : Call) : LockReply → State
  | .won => s.setPc n c (.query .refresh)
  | .refused | .failed _ => s.setPc n c .ungate

/-- `fillSF.Do` up to its function, or up to the wait for another request: a `singleflight.Group`
runs one function for a key at a time, and calls that come meanwhile wait for its result. -/
def joinFlight (n : Nat) (c : Call) : State :=
  match s.flights.get? key with
  | none => { s with flights := s.flights.set key ⟨n, 0⟩ }.setPc n c (.query .leader)
  | some f =>
    { s with flights := s.flights.set key { f with dups := f.dups + 1 } }.setPc n c
      (.flying f.leader)

/-- `queryDB` in `fillAndStore` and in `doRefresh`. -/
def afterQuery (n : Nat) (c : Call) (role : Role) (took now : Int) :
    Except String SearchResult → State
  | .ok result =>
    let answer := s.nextAnswer c.query result
    { s with answers := s.answers ++ [answer] }.setPc n c (.store role ⟨answer, took, now⟩)
  | .error cause =>
    match role with
    | .winner => (s.count fun m => { m with errors := m.errors + 1 }).setPc n c
        (.release (.error (.fill key cause)))
    | .leader => s.setPc n c (.land (.error cause))
    | .refresh => (s.count fun m => { m with errors := m.errors + 1 }).setPc n c .refreshRelease

/-- `fallback`. -/
def afterFallback (c : Call) (took now : Int) :
    Except String SearchResult → State
  | .ok result =>
    let answer := s.nextAnswer c.query result
    ({ s with answers := s.answers ++ [answer] }.count
      fun m => { m with fallbacks := m.fallbacks + 1 }).setPc n c
      (.done (.ok (FillOutput.fallback ⟨answer, took, now⟩)))
  | .error cause => (s.count fun m => { m with errors := m.errors + 1 }).setPc n c
      (.done (.error (.fallback cause)))

/-- `SetEx` in `store`. -/
def write (env : Envelope) (reply : Reply) : State :=
  let s := s.count fun m => { m with errors := m.errors + reply.errors }
  if reply.applied then
    { s with cache := s.cache.set key env, stored := (key, env) :: s.stored }
  else s

/-- `fillAndStore` and `doRefresh` after `store`. -/
def afterStore (c : Call) (out : FillOutput) : Role → State
  | .winner =>
    (s.count fun m => { m with dbFills := m.dbFills + 1, misses := m.misses + 1 }).setPc n c
      (.release (.ok out.own))
  | .leader => (s.count fun m => { m with dbFills := m.dbFills + 1 }).setPc n c (.land (.ok out))
  | .refresh => (s.count fun m => { m with refreshes := m.refreshes + 1 }).setPc n c .refreshRelease

/-- `Release` at the store: only the holder's token deletes the lock. -/
def unlock (n : Nat) (reply : Reply) : State :=
  if reply.applied ∧ s.locks.get? (lockKey key) = some n then
    { s with locks := s.locks.erase (lockKey key) }
  else s

def sharedFlight (n : Nat) : Bool :=
  match s.flights.get? key with
  | some f => f.leader = n && 0 < f.dups
  | none => false

def removeFlight (n : Nat) : Table String Flight :=
  match s.flights.get? key with
  | some f => if f.leader = n then s.flights.erase key else s.flights
  | none => s.flights

/-- A request whose `fillSF.Do` has returned. -/
def afterFlight (n : Nat) (c : Call) (coalesced : Bool) :
    Except String FillOutput → State
  | .error cause => (s.count fun m => { m with errors := m.errors + 1 }).setPc n c
      (.done (.error (.budgetExhausted key cause)))
  | .ok out =>
    if coalesced then
      (s.count fun m => { m with herdSuppressed := m.herdSuppressed + 1 }).setPc n c
        (.done (.ok out.coalesced))
    else (s.count fun m => { m with misses := m.misses + 1 }).setPc n c (.done (.ok out.own))

/-- `fillSF.Do` of the leader after its function: the key is free again, the calls that waited get
the same result, and `shared` says whether there were any. -/
def landFlight (n : Nat) (c : Call) (fill : Except String FillOutput) :
    State :=
  { s with flights := s.removeFlight key n, landed := s.landed.set n fill }.afterFlight key n c
    (s.sharedFlight key n) fill

/-- `triggerRefresh`, and the stale value is served. -/
def afterStale (n worker : Nat) (c : Call) (env : Envelope) :
    Option State :=
  let serve (s : State) : State := (s.count fun m => { m with stale := m.stale + 1 }).setPc n c
    (.done (.ok (env.outcome .stale false)))
  if key ∈ s.refreshing then some (serve s)
  else if (s.calls.get? worker).isSome then none
  else some (serve { s with
    refreshing := key :: s.refreshing
    calls := s.calls.set worker ⟨c.query, false, .refreshAcquire⟩ })

end State

section
variable (u : Runes) (classes : List String) (windowDays : Int) (p : Params) (s : State)

def State.next (n : Nat) (c : Call) (a : Label) : Option State :=
  let key := cacheKey u c.query
  match c.pc, a with
  | .get, .get _ reply now => if s.Returns key reply then some (s.afterGet n c now reply) else none
  | .acquire, .acquire _ reply => some ((s.lock key n reply).afterAcquire p n c reply)
  | .wait (tries + 1), .reread _ reply =>
    if s.Returns key reply then some (s.afterReread n c tries reply) else none
  | .wait (_ + 1), .giveUp _ cause =>
    if c.ctxDone then some (s.setPc n c (.done (.error (.wait key cause)))) else none
  | .wait 0, .join _ => some (s.joinFlight key n c)
  | .query role, .answer _ reply took now => some (s.afterQuery key n c role took now reply)
  | .fallback, .answer _ reply took now => some (s.afterFallback n c took now reply)
  | .store role out, .store _ reply now later offset =>
    some ((s.write key (newEnvelope p now later offset out.answer) reply).afterStore n c out role)
  | .land fill, .land _ => some (s.landFlight key n c fill)
  | .flying leader, .wake _ => (s.landed.get? leader).map (s.afterFlight key n c true)
  | .release result, .release _ reply => some ((s.unlock key n reply).setPc n c (.done result))
  | .revalidate env, .revalidate _ worker => s.afterStale key n worker c env
  | .refreshAcquire, .acquire _ reply => some ((s.lock key n reply).afterRefreshAcquire n c reply)
  | .refreshRelease, .release _ reply => some ((s.unlock key n reply).setPc n c .ungate)
  | .ungate, .ungate _ =>
    some ({ s with refreshing := s.refreshing.filter (· ≠ key) }.setPc n c .refreshed)
  | _, _ => none

/-- The handler: a query that is not valid never reaches `Search`. -/
def State.request (n : Nat) (raw : Query) (now : Int) : Option State :=
  match s.calls.get? n with
  | some _ => none
  | none =>
    match (Validator.mk s.stations classes windowDays).validate u now raw with
    | (_, some _) => some s
    | (q, none) => some { s with calls := s.calls.set n ⟨q.normalize u, false, .get⟩ }

def State.cancel (n : Nat) : Option State :=
  match s.calls.get? n with
  | some ⟨_, _, .done _⟩ | none => none
  | some c => some { s with calls := s.calls.set n { c with ctxDone := true } }

def State.invalidate (raw : Query) (reply : Reply) : State :=
  if reply.applied then { s with cache := s.cache.erase (cacheKey u (raw.normalize u)) } else s

def step (a : Label) : Option State :=
  match a with
  | .refreshStations codes => some { s with stations := codes }
  | .request n raw now => s.request u classes windowDays n raw now
  | .cancel n => s.cancel n
  | .invalidate raw reply => some (s.invalidate u raw reply)
  | .expire key => some { s with cache := s.cache.erase key, locks := s.locks.erase key }
  | .get n .. | .acquire n .. | .reread n .. | .giveUp n .. | .join n | .answer n .. | .store n ..
  | .land n | .wake n | .release n .. | .revalidate n .. | .ungate n =>
    (s.calls.get? n).bind fun c => s.next u p n c a

end

end GoServices.RailCache.Search
