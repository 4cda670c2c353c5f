/-
Whose response a caller of the gateway receives.

The cache is keyed by the URL alone, so an entry that one caller loaded on a route that requires
auth is served to every other caller of that URL while it lives.
-/
import GoServices.Gateway.Server

namespace GoServices.Gateway

open List

inductive Event
  | answered (response : Response)
  | stored (response : Response) (now : Int)

/-- The store of `serveCacheable`, if it happens. -/
def storedBy (now : Int) : Option (Except FetchError Response) → List Event
  | some (.ok response) => if response.status ≥ 500 then [] else [.stored response now]
  | _ => []

def events (s : State) : Label → List Event
  | .load id now attempts =>
    match s.requests.get? id with
    | some (.load r _) =>
      match s.cache.recheck (cacheKey r) now with
      | some _ => []
      | none => (answers r attempts).map .answered ++ storedBy now (fetch r attempts)
    | _ => []
  | .direct id attempts =>
    match s.requests.get? id with
    | some (.direct r _) => (answers r attempts).map .answered
    | _ => []
  | _ => []

def storedSince (ttl : Int) (log : List Event) (key : String) (now : Int) : List Response :=
  log.filterMap fun
    | .stored response time =>
      if cacheKey response.request = key ∧ now ≤ time + ttl then some response else none
    | .answered _ => none

def waiting (s : State) (id : Nat) : Option (Request × Route) :=
  match s.requests.get? id with
  | some (.get r route) | some (.load r route) => some (r, route)
  | _ => none

def OwnEntries (p : State × List Event) (id : Nat) (now : Int) : Prop :=
  ∀ x ∈ waiting p.1 id, x.2.requireAuth = true →
    ∀ response ∈ storedSince p.1.cache.ttl p.2 (cacheKey x.1) now,
      response.request.authorization = x.1.authorization
  deriving Decidable

def LookupsOwn (p : State × List Event) : Label → Prop
  | .get id now | .load id now _ => OwnEntries p id now
  | .request .. | .direct .. => True

instance (p : State × List Event) : ∀ a, Decidable (LookupsOwn p a) := fun _ => by
  unfold LookupsOwn
  split <;> infer_instance

variable {response : Response} {path : String}

theorem mem_storedSince {ttl : Int} {log : List Event} {key : String} {now time : Int}
    (hmem : .stored response time ∈ log)
    (hkey : cacheKey response.request = key) (hlive : now ≤ time + ttl) :
    response ∈ storedSince ttl log key now :=
  mem_filterMap.mpr ⟨_, hmem, if_pos ⟨hkey, hlive⟩⟩

/-! ## The fetch -/

theorem fetchLoop_ok {r : Request} {n : Nat} {lastErr : FetchError} {attempts : List Attempt}
    (h : fetchLoop r n lastErr attempts = some (.ok response)) :
    response ∈ answers r attempts ∧ response.request = r := by
  induction attempts generalizing n lastErr with
  | nil => cases n <;> cases h
  | cons attempt rest ih =>
    cases n with
    | zero => cases h
    | succ n =>
      cases attempt with
      | noBackend error => cases rest <;> cases h
      | breakerOpen backend => exact ih h
      | answered backend status header body =>
        rw [fetchLoop] at h
        split at h
        · split at h <;> cases h
          exact ⟨mem_cons_self, rfl⟩
        · obtain ⟨hmem, hreq⟩ := ih h
          exact ⟨mem_cons_of_mem _ hmem, hreq⟩

/-! ## The stages before the cache -/

variable {route : Route}

theorem foldl_betterRoute (routes : List Route) (best : Option Route)
    (h : routes.foldl (betterRoute path) best = some route) :
    best = some route ∨ route ∈ routes := by
  induction routes generalizing best with
  | nil => exact .inl h
  | cons first rest ih =>
    rcases ih (betterRoute path best first) h with hbest | hmem
    · unfold betterRoute at hbest
      split at hbest
      · cases hbest
        exact .inr mem_cons_self
      · exact .inl hbest
    · exact .inr (mem_cons_of_mem _ hmem)

theorem matchRoute_mem {routes : List Route}
    (h : matchRoute routes path = some route) : route ∈ routes :=
  (foldl_betterRoute routes none h).resolve_left nofun

theorem verifier_of_checkConfig {cfg : Config} (h : checkConfig cfg = .ok ())
    (hroute : route ∈ cfg.routes) (hauth : route.requireAuth = true) :
    ∃ secret, cfg.verifier = some secret := by
  have hall : ∀ routes : List Route, routes.forM (checkRoute cfg) = .ok () →
      ∀ x ∈ routes, checkRoute cfg x = .ok () := by
    intro routes
    induction routes with
    | nil => exact nofun
    | cons first rest ih =>
      intro hrun x hx
      rw [forM_eq_forM, forM_cons] at hrun
      cases hfirst : checkRoute cfg first with
      | error e =>
        rw [hfirst] at hrun
        cases hrun
      | ok u =>
        rw [hfirst] at hrun
        rcases mem_cons.mp hx with rfl | hrest
        · exact hfirst
        · exact ih hrun x hrest
  have hcheck := hall cfg.routes h route hroute
  rw [checkRoute] at hcheck
  cases hverifier : cfg.verifier with
  | some secret => exact ⟨secret, rfl⟩
  | none =>
    rw [hverifier] at hcheck
    split at hcheck <;> try cases hcheck
    rw [if_pos ⟨hauth, rfl⟩] at hcheck
    cases hcheck

def Passed (lib : Lib) (cfg : Config) (r : Request) (route : Route) : Prop :=
  route ∈ cfg.routes ∧ (route.requireAuth = true →
    ∃ now claims, authenticate lib (cfg.verifier.getD "") now r = .ok claims)

def PcSound (lib : Lib) (cfg : Config) (log : List Event) : Pc → Prop
  | .get r route | .load r route | .direct r route => Passed lib cfg r route
  | .done r route (.response response) =>
    ∃ route', route = some route' ∧ Passed lib cfg r route' ∧ .answered response ∈ log ∧
      (route'.requireAuth = true → response.request.authorization = r.authorization)
  | .done _ _ (.error ..) => True

section
variable {lib : Lib} {cfg : Config} {log log' : List Event}

theorem PcSound.mono {pc : Pc} (hpc : PcSound lib cfg log pc) (hlog : ∀ x ∈ log, x ∈ log') :
    PcSound lib cfg log' pc := by
  cases pc with
  | done r route reply =>
    cases reply with
    | error => trivial
    | response response =>
      obtain ⟨route', hroute, hpassed, hanswered, hown⟩ := hpc
      exact ⟨route', hroute, hpassed, hlog _ hanswered, hown⟩
  | _ => exact hpc

theorem pcSound_routeHandler {r : Request} {route : Route} (h : Passed lib cfg r route) :
    PcSound lib cfg log (routeHandler r route) := by
  unfold routeHandler
  split <;> exact h

theorem pcSound_accept (r : Request) (allowed : Bool) (now : Int) :
    PcSound lib cfg log (accept lib cfg r allowed now) := by
  unfold accept
  split
  · trivial
  split
  · trivial
  rename_i route hroute
  have hmem := matchRoute_mem hroute
  split
  · trivial
  split
  · split
    · trivial
    · rename_i claims hclaims
      exact pcSound_routeHandler ⟨hmem, fun _ => ⟨now, claims, hclaims⟩⟩
  · rename_i hopen
    exact pcSound_routeHandler ⟨hmem, fun hauth => absurd hauth hopen⟩

/-! ## Steps -/

structure Inv (lib : Lib) (cfg : Config) (p : State × List Event) : Prop where
  entries : ∀ k e, p.1.cache.lookup k = some e → ∃ time, .stored e.value time ∈ p.2 ∧
    cacheKey e.value.request = k ∧ e.expiresAt = time + p.1.cache.ttl
  answered : ∀ response time, .stored response time ∈ p.2 → .answered response ∈ p.2
  pcs : ∀ id pc, p.1.requests.get? id = some pc → PcSound lib cfg p.2 pc

section
variable {p : State × List Event} {id : Nat} {r : Request}

section
variable (hp : Inv lib cfg p)
include hp

theorem Inv.setPc {pc : Pc} (hpc : PcSound lib cfg p.2 pc) :
    Inv lib cfg (p.1.setPc id pc, p.2) := { hp with
  pcs j pc' hj := by
    rcases Table.set_cases hj with ⟨-, rfl⟩ | ⟨-, hold⟩
    · exact hpc
    · exact hp.pcs j pc' hold }

theorem Inv.shrink {c : Cache Response} (httl : c.ttl = p.1.cache.ttl)
    (hentries : ∀ k e, c.lookup k = some e → p.1.cache.lookup k = some e) :
    Inv lib cfg ({ p.1 with cache := c }, p.2) := { hp with
  entries := fun k e he => by
    obtain ⟨time, hmem, hkey, hexp⟩ := hp.entries k e (hentries k e he)
    exact ⟨time, hmem, hkey, hexp.trans (by rw [httl])⟩ }

theorem Inv.answers (responses : List Response) :
    Inv lib cfg (p.1, p.2 ++ responses.map .answered) where
  entries k e he := by
    obtain ⟨time, hmem, hrest⟩ := hp.entries k e he
    exact ⟨time, mem_append_left _ hmem, hrest⟩
  answered response time hmem := by
    rcases mem_append.mp hmem with hold | hnew
    · exact mem_append_left _ (hp.answered response time hold)
    · obtain ⟨x, -, hx⟩ := mem_map.mp hnew
      cases hx
  pcs j pc hj := (hp.pcs j pc hj).mono fun _ hx => mem_append_left _ hx

theorem Inv.stores {response : Response} (now : Int) (hanswered : .answered response ∈ p.2)
    (hreq : response.request = r) :
    Inv lib cfg ({ p.1 with cache := p.1.cache.set (cacheKey r) response now },
      p.2 ++ [.stored response now]) where
  entries k e he := by
    rcases Cache.lookup_set he with ⟨rfl, rfl⟩ | hold
    · exact ⟨now, mem_concat_self, by rw [hreq], rfl⟩
    · obtain ⟨time, hmem, hrest⟩ := hp.entries k e hold
      exact ⟨time, mem_append_left _ hmem, hrest⟩
  answered response' time hmem := by
    obtain hold | heq := mem_concat_cases hmem
    · exact mem_append_left _ (hp.answered response' time hold)
    · cases heq
      exact mem_append_left _ hanswered
  pcs j pc hj := (hp.pcs j pc hj).mono fun _ hx => mem_append_left _ hx

theorem Inv.hit {now : Int} {e : Entry Response} (hok : OwnEntries p id now)
    (hwaiting : waiting p.1 id = some (r, route)) (hpassed : Passed lib cfg r route)
    (hentry : p.1.cache.lookup (cacheKey r) = some e) (hlive : now ≤ e.expiresAt) :
    PcSound lib cfg p.2 (.done r (some route) (.response e.value)) := by
  obtain ⟨time, hmem, hkey, hexp⟩ := hp.entries _ e hentry
  refine ⟨route, rfl, hpassed, hp.answered _ _ hmem, fun hauth => ?_⟩
  exact hok (r, route) hwaiting hauth e.value (mem_storedSince hmem hkey (hexp ▸ hlive))

variable {attempts : List Attempt} {result : Except FetchError Response}

theorem Inv.load {now : Int} (hpassed : Passed lib cfg r route)
    (hfetch : fetch r attempts = some result) :
    Inv lib cfg
      ({ p.1 with cache := (loadReply p.1.cache r now result).1 }.setPc id
        (.done r (some route) (loadReply p.1.cache r now result).2),
        p.2 ++ ((Gateway.answers r attempts).map .answered ++ storedBy now (some result))) := by
  rw [← append_assoc]
  have hp₁ := hp.answers (Gateway.answers r attempts)
  cases result with
  | error err =>
    rw [loadReply, storedBy, append_nil]
    · exact hp₁.setPc trivial
    · exact nofun
  | ok response =>
    obtain ⟨hmem, hreq⟩ := fetchLoop_ok hfetch
    have hanswered : Event.answered response ∈
        p.2 ++ (Gateway.answers r attempts).map .answered :=
      mem_append_right _ (mem_map_of_mem hmem)
    rw [loadReply, storedBy]
    split
    · rw [append_nil]
      exact hp₁.setPc trivial
    refine (hp₁.stores now hanswered hreq).setPc ⟨route, rfl, hpassed, ?_, fun _ => ?_⟩
    · exact mem_append_left _ hanswered
    · rw [hreq]

theorem Inv.direct (hpassed : Passed lib cfg r route) (hfetch : fetch r attempts = some result) :
    Inv lib cfg (p.1.setPc id (.done r (some route) (directReply result)),
      p.2 ++ (Gateway.answers r attempts).map .answered) := by
  have hp₁ := hp.answers (Gateway.answers r attempts)
  cases result with
  | error err => exact hp₁.setPc trivial
  | ok response =>
    obtain ⟨hmem, hreq⟩ := fetchLoop_ok hfetch
    refine hp₁.setPc ⟨route, rfl, hpassed, ?_, fun _ => ?_⟩
    · exact mem_append_right _ (mem_map_of_mem hmem)
    · rw [hreq]

end

theorem Inv.step {s' : State} (hp : Inv lib cfg p) {a : Label} (hok : LookupsOwn p a)
    (hstep : step lib cfg p.1 a = some s') : Inv lib cfg (s', p.2 ++ events p.1 a) := by
  cases a with
  | request id r allowed now =>
    rw [show events p.1 (.request id r allowed now) = [] from rfl, append_nil]
    simp only [Gateway.step] at hstep
    split at hstep <;> cases hstep
    exact hp.setPc (pcSound_accept r allowed now)
  | get id now =>
    rw [show events p.1 (.get id now) = [] from rfl, append_nil]
    simp only [Gateway.step] at hstep
    split at hstep <;> cases hstep
    rename_i r route hget
    have hpassed : Passed lib cfg r route := hp.pcs id _ hget
    have hp₁ := hp.shrink (c := (p.1.cache.get (cacheKey r) now).1) rfl
      fun k e => Cache.lookup_get
    refine hp₁.setPc ?_
    cases hhit : (p.1.cache.get (cacheKey r) now).2 with
    | none => exact hpassed
    | some response =>
      obtain ⟨e, hentry, rfl, hlive⟩ := Cache.get_hit hhit
      exact hp.hit hok (by rw [waiting, hget]) hpassed hentry hlive
  | load id now attempts =>
    simp only [Gateway.step] at hstep
    split at hstep <;> try cases hstep
    rename_i r route hget
    have hpassed : Passed lib cfg r route := hp.pcs id _ hget
    cases hrecheck : p.1.cache.recheck (cacheKey r) now with
    | some found =>
      obtain ⟨c, response⟩ := found
      rw [hrecheck] at hstep
      dsimp only at hstep
      obtain ⟨httl, hentries, e, hentry, rfl, hlive⟩ := Cache.recheck_hit hrecheck
      simp only [events, hget, hrecheck, append_nil]
      split at hstep <;> cases hstep
      exact (hp.shrink httl hentries).setPc
        (hp.hit hok (by rw [waiting, hget]) hpassed hentry hlive)
    | none =>
      rw [hrecheck] at hstep
      dsimp only at hstep
      obtain ⟨result, hfetch, rfl⟩ := Option.map_eq_some_iff.mp hstep
      simp only [events, hget, hrecheck, hfetch]
      exact hp.load hpassed hfetch
  | direct id attempts =>
    simp only [Gateway.step] at hstep
    split at hstep <;> try cases hstep
    rename_i r route hget
    have hpassed : Passed lib cfg r route := hp.pcs id _ hget
    obtain ⟨result, hfetch, rfl⟩ := Option.map_eq_some_iff.mp hstep
    simp only [events, hget]
    exact hp.direct hpassed hfetch

end

theorem inv_initial (sum32 : String → Nat) : Inv lib cfg (initial cfg sum32, []) where
  entries _ _ he := by cases he
  answered _ _ hmem := by cases hmem
  pcs _ _ hj := by cases hj

/-! ## Every run -/

/-- In a run where every lookup on a route that requires auth meets only entries loaded
with the caller's own credentials, a caller of such a route is authenticated and receives
only what a backend answered to a request with these credentials. -/
theorem responses_carry_own_credentials (lib : Lib) (cfg : Config) (sum32 : String → Nat)
    (hcfg : checkConfig cfg = .ok ()) {as : List Label} {s : State} {log : List Event}
    (hok : RunMeets (logged (step lib cfg) events) LookupsOwn (initial cfg sum32, []) as)
    (hrun : run (logged (step lib cfg) events) (initial cfg sum32, []) as = some (s, log))
    {id : Nat} {r : Request} {route : Route} {response : Response}
    (hdone : s.requests.get? id = some (.done r (some route) (.response response)))
    (hauth : route.requireAuth = true) :
    (∃ secret now claims, cfg.verifier = some secret ∧ authenticate lib secret now r = .ok claims) ∧
    .answered response ∈ log ∧ response.request.authorization = r.authorization := by
  have hend : Inv lib cfg (s, log) := by
    refine run_invariant_of_meets (fun p a q hp hpa hstep => ?_) (inv_initial sum32) hok hrun
    obtain ⟨hnext, hlog⟩ := logged_eq_some.mp hstep
    obtain ⟨s₁, log₁⟩ := q
    cases hlog
    exact hp.step hpa hnext
  obtain ⟨route', hroute, ⟨hmem, hpassed⟩, hanswered, hown⟩ := hend.pcs id _ hdone
  cases hroute
  obtain ⟨secret, hsecret⟩ := verifier_of_checkConfig hcfg hmem hauth
  obtain ⟨now, claims, hclaims⟩ := hpassed hauth
  rw [hsecret] at hclaims
  exact ⟨⟨secret, now, claims, hsecret, hclaims⟩, hanswered, hown hauth⟩

def plainLib : Lib where
  injection := fun _ => false
  base64 := some
  headerAlg := fun alg => some alg
  payload := fun sub => some ⟨some 3600, some sub, none⟩
  mac := fun secret text =>
    String.ofList ((secret ++ "-" ++ text).toList.map fun c => if c = '.' then '-' else c)

def kycRoute : Route := ⟨"/api/kyc", some ["kyc-1"], true, true⟩

def kycConfig : Config where
  routes := [kycRoute]
  verifier := some "key"
  cache := some (100, 30000000000)
  waf := ⟨2048, 100⟩

def kycRequest (user path : String) : Request where
  method := "GET"
  url := path
  path := path
  query := []
  header := [("Authorization", ["Bearer HS256." ++ user ++ ".key-HS256-" ++ user])]

def kycFile (user path : String) : Response := ⟨200, [], user ++ "'s file", kycRequest user path⟩

def kycMiss (id : Nat) (user path : String) : List Label :=
  [.request id (kycRequest user path) true 0, .get id 0,
   .load id 0 [.answered "kyc-1" 200 [] (user ++ "'s file")]]

def ownFiles : List Label :=
  kycMiss 0 "ann" "/api/kyc/ann" ++ kycMiss 1 "bob" "/api/kyc/bob" ++
    [.request 2 (kycRequest "ann" "/api/kyc/ann") true 5, .get 2 5]

theorem responses_carry_own_credentials_ownFiles :
    ∃ s log, run (logged (step plainLib kycConfig) events) (initial kycConfig fun _ => 0, [])
        ownFiles = some (s, log) ∧
      .answered (kycFile "ann" "/api/kyc/ann") ∈ log ∧
      (kycFile "ann" "/api/kyc/ann").request.authorization =
        (kycRequest "ann" "/api/kyc/ann").authorization := by
  obtain ⟨⟨s, log⟩, hrun, hreply⟩ : ∃ p ∈ run (logged (step plainLib kycConfig) events)
      (initial kycConfig fun _ => 0, []) ownFiles, p.1.requests.get? 2 =
        some (.done (kycRequest "ann" "/api/kyc/ann") (some kycRoute)
          (.response (kycFile "ann" "/api/kyc/ann"))) := by decide +kernel
  obtain ⟨-, hanswered, hown⟩ :=
    responses_carry_own_credentials plainLib kycConfig (fun _ => 0) (by decide)
      (by decide +kernel) hrun hreply rfl
  exact ⟨s, log, hrun, hanswered, hown⟩

/-- The second caller of a URL receives the file that was fetched for the first. -/
theorem cached_response_crosses_callers :
    checkConfig kycConfig = .ok () ∧
      (∃ p ∈ run (logged (step plainLib kycConfig) events) (initial kycConfig fun _ => 0, [])
          (kycMiss 0 "ann" "/api/kyc/me" ++
            [.request 1 (kycRequest "bob" "/api/kyc/me") true 5, .get 1 5]),
        p.1.requests.get? 1 = some (.done (kycRequest "bob" "/api/kyc/me") (some kycRoute)
          (.response (kycFile "ann" "/api/kyc/me")))) ∧
      (kycFile "ann" "/api/kyc/me").request.authorization ≠
        (kycRequest "bob" "/api/kyc/me").authorization := by
  decide +kernel

end

end GoServices.Gateway
