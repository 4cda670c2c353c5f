/-
The gateway's request pipeline: WAF, route match, rate limit, auth where the route asks
for it, then the cache or the backends.

A request that passes the first stages waits for the cache (twice, as `GetOrLoad` takes the
shard's lock twice) or for the backends, and other requests run in between.
-/
import GoServices.Base.Run
import GoServices.Gateway.Cache

namespace GoServices.Gateway

/-- `http.Header` and `url.Values`. -/
abbrev Values := List (String × List String)

def Values.get (h : Values) (key : String) : String := ((h.lookup key).bind List.head?).getD ""

structure Request where
  method : String
  /-- `URL.String()`. -/
  url : String
  path : String
  query : Values
  header : Values
  deriving DecidableEq

variable (r : Request)

def Request.authorization : String := r.header.get "Authorization"

/-- What `Verify` reads of a token's payload. -/
structure Raw where
  exp : Option Int
  sub : Option String
  iat : Option Int

structure Lib where
  /-- Whether one of `injectionPatterns` matches. -/
  injection : String → Bool
  /-- `base64.RawURLEncoding.DecodeString`. -/
  base64 : String → Option String
  /-- The `alg` of a header in JSON. -/
  headerAlg : String → Option String
  payload : String → Option Raw
  mac : String → String → String

section
variable (lib : Lib)

/-! ## WAF -/

structure WafConfig where
  maxURLLength : Nat
  maxHeaders : Nat

def containsPathTraversal (path : String) : Bool :=
  path.toList.tails.any fun rest => ['.', '.'].isPrefixOf rest

def matchesInjectionPattern (s : String) : Bool := s ≠ "" ∧ lib.injection s

def queryContainsInjectionPattern (values : Values) : Bool :=
  values.any fun (key, vs) =>
    matchesInjectionPattern lib key || vs.any (matchesInjectionPattern lib)

/-- The status that `waf.Middleware` rejects the request with. -/
def wafRejects (cfg : WafConfig) (r : Request) : Option Nat :=
  if r.url.utf8ByteSize > cfg.maxURLLength then some 414
  else if r.header.length > cfg.maxHeaders then some 400
  else if containsPathTraversal r.path then some 400
  else if matchesInjectionPattern lib r.path || queryContainsInjectionPattern lib r.query then
    some 400
  else none

/-! ## Auth -/

inductive AuthError
  | malformedToken
  | badSignature
  | unsupportedAlg
  | missingExpiry
  | expired

structure Claims where
  subject : String
  expiresAt : Int
  issuedAt : Option Int

/-- `time.Unix`. -/
def unixTime (seconds : Int) : Int := seconds * 1000000000

/-- `Verify` of a token at a time. -/
def verify (secret : String) (now : Int) (token : String) : Except AuthError Claims :=
  match (token.toList.splitOn '.').map String.ofList with
  | [headerB64, payloadB64, sigB64] =>
    match (lib.base64 headerB64).bind lib.headerAlg with
    | none => .error .malformedToken
    | some alg =>
      if alg ≠ "HS256" then .error .unsupportedAlg
      else
        match lib.base64 sigB64 with
        | none => .error .malformedToken
        | some gotSig =>
          if gotSig ≠ lib.mac secret (headerB64 ++ "." ++ payloadB64) then .error .badSignature
          else
            match (lib.base64 payloadB64).bind lib.payload with
            | none => .error .malformedToken
            | some raw =>
              match raw.exp with
              | none => .error .missingExpiry
              | some exp =>
                if ¬ now < unixTime exp then .error .expired
                else
                  .ok { subject := raw.sub.getD "", expiresAt := unixTime exp,
                        issuedAt := raw.iat.map unixTime }
  | _ => .error .malformedToken

/-- `auth.Middleware`: the claims, or the text of its answer with status 401. -/
def authenticate (secret : String) (now : Int) (r : Request) : Except String Claims :=
  match "Bearer ".toList.isPrefixOf? r.authorization.toList with
  | none | some [] => .error "missing bearer token"
  | some token =>
    match verify lib secret now (String.ofList token) with
    | .error _ => .error "invalid token"
    | .ok claims => .ok claims

end

/-! ## Routes -/

structure Route where
  pathPrefix : String
  pool : Option (List String)
  cacheable : Bool
  requireAuth : Bool
  deriving DecidableEq

structure Config where
  routes : List Route
  verifier : Option String
  cache : Option (Int × Int)
  waf : WafConfig

/-- The check of one route in `New`. -/
def checkRoute (cfg : Config) (route : Route) : Except String Unit :=
  let name := "gateway: route \"" ++ route.pathPrefix ++ "\""
  if route.pool = none then .error (name ++ " has no Pool")
  else if route.requireAuth ∧ cfg.verifier = none then
    .error (name ++ " requires auth but Config.Verifier is nil")
  else if route.cacheable ∧ cfg.cache = none then
    .error (name ++ " is cacheable but Config.Cache is nil")
  else .ok ()

/-- `New` up to its result. -/
def checkConfig (cfg : Config) : Except String Unit := cfg.routes.forM (checkRoute cfg)

/-- The loop body of `matchRoute`. -/
def betterRoute (path : String) (best : Option Route) (route : Route) : Option Route :=
  if route.pathPrefix.toList <+: path.toList ∧
      best.all fun b => b.pathPrefix.utf8ByteSize < route.pathPrefix.utf8ByteSize then
    some route
  else best

def matchRoute (routes : List Route) (path : String) : Option Route :=
  routes.foldl (betterRoute path) none

/-! ## Backends -/

structure Response where
  status : Nat
  header : Values
  body : String
  request : Request
  deriving DecidableEq

/-- One attempt of `fetch`, as the load balancer, the breaker and the backend decide it. -/
inductive Attempt
  | noBackend (error : String)
  | breakerOpen (backend : String)
  | answered (backend : String) (status : Nat) (header : Values) (body : String)

inductive FetchError
  | pick (error : String)
  | breakerOpen
  | status (backend : String) (status : Nat)
  | none

def maxProxyAttempts : Nat := 3

/-- The loop of `fetch` with a number of attempts left.  It is `none` when the attempts
given are not those that the loop makes. -/
def fetchLoop (r : Request) : Nat → FetchError → List Attempt → Option (Except FetchError Response)
  | 0, lastErr, [] => some (.error lastErr)
  | _ + 1, _, [.noBackend error] => some (.error (.pick error))
  | n + 1, _, .breakerOpen _ :: rest => fetchLoop r n .breakerOpen rest
  | n + 1, _, .answered backend status header body :: rest =>
    -- the last attempt is kept whatever its status
    if status < 500 ∨ n = 0 then
      if rest = [] then some (.ok ⟨status, header, body, r⟩) else none
    else fetchLoop r n (.status backend status) rest
  | _, _, _ => none

def fetch (attempts : List Attempt) : Option (Except FetchError Response) :=
  fetchLoop r maxProxyAttempts .none attempts

def answers (attempts : List Attempt) : List Response :=
  attempts.filterMap fun
    | .answered _ status header body => some ⟨status, header, body, r⟩
    | _ => none

/-! ## The pipeline -/

inductive Reply
  | error (status : Nat) (message : String)
  | response (response : Response)
  deriving DecidableEq

inductive Pc
  | get (r : Request) (route : Route)
  | load (r : Request) (route : Route)
  | direct (r : Request) (route : Route)
  | done (r : Request) (route : Option Route) (reply : Reply)
  deriving DecidableEq

structure State where
  cache : Cache Response
  requests : Table Nat Pc

def initial (cfg : Config) (sum32 : String → Nat) : State :=
  let (capacity, ttl) := cfg.cache.getD (0, 0)
  { cache := .new sum32 capacity ttl, requests := .empty }

def cacheKey : String := r.url

/-- `makeRouteHandler` up to its first step. -/
def routeHandler (route : Route) : Pc :=
  if r.method = "GET" ∧ route.cacheable then .get r route else .direct r route

/-- The stages before the cache and the backends; `allowed` is what the limiter says. -/
def accept (lib : Lib) (cfg : Config) (r : Request) (allowed : Bool) (now : Int) : Pc :=
  match wafRejects lib cfg.waf r with
  | some status => .done r none (.error status "request rejected")
  | none =>
    match matchRoute cfg.routes r.path with
    | none => .done r none (.error 404 "404 page not found")
    | some route =>
      if ¬ allowed then .done r none (.error 429 "rate limit exceeded")
      else if route.requireAuth then
        match authenticate lib (cfg.verifier.getD "") now r with
        | .error message => .done r none (.error 401 message)
        | .ok _ => routeHandler r route
      else routeHandler r route

def badGateway : Reply := .error 502 "bad gateway"

/-- `proxyDirect`. -/
def directReply : Except FetchError Response → Reply
  | .error _ => badGateway
  | .ok response => .response response

inductive Label
  | request (id : Nat) (r : Request) (allowed : Bool) (now : Int)
  | get (id : Nat) (now : Int)
  | load (id : Nat) (now : Int) (attempts : List Attempt)
  | direct (id : Nat) (attempts : List Attempt)

def State.setPc (s : State) (id : Nat) (pc : Pc) : State :=
  { s with requests := s.requests.set id pc }

/-- The load of `serveCacheable`: the cache afterwards and the reply. -/
def loadReply (c : Cache Response) (r : Request) (now : Int) :
    Except FetchError Response → Cache Response × Reply
  | .error _ => (c, badGateway)
  | .ok response =>
    if response.status ≥ 500 then (c, badGateway)
    else (c.set (cacheKey r) response now, .response response)

def step (lib : Lib) (cfg : Config) (s : State) : Label → Option State
  | .request id r allowed now =>
    match s.requests.get? id with
    | some _ => none
    | none => some (s.setPc id (accept lib cfg r allowed now))
  | .get id now =>
    match s.requests.get? id with
    | some (.get r route) =>
      let (cache, hit) := s.cache.get (cacheKey r) now
      some ({ s with cache := cache }.setPc id
        (match hit with
        | some response => .done r (some route) (.response response)
        | none => .load r route))
    | _ => none
  | .load id now attempts =>
    match s.requests.get? id with
    | some (.load r route) =>
      match s.cache.recheck (cacheKey r) now with
      | some (cache, response) =>
        if attempts = [] then
          some ({ s with cache := cache }.setPc id (.done r (some route) (.response response)))
        else none
      | none =>
        (fetch r attempts).map fun result =>
          let (cache, reply) := loadReply s.cache r now result
          { s with cache := cache }.setPc id (.done r (some route) reply)
    | _ => none
  | .direct id attempts =>
    match s.requests.get? id with
    | some (.direct r route) =>
      (fetch r attempts).map fun result => s.setPc id (.done r (some route) (directReply result))
    | _ => none

end GoServices.Gateway
