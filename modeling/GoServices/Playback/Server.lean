/-
The playback server: the session store, and the requests that touch it and the slots.

The session store keeps sessions by id; like the manager it is sharded, and like the manager it
is one map here.
-/
import GoServices.Base.Run
import GoServices.Playback.Manager

namespace GoServices.Playback

/-! ## The session store -/

structure Session where
  accountID : String
  deviceID : String
  assetID : String
  expiresAt : Int
  deriving DecidableEq

abbrev Sessions := Table String Session

namespace Sessions

variable (m : Sessions) (sessionID : String)

def put (sess : Session) : Sessions :=
  m.set sessionID sess

def extend (newExpiry : Int) : Sessions :=
  match m.get? sessionID with
  | none => m
  | some sess => m.set sessionID { sess with expiresAt := newExpiry }

/-- `Get`, with lazy expiry on read. -/
def get (m : Sessions) (sessionID : String) (now : Int) : Option Session :=
  match m.get? sessionID with
  | none => none
  | some sess => if sess.expiresAt ≤ now then none else some sess

def delete : Sessions × Option Session :=
  (m.erase sessionID, m.get? sessionID)

/-- `ReapExpired`: the store that is left, and the expired sessions.  The ids stay
with them here, although the sweeper uses the sessions only. -/
def reapExpired (now : Int) : Sessions × List (String × Session) :=
  (m.filter fun _ sess => ¬ sess.expiresAt ≤ now, m.toList.filter fun e => e.2.expiresAt ≤ now)

end Sessions

/-! ## Requests -/

inductive Response
  | error (status : Nat) (code : String)
  | authorized (sessionID : String) (expiresIn : Int)
  | alive (expiresIn : Int)
  | stopped
  deriving DecidableEq

inductive Pc
  | admitDevice (accountID deviceID assetID : String) (now : Int)
  | put (sessionID : String) (sess : Session)
  | extendOwner (sessionID : String) (accountID deviceID : String) (exp : Int)
  | get (accountID sessionID : String) (now : Int)
  | extend (sessionID : String) (accountID deviceID : String) (exp : Int)
  | refresh (sessionID : String) (accountID deviceID : String) (exp : Int)
  | delete (accountID sessionID : String)
  | release (sessionID : String) (accountID deviceID : String)
  | done (response : Response)

inductive Sweep
  | idle
  | reapSessions (now : Int)
  | release (now : Int) (expired : List (String × Session))
  deriving DecidableEq

structure State where
  clock : Int
  manager : Manager
  sessions : Sessions
  requests : Table Nat Pc
  sweeper : Sweep
  drawn : Table String (String × String)

def initial : State where
  clock := 0
  manager := .new
  sessions := .empty
  requests := .empty
  sweeper := .idle
  drawn := .empty

/-- The bodies are `none` when they do not decode.  `admitDevice` carries what `newID`
returns. -/
inductive Label
  | tick (now : Int)
  | authorize (request : Nat) (accountID : String) (body : Option (String × String))
  | heartbeat (request : Nat) (accountID : String) (body : Option String)
  | stop (request : Nat) (accountID : String) (body : Option String)
  | admitDevice (request : Nat) (candidate : String)
  | next (request : Nat)
  | sweep
  | sweepSessions
  | sweepRelease (index : Nat)
  | sweepSlots

def badRequest : Response := .error 400 "BAD_REQUEST"
def deviceLimit : Response := .error 403 "DEVICE_LIMIT"
def sessionExpired : Response := .error 409 "SESSION_EXPIRED"

/-- `int(ttl.Seconds())`. -/
def expiresInSec (ttl : Int) : Int := ttl.tdiv 1000000000

def startAuthorize (clock : Int) (accountID : String) : Option (String × String) → Pc
  | some (assetID, deviceID) =>
    if deviceID = "" then .done badRequest else .admitDevice accountID deviceID assetID clock
  | none => .done badRequest

def startHeartbeat (clock : Int) (accountID : String) : Option String → Pc
  | some sessionID => if sessionID = "" then .done badRequest else .get accountID sessionID clock
  | none => .done badRequest

def startStop (accountID : String) : Option String → Pc
  | some sessionID => if sessionID = "" then .done badRequest else .delete accountID sessionID
  | none => .done badRequest

section
variable (limit : String → Nat) (ttl : Int)

def State.setPc (s : State) (request : Nat) (pc : Pc) : State :=
  { s with requests := s.requests.set request pc }

def State.start (s : State) (request : Nat) (pc : Pc) : Option State :=
  match s.requests.get? request with
  | some _ => none
  | none => some (s.setPc request pc)

/-- The `Admit` call of `authorize`, and what `authorize` does with its answer. -/
def State.admitDevice (s : State) (request : Nat) (accountID deviceID assetID : String) (now : Int)
    (candidate : String) : State :=
  let exp := now + ttl
  let drawn := s.drawn.set candidate (accountID, deviceID)
  match s.manager.admitDevice accountID deviceID (limit accountID) now exp candidate with
  | (m, none) =>
    { s with manager := m, drawn := drawn }.setPc request (.done deviceLimit)
  | (m, some sid) =>
    let sess : Session :=
      { accountID := accountID, deviceID := deviceID, assetID := assetID, expiresAt := exp }
    { s with manager := m, drawn := drawn }.setPc request
      (if sid = candidate then .put sid sess else .extendOwner sid accountID deviceID exp)

/-- One call of a request that is not `Admit`. -/
def State.next (s : State) (request : Nat) : Pc → Option State
  | .admitDevice .. | .done _ => none
  | .put sid sess =>
    some ({ s with sessions := s.sessions.put sid sess }.setPc request
      (.done (.authorized sid (expiresInSec ttl))))
  | .extendOwner sid _ _ exp =>
    some ({ s with sessions := s.sessions.extend sid exp }.setPc request
      (.done (.authorized sid (expiresInSec ttl))))
  | .get accountID sid now =>
    match s.sessions.get sid now with
    | some sess =>
      if sess.accountID = accountID then
        some (s.setPc request (.extend sid accountID sess.deviceID (now + ttl)))
      else some (s.setPc request (.done sessionExpired))
    | none => some (s.setPc request (.done sessionExpired))
  | .extend sid accountID deviceID exp =>
    some ({ s with sessions := s.sessions.extend sid exp }.setPc request
      (.refresh sid accountID deviceID exp))
  | .refresh _ accountID deviceID exp =>
    some ({ s with manager := (s.manager.refresh accountID deviceID exp).1 }.setPc request
      (.done (.alive (expiresInSec ttl))))
  | .delete accountID sid =>
    match s.sessions.delete sid with
    | (sessions, some sess) =>
      -- the session is gone even when it is another account's
      some ({ s with sessions := sessions }.setPc request
        (if sess.accountID = accountID then .release sid accountID sess.deviceID
          else .done .stopped))
    | (sessions, none) => some ({ s with sessions := sessions }.setPc request (.done .stopped))
  | .release _ accountID deviceID =>
    some ({ s with manager := s.manager.release accountID deviceID }.setPc request (.done .stopped))

def step (s : State) : Label → Option State
  | .tick now => if s.clock ≤ now then some { s with clock := now } else none
  | .authorize request accountID body => s.start request (startAuthorize s.clock accountID body)
  | .heartbeat request accountID body => s.start request (startHeartbeat s.clock accountID body)
  | .stop request accountID body => s.start request (startStop accountID body)
  | .admitDevice request candidate =>
    match s.requests.get? request, s.drawn.get? candidate with
    | some (.admitDevice accountID deviceID assetID now), none =>
      some (s.admitDevice limit ttl request accountID deviceID assetID now candidate)
    | _, _ => none
  | .next request => (s.requests.get? request).bind fun pc => s.next ttl request pc
  | .sweep => if s.sweeper = .idle then some { s with sweeper := .reapSessions s.clock } else none
  | .sweepSessions =>
    match s.sweeper with
    | .reapSessions now =>
      let (sessions, expired) := s.sessions.reapExpired now
      some { s with sessions := sessions, sweeper := .release now expired }
    | _ => none
  | .sweepRelease index =>
    match s.sweeper with
    | .release now expired =>
      match expired[index]? with
      | some (_, sess) =>
        some { s with
          manager := s.manager.release sess.accountID sess.deviceID
          sweeper := .release now (expired.eraseIdx index) }
      | none => none
    | _ => none
  | .sweepSlots =>
    match s.sweeper with
    | .release now [] =>
      some { s with manager := s.manager.reapExpired now, sweeper := .idle }
    | _ => none

end

end GoServices.Playback
