import BankManagement.BankingService

namespace BankManagement

inductive Role
  | customer
  | teller
  | admin
  deriving DecidableEq

inductive SessionState
  | anonymous
  | authenticated
  | expired
  | revoked
  deriving DecidableEq

structure PasswordHash where
  algorithm : Bytes
  salt : Bytes
  digest : Bytes
  deriving DecidableEq

structure Customer where
  id : CustomerId
  name : Bytes
  pinHash : PasswordHash
  role : Role
  deriving DecidableEq

abbrev CustomerRepository := CustomerId → Option Customer

namespace PasswordHasher

def algorithmName : Bytes := ascii "pbkdf2-sha256"

def hexChar (n : UInt8) : UInt8 := if n < 10 then 0x30 + n else 0x57 + n

def bytesToHex (bytes : Bytes) : Bytes := bytes.flatMap fun byte => [hexChar (byte / 16), hexChar (byte % 16)]

def nibble (c : UInt8) : Except Exn UInt8 :=
  if 0x30 ≤ c ∧ c ≤ 0x39 then .ok (c - 0x30)
  else if 0x61 ≤ c ∧ c ≤ 0x66 then .ok (c - 0x61 + 10)
  else if 0x41 ≤ c ∧ c ≤ 0x46 then .ok (c - 0x41 + 10)
  else .error "PasswordHash: salt contains a non-hex digit"

def pairsToBytes : Bytes → Except Exn Bytes
  | high :: low :: rest => do
    let high ← nibble high
    let low ← nibble low
    return (high * 16 + low) :: (← pairsToBytes rest)
  | _ => .ok []

def hexToBytes (hex : Bytes) : Except Exn Bytes :=
  if hex.length % 2 ≠ 0 then .error "PasswordHash: salt is not valid hex" else pairsToBytes hex

def derive (pbkdf2 : Bytes → Bytes → Bytes) (pin salt : Bytes) : PasswordHash where
  algorithm := algorithmName
  salt := bytesToHex salt
  digest := bytesToHex (pbkdf2 pin salt)

def create (pbkdf2 : Bytes → Bytes → Bytes) (drawn pin : Bytes) : PasswordHash := derive pbkdf2 pin drawn

def verify (pbkdf2 : Bytes → Bytes → Bytes) (pin : Bytes) (stored : PasswordHash) : Bool :=
  if stored.algorithm ≠ algorithmName ∨ stored.digest = [] then false
  else match hexToBytes stored.salt with
    | .error _ => false
    | .ok salt => (derive pbkdf2 pin salt).digest == stored.digest

end PasswordHasher

structure Session where
  token : Bytes
  customerId : CustomerId
  role : Role
  state : SessionState
  expiresAt : TimePoint
  deriving DecidableEq

/-- The session table, and the tokens that `generate_token` will give. -/
structure SessionManager where
  sessions : List Session
  tokens : List Bytes
  readings : ℕ

namespace SessionManager

def find (m : SessionManager) (token : Bytes) : Option Session := m.sessions.find? (fun s => s.token == token)

def drawToken (sessions : List Session) : List Bytes → Option (Bytes × List Bytes)
  | [] => none
  | token :: rest => if sessions.any (fun s => s.token == token) then drawToken sessions rest else some (token, rest)

/-- `now + ttl`: the seconds of `ttl` are converted to the clock's nanoseconds first. -/
def expiry (now : TimePoint) (ttl : Int64) : TimePoint := now + ttl * 1000000000

/-- `none` when the loop does not end on the tokens there are; `now` is the clock's next reading. -/
def create (now : ℕ → TimePoint) (ttl : Int64) (customerId : CustomerId) (role : Role) (m : SessionManager) :
    Option (Session × SessionManager) := do
  let (token, tokens) ← drawToken m.sessions m.tokens
  let session := { token, customerId, role, state := .authenticated, expiresAt := expiry (now m.readings) ttl }
  return (session, { sessions := m.sessions ++ [session], tokens, readings := m.readings + 1 })

def revoke (token : Bytes) (m : SessionManager) : Option Session × SessionManager :=
  match m.find token with
  | none => (none, m)
  | some session =>
    (some { session with state := .revoked },
      { m with sessions := m.sessions.filter (fun s => decide (s.token ≠ token)) })

end SessionManager

/-- What surrounds the service: OpenSSL, the seconds that a session lives, the clocks, and which calls of the
trail's sink throw. -/
structure Surroundings where
  pbkdf2 : Bytes → Bytes → Bytes
  dummySalt : Bytes
  ttl : Int64
  sessionClock : ℕ → TimePoint
  wallClock : ℕ → TimePoint
  auditFault : ℕ → Option Exn

/-- `appends` counts the calls of `audit_detail::append`, each of which reads the wall clock once. -/
structure AuthService where
  sessions : SessionManager
  audit : AuditRepository
  trail : ServiceTrail
  appends : ℕ

namespace AuthService

variable (env : Surroundings) (customers customers' : CustomerRepository)

def append (actor : CustomerId) (action details : String) (s : AuthService) : AuthService :=
  let (_, audit, trail) := s.trail.append (env.auditFault s.appends) actor action details
    (env.wallClock s.appends) s.audit
  { s with audit, trail, appends := s.appends + 1 }

def dummy : PasswordHash := PasswordHasher.create env.pbkdf2 env.dummySalt (ascii "dummy-pin-do-not-use")

def refuse (customerId : CustomerId) (s : AuthService) : Option (Result Session × AuthService) :=
  some (.failure "invalid credentials", append env customerId "auth.login_failed" "invalid credentials" s)

def accept (customer : Customer) (s : AuthService) : Option (Result Session × AuthService) := do
  let (session, sessions) ← s.sessions.create env.sessionClock env.ttl customer.id customer.role
  return (.success session, append env customer.id "auth.login" "success" { s with sessions })

def login (customerId : CustomerId) (pin : Bytes) (s : AuthService) : Option (Result Session × AuthService) :=
  match customers customerId with
  | some customer =>
    if PasswordHasher.verify env.pbkdf2 pin customer.pinHash then accept env customer s
    else refuse env customerId s
  | none =>
    -- the same work as for a customer who exists, to no effect
    let _ := PasswordHasher.verify env.pbkdf2 pin (dummy env)
    refuse env customerId s

def logout (token : Bytes) (s : AuthService) : Result Unit × AuthService :=
  match s.sessions.revoke token with
  | (none, sessions) => (.failure "invalid session", { s with sessions })
  | (some session, sessions) =>
    (.success (), append env session.customerId "auth.logout" "success" { s with sessions })

inductive Request
  | login (customerId : CustomerId) (pin : Bytes)
  | logout (token : Bytes)
  deriving DecidableEq

inductive Reply
  | login (result : Result Session)
  | logout (result : Result Unit)
  deriving DecidableEq

def serve (request : Request) (s : AuthService) : Option (Reply × AuthService) :=
  match request with
  | .login customerId pin => (login env customers customerId pin s).map fun (result, s) => (.login result, s)
  | .logout token => let (result, s) := logout env token s; some (.logout result, s)

def run : List Request → AuthService → Option (List Reply × AuthService)
  | [], s => some ([], s)
  | request :: rest, s => do
    let (reply, s) ← serve env customers request s
    let (replies, s) ← run rest s
    return (reply :: replies, s)

def verified : Request → Option CustomerId
  | .login customerId pin => match customers customerId with
    | some customer => if PasswordHasher.verify env.pbkdf2 pin customer.pinHash then some customerId else none
    | none => none
  | .logout _ => none

def authenticated : List Request → AuthService → List CustomerId
  | [], _ => []
  | request :: rest, s => (verified env customers request).toList ++ match serve env customers request s with
    | none => []
    | some (_, s) => authenticated rest s

variable {env customers customers'}

theorem login_unverified {customerId : CustomerId} {pin : Bytes}
    (h : verified env customers (.login customerId pin) = none) (s : AuthService) :
    login env customers customerId pin s = refuse env customerId s := by
  unfold verified at h
  unfold login
  cases hc : customers customerId with
  | none => rfl
  | some customer =>
    simp only [hc] at h ⊢
    split_ifs at h with hv
    rw [if_neg hv]

theorem verified_id {customerId id : CustomerId} {pin : Bytes}
    (h : verified env customers (.login customerId pin) = some id) : id = customerId := by
  rw [verified] at h
  split at h
  · split_ifs at h
    exact (Option.some.inj h).symm
  · cases h

theorem serve_congr {request : Request} (h : ∀ id ∈ verified env customers request, customers id = customers' id)
    (h' : ∀ id ∈ verified env customers' request, customers id = customers' id) (s : AuthService) :
    serve env customers request s = serve env customers' request s := by
  cases request with
  | logout token => rfl
  | login customerId pin =>
    have hagree (hsame : customers customerId = customers' customerId) :
        login env customers customerId pin s = login env customers' customerId pin s := by
      rw [login, login, hsame]
    rw [serve, serve]
    apply congrArg
    cases hv : verified env customers (.login customerId pin) with
    | some id =>
      apply hagree
      rw [← verified_id hv]
      exact h id hv
    | none =>
      cases hv' : verified env customers' (.login customerId pin) with
      | none => rw [login_unverified hv, login_unverified hv']
      | some id =>
        apply hagree
        rw [← verified_id hv']
        exact h' id hv'

/-- Two repositories that hold the same record for everyone who authenticates in either run give the
same replies and leave the same trail and the same sessions. -/
theorem run_congr (env : Surroundings) (customers customers' : CustomerRepository) (requests : List Request)
    (s : AuthService)
    (h : ∀ id ∈ authenticated env customers requests s ++ authenticated env customers' requests s,
      customers id = customers' id) :
    run env customers requests s = run env customers' requests s := by
  induction requests generalizing s with
  | nil => rfl
  | cons request rest ih =>
    simp only [authenticated, List.mem_append, Option.mem_toList] at h
    have hserve : serve env customers request s = serve env customers' request s :=
      serve_congr (fun id hid => h id (.inl (.inl hid))) (fun id hid => h id (.inr (.inl hid))) s
    rw [run, run, ← hserve]
    rw [← hserve] at h
    cases hs : serve env customers request s with
    | none => rfl
    | some result =>
      obtain ⟨reply, s'⟩ := result
      have hrest : run env customers rest s' = run env customers' rest s' := by
        apply ih
        intro id hid
        rw [hs] at h
        rcases List.mem_append.mp hid with hid | hid
        · exact h id (.inl (.inr hid))
        · exact h id (.inr (.inr hid))
      simp only [Option.bind_eq_bind, Option.bind_some, hrest]

def hex (digits : String) : Bytes := match PasswordHasher.hexToBytes (ascii digits) with
  | .ok bytes => bytes
  | .error _ => []

def derived (pin salt : Bytes) : Bytes := (List.lookup (pin, salt)
  [((ascii "1234", hex "0011"),
     hex "b74dae48f003f50986d3faba41046d9b90bd09c1a1107f710838d563c712c956"),
   ((ascii "0000", hex "0011"),
     hex "2ed85fd957f5d5e3fd0fda33d28ac7aafe053fff5d8e3fe5260ec26960d4dcf3"),
   ((ascii "dummy-pin-do-not-use", hex "00112233445566778899aabbccddeeff"),
     hex "95a2cbd48d6c60e9899a0cb1ff445a231f65043f3e8014e82faf7f0dcec6ac29"),
   ((ascii "1234", hex "00112233445566778899aabbccddeeff"),
     hex "4e94476e7793ccf66fddcbc373716c3559e5c1ea0126ca6d916378efe3a4dc80"),
   ((ascii "0000", hex "00112233445566778899aabbccddeeff"),
     hex "3f001dbe604088db025e6c8e1ad6550aff9697514d73aa7effda815f12538716")]).getD []

def storedHash : PasswordHash := PasswordHasher.derive derived (ascii "1234") (hex "0011")

def exampleSurroundings : Surroundings where
  pbkdf2 := derived
  dummySalt := hex "00112233445566778899aabbccddeeff"
  ttl := 28800
  sessionClock := fun _ => 1000
  wallClock := fun n => 2000 + Int64.ofNat n
  auditFault := fun n => if n = 1 then some "audit.append failed: disk full" else none

def someCustomers : CustomerRepository := fun id =>
  if id = 3 then some ⟨3, ascii "c", storedHash, .customer⟩
  else if id = 7 then some ⟨7, ascii "g", { storedHash with salt := ascii "0g" }, .admin⟩
  else none

def otherCustomers : CustomerRepository := fun id =>
  if id = 3 then some ⟨3, ascii "c", storedHash, .customer⟩
  else if id = 9 then some ⟨9, ascii "i", storedHash, .teller⟩
  else none

def attempts : List Request :=
  [.login 7 (ascii "1234"), .login 9 (ascii "0000"), .login 3 (ascii "1234"), .logout (ascii "ab")]

def idle : AuthService where
  sessions := ⟨[], [ascii "ab"], 0⟩
  audit := []
  trail := ⟨1000000000000000⟩
  appends := 0

theorem run_attempts : (∀ id ∈ authenticated exampleSurroundings someCustomers attempts idle ++
      authenticated exampleSurroundings otherCustomers attempts idle, someCustomers id = otherCustomers id) ∧
    run exampleSurroundings someCustomers attempts idle = run exampleSurroundings otherCustomers attempts idle := by
  have h : ∀ id ∈ authenticated exampleSurroundings someCustomers attempts idle ++
      authenticated exampleSurroundings otherCustomers attempts idle, someCustomers id = otherCustomers id := by
    have hall : ((authenticated exampleSurroundings someCustomers attempts idle ++
        authenticated exampleSurroundings otherCustomers attempts idle).all
          fun id => someCustomers id = otherCustomers id) = true := by decide +kernel
    simpa only [List.all_eq_true, decide_eq_true_eq] using hall
  exact ⟨h, run_congr exampleSurroundings someCustomers otherCustomers attempts idle h⟩

end AuthService

end BankManagement
