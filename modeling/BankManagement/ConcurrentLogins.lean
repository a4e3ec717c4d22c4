import BankManagement.KeyedTable
import BankManagement.SessionTable
import BankManagement.Wakeups

/-!
Logins, logouts and validations on many threads, with the customer repository changing meanwhile. A
session is only ever found that goes back to a login whose PIN was right, and the trail accounts for
the sessions there are.
-/

namespace BankManagement

open AuthService

inductive AuthPc
  | asked (customerId : CustomerId) (pin : Bytes)
  | accepted (customer : Customer)
  | closing (token : Bytes)
  | noting (actor : CustomerId) (action details : String) (reply : Reply)
  | replied (reply : Reply)
  deriving DecidableEq

structure AuthServer (ι : Type) where
  customers : CustomerRepository
  sessions : SessionManager
  audit : AuditRepository
  trail : ServiceTrail
  threads : ι → Option AuthPc

/-- A call begins or goes on, or a record is saved by others. The sessions and the trail have their mutexes; no
lock is held around the repository of customers, of which `find` and `save` are assumed to be single steps. -/
inductive AuthEvent (ι : Type)
  | save (customer : Customer)
  | login (i : ι) (customerId : CustomerId) (pin : Bytes)
  | logout (i : ι) (token : Bytes)
  | find (i : ι)
  | create (i : ι) (now : TimePoint)
  | revoke (i : ι)
  | append (i : ι) (now : TimePoint) (fault : Option Exn)
  | validate (now : TimePoint) (token : Bytes)
  deriving DecidableEq

namespace AuthEvent

variable {ι : Type}

def thread : AuthEvent ι → Option ι
  | .login i _ _ => some i
  | .logout i _ => some i
  | .find i => some i
  | .create i _ => some i
  | .revoke i => some i
  | .append i _ _ => some i
  | .save _ => none
  | .validate _ _ => none

def faulty : AuthEvent ι → Bool
  | .append _ _ fault => fault.isSome
  | _ => false

end AuthEvent

def AuthPc.lookedUp (env : Surroundings) (customerId : CustomerId) (pin : Bytes) (found : Option Customer) : AuthPc :=
  let refused := noting customerId "auth.login_failed" "invalid credentials" (.login (.failure "invalid credentials"))
  match found with
  | some customer => if PasswordHasher.verify env.pbkdf2 pin customer.pinHash then accepted customer else refused
  | none =>
    let _ := PasswordHasher.verify env.pbkdf2 pin (dummy env)
    refused

namespace AuthServer

variable {ι : Type} [DecidableEq ι] (env : Surroundings)

def goto (s : AuthServer ι) (i : ι) (pc : AuthPc) : AuthServer ι :=
  { s with threads := Function.update s.threads i (some pc) }

def Idle (s : AuthServer ι) (i : ι) : Prop := s.threads i = none ∨ ∃ reply, s.threads i = some (.replied reply)

def begin (s : AuthServer ι) (i : ι) (pc : AuthPc) : Option (AuthServer ι) :=
  match s.threads i with
  | none => some (s.goto i pc)
  | some (.replied _) => some (s.goto i pc)
  | some _ => none

def next (s : AuthServer ι) : AuthEvent ι → Option (AuthServer ι)
  | .save customer => some { s with customers := Function.update s.customers customer.id (some customer) }
  | .login i customerId pin => s.begin i (.asked customerId pin)
  | .logout i token => s.begin i (.closing token)
  | .find i => match s.threads i with
    | some (.asked customerId pin) => some (s.goto i (.lookedUp env customerId pin (s.customers customerId)))
    | _ => none
  | .create i now => match s.threads i with
    | some (.accepted customer) =>
      (s.sessions.create (fun _ => now) env.ttl customer.id customer.role).map fun (session, sessions) =>
        { s with sessions }.goto i (.noting customer.id "auth.login" "success" (.login (.success session)))
    | _ => none
  | .revoke i => match s.threads i with
    | some (.closing token) => match s.sessions.revoke token with
      | (none, sessions) => some ({ s with sessions }.goto i (.replied (.logout (.failure "invalid session"))))
      | (some session, sessions) =>
        some ({ s with sessions }.goto i (.noting session.customerId "auth.logout" "success" (.logout (.success ()))))
    | _ => none
  | .append i now fault => match s.threads i with
    | some (.noting actor action details reply) =>
      let (_, audit, trail) := s.trail.append fault actor action details now s.audit
      some ({ s with audit, trail }.goto i (.replied reply))
    | _ => none
  | .validate now token => some { s with sessions := (s.sessions.validate (fun _ => now) token).2 }

def run (s : AuthServer ι) (events : List (AuthEvent ι)) : Option (AuthServer ι) := Runs.run (next env) s events

def opened (customers : CustomerRepository) (tokens : List Bytes) : AuthServer ι where
  customers := customers
  sessions := ⟨[], tokens, 0⟩
  audit := []
  trail := .initial
  threads := fun _ => none

inductive Effect (s s' : AuthServer ι) : AuthEvent ι → Prop
  | save (customer : Customer)
    (hs : s' = { s with customers := Function.update s.customers customer.id (some customer) }) :
    Effect s s' (.save customer)
  | login {i customerId pin} (hi : s.Idle i) (hs : s' = s.goto i (.asked customerId pin)) :
    Effect s s' (.login i customerId pin)
  | logout {i token} (hi : s.Idle i) (hs : s' = s.goto i (.closing token)) : Effect s s' (.logout i token)
  | find {i customerId pin} (hi : s.threads i = some (.asked customerId pin))
    (hs : s' = s.goto i (.lookedUp env customerId pin (s.customers customerId))) : Effect s s' (.find i)
  | create {i now customer session sessions} (hi : s.threads i = some (.accepted customer))
    (hc : s.sessions.create (fun _ => now) env.ttl customer.id customer.role = some (session, sessions))
    (hs : s' = { s with sessions }.goto i (.noting customer.id "auth.login" "success" (.login (.success session)))) :
    Effect s s' (.create i now)
  | unknown {i token} (hi : s.threads i = some (.closing token)) (hf : s.sessions.find token = none)
    (hs : s' = s.goto i (.replied (.logout (.failure "invalid session")))) : Effect s s' (.revoke i)
  | revoke {i token session} (hi : s.threads i = some (.closing token)) (hf : s.sessions.find token = some session)
    (hs : s' = { s with sessions :=
      { s.sessions with sessions := s.sessions.sessions.filter fun x => decide (x.token ≠ token) } }.goto i
        (.noting session.customerId "auth.logout" "success" (.logout (.success ())))) :
    Effect s s' (.revoke i)
  | append {i now actor action details reply fault} (hi : s.threads i = some (.noting actor action details reply))
    (hs : s' = { s with
      audit := (s.trail.append fault actor action details now s.audit).2.1
      trail := (s.trail.append fault actor action details now s.audit).2.2 }.goto i (.replied reply)) :
    Effect s s' (.append i now fault)
  | validate {now token} (hs : s' = { s with sessions := (s.sessions.validate (fun _ => now) token).2 }) :
    Effect s s' (.validate now token)

variable {env} {s s' : AuthServer ι} {event : AuthEvent ι} {i : ι} {token : Bytes} {session : Session}
variable {customer : Customer}

def Revokes (token : Bytes) (s : AuthServer ι) (event : AuthEvent ι) : Prop :=
  ∃ i, event = .revoke i ∧ s.threads i = some (.closing token)

theorem begin_eq_some {pc : AuthPc} (h : s.begin i pc = some s') : s.Idle i ∧ s' = s.goto i pc := by
  unfold begin at h
  split at h
  · exact ⟨.inl ‹_›, (Option.some.inj h).symm⟩
  · exact ⟨.inr ⟨_, ‹_›⟩, (Option.some.inj h).symm⟩
  · cases h

theorem goto_other {j : ι} (hj : j ≠ i) (pc : AuthPc) : (s.goto i pc).threads j = s.threads j :=
  Function.update_of_ne hj _ _

theorem goto_self (pc : AuthPc) : (s.goto i pc).threads i = some pc := Function.update_self _ _ _

theorem next_effect (h : s.next env event = some s') : Effect env s s' event := by
  cases event with
  | save customer => exact .save customer (Option.some.inj h).symm
  | login i customerId pin => exact .login (begin_eq_some h).1 (begin_eq_some h).2
  | logout i token => exact .logout (begin_eq_some h).1 (begin_eq_some h).2
  | find i =>
    simp only [next] at h
    split at h
    · exact .find ‹_› (Option.some.inj h).symm
    · cases h
  | create i now =>
    simp only [next] at h
    split at h
    · obtain ⟨⟨session, sessions⟩, hc, hs⟩ := Option.map_eq_some_iff.mp h
      exact .create ‹_› hc hs.symm
    · cases h
  | revoke i =>
    simp only [next] at h
    split at h
    · rename_i token hi
      cases hf : s.sessions.find token with
      | none =>
        simp only [SessionManager.revoke, hf] at h
        exact .unknown hi hf (Option.some.inj h).symm
      | some session =>
        simp only [SessionManager.revoke, hf] at h
        exact .revoke hi hf (Option.some.inj h).symm
    · cases h
  | append i now fault =>
    simp only [next] at h
    split at h
    · exact .append ‹_› (Option.some.inj h).symm
    · cases h
  | validate now token => exact .validate (Option.some.inj h).symm

theorem Effect.keyed (h : Effect env s s' event)
    (hkeyed : ∀ customerId customer, s.customers customerId = some customer → customer.id = customerId) :
    ∀ customerId customer, s'.customers customerId = some customer → customer.id = customerId := by
  cases h with
  | save saved hs =>
    subst hs
    intro customerId customer hc
    change Function.update s.customers saved.id (some saved) customerId = some customer at hc
    by_cases hid : customerId = saved.id
    · rw [hid, Function.update_self] at hc
      rw [hid, ← Option.some.inj hc]
    · rw [Function.update_of_ne hid] at hc
      exact hkeyed customerId customer hc
  | login _ hs | logout _ hs | find _ hs | create _ _ hs | unknown _ _ hs | revoke _ _ hs | append _ hs | validate hs =>
    subst hs
    exact hkeyed

theorem Effect.found (h : Effect env s s' event) (hf : s'.sessions.find token = some session) :
    (s.sessions.find token = some session ∧ ¬ Revokes token s event) ∨
      ∃ i now customer, event = .create i now ∧ s.threads i = some (.accepted customer) ∧
        session = ⟨token, customer.id, customer.role, .authenticated, SessionManager.expiry now env.ttl⟩ ∧
        s'.threads i = some (.noting customer.id "auth.login" "success" (.login (.success session))) := by
  cases h with
  | save customer hs | login _ hs | logout _ hs | find _ hs | append _ hs =>
    subst hs
    refine .inl ⟨hf, ?_⟩
    rintro ⟨i, he, -⟩
    cases he
  | @create i now customer created sessions hi hc hs =>
    subst hs
    change sessions.find token = some session at hf
    rw [SessionManager.find_created hc] at hf
    split_ifs at hf with htoken
    · obtain rfl := Option.some.inj hf
      obtain ⟨⟨drawn, rest⟩, -, hc⟩ := Option.bind_eq_some_iff.mp hc
      obtain ⟨rfl, -⟩ := Prod.mk.inj (Option.some.inj hc)
      obtain rfl : drawn = token := htoken
      exact .inr ⟨i, now, customer, rfl, hi, rfl, goto_self _⟩
    · refine .inl ⟨hf, ?_⟩
      rintro ⟨i, he, -⟩
      cases he
  | @unknown i other hi hnone hs =>
    subst hs
    refine .inl ⟨hf, ?_⟩
    rintro ⟨j, he, hj⟩
    obtain rfl := AuthEvent.revoke.inj he
    obtain rfl := AuthPc.closing.inj (Option.some.inj (hi.symm.trans hj))
    rw [show s.sessions.find other = some session from hf] at hnone
    cases hnone
  | @revoke i other removed hi hsome hs =>
    subst hs
    have hfind := hf.symm.trans (SessionManager.find_erased s.sessions.sessions other token)
    split_ifs at hfind with htoken
    refine .inl ⟨hfind.symm, ?_⟩
    rintro ⟨j, he, hj⟩
    obtain rfl := AuthEvent.revoke.inj he
    obtain rfl := AuthPc.closing.inj (Option.some.inj (hi.symm.trans hj))
    exact htoken rfl
  | @validate now other hs =>
    subst hs
    refine .inl ⟨?_, ?_⟩
    · obtain ⟨-, hsame⟩ | ⟨_, _, _, herased⟩ := SessionManager.validate_sessions (fun _ => now) other s.sessions
      · unfold SessionManager.find at hf ⊢
        rwa [hsame] at hf
      · unfold SessionManager.find at hf
        rw [herased] at hf
        have hfind := hf.symm.trans (SessionManager.find_erased s.sessions.sessions other token)
        split_ifs at hfind
        exact hfind.symm
    · rintro ⟨i, he, -⟩
      cases he

theorem Effect.accepted (h : Effect env s s' event) (hi : s'.threads i = some (.accepted customer)) :
    (s.threads i = some (.accepted customer) ∧ event.thread ≠ some i) ∨
      ∃ customerId pin, event = .find i ∧ s.threads i = some (.asked customerId pin) ∧
        s.customers customerId = some customer ∧ PasswordHasher.verify env.pbkdf2 pin customer.pinHash = true := by
  have hmoved {u : AuthServer ι} {j : ι} {pc : AuthPc} (hs : s' = u.goto j pc) (hu : u.threads = s.threads)
      (hpc : ∀ customer, pc ≠ .accepted customer) : s.threads i = some (.accepted customer) ∧ some j ≠ some i := by
    subst hs
    by_cases hij : i = j
    · subst hij
      rw [goto_self] at hi
      exact absurd (Option.some.inj hi) (hpc customer)
    · rw [goto_other hij, hu] at hi
      exact ⟨hi, fun he => hij (Option.some.inj he).symm⟩
  cases h with
  | save customer hs | validate hs =>
    subst hs
    exact .inl ⟨hi, nofun⟩
  | login _ hs | logout _ hs => exact .inl (hmoved hs rfl nofun)
  | create _ _ hs | unknown _ _ hs | revoke _ _ hs | append _ hs => exact .inl (hmoved hs rfl nofun)
  | @find j customerId pin hj hs =>
    by_cases hij : i = j
    · subst hij hs
      rw [goto_self] at hi
      unfold AuthPc.lookedUp at hi
      dsimp only at hi
      split at hi
      · rename_i found hfound
        split_ifs at hi with hpin
        · obtain rfl := AuthPc.accepted.inj (Option.some.inj hi)
          exact .inr ⟨customerId, pin, rfl, hj, hfound, hpin⟩
        · cases hi
      · cases hi
    · subst hs
      rw [goto_other hij] at hi
      exact .inl ⟨hi, fun he => hij (Option.some.inj he).symm⟩

/-- The last step of thread `i` before this point looked up the record of `customer`, for whom it had been
given a PIN that is right by that record. -/
def LookedUp (env : Surroundings) (s : AuthServer ι) (events : List (AuthEvent ι)) (i : ι) (customer : Customer) : Prop :=
  ∃ before middle t pin, events = before ++ .find i :: middle ∧ (∀ event ∈ middle, event.thread ≠ some i) ∧
    s.run env before = some t ∧ t.threads i = some (.asked customer.id pin) ∧
    t.customers customer.id = some customer ∧ PasswordHasher.verify env.pbkdf2 pin customer.pinHash = true

/-- The session is the one that a login like this created and gives out, and no logout has revoked it since. -/
def Authentic (env : Surroundings) (s : AuthServer ι) (events : List (AuthEvent ι)) (session : Session) : Prop :=
  ∃ before after i time customer t, events = before ++ .create i time :: after ∧ LookedUp env s before i customer ∧
    session = ⟨session.token, customer.id, customer.role, .authenticated, SessionManager.expiry time env.ttl⟩ ∧
    s.run env (before ++ [.create i time]) = some t ∧
    t.threads i = some (.noting customer.id "auth.login" "success" (.login (.success session))) ∧
    Runs.Along (next env) (fun t event => ¬ Revokes session.token t event) t after

variable {events : List (AuthEvent ι)}

theorem LookedUp.concat (h : LookedUp env s events i customer) (he : event.thread ≠ some i) :
    LookedUp env s (events ++ [event]) i customer := by
  obtain ⟨before, middle, t, pin, rfl, hmiddle, hall⟩ := h
  refine ⟨before, middle ++ [event], t, pin, ?_, fun e hmem => ?_, hall⟩
  · rw [List.append_assoc, List.cons_append]
  · rcases List.mem_append.mp hmem with hmem | hmem
    · exact hmiddle e hmem
    · rwa [List.mem_singleton.mp hmem]

theorem Authentic.concat {t : AuthServer ι} (h : Authentic env s events session) (hrun : s.run env events = some t)
    (he : ¬ Revokes session.token t event) : Authentic env s (events ++ [event]) session := by
  obtain ⟨before, after, i, time, customer, u, rfl, hlooked, hsession, hu, hgiven, hafter⟩ := h
  refine ⟨before, after ++ [event], i, time, customer, u, ?_, hlooked, hsession, hu, hgiven, hafter.concat fun v hv => ?_⟩
  · rw [List.append_assoc, List.cons_append]
  · have hall : s.run env ((before ++ [.create i time]) ++ after) = some v := by
      rw [run, Runs.run_append]
      exact Option.bind_eq_some_iff.mpr ⟨u, hu, hv⟩
    rw [List.append_assoc, List.singleton_append, hrun] at hall
    rwa [← Option.some.inj hall]

structure Traced (env : Surroundings) (s₀ : AuthServer ι) (events : List (AuthEvent ι)) (s : AuthServer ι) : Prop where
  keyed : ∀ customerId customer, s.customers customerId = some customer → customer.id = customerId
  accepted : ∀ i customer, s.threads i = some (.accepted customer) → LookedUp env s₀ events i customer
  found : ∀ token session, s.sessions.find token = some session → Authentic env s₀ events session

theorem Traced.next {s₀ : AuthServer ι} (h : Traced env s₀ events s) (hrun : s₀.run env events = some s)
    (hnext : s.next env event = some s') : Traced env s₀ (events ++ [event]) s' where
  keyed := (next_effect hnext).keyed h.keyed
  accepted i customer hi := by
    rcases (next_effect hnext).accepted hi with ⟨hi, he⟩ | ⟨customerId, pin, rfl, hasked, hfound, hpin⟩
    · exact (h.accepted i customer hi).concat he
    · obtain rfl := h.keyed customerId customer hfound
      exact ⟨events, [], s, pin, rfl, by rintro e ⟨⟩, hrun, hasked, hfound, hpin⟩
  found token session hf := by
    have htoken := SessionManager.find_token hf
    rcases (next_effect hnext).found hf with ⟨hf, he⟩ | ⟨i, now, customer, rfl, hi, hsession, hgiven⟩
    · rw [← htoken] at he
      exact (h.found token session hf).concat hrun he
    · refine ⟨events, [], i, now, customer, s', rfl, h.accepted i customer hi, ?_, ?_, ?_, trivial⟩
      · rw [htoken]
        exact hsession
      · exact Runs.run_concat.mpr ⟨s, hrun, hnext⟩
      · exact hgiven

/-- In every run, a token that is accepted was given out by a login, to the customer whose record, as it
stood when that login looked it up, the PIN satisfied; it has not expired, and no logout has revoked it. -/
theorem run_authentic {customers : CustomerRepository} {tokens : List Bytes} {now : TimePoint}
    (hkeyed : ∀ customerId customer, customers customerId = some customer → customer.id = customerId)
    (h : (opened customers tokens : AuthServer ι).run env events = some s)
    (hv : (s.sessions.validate (fun _ => now) token).1 = some session) :
    session.token = token ∧ now < session.expiresAt ∧ Authentic env (opened customers tokens) events session := by
  obtain ⟨hf, hlive⟩ := SessionManager.validate_eq_some.mp hv
  have htraced : Traced env (opened customers tokens) events s := by
    apply Runs.run_history ⟨hkeyed, nofun, nofun⟩ _ h
    intro events t event t' hrun ht hnext
    exact ht.next hrun hnext
  exact ⟨SessionManager.find_token hf, hlive, htraced.found token session hf⟩

def overtaken : List (AuthEvent Bool) :=
  [.login false 3 (ascii "1234"), .login true 3 (ascii "0000"), .find false, .find true,
    .save ⟨3, ascii "c", PasswordHasher.derive derived (ascii "0000") (hex "0011"), .teller⟩, .append true 5 none,
    .create false 10, .logout true (ascii "ef"), .revoke true, .append false 12 none]

def overtakenSession : Session := ⟨ascii "ab", 3, .customer, .authenticated, 28800000000010⟩

theorem overtaken_authentic : ∃ s, (opened someCustomers [ascii "ab"]).run exampleSurroundings overtaken = some s ∧
    (s.sessions.validate (fun _ => 20) (ascii "ab")).1 = some overtakenSession ∧
    Authentic exampleSurroundings (opened someCustomers [ascii "ab"]) overtaken overtakenSession := by
  have hrun : ((opened someCustomers [ascii "ab"]).run exampleSurroundings overtaken).map
      (fun s => (s.sessions.validate (fun _ => 20) (ascii "ab")).1) = some (some overtakenSession) := by decide +kernel
  obtain ⟨s, h, hv⟩ := Option.map_eq_some_iff.mp hrun
  have hkeyed : ∀ customerId customer, someCustomers customerId = some customer → customer.id = customerId := by
    intro customerId customer hc
    unfold someCustomers at hc
    split_ifs at hc with h3 h7
    · rw [h3, ← Option.some.inj hc]
    · rw [h7, ← Option.some.inj hc]
  exact ⟨s, h, hv, (run_authentic hkeyed h hv).2.2⟩

section Trail

variable [Fintype ι]

def due (customerId : CustomerId) (action : String) : Option AuthPc → ℕ
  | some (.noting actor action' _ _) => if actor = customerId ∧ action' = action then 1 else 0
  | _ => 0

def trailed (s : AuthServer ι) (customerId : CustomerId) (action : String) : ℕ :=
  s.audit.countP (fun e => e.actorId = customerId ∧ e.action = action) + ∑ i, due customerId action (s.threads i)

def sessionsOf (s : AuthServer ι) (customerId : CustomerId) : ℕ :=
  s.sessions.sessions.countP fun session => session.customerId = customerId

/-- The session that a `validate` comes across after its time. -/
def expired (s : AuthServer ι) : AuthEvent ι → List Session
  | .validate now token => ((s.sessions.find token).filter fun session => decide (session.expiresAt ≤ now)).toList
  | _ => []

def expiredAlong (env : Surroundings) (s : AuthServer ι) (events : List (AuthEvent ι)) : List Session :=
  Runs.collected expired (next env) s events

omit [DecidableEq ι] [Fintype ι] in
theorem expired_live {now : TimePoint} (h : ∀ session, s.sessions.find token = some session → now < session.expiresAt) :
    s.expired (.validate now token) = [] := by
  unfold expired
  dsimp only
  cases hf : s.sessions.find token with
  | none => rfl
  | some session =>
    rw [Option.filter_some_neg]
    · rfl
    · simpa using h session hf

omit [DecidableEq ι] [Fintype ι] in
theorem expired_purged {now : TimePoint} (hf : s.sessions.find token = some session) (hle : session.expiresAt ≤ now) :
    s.expired (.validate now token) = [session] := by
  unfold expired
  dsimp only
  rw [hf, Option.filter_some_pos]
  · rfl
  · simpa using hle

theorem trailed_moved {pc : AuthPc} (hthreads : s'.threads = Function.update s.threads i (some pc))
    (haudit : s'.audit = s.audit) (customerId : CustomerId) (action : String) :
    s'.trailed customerId action + due customerId action (s.threads i) =
      s.trailed customerId action + due customerId action (some pc) := by
  have hsum := sum_update (due customerId action) s.threads i (some pc)
  unfold trailed
  rw [hthreads, haudit]
  omega

theorem trailed_quiet {pc : AuthPc} {customerId : CustomerId} {action : String}
    (hi : due customerId action (s.threads i) = 0) (hpc : due customerId action (some pc) = 0) :
    (s.goto i pc).trailed customerId action = s.trailed customerId action := by
  have hthreads : (s.goto i pc).threads = Function.update s.threads i (some pc) := rfl
  have hmoved := trailed_moved hthreads rfl customerId action
  omega

omit [DecidableEq ι] [Fintype ι] in
theorem Idle.due (h : s.Idle i) (customerId : CustomerId) (action : String) :
    due customerId action (s.threads i) = 0 := by
  rcases h with h | ⟨reply, h⟩ <;> rw [h] <;> rfl

omit [DecidableEq ι] [Fintype ι] in
theorem due_noting (actor customerId : CustomerId) (action details : String) (reply : Reply) :
    due customerId action (some (.noting actor action details reply)) = (decide (actor = customerId)).toNat := by
  unfold due
  by_cases h : actor = customerId <;> simp [h]

omit [DecidableEq ι] [Fintype ι] in
theorem due_noting_other {action action' : String} (ha : action ≠ action') (actor customerId : CustomerId)
    (details : String) (reply : Reply) : due customerId action' (some (.noting actor action details reply)) = 0 :=
  if_neg fun h => ha h.2

theorem due_lookedUp (env : Surroundings) (asked customerId : CustomerId) (pin : Bytes) (found : Option Customer)
    {action : String} (ha : action ≠ "auth.login_failed") :
    due customerId action (some (.lookedUp env asked pin found)) = 0 := by
  unfold AuthPc.lookedUp
  dsimp only
  split
  · split_ifs
    · rfl
    · exact if_neg fun h => ha h.2.symm
  · exact if_neg fun h => ha h.2.symm

omit [DecidableEq ι] [Fintype ι] in
theorem sessionsOf_erase (hd : (s.sessions.sessions.map Session.token).Nodup) (hf : s.sessions.find token = some session)
    (customerId : CustomerId) :
    (s.sessions.sessions.filter fun x => decide (x.token ≠ token)).countP (fun x => decide (x.customerId = customerId)) +
      (decide (session.customerId = customerId)).toNat = s.sessionsOf customerId := by
  apply KeyedTable.countP_erase hd
  unfold SessionManager.find at hf
  rw [← hf]
  unfold KeyedTable.find
  congr 1
  funext x
  exact (beq_eq_decide x.token token).symm

theorem trailed_append {now : TimePoint} {actor : CustomerId} {action details : String} {reply : Reply}
    (hi : s.threads i = some (.noting actor action details reply)) (customerId : CustomerId) (other : String) :
    ({ s with
      audit := (s.trail.append none actor action details now s.audit).2.1
      trail := (s.trail.append none actor action details now s.audit).2.2 }.goto i (.replied reply)).trailed
        customerId other = s.trailed customerId other := by
  have hsum := sum_update (due customerId other) s.threads i (some (.replied reply))
  have haudit : ((s.trail.append none actor action details now s.audit).2.1).countP
      (fun e => e.actorId = customerId ∧ e.action = other) =
    s.audit.countP (fun e => e.actorId = customerId ∧ e.action = other) + due customerId other (s.threads i) := by
    rw [hi]
    simp [ServiceTrail.append, due, List.countP_append, List.countP_singleton]
  have hreplied : due customerId other (some (.replied reply)) = 0 := rfl
  unfold trailed goto
  dsimp only
  omega

theorem Effect.accounts (h : Effect env s s' event) (hd : (s.sessions.sessions.map Session.token).Nodup)
    (hfault : event.faulty = false) (customerId : CustomerId) :
    s'.sessionsOf customerId + s'.trailed customerId "auth.logout" +
        (s.expired event).countP (fun session => session.customerId = customerId) + s.trailed customerId "auth.login" =
      s.sessionsOf customerId + s.trailed customerId "auth.logout" + s'.trailed customerId "auth.login" := by
  cases h with
  | save saved hs =>
    subst hs
    rfl
  | login hi hs | logout hi hs =>
    subst hs
    rw [trailed_quiet (hi.due _ _) rfl, trailed_quiet (hi.due _ _) rfl]
    rfl
  | @find i asked pin hi hs =>
    subst hs
    have hidle (action : String) : due customerId action (s.threads i) = 0 := by
      rw [hi]
      rfl
    rw [trailed_quiet (hidle _) (due_lookedUp env _ _ _ _ (by decide)),
      trailed_quiet (hidle _) (due_lookedUp env _ _ _ _ (by decide))]
    rfl
  | @unknown i token hi hf hs =>
    subst hs
    have hidle (action : String) : due customerId action (s.threads i) = 0 := by
      rw [hi]
      rfl
    rw [trailed_quiet (hidle _) rfl, trailed_quiet (hidle _) rfl]
    rfl
  | @create i now customer session sessions hi hc hs =>
    have howner : session.customerId = customer.id := by
      obtain ⟨⟨drawn, rest⟩, -, hc⟩ := Option.bind_eq_some_iff.mp hc
      rw [← (Prod.mk.inj (Option.some.inj hc)).1]
    have htable : sessions.sessions.countP (fun x => decide (x.customerId = customerId)) =
        s.sessionsOf customerId + (decide (customer.id = customerId)).toNat := by
      rw [(SessionManager.create_cases hc).2.1, List.countP_append, List.countP_singleton, howner, sessionsOf]
      cases decide (customer.id = customerId) <;> rfl
    have hthreads : s'.threads = Function.update s.threads i _ := congrArg threads hs
    have haudit : s'.audit = s.audit := by
      rw [hs]
      rfl
    have hmoved := trailed_moved hthreads haudit customerId
    have hlogin := hmoved "auth.login"
    have hlogout := hmoved "auth.logout"
    rw [hi, due_noting] at hlogin
    rw [hi, due_noting_other (by decide)] at hlogout
    rw [show s'.sessionsOf customerId = sessions.sessions.countP _ from congrArg (sessionsOf · customerId) hs, htable]
    have hnone : (s.expired (.create i now)).countP (fun session => session.customerId = customerId) = 0 := rfl
    dsimp only [due] at hlogin hlogout
    omega
  | @revoke i token session hi hf hs =>
    have herase := sessionsOf_erase hd hf customerId
    have hthreads : s'.threads = Function.update s.threads i _ := congrArg threads hs
    have haudit : s'.audit = s.audit := by
      rw [hs]
      rfl
    have hmoved := trailed_moved hthreads haudit customerId
    have hlogin := hmoved "auth.login"
    have hlogout := hmoved "auth.logout"
    rw [hi, due_noting_other (by decide)] at hlogin
    rw [hi, due_noting] at hlogout
    rw [show s'.sessionsOf customerId = _ from congrArg (sessionsOf · customerId) hs]
    have hnone : (s.expired (.revoke i)).countP (fun session => session.customerId = customerId) = 0 := rfl
    dsimp only [due, goto, sessionsOf] at hlogin hlogout herase ⊢
    omega
  | @append i now actor action details reply fault hi hs =>
    cases fault with
    | some what => cases hfault
    | none =>
      subst hs
      rw [trailed_append hi, trailed_append hi]
      rfl
  | @validate now token hs =>
    subst hs
    have htrailed (action : String) : { s with sessions := (s.sessions.validate (fun _ => now) token).2 }.trailed
      customerId action = s.trailed customerId action := rfl
    rw [htrailed, htrailed]
    obtain ⟨hlive, hsame⟩ | ⟨session, hf, hle, herased⟩ :=
      SessionManager.validate_sessions (fun _ => now) token s.sessions
    · rw [expired_live hlive]
      unfold sessionsOf
      rw [hsame]
      rfl
    · have herase := sessionsOf_erase hd hf customerId
      rw [← herased] at herase
      rw [expired_purged hf hle, List.countP_singleton]
      dsimp only [sessionsOf] at herase ⊢
      cases hc : decide (session.customerId = customerId) with
      | true =>
        rw [hc, Bool.toNat_true] at herase
        rw [if_pos rfl]
        omega
      | false =>
        rw [hc, Bool.toNat_false] at herase
        rw [if_neg Bool.false_ne_true]
        omega

omit [Fintype ι] in
theorem Effect.distinct (h : Effect env s s' event) (hd : (s.sessions.sessions.map Session.token).Nodup) :
    (s'.sessions.sessions.map Session.token).Nodup := by
  cases h with
  | save saved hs =>
    subst hs
    exact hd
  | login _ hs | logout _ hs | find _ hs | unknown _ _ hs | append _ hs =>
    subst hs
    exact hd
  | @create i now customer session sessions hi hc hs =>
    obtain ⟨hnew, hsessions, -, -⟩ := SessionManager.create_cases hc
    subst hs
    change (sessions.sessions.map Session.token).Nodup
    rw [hsessions, List.map_append]
    refine List.nodup_append.mpr ⟨hd, List.nodup_singleton _, ?_⟩
    intro x hx y hy
    obtain ⟨old, hold, rfl⟩ := List.mem_map.mp hx
    rw [List.mem_singleton.mp hy]
    exact hnew old hold
  | revoke hi hf hs =>
    subst hs
    exact hd.sublist (List.filter_sublist.map _)
  | @validate now token hs =>
    subst hs
    obtain ⟨-, hsame⟩ | ⟨_, _, _, herased⟩ := SessionManager.validate_sessions (fun _ => now) token s.sessions
    · dsimp only
      rwa [hsame]
    · dsimp only
      rw [herased]
      exact hd.sublist (List.filter_sublist.map _)

/-- In every run in which no append fails, the trail accounts for each customer's sessions: the logins are
the sessions there are, the logouts, and the sessions that a `validate` has found expired. -/
theorem run_trail {customers : CustomerRepository} {tokens : List Bytes}
    (h : (opened customers tokens : AuthServer ι).run env events = some s)
    (hfault : ∀ event ∈ events, event.faulty = false) (customerId : CustomerId) :
    s.sessionsOf customerId + s.trailed customerId "auth.logout" +
        ((opened customers tokens : AuthServer ι).expiredAlong env events).countP
          (fun session => session.customerId = customerId) = s.trailed customerId "auth.login" := by
  have hall : (s.sessions.sessions.map Session.token).Nodup ∧ ((∀ event ∈ events, event.faulty = false) →
      s.sessionsOf customerId + s.trailed customerId "auth.logout" +
        ((opened customers tokens : AuthServer ι).expiredAlong env events).countP
          (fun session => session.customerId = customerId) = s.trailed customerId "auth.login") := by
    apply Runs.run_history _ _ h
    · have hnone (action : String) : (opened customers tokens : AuthServer ι).trailed customerId action = 0 := by
        apply Nat.add_eq_zero_iff.mpr
        exact ⟨rfl, Finset.sum_eq_zero fun _ _ => rfl⟩
      refine ⟨List.nodup_nil, fun _ => ?_⟩
      rw [hnone, hnone]
      rfl
    · rintro events t event t' hrun ⟨hd, ht⟩ hnext
      have heffect := next_effect hnext
      refine ⟨heffect.distinct hd, fun hfault => ?_⟩
      have hbefore := ht fun e he => hfault e (List.mem_append_left _ he)
      have hstep := heffect.accounts hd (hfault event (List.mem_append_right _ (List.mem_singleton.mpr rfl))) customerId
      rw [expiredAlong, Runs.collected_concat expired hrun, List.countP_append]
      rw [expiredAlong] at hbefore
      omega
  exact hall.2 hfault

def passingSessions : List (AuthEvent Bool) :=
  [.login false 3 (ascii "1234"), .find false, .create false 10, .login true 3 (ascii "1234"), .find true,
    .append false 11 none, .create true 20, .logout false (ascii "ab"), .append true 21 none, .revoke false,
    .validate 28800000000020 (ascii "cd"), .append false 28800000000021 none, .login true 7 (ascii "1234"), .find true,
    .append true 28800000000022 none, .login true 3 (ascii "1234"), .find true, .create true 28800000000030]

theorem passingSessions_trail : ∃ s : AuthServer Bool,
    (opened someCustomers [ascii "ab", ascii "cd", ascii "ef"]).run exampleSurroundings passingSessions = some s ∧
      s.sessionsOf 3 = 1 ∧ s.trailed 3 "auth.logout" = 1 ∧ s.trailed 3 "auth.login" = 3 ∧
      s.sessionsOf 3 + s.trailed 3 "auth.logout" + ((opened someCustomers [ascii "ab", ascii "cd", ascii "ef"] :
        AuthServer Bool).expiredAlong exampleSurroundings passingSessions).countP (fun session => session.customerId = 3) =
          s.trailed 3 "auth.login" := by
  have hrun : ((opened someCustomers [ascii "ab", ascii "cd", ascii "ef"] : AuthServer Bool).run exampleSurroundings
      passingSessions).map (fun s => (s.sessionsOf 3, s.trailed 3 "auth.logout", s.trailed 3 "auth.login")) =
    some (1, 1, 3) := by decide +kernel
  obtain ⟨s, h, hs⟩ := Option.map_eq_some_iff.mp hrun
  obtain ⟨hsessions, hs⟩ := Prod.mk.inj hs
  obtain ⟨hlogout, hlogin⟩ := Prod.mk.inj hs
  exact ⟨s, h, hsessions, hlogout, hlogin, run_trail h (by decide +kernel) 3⟩

end Trail

section Alone

variable {customers : CustomerRepository} {service service' : AuthService} {request : Request} {reply : Reply}

structure Hosts (s : AuthServer ι) (customers : CustomerRepository) (service : AuthService) : Prop where
  customers : s.customers = customers
  sessions : s.sessions = service.sessions
  audit : s.audit = service.audit
  trail : s.trail = service.trail

theorem run_then {t u : AuthServer ι} (h : s.run env events = some t) (hnext : t.next env event = some u) :
    s.run env (events ++ [event]) = some u := Runs.run_concat.mpr ⟨t, h, hnext⟩

theorem Hosts.append {t : AuthServer ι} (h : t.Hosts customers service) (hrun : s.run env events = some t)
    {actor : CustomerId} {action details : String} (hi : t.threads i = some (.noting actor action details reply)) :
    ∃ events u, s.run env events = some u ∧ u.Hosts customers (AuthService.append env actor action details service) ∧
      u.threads i = some (.replied reply) := by
  let now := env.wallClock service.appends
  let fault := env.auditFault service.appends
  let u := { t with
    audit := (t.trail.append fault actor action details now t.audit).2.1
    trail := (t.trail.append fault actor action details now t.audit).2.2 }.goto i (.replied reply)
  have hnext : t.next env (.append i now fault) = some u := by
    simp only [next, hi]
    rfl
  refine ⟨_, u, run_then hrun hnext, ⟨h.customers, h.sessions, ?_, ?_⟩, goto_self _⟩
  · dsimp only [u, goto]
    rw [h.trail, h.audit]
    rfl
  · dsimp only [u, goto]
    rw [h.trail, h.audit]
    rfl

theorem Idle.begin (hi : s.Idle i) (pc : AuthPc) : s.begin i pc = some (s.goto i pc) := by
  unfold AuthServer.begin
  rcases hi with hi | ⟨reply, hi⟩ <;> rw [hi]

theorem login_steps (h : s.Hosts customers service) (hi : s.Idle i) {customerId : CustomerId} {pin : Bytes}
    {result : Result Session} (hlogin : login env customers customerId pin service = some (result, service')) :
    ∃ events t, s.run env events = some t ∧ t.Hosts customers service' ∧
      t.threads i = some (.replied (.login result)) := by
  let t := (s.goto i (.asked customerId pin)).goto i (.lookedUp env customerId pin (s.customers customerId))
  have hbegin : s.next env (.login i customerId pin) = some (s.goto i (.asked customerId pin)) := hi.begin _
  have hfind : (s.goto i (.asked customerId pin)).next env (.find i) = some t := by
    simp only [next, goto_self]
    rfl
  have hrun : s.run env [.login i customerId pin, .find i] = some t :=
    Option.bind_eq_some_iff.mpr ⟨_, hbegin, Option.bind_eq_some_iff.mpr ⟨t, hfind, rfl⟩⟩
  have hhosts : t.Hosts customers service := ⟨h.customers, h.sessions, h.audit, h.trail⟩
  have ht : t.threads i = some (.lookedUp env customerId pin (customers customerId)) := by
    rw [← h.customers]
    exact goto_self _
  unfold login at hlogin
  unfold AuthPc.lookedUp at ht
  cases hc : customers customerId with
  | none =>
    rw [hc] at hlogin ht
    obtain ⟨rfl, rfl⟩ := Prod.mk.inj (Option.some.inj hlogin)
    exact hhosts.append hrun ht
  | some customer =>
    rw [hc] at hlogin ht
    dsimp only at hlogin ht
    split_ifs at hlogin ht with hpin
    · obtain ⟨⟨session, sessions⟩, hcreate, hlogin⟩ := Option.bind_eq_some_iff.mp hlogin
      obtain ⟨rfl, rfl⟩ := Prod.mk.inj (Option.some.inj hlogin)
      let now := env.sessionClock service.sessions.readings
      let u := { t with sessions }.goto i (.noting customer.id "auth.login" "success" (.login (.success session)))
      have hnow : t.sessions.create (fun _ => now) env.ttl customer.id customer.role = some (session, sessions) := by
        rw [hhosts.sessions]
        exact hcreate
      have hnext : t.next env (.create i now) = some u := by
        simp only [next, ht, hnow]
        rfl
      have hu : u.Hosts customers { service with sessions } := ⟨h.customers, rfl, h.audit, h.trail⟩
      exact hu.append (run_then hrun hnext) (goto_self _)
    · obtain ⟨rfl, rfl⟩ := Prod.mk.inj (Option.some.inj hlogin)
      exact hhosts.append hrun ht

theorem logout_steps (h : s.Hosts customers service) (hi : s.Idle i) {token : Bytes} {result : Result Unit}
    (hlogout : logout env token service = (result, service')) :
    ∃ events t, s.run env events = some t ∧ t.Hosts customers service' ∧
      t.threads i = some (.replied (.logout result)) := by
  have hbegin : s.run env [.logout i token] = some (s.goto i (.closing token)) :=
    Option.bind_eq_some_iff.mpr ⟨_, hi.begin _, rfl⟩
  unfold logout SessionManager.revoke at hlogout
  cases hf : service.sessions.find token with
  | none =>
    rw [hf] at hlogout
    obtain ⟨rfl, rfl⟩ := Prod.mk.inj hlogout
    let t := (s.goto i (.closing token)).goto i (.replied (.logout (.failure "invalid session")))
    have hnext : (s.goto i (.closing token)).next env (.revoke i) = some t := by
      have hfind : (s.goto i (.closing token)).sessions.find token = none := by
        rw [← hf, ← h.sessions]
        rfl
      simp only [next, goto_self, SessionManager.revoke, hfind]
      rfl
    exact ⟨_, t, run_then hbegin hnext, ⟨h.customers, h.sessions, h.audit, h.trail⟩, goto_self _⟩
  | some session =>
    rw [hf] at hlogout
    obtain ⟨rfl, rfl⟩ := Prod.mk.inj hlogout
    let sessions := { s.sessions with sessions := s.sessions.sessions.filter fun x => decide (x.token ≠ token) }
    let t := { s.goto i (.closing token) with sessions }.goto i
      (.noting session.customerId "auth.logout" "success" (.logout (.success ())))
    have hnext : (s.goto i (.closing token)).next env (.revoke i) = some t := by
      have hfind : (s.goto i (.closing token)).sessions.find token = some session := by
        rw [← hf, ← h.sessions]
        rfl
      simp only [next, goto_self, SessionManager.revoke, hfind]
      rfl
    have ht : t.Hosts customers { service with sessions } := ⟨h.customers, rfl, h.audit, h.trail⟩
    have happend := ht.append (run_then hbegin hnext) (goto_self _)
    dsimp only [sessions] at happend
    rwa [h.sessions] at happend

theorem serve_steps (h : s.Hosts customers service) (hi : s.Idle i)
    (hserve : serve env customers request service = some (reply, service')) :
    ∃ events t, s.run env events = some t ∧ t.Hosts customers service' ∧ t.threads i = some (.replied reply) := by
  cases request with
  | login customerId pin =>
    obtain ⟨⟨result, _⟩, hlogin, hreply⟩ := Option.map_eq_some_iff.mp hserve
    obtain ⟨rfl, rfl⟩ := Prod.mk.inj hreply
    exact login_steps h hi hlogin
  | logout token =>
    obtain ⟨rfl, rfl⟩ := Prod.mk.inj (Option.some.inj hserve)
    exact logout_steps h hi rfl

end Alone

end AuthServer

end BankManagement
