import BankManagement.AuditQueries
import BankManagement.AuthService
import BankManagement.ProcessThrows
import BankManagement.StatusChanges

/-!
The public operations of the services over repositories any of whose calls may throw. Whatever a
call of the source wraps in `try` is wrapped here, and nothing else.
-/

namespace BankManagement

open Throwing BankingService

structure Held (A U R : Type) where
  accounts : A
  audit : U
  rest : R

/-- The injected repositories, and the journal and the clock of the processor. The queries are `const`. -/
structure Injected (A U R : Type) where
  findAccount : AccountId → A → Except Exn (Option Account)
  saveAccount : Account → Program Exn A Unit
  forAccount : AccountId → R → Except Exn (List TransactionRecord)
  appendTransaction : TransactionRecord → Program Exn R Unit
  findCustomer : CustomerId → R → Except Exn (Option Customer)
  findAudit : AuditFilter → U → Except Exn (List AuditRecord)
  appendAudit : AuditEntry → Program Exn U Unit
  appendWal : TransactionRecord → Program Exn R Unit
  markCommitted : TransactionId → Program Exn R Unit
  now : R → TimePoint × R

variable {A U R α : Type}

namespace Held

def onAccounts (m : Program Exn A α) : Program Exn (Held A U R) α :=
  zoom accounts (fun accounts h => { h with accounts }) m

def onAudit (m : Program Exn U α) : Program Exn (Held A U R) α :=
  zoom audit (fun audit h => { h with audit }) m

def onRest (m : Program Exn R α) : Program Exn (Held A U R) α :=
  zoom rest (fun rest h => { h with rest }) m

end Held

def Injected.collaborators (r : Injected A U R) : Collaborators (Held A U R) where
  now h := ((r.now h.rest).1, { h with rest := (r.now h.rest).2 })
  findById k := query fun h => r.findAccount k h.accounts
  save a := Held.onAccounts (r.saveAccount a)
  appendTransaction record := Held.onRest (r.appendTransaction record)
  appendAudit entry := Held.onAudit (r.appendAudit entry)
  appendWal record := Held.onRest (r.appendWal record)
  markCommitted id := Held.onRest (r.markCommitted id)

inductive ServiceCall
  | deposit (k : AccountId) (amount : Money)
  | withdraw (k : AccountId) (amount : Money)
  | transfer (i j : AccountId) (amount : Money)
  | balance (k : AccountId)
  | history (k : AccountId)
  | freeze (k : AccountId)
  | unfreeze (k : AccountId)
  | login (customerId : CustomerId) (pin : Bytes)
  | logout (token : Bytes)
  | find (filter : AuditFilter)
  | findByActor (actor : CustomerId)
  | findByAction (action : Bytes)
  | findSince (since : TimePoint)

def ServiceCall.changesStatus : ServiceCall → Bool
  | .freeze _ | .unfreeze _ => true
  | _ => false

def Result.void : Result α → Result Unit
  | .success _ => .success ()
  | .failure message => .failure message

/-- The services of one process. `appends` counts the readings of the wall clock. -/
structure Services (A U R : Type) where
  processor : Processor (Held A U R)
  sessions : SessionManager
  trail : ServiceTrail
  appends : ℕ

namespace Services

variable (env : Surroundings) (r : Injected A U R)

def held (s : Services A U R) : Held A U R := s.processor.stores

def accounts (s : Services A U R) : A := s.held.accounts

def onProcessor (m : Program Exn (Processor (Held A U R)) α) : Program Exn (Services A U R) α :=
  zoom processor (fun processor s => { s with processor }) m

def setHeld (held : Held A U R) (s : Services A U R) : Services A U R :=
  { s with processor := { s.processor with stores := held } }

def onAccounts (m : Program Exn A α) : Program Exn (Services A U R) α :=
  zoom accounts (fun accounts s => s.setHeld { s.held with accounts }) m

def onAudit (m : Program Exn U α) : Program Exn (Services A U R) α :=
  zoom (fun s => s.held.audit) (fun audit s => s.setHeld { s.held with audit }) m

def stamp : Program Exn (Services A U R) (UInt64 × TimePoint) := fun s =>
  .ok (s.trail.nextAuditId, env.wallClock s.appends)
    { s with trail := ⟨s.trail.nextAuditId + 1⟩, appends := s.appends + 1 }

def append (actor : CustomerId) (action details : String) : Program Exn (Services A U R) (Result Unit) :=
  tryCatch (do
    let (id, timestamp) ← stamp env
    onAudit (r.appendAudit { id, timestamp, actorId := actor, action, details })
    return .success ())
  fun what => return .failure ("audit append failed: " ++ what)

def deposit (k : AccountId) (amount : Money) : Program Exn (Services A U R) (Result TransactionRecord) :=
  onProcessor (Processor.processOne r.collaborators (.deposit k amount))

def withdraw (k : AccountId) (amount : Money) : Program Exn (Services A U R) (Result TransactionRecord) :=
  onProcessor (Processor.processOne r.collaborators (.withdraw k amount))

def transfer (i j : AccountId) (amount : Money) : Program Exn (Services A U R) (Result TransactionRecord) :=
  onProcessor (Processor.processOne r.collaborators (.transfer i j amount))

def findAccount (k : AccountId) : Program Exn (Services A U R) (Option Account) :=
  query fun s => r.findAccount k s.accounts

def balance (k : AccountId) : Program Exn (Services A U R) (Result Money) := do
  match ← findAccount r k with
  | none => return .failure ("account not found: " ++ toString k.toNat)
  | some account => return .success account.balance

def history (k : AccountId) : Program Exn (Services A U R) (Result (List TransactionRecord)) :=
  tryCatch (do return .success (← query fun s => r.forAccount k s.held.rest))
  fun what => return .failure ("history query failed: " ++ what)

def saveStatus (change : StatusChange) (account : Account) : Program Exn (Services A U R) (Option String) :=
  tryCatch (do
    onAccounts (r.saveAccount (account.setStatus change.status))
    return none)
  fun what => return some (change.verb ++ " failed: " ++ what)

def changeStatus (change : StatusChange) (k : AccountId) : Program Exn (Services A U R) (Result Unit) := do
  match ← findAccount r k with
  | none => return .failure "account not found"
  | some account =>
    if account.status = .closed then return .failure change.refusal
    else if account.status = change.status then return .success ()
    else match ← saveStatus r change account with
      | some message => return .failure message
      | none => do
        let _ ← append env r 0 change.action ("account " ++ toString k.toNat)
        return .success ()

def freeze : AccountId → Program Exn (Services A U R) (Result Unit) := changeStatus env r .freeze

def unfreeze : AccountId → Program Exn (Services A U R) (Result Unit) := changeStatus env r .unfreeze

/-- `none` when the loop that draws a token does not end on the tokens there are. -/
def create (customer : Customer) : Program Exn (Services A U R) (Option Session) := fun s =>
  match s.sessions.create env.sessionClock env.ttl customer.id customer.role with
  | none => .ok none s
  | some (session, sessions) => .ok (some session) { s with sessions }

def refuse (customerId : CustomerId) : Program Exn (Services A U R) (Option (Result Session)) := do
  let _ ← append env r customerId "auth.login_failed" "invalid credentials"
  return some (.failure "invalid credentials")

def accept (customer : Customer) : Program Exn (Services A U R) (Option (Result Session)) := do
  match ← create env customer with
  | none => return none
  | some session => do
    let _ ← append env r customer.id "auth.login" "success"
    return some (.success session)

def login (customerId : CustomerId) (pin : Bytes) : Program Exn (Services A U R) (Option (Result Session)) := do
  match ← query fun s => r.findCustomer customerId s.held.rest with
  | some customer =>
    if PasswordHasher.verify env.pbkdf2 pin customer.pinHash then accept env r customer
    else refuse env r customerId
  | none =>
    -- the same work as for a customer who exists, to no effect
    let _ := PasswordHasher.verify env.pbkdf2 pin (AuthService.dummy env)
    refuse env r customerId

def revoke (token : Bytes) : Program Exn (Services A U R) (Option Session) := fun s =>
  .ok (s.sessions.revoke token).1 { s with sessions := (s.sessions.revoke token).2 }

def logout (token : Bytes) : Program Exn (Services A U R) (Result Unit) := do
  match ← revoke token with
  | none => return .failure "invalid session"
  | some session => do
    let _ ← append env r session.customerId "auth.logout" "success"
    return .success ()

def find (filter : AuditFilter) : Program Exn (Services A U R) (Result (List AuditRecord)) :=
  tryCatch (do return .success (← query fun s => r.findAudit filter s.held.audit))
  fun what => return .failure ("audit query failed: " ++ what)

def findByActor (actor : CustomerId) : Program Exn (Services A U R) (Result (List AuditRecord)) :=
  find r ⟨none, some actor, none⟩

def findByAction (action : Bytes) : Program Exn (Services A U R) (Result (List AuditRecord)) :=
  find r ⟨some action, none, none⟩

def findSince (since : TimePoint) : Program Exn (Services A U R) (Result (List AuditRecord)) :=
  find r ⟨none, none, some since⟩

def serve : ServiceCall → Program Exn (Services A U R) (Option (Result Unit))
  | .deposit k amount => return some (← deposit r k amount).void
  | .withdraw k amount => return some (← withdraw r k amount).void
  | .transfer i j amount => return some (← transfer r i j amount).void
  | .balance k => return some (← balance r k).void
  | .history k => return some (← history r k).void
  | .freeze k => return some (← freeze env r k)
  | .unfreeze k => return some (← unfreeze env r k)
  | .login customerId pin => return (← login env r customerId pin).map .void
  | .logout token => return some (← logout env r token).void
  | .find filter => return some (← find r filter).void
  | .findByActor actor => return some (← findByActor r actor).void
  | .findByAction action => return some (← findByAction r action).void
  | .findSince since => return some (← findSince r since).void

def Answered (reply : Option (Result α)) : Prop := ∃ result, reply = some result ∧ Processor.Reported result

def Behaves (call : ServiceCall) (s : Services A U R) : Prop :=
  Ends (fun reply s' => ∃ result, reply = some result ∧ Processor.Reported result ∧
    (call.changesStatus = true → ∀ message, result = .failure message → s'.accounts = s.accounts))
    (serve env r call) s

def StatusHolds (change : StatusChange) (k : AccountId) (accounts : A) : Prop :=
  ∃ found, r.findAccount k accounts = .ok found ∧
    ∀ account, found = some account → account.status ≠ .closed → account.status ≠ change.status →
      ∀ what accounts', r.saveAccount (account.setStatus change.status) accounts = .error what accounts' →
        accounts' = accounts

def Holds (s : Services A U R) : ServiceCall → Prop
  | .balance k => ∃ found, r.findAccount k s.accounts = .ok found
  | .freeze k => StatusHolds r .freeze k s.accounts
  | .unfreeze k => StatusHolds r .unfreeze k s.accounts
  | .login customerId _ => ∃ customer, r.findCustomer customerId s.held.rest = .ok customer
  | _ => True

section Results

open Processor

variable {env r} {s : Services A U R}

theorem prefixed_ne_empty {text : String} (h : text ≠ "") (what : String) : text ++ what ≠ "" := by
  intro he
  exact h (String.append_eq_empty_iff.mp he).1

theorem void_reported {result : Result α} : Reported result.void ↔ Reported result := by
  cases result with
  | success value => exact Iff.rfl
  | failure message => exact Iff.rfl

theorem answered_some {result : Result α} : Answered (some result) ↔ Reported result := by
  constructor
  · rintro ⟨_, ⟨⟩, h⟩
    exact h
  · exact fun h => ⟨result, rfl, h⟩

theorem stamp_keeps (env : Surroundings) : Keeps accounts (stamp env : Program Exn (Services A U R) _) where
  ok h := by cases h; rfl
  error h := by cases h

theorem onAudit_keeps (m : Program Exn U α) : Keeps accounts (onAudit m : Program Exn (Services A U R) α) := by
  have hput (audit : U) (s : Services A U R) : accounts (s.setHeld { s.held with audit }) = accounts s := rfl
  exact Keeps.zoom hput m

theorem append_ends (actor : CustomerId) (action details : String) :
    Ends (fun _ t => t.accounts = s.accounts) (append env r actor action details) s := by
  have hbody (id : UInt64) (timestamp : TimePoint) : Keeps accounts (do
      onAudit (r.appendAudit { id, timestamp, actorId := actor, action, details })
      return .success () : Program Exn (Services A U R) (Result Unit)) :=
    Keeps.bind (onAudit_keeps _) fun _ => Keeps.pure
  have hkeeps := Keeps.bind (stamp_keeps env) fun p => hbody p.1 p.2
  apply ends_tryCatch.mpr
  constructor
  · intro result t h
    exact hkeeps.ok h
  · intro what t h
    exact ends_pure.mpr (hkeeps.error h)

theorem append_then {actor : CustomerId} {action details : String} {β : Type}
    {f : Result Unit → Program Exn (Services A U R) β} {Q : β → Services A U R → Prop}
    (h : ∀ result t, t.accounts = s.accounts → Ends Q (f result) t) :
    Ends Q (append env r actor action details >>= f) s := by
  apply ends_bind.mpr
  apply Ends.mono (append_ends actor action details)
  exact h

theorem balance_ends {k : AccountId} : Ends (fun result _ => Reported result) (balance r k) s ↔
    ∃ found, r.findAccount k s.accounts = .ok found := by
  apply (ends_bind.trans ends_query).trans
  constructor
  · rintro ⟨found, hfound, _⟩
    exact ⟨found, hfound⟩
  · rintro ⟨found, hfound⟩
    refine ⟨found, hfound, ?_⟩
    cases found with
    | none => exact ends_pure.mpr (prefixed_ne_empty (by decide) _)
    | some account => exact ends_pure.mpr trivial

theorem guarded_ends {m : Services A U R → Except Exn α} {text : String} (h : text ≠ "") :
    Ends (fun result _ => Reported result)
      (tryCatch (do return .success (← query m)) fun what => return .failure (text ++ what)) s := by
  apply ends_tryCatch.mpr
  constructor
  · intro result t hok
    obtain ⟨a, u, _, hpure⟩ := bind_eq_ok.mp hok
    cases hpure
    trivial
  · intro what t _
    exact ends_pure.mpr (prefixed_ne_empty h what)

theorem history_ends {k : AccountId} : Ends (fun result _ => Reported result) (history r k) s :=
  guarded_ends (by decide)

theorem find_ends {filter : AuditFilter} : Ends (fun result _ => Reported result) (find r filter) s :=
  guarded_ends (by decide)

theorem saveStatus_ends {change : StatusChange} {account : Account}
    {Q : Option String → Services A U R → Prop} : Ends Q (saveStatus r change account) s ↔
    (∀ accounts, r.saveAccount (account.setStatus change.status) s.accounts = .ok () accounts →
      Q none (s.setHeld { s.held with accounts })) ∧
    ∀ what accounts, r.saveAccount (account.setStatus change.status) s.accounts = .error what accounts →
      Q (some (change.verb ++ " failed: " ++ what)) (s.setHeld { s.held with accounts }) := by
  unfold saveStatus
  cases h : r.saveAccount (account.setStatus change.status) s.accounts with
  | ok result accounts =>
    have hbody : (do onAccounts (r.saveAccount (account.setStatus change.status)); return none :
        Program Exn (Services A U R) (Option String)) s = .ok none (s.setHeld { s.held with accounts }) :=
      bind_ok (zoom_ok h)
    rw [Ends, tryCatch_ok hbody]
    constructor
    · rintro ⟨_, _, ⟨⟩, hQ⟩
      exact ⟨by rintro _ ⟨⟩; exact hQ, by rintro _ _ ⟨⟩⟩
    · exact fun hQ => ⟨_, _, rfl, hQ.1 accounts rfl⟩
  | error what accounts =>
    have hbody : (do onAccounts (r.saveAccount (account.setStatus change.status)); return none :
        Program Exn (Services A U R) (Option String)) s = .error what (s.setHeld { s.held with accounts }) :=
      bind_error (zoom_error h)
    rw [Ends, tryCatch_error hbody]
    constructor
    · rintro ⟨_, _, ⟨⟩, hQ⟩
      exact ⟨by rintro _ ⟨⟩, by rintro _ _ ⟨⟩; exact hQ⟩
    · exact fun hQ => ⟨_, _, rfl, hQ.2 what accounts rfl⟩

theorem changeStatus_ends (env : Surroundings) {change : StatusChange} {k : AccountId}
    (hrefusal : change.refusal ≠ "") :
    Ends (fun result t => Reported result ∧ ∀ message, result = .failure message → t.accounts = s.accounts)
      (changeStatus env r change k) s ↔ StatusHolds r change k s.accounts := by
  apply (ends_bind.trans ends_query).trans
  apply exists_congr
  intro found
  apply and_congr_right
  intro _
  cases found with
  | none =>
    have hmessage : "account not found" ≠ "" := by decide
    refine iff_of_true (ends_pure.mpr ⟨hmessage, fun _ _ => rfl⟩) ?_
    rintro account ⟨⟩
  | some account =>
    simp only [Option.some.injEq, forall_eq']
    split_ifs with hclosed hsame
    · exact iff_of_true (ends_pure.mpr ⟨hrefusal, fun _ _ => rfl⟩) fun hne => absurd hclosed hne
    · refine iff_of_true (ends_pure.mpr ⟨trivial, ?_⟩) fun _ hne => absurd hsame hne
      rintro message ⟨⟩
    · apply (ends_bind.trans saveStatus_ends).trans
      constructor
      · rintro ⟨_, herror⟩ _ _ what accounts' hthrows
        exact (ends_pure.mp (herror what accounts' hthrows)).2 _ rfl
      · intro h
        constructor
        · intro accounts' _
          apply append_then
          intro result t _
          apply ends_pure.mpr
          refine ⟨trivial, ?_⟩
          rintro message ⟨⟩
        · intro what accounts' hthrows
          refine ends_pure.mpr ⟨?_, fun _ _ => h hclosed hsame what accounts' hthrows⟩
          rw [String.append_assoc]
          intro he
          exact prefixed_ne_empty (by decide) what (String.append_eq_empty_iff.mp he).2

theorem refuse_ends {customerId : CustomerId} :
    Ends (fun reply _ => Answered reply) (refuse env r customerId) s := by
  apply append_then
  intro _ t _
  have hmessage : "invalid credentials" ≠ "" := by decide
  exact ends_pure.mpr (answered_some.mpr hmessage)

theorem create_some {m : SessionManager} (h : ∃ token ∈ m.tokens, m.find token = none) (now : ℕ → TimePoint)
    (ttl : Int64) (customerId : CustomerId) (role : Role) :
    ∃ session m', m.create now ttl customerId role = some (session, m') := by
  have hdraw (tokens : List Bytes) (hfree : ∃ token ∈ tokens, m.find token = none) :
      ∃ drawn, SessionManager.drawToken m.sessions tokens = some drawn := by
    induction tokens with
    | nil =>
      obtain ⟨_, ⟨⟩, _⟩ := hfree
    | cons token rest ih =>
      unfold SessionManager.drawToken
      split_ifs with hused
      · obtain ⟨free, hmem, hfind⟩ := hfree
        apply ih
        rcases List.mem_cons.mp hmem with rfl | hmem
        · exact absurd hused (by simpa [SessionManager.find] using hfind)
        · exact ⟨free, hmem, hfind⟩
      · exact ⟨_, rfl⟩
  obtain ⟨⟨token, tokens⟩, hdrawn⟩ := hdraw m.tokens h
  unfold SessionManager.create
  rw [hdrawn]
  exact ⟨_, _, rfl⟩

theorem accept_ends {customer : Customer} (h : ∃ token ∈ s.sessions.tokens, s.sessions.find token = none) :
    Ends (fun reply _ => Answered reply) (accept env r customer) s := by
  obtain ⟨session, sessions, hsome⟩ := create_some h env.sessionClock env.ttl customer.id customer.role
  have hcreate : create env customer s = .ok (some session) { s with sessions } := by
    unfold create
    rw [hsome]
  apply ends_bind.mpr
  refine ⟨_, _, hcreate, ?_⟩
  apply append_then
  intro _ t _
  exact ends_pure.mpr (answered_some.mpr trivial)

theorem login_ends {customerId : CustomerId} {pin : Bytes}
    (h : ∃ token ∈ s.sessions.tokens, s.sessions.find token = none) :
    Ends (fun reply _ => Answered reply) (login env r customerId pin) s ↔
      ∃ customer, r.findCustomer customerId s.held.rest = .ok customer := by
  apply (ends_bind.trans ends_query).trans
  apply exists_congr
  intro customer
  apply and_iff_left
  cases customer with
  | none => exact refuse_ends
  | some customer =>
    dsimp only
    split_ifs
    · exact accept_ends h
    · exact refuse_ends

theorem logout_ends {token : Bytes} : Ends (fun result _ => Reported result) (logout env r token) s := by
  apply ends_bind.mpr
  refine ⟨_, _, rfl, ?_⟩
  cases (s.sessions.revoke token).1 with
  | none =>
    have hmessage : "invalid session" ≠ "" := by decide
    exact ends_pure.mpr hmessage
  | some session =>
    apply append_then
    intro _ t _
    exact ends_pure.mpr trivial

theorem onProcessor_ends {txn : Transaction}
    (h : Returns (fun _ => True) (processOne r.collaborators txn) s.processor) :
    Ends (fun result _ => Reported result) (onProcessor (processOne r.collaborators txn)) s := by
  obtain ⟨result, p, hok, _⟩ := h
  have hreported : Reported result := by
    rw [processOne_eq] at hok
    exact processImpl_reported _ _ _ hok
  exact ⟨result, _, zoom_ok hok, hreported⟩

theorem optional_reply_ends {m : Program Exn (Services A U R) (Option (Result α))} :
    Ends (fun reply _ => Answered reply) (do return (← m).map .void) s ↔
      Ends (fun reply _ => Answered reply) m s := by
  have hvalue (reply : Option (Result α)) : Answered (reply.map .void) ↔ Answered reply := by
    cases reply with
    | none =>
      constructor
      · rintro ⟨_, ⟨⟩, _⟩
      · rintro ⟨_, ⟨⟩, _⟩
    | some result => exact answered_some.trans (void_reported.trans answered_some.symm)
  simp only [ends_bind, ends_pure, hvalue]

theorem reply_ends {m : Program Exn (Services A U R) (Result α)} :
    Ends (fun reply _ => Answered reply) (do return some (← m).void) s ↔
      Ends (fun result _ => Reported result) m s := by
  simp only [ends_bind, ends_pure, answered_some, void_reported]

theorem behaves_of_keeps {call : ServiceCall} (h : call.changesStatus = false) :
    Behaves env r call s ↔ Ends (fun reply _ => Answered reply) (serve env r call) s := by
  simp only [Behaves, Answered, h, Bool.false_eq_true, false_implies, and_true]

theorem behaves_changeStatus {change : StatusChange} {k : AccountId} {call : ServiceCall}
    (hcall : call.changesStatus = true) (hserve : serve env r call = (do return some (← changeStatus env r change k)))
    (hrefusal : change.refusal ≠ "") : Behaves env r call s ↔ StatusHolds r change k s.accounts := by
  rw [← changeStatus_ends env hrefusal, Behaves, hserve]
  simp only [ends_bind, ends_pure, hcall, true_implies, Option.some.injEq, exists_eq_left']

end Results

variable {env r}

def record (entry : AuditEntry) : AuditRecord :=
  ⟨entry.id, entry.timestamp, entry.actorId, ascii entry.action, ascii entry.details⟩

def inMemory (findFault saveFault auditFault : Option Exn) (customers : CustomerRepository) :
    Injected AccountRepository AuditRepository TransactionRepository where
  findAccount k accounts := match findFault with
    | some what => .error what
    | none => .ok (accounts.findById k)
  saveAccount a accounts := match saveFault with
    | some what => .error what accounts
    | none => .ok () (accounts.save a)
  forAccount k records := .ok (records.forAccount k)
  appendTransaction record records := .ok () (records ++ [record])
  findCustomer customerId _ := match findFault with
    | some what => .error what
    | none => .ok (customers customerId)
  findAudit filter entries := .ok (InMemoryAuditRepository.find filter (entries.map record))
  appendAudit entry entries := match auditFault with
    | some what => .error what entries
    | none => .ok () (entries ++ [entry])
  appendWal _ := pure ()
  markCommitted _ := pure ()
  now records := (0, records)

section InMemory

variable {saveFault auditFault : Option Exn} {customers : CustomerRepository}
variable {s : Services AccountRepository AuditRepository TransactionRepository}

theorem append_inMemory (env : Surroundings) (saveFault auditFault : Option Exn) (customers : CustomerRepository)
    (actor : CustomerId) (action details : String)
    (s : Services AccountRepository AuditRepository TransactionRepository) :
    ∃ result t, append env (inMemory none saveFault auditFault customers) actor action details s = .ok result t ∧
      t.accounts = s.accounts ∧ t.sessions = s.sessions ∧ t.appends = s.appends + 1 ∧
      s.trail.append auditFault actor action details (env.wallClock s.appends) s.held.audit =
        (result, t.held.audit, t.trail) := by
  cases auditFault with
  | none => exact ⟨_, _, rfl, rfl, rfl, rfl, rfl⟩
  | some what => exact ⟨_, _, rfl, rfl, rfl, rfl, rfl⟩

theorem changeStatus_inMemory (change : StatusChange) (k : AccountId) {w : World} (haccounts : w.accounts = s.accounts)
    (haudit : w.audit = s.held.audit) : ∃ result t,
      changeStatus env (inMemory none saveFault auditFault customers) change k s = .ok result t ∧
        BankingService.changeStatus change.status change.verb change.refusal change.action saveFault auditFault k
          (env.wallClock s.appends) w s.trail =
            (result, { w with accounts := t.accounts, audit := t.held.audit }, t.trail) := by
  have hlookup : findAccount (inMemory none saveFault auditFault customers) k s =
      .ok (s.accounts.findById k) s := rfl
  unfold changeStatus BankingService.changeStatus
  rw [bind_ok hlookup, haccounts]
  have hsame : ({ w with accounts := s.accounts, audit := s.held.audit } : World) = w := by
    rw [← haccounts, ← haudit]
  cases s.accounts.findById k with
  | none => exact ⟨_, s, rfl, by rw [hsame]⟩
  | some account =>
    dsimp only
    split_ifs
    · exact ⟨_, s, rfl, by rw [hsame]⟩
    · exact ⟨_, s, rfl, by rw [hsame]⟩
    · cases saveFault with
      | some what => exact ⟨_, s, rfl, by rw [hsame]⟩
      | none =>
        have hsaved : saveStatus (inMemory none none auditFault customers) change account s =
            .ok none (s.setHeld { s.held with accounts := s.accounts.save (account.setStatus change.status) }) := rfl
        rw [bind_ok hsaved]
        obtain ⟨result, t, hok, hkept, _, _, htrail⟩ := append_inMemory env none auditFault customers 0
          change.action ("account " ++ toString k.toNat)
          (s.setHeld { s.held with accounts := s.accounts.save (account.setStatus change.status) })
        refine ⟨_, t, bind_ok hok, ?_⟩
        have htrail' : s.trail.append auditFault 0 change.action ("account " ++ toString k.toNat)
            (env.wallClock s.appends) w.audit = (result, t.held.audit, t.trail) := by
          rw [haudit]
          exact htrail
        dsimp only
        rw [htrail', hkept]
        rfl

def authService (s : Services AccountRepository AuditRepository TransactionRepository) : AuthService :=
  ⟨s.sessions, s.held.audit, s.trail, s.appends⟩

theorem append_authService (saveFault : Option Exn) (customers : CustomerRepository) (actor : CustomerId)
    (action details : String) (hfault : env.auditFault s.appends = auditFault) : ∃ result t,
      append env (inMemory none saveFault auditFault customers) actor action details s = .ok result t ∧
        AuthService.append env actor action details s.authService = t.authService := by
  obtain ⟨result, t, hok, _, hsessions, happends, htrail⟩ := append_inMemory env saveFault auditFault customers
    actor action details s
  refine ⟨result, t, hok, ?_⟩
  have hfault' : env.auditFault s.authService.appends = auditFault := hfault
  have htrail' : s.authService.trail.append auditFault actor action details (env.wallClock s.authService.appends)
      s.authService.audit = (result, t.held.audit, t.trail) := htrail
  unfold AuthService.append
  rw [hfault', htrail', authService, authService, hsessions, happends]

theorem refuse_authService (saveFault : Option Exn) (customers : CustomerRepository) (customerId : CustomerId)
    (hfault : env.auditFault s.appends = auditFault) : ∃ reply t,
      refuse env (inMemory none saveFault auditFault customers) customerId s = .ok reply t ∧
        AuthService.refuse env customerId s.authService = reply.map fun result => (result, t.authService) := by
  obtain ⟨_, t, hok, happend⟩ := append_authService saveFault customers customerId "auth.login_failed"
    "invalid credentials" hfault
  refine ⟨_, t, bind_ok hok, ?_⟩
  rw [AuthService.refuse, happend]
  rfl

theorem accept_authService (saveFault : Option Exn) (customers : CustomerRepository) (customer : Customer)
    (hfault : env.auditFault s.appends = auditFault) : ∃ reply t,
      accept env (inMemory none saveFault auditFault customers) customer s = .ok reply t ∧
        AuthService.accept env customer s.authService = reply.map fun result => (result, t.authService) := by
  have hauth : s.authService.sessions = s.sessions := rfl
  unfold accept AuthService.accept
  rw [hauth]
  cases hcreate : s.sessions.create env.sessionClock env.ttl customer.id customer.role with
  | none =>
    have hnone : create env customer s = .ok none s := by
      unfold create
      rw [hcreate]
    exact ⟨none, s, bind_ok hnone, rfl⟩
  | some created =>
    obtain ⟨session, sessions⟩ := created
    have hsome : create env customer s = .ok (some session) { s with sessions } := by
      unfold create
      rw [hcreate]
    obtain ⟨_, t, hok, happend⟩ := append_authService (s := { s with sessions }) saveFault customers customer.id
      "auth.login" "success" hfault
    refine ⟨_, t, (bind_ok hsome).trans (bind_ok hok), ?_⟩
    exact congrArg (fun a => some (Result.success session, a)) happend

theorem login_inMemory (saveFault : Option Exn) (customers : CustomerRepository) (customerId : CustomerId) (pin : Bytes)
    (hfault : env.auditFault s.appends = auditFault) : ∃ reply t,
      login env (inMemory none saveFault auditFault customers) customerId pin s = .ok reply t ∧
        AuthService.login env customers customerId pin s.authService =
          reply.map fun result => (result, t.authService) := by
  have hlookup : query (fun s => (inMemory none saveFault auditFault customers).findCustomer customerId s.held.rest) s =
      .ok (customers customerId) s := rfl
  unfold login AuthService.login
  rw [bind_ok hlookup]
  cases customers customerId with
  | none => exact refuse_authService saveFault customers customerId hfault
  | some customer =>
    dsimp only
    split_ifs
    · exact accept_authService saveFault customers customer hfault
    · exact refuse_authService saveFault customers customerId hfault

end InMemory

theorem processOne_inMemory (findFault saveFault : Option Exn) (customers : CustomerRepository) (txn : Transaction)
    (p : Processor (Held AccountRepository AuditRepository TransactionRepository)) : Returns (fun _ => True)
      (Processor.processOne (inMemory findFault saveFault none customers).collaborators txn) p := by
  have hnot : ¬ Processor.HandlerThrows (inMemory findFault saveFault none customers).collaborators txn p.nextId
      { p with nextId := p.nextId + 1 } := by
    rintro ⟨_, _, _, _, _, h⟩
    cases h
  obtain ⟨result, q, hok, _⟩ := Processor.processOne_returns.mpr hnot
  exact ⟨result, q, hok, trivial⟩

def someBank : Services AccountRepository AuditRepository TransactionRepository where
  processor := ⟨⟨.ofAccounts [⟨7, 1, 500, .active, 0⟩], [], []⟩, [], [], 1, 1⟩
  sessions := ⟨[], [ascii "ab"], 0⟩
  trail := .initial
  appends := 0

/-- An operation keeps its promises exactly where its unguarded lookup does not throw, and a save that throws
has changed nothing. -/
theorem serve_behaves_iff (env : Surroundings) (r : Injected A U R) (s : Services A U R)
    (hprocess : ∀ txn, Returns (fun _ => True) (Processor.processOne r.collaborators txn) s.processor)
    (htokens : ∃ token ∈ s.sessions.tokens, s.sessions.find token = none) (call : ServiceCall) :
    Behaves env r call s ↔ Holds r s call := by
  cases call with
  | freeze k => exact behaves_changeStatus rfl rfl (by decide)
  | unfreeze k => exact behaves_changeStatus rfl rfl (by decide)
  | balance k => exact (behaves_of_keeps rfl).trans (reply_ends.trans balance_ends)
  | login customerId pin =>
    exact (behaves_of_keeps rfl).trans (optional_reply_ends.trans (login_ends htokens))
  | deposit k amount =>
    exact iff_of_true ((behaves_of_keeps rfl).mpr (reply_ends.mpr (onProcessor_ends (hprocess _)))) trivial
  | withdraw k amount =>
    exact iff_of_true ((behaves_of_keeps rfl).mpr (reply_ends.mpr (onProcessor_ends (hprocess _)))) trivial
  | transfer i j amount =>
    exact iff_of_true ((behaves_of_keeps rfl).mpr (reply_ends.mpr (onProcessor_ends (hprocess _)))) trivial
  | history k => exact iff_of_true ((behaves_of_keeps rfl).mpr (reply_ends.mpr history_ends)) trivial
  | logout token => exact iff_of_true ((behaves_of_keeps rfl).mpr (reply_ends.mpr logout_ends)) trivial
  | find filter => exact iff_of_true ((behaves_of_keeps rfl).mpr (reply_ends.mpr find_ends)) trivial
  | findByActor actor => exact iff_of_true ((behaves_of_keeps rfl).mpr (reply_ends.mpr find_ends)) trivial
  | findByAction action => exact iff_of_true ((behaves_of_keeps rfl).mpr (reply_ends.mpr find_ends)) trivial
  | findSince since => exact iff_of_true ((behaves_of_keeps rfl).mpr (reply_ends.mpr find_ends)) trivial

theorem fullDisk_freeze :
    (∀ txn, Returns (fun _ => True) (Processor.processOne (inMemory none (some "disk full") none
      AuthService.someCustomers).collaborators txn) someBank.processor) ∧
    (∃ token ∈ someBank.sessions.tokens, someBank.sessions.find token = none) ∧
    Behaves AuthService.exampleSurroundings (inMemory none (some "disk full") none AuthService.someCustomers)
      (.freeze 7) someBank := by
  have hprocess := fun txn =>
    processOne_inMemory none (some "disk full") AuthService.someCustomers txn someBank.processor
  have htokens : ∃ token ∈ someBank.sessions.tokens, someBank.sessions.find token = none :=
    ⟨ascii "ab", List.mem_cons_self, rfl⟩
  refine ⟨hprocess, htokens, ?_⟩
  apply (serve_behaves_iff AuthService.exampleSurroundings _ someBank hprocess htokens (.freeze 7)).mpr
  refine ⟨someBank.accounts.findById 7, rfl, ?_⟩
  rintro account _ _ _ what accounts' ⟨⟩
  rfl

theorem locked_throws :
    (∀ txn, Returns (fun _ => True) (Processor.processOne (inMemory (some "accounts.find failed: database is locked")
      none none AuthService.someCustomers).collaborators txn) someBank.processor) ∧
    (∃ token ∈ someBank.sessions.tokens, someBank.sessions.find token = none) ∧
    ∀ call ∈ [ServiceCall.balance 7, .freeze 7, .unfreeze 7, .login 3 (ascii "1234")],
      ¬ Behaves AuthService.exampleSurroundings (inMemory (some "accounts.find failed: database is locked") none none
        AuthService.someCustomers) call someBank := by
  refine ⟨fun txn => processOne_inMemory _ none AuthService.someCustomers txn someBank.processor,
    ⟨ascii "ab", List.mem_cons_self, rfl⟩, ?_⟩
  simp only [List.forall_mem_cons]
  refine ⟨?_, ?_, ?_, ?_, by rintro _ ⟨⟩⟩
  · rintro ⟨_, _, ⟨⟩, _⟩
  · rintro ⟨_, _, ⟨⟩, _⟩
  · rintro ⟨_, _, ⟨⟩, _⟩
  · rintro ⟨_, _, ⟨⟩, _⟩

end Services

end BankManagement
