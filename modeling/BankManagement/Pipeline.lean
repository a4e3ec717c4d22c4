import BankManagement.Repositories
import BankManagement.Runs
import BankManagement.WalLogger
import Mathlib.Data.List.Sort

/-!
Calls of `process_impl` and of the pair lock on concurrent threads, one step per critical
section or per repository call.
-/

namespace BankManagement

open Wal

inductive Mutex
  | account (k : AccountId)
  | map
  | wal
  | repos
  deriving DecidableEq

structure Call where
  txn : Transaction
  id : TransactionId
  deriving DecidableEq

def Call.record (c : Call) (now : TimePoint) : TransactionRecord :=
  { projectTransaction c.id now c.txn with state := .validated }

inductive Job
  | processImpl (c : Call)
  | lockPair (first second : AccountId)
  deriving DecidableEq

def Job.order : Job → List AccountId
  | .processImpl c => c.txn.involvedAccounts.insertionSort (· ≤ ·)
  | .lockPair first second =>
    let lower := if second < first then second else first
    let higher := if second < first then first else second
    if higher ≠ lower then [lower, higher] else [lower]

/-- An entry of the audit trail still to be written, and the result its call returns after it.
`outside` says that no handler surrounds the append. -/
structure Note where
  call : Call
  action : String
  details : String
  result : Result TransactionRecord
  outside : Bool
  deriving DecidableEq

def Note.failed (c : Call) (message : String) (outside : Bool) : Note where
  call := c
  action := "txn.failed"
  details := message
  result := .failure message
  outside := outside

def Note.completed (c : Call) (record : TransactionRecord) : Note where
  call := c
  action := "txn.completed"
  details := c.txn.describe
  result := .success record
  outside := false

/-- What a thread does while it holds one of the inner mutexes. `lsn` is the place of its record
in the journal and `saved` are the accounts already written: the code keeps neither. -/
inductive Act
  | mutexFor (job : Job) (k : AccountId) (todo : List AccountId)
  | load (c : Call) (todo : List AccountId) (loaded : List Account)
  | appendWal (c : Call) (record : TransactionRecord) (loaded : List Account)
  | save (c : Call) (lsn : ℕ) (record : TransactionRecord) (saved todo : List Account)
  | markCommitted (c : Call) (lsn : ℕ) (record : TransactionRecord)
  | appendTransaction (c : Call) (record : TransactionRecord)
  | appendAudit (entry : AuditEntry) (note : Note)
  deriving DecidableEq

def Act.mutex : Act → Mutex
  | .mutexFor .. => .map
  | .appendWal .. => .wal
  | .markCommitted .. => .wal
  | .load .. => .repos
  | .save .. => .repos
  | .appendTransaction .. => .repos
  | .appendAudit .. => .repos

inductive Exit
  | returned (result : Result TransactionRecord)
  | thrown (what : Exn)
  | unlocked
  deriving DecidableEq

inductive Pc
  | want (held : List AccountId) (act : Act)
  | inside (held : List AccountId) (act : Act)
  | lock (job : Job) (held : List AccountId) (k : AccountId) (todo : List AccountId)
  | audit (held : List AccountId) (note : Note)
  | unlock (job : Job) (held : List AccountId) (exit : Exit)
  | finished (exit : Exit)
  deriving DecidableEq

def Job.locked (job : Job) (held : List AccountId) : Pc :=
  match job with
  | .processImpl c => .want held (.load c job.order [])
  | .lockPair .. => .unlock job held .unlocked

def Job.lockNext (job : Job) (held todo : List AccountId) : Pc :=
  match todo with
  | [] => job.locked held
  | k :: rest => .want held (.mutexFor job k rest)

def Job.entry (job : Job) : Pc :=
  match job with
  | .processImpl c =>
    if c.txn.involvedAccounts = [] then
      .audit [] { Note.failed c "transaction names no accounts" true with
        result := .failure "validation failed: no accounts involved" }
    else job.lockNext [] job.order
  | .lockPair .. => job.lockNext [] job.order

/-- A vector of guards is destroyed from the front, the members of a pair from the back. -/
def Job.nextUnlock (job : Job) (held : List AccountId) : Option (AccountId × List AccountId) :=
  match job with
  | .processImpl _ => match held with
    | [] => none
    | k :: rest => some (k, rest)
  | .lockPair .. => held.getLast?.map fun k => (k, held.dropLast)

def Exit.settle (job : Job) (exit : Exit) : Pc :=
  match job, exit with
  | .processImpl c, .thrown what =>
    .audit [] (.failed c (if what = "" then "unknown error" else what) true)
  | _, exit => .finished exit

def Act.thrown (held : List AccountId) (what : Exn) : Act → Pc
  | .mutexFor job _ _ => .unlock job held (.thrown what)
  | .load c _ _ => .unlock (.processImpl c) held (.thrown what)
  | .appendWal c _ _ => .unlock (.processImpl c) held (.thrown what)
  | .save c _ _ _ _ => .unlock (.processImpl c) held (.thrown what)
  | .markCommitted c _ _ => .unlock (.processImpl c) held (.thrown what)
  | .appendTransaction c _ => .unlock (.processImpl c) held (.thrown what)
  | .appendAudit _ note =>
    if note.outside then .finished (.thrown what)
    else .unlock (.processImpl note.call) held (.thrown what)

/-- The members that the threads share; `mutexes` are the accounts whose mutex exists. -/
structure World where
  accounts : AccountRepository
  transactions : TransactionRepository
  audit : AuditRepository
  wal : WalLogger
  nextAuditId : UInt64
  mutexes : List AccountId

def validated (c : Call) (held : List AccountId) (now : TimePoint) (loaded : List Account) : Pc :=
  if !validate c.txn loaded then
    .audit held (.failed c ("validation failed: " ++ c.txn.describe) false)
  else
    .want held (.appendWal c (c.record now) loaded)

def Act.perform (held : List AccountId) (now : TimePoint) (w : World) : Act → World × (Act ⊕ Pc)
  | .mutexFor job k todo =>
    ({ w with mutexes := if k ∈ w.mutexes then w.mutexes else k :: w.mutexes }, .inr (.lock job held k todo))
  | .load c [] loaded => (w, .inr (validated c held now loaded))
  | .load c (k :: todo) loaded => match w.accounts.findById k with
    | none =>
      (w, .inr (.audit held (.failed c ("account not found: " ++ toString k.toNat) false)))
    | some a => (w, .inl (.load c todo (loaded ++ [a])))
  | .appendWal c record loaded =>
    let written := { w with wal := w.wal.append record }
    match apply c.txn loaded with
    | (.ok (), loaded') => (written, .inr (.want held (.save c w.wal.size record [] loaded')))
    | (.error what, _) => (written, .inr (.unlock (.processImpl c) held (.thrown what)))
  | .save c lsn record _ [] => (w, .inr (.want held (.markCommitted c lsn record)))
  | .save c lsn record saved (a :: todo) =>
    ({ w with accounts := w.accounts.save a }, .inl (.save c lsn record (saved ++ [a]) todo))
  | .markCommitted c _ record => match w.wal.markCommitted c.id with
    | (.ok (), wal) =>
      ({ w with wal }, .inr (.want held (.appendTransaction c { record with state := .committed })))
    | (.error what, wal) => ({ w with wal }, .inr (.unlock (.processImpl c) held (.thrown what)))
  | .appendTransaction c record =>
    ({ w with transactions := w.transactions ++ [record] }, .inr (.audit held (.completed c record)))
  | .appendAudit entry note =>
    ({ w with audit := w.audit ++ [entry] }, .inr (.unlock (.processImpl note.call) held (.returned note.result)))

def Note.entry (note : Note) (id : UInt64) (now : TimePoint) : AuditEntry where
  id := id
  timestamp := now
  actorId := 0
  action := note.action
  details := note.details

structure State (ι : Type) where
  world : World
  owner : Mutex → Option ι
  threads : ι → Option Pc

namespace State

variable {ι : Type} [DecidableEq ι]

def init (world : World) : State ι := ⟨world, fun _ => none, fun _ => none⟩

def goto (s : State ι) (i : ι) (pc : Pc) : State ι :=
  { s with threads := Function.update s.threads i (some pc) }

def acquire (s : State ι) (m : Mutex) (i : ι) : State ι :=
  { s with owner := Function.update s.owner m (some i) }

def release (s : State ι) (m : Mutex) : State ι := { s with owner := Function.update s.owner m none }

/-- One step of thread `i`; a call under an inner mutex throws `fault` when there is one. -/
def step (s : State ι) (i : ι) (now : TimePoint) (fault : Option Exn) : Option (State ι) :=
  match s.threads i with
  | none => none
  | some (.want held act) =>
    if s.owner act.mutex = none then some ((s.acquire act.mutex i).goto i (.inside held act)) else none
  | some (.inside held act) => match fault with
    | some what => some ((s.release act.mutex).goto i (act.thrown held what))
    | none => match act.perform held now s.world with
      | (world, .inl act') => some ({ s with world }.goto i (.inside held act'))
      | (world, .inr pc) => some (({ s with world }.release act.mutex).goto i pc)
  | some (.lock job held k todo) =>
    if s.owner (.account k) = none then
      some ((s.acquire (.account k) i).goto i (job.lockNext (held ++ [k]) todo))
    else none
  | some (.audit held note) =>
    let world := { s.world with nextAuditId := s.world.nextAuditId + 1 }
    some ({ s with world }.goto i (.want held (.appendAudit (note.entry s.world.nextAuditId now) note)))
  | some (.unlock job held exit) => match job.nextUnlock held with
    | none => some (s.goto i (exit.settle job))
    | some (k, rest) => some ((s.release (.account k)).goto i (.unlock job rest exit))
  | some (.finished _) => none

def Idle (s : State ι) (i : ι) : Prop := s.threads i = none ∨ ∃ exit, s.threads i = some (.finished exit)

def start (s : State ι) (i : ι) (job : Job) : Option (State ι) :=
  match s.threads i with
  | none => some (s.goto i job.entry)
  | some (.finished _) => some (s.goto i job.entry)
  | some _ => none

theorem start_eq_some {s s' : State ι} {i : ι} {job : Job} (h : s.start i job = some s') :
    s.Idle i ∧ s' = s.goto i job.entry := by
  unfold start at h
  split at h
  · exact ⟨.inl ‹_›, (Option.some.inj h).symm⟩
  · exact ⟨.inr ⟨_, ‹_›⟩, (Option.some.inj h).symm⟩
  · contradiction

end State

inductive Label (ι : Type)
  | begin (i : ι) (job : Job)
  | act (i : ι) (now : TimePoint) (fault : Option Exn)

namespace State

variable {ι : Type} [DecidableEq ι]

def next (s : State ι) : Label ι → Option (State ι)
  | .begin i job => s.start i job
  | .act i now fault => s.step i now fault

def run (s : State ι) (labels : List (Label ι)) : Option (State ι) := Runs.run next s labels

end State

end BankManagement
