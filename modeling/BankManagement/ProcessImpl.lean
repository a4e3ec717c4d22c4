import BankManagement.Repositories
import BankManagement.Throwing
import Mathlib.Data.List.Sort

/-!
`process_impl` and its callers, from begin to end on one thread, over whatever the repositories,
the journal and the clock do.
-/

namespace BankManagement

open Throwing Transaction

/-- The references that the processor was constructed with. Their calls may throw anything derived
from `std::exception`, and may have changed their state when they do. -/
structure Collaborators (σ : Type) where
  now : σ → TimePoint × σ
  findById : AccountId → Program Exn σ (Option Account)
  save : Account → Program Exn σ Unit
  appendTransaction : TransactionRecord → Program Exn σ Unit
  appendAudit : AuditEntry → Program Exn σ Unit
  appendWal : TransactionRecord → Program Exn σ Unit
  markCommitted : TransactionId → Program Exn σ Unit

structure Processor (σ : Type) where
  stores : σ
  queue : List Transaction
  reserved : List TransactionId
  nextId : UInt64
  nextAuditId : UInt64

namespace Processor

variable {σ α : Type}

def onStores (m : Program Exn σ α) : Program Exn (Processor σ) α :=
  zoom stores (fun stores p => { p with stores }) m

def now (c : Collaborators σ) : Program Exn (Processor σ) TimePoint :=
  onStores fun s => .ok (c.now s).1 (c.now s).2

def fetchAuditId : Program Exn (Processor σ) UInt64 := fun p =>
  .ok p.nextAuditId { p with nextAuditId := p.nextAuditId + 1 }

def fetchId : Program Exn (Processor σ) TransactionId := fun p =>
  .ok p.nextId { p with nextId := p.nextId + 1 }

/-- Every call of the source passes `CustomerId{0}` for the actor. -/
def appendAudit (c : Collaborators σ) (action details : String) : Program Exn (Processor σ) Unit := do
  let id ← fetchAuditId
  let timestamp ← now c
  onStores (c.appendAudit { id, timestamp, actorId := 0, action, details })

def load (c : Collaborators σ) : List AccountId → List Account → Program Exn (Processor σ) (List Account × String)
  | [], loaded => pure (loaded, "")
  | k :: todo, loaded => do
    match ← onStores (c.findById k) with
    | none => pure (loaded, "account not found: " ++ toString k.toNat)
    | some a => load c todo (loaded ++ [a])

def saveAll (c : Collaborators σ) : List Account → Program Exn (Processor σ) Unit
  | [] => pure ()
  | a :: rest => do
    onStores (c.save a)
    saveAll c rest

def refuse (c : Collaborators σ) (message : String) : Program Exn (Processor σ) (Result TransactionRecord) := do
  appendAudit c "txn.failed" message
  pure (.failure message)

def commit (c : Collaborators σ) (txn : Transaction) (id : TransactionId) (loaded : List Account) :
    Program Exn (Processor σ) (Result TransactionRecord) := do
  let timestamp ← now c
  let record := { projectTransaction id timestamp txn with state := .validated }
  onStores (c.appendWal record)
  match apply txn loaded with
  | (.error what, _) => throw what
  | (.ok (), loaded) =>
    saveAll c loaded
    onStores (c.markCommitted id)
    let record := { record with state := .committed }
    onStores (c.appendTransaction record)
    appendAudit c "txn.completed" txn.describe
    pure (.success record)

def sortedAccounts (txn : Transaction) : List AccountId := txn.involvedAccounts.insertionSort (· ≤ ·)

/-- The `try` block. The mutexes that it takes are not part of these members. -/
def attempt (c : Collaborators σ) (txn : Transaction) (id : TransactionId) :
    Program Exn (Processor σ) (Result TransactionRecord) := do
  let (loaded, missingMessage) ← load c (sortedAccounts txn) []
  if missingMessage ≠ "" then refuse c missingMessage
  else if !validate txn loaded then refuse c ("validation failed: " ++ txn.describe)
  else commit c txn id loaded

def caught (what : Exn) : String := if what = "" then "unknown error" else what

def processImpl (c : Collaborators σ) (txn : Transaction) (id : TransactionId) :
    Program Exn (Processor σ) (Result TransactionRecord) :=
  if txn.involvedAccounts = [] then do
    appendAudit c "txn.failed" "transaction names no accounts"
    pure (.failure "validation failed: no accounts involved")
  else tryCatch (attempt c txn id) fun what => refuse c (caught what)

def processOne (c : Collaborators σ) (txn : Transaction) : Program Exn (Processor σ) (Result TransactionRecord) := do
  processImpl c txn (← fetchId)

/-- `try_pop`, and `wait_pop` once a stop was requested. -/
def tryPop : Program Exn (Processor σ) (Option Transaction) := fun p => match p.queue with
  | [] => .ok none p
  | txn :: queue => .ok (some txn) { p with queue }

def takeReservedId : Program Exn (Processor σ) TransactionId := fun p => match p.reserved with
  | [] => fetchId p
  | id :: reserved => .ok id { p with reserved }

def processNext (c : Collaborators σ) : Program Exn (Processor σ) (Option (Result TransactionRecord)) := do
  match ← tryPop with
  | none => pure none
  | some txn =>
    let id ← takeReservedId
    let result ← processImpl c txn id
    pure (some result)

def consumerTurn (c : Collaborators σ) : Program Exn (Processor σ) Bool := do
  match ← tryPop with
  | none => pure false
  | some txn =>
    let id ← takeReservedId
    let _ ← processImpl c txn id
    pure true

/-- The loop, cut off after `turns` turns: it leaves by itself when the queue is drained. -/
def consumerLoop (c : Collaborators σ) (turns : ℕ) : Program Exn (Processor σ) Unit :=
  repeatWhile (consumerTurn c) turns

end Processor

end BankManagement
