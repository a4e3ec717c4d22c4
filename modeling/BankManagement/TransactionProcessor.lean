import BankManagement.PipelineIds

/-!
The queue and the reserved ids in front of the pipeline: `submit`, the two separate pops of a
consumer, and `process_one`. Consumers of the pool and callers of `process_next` are threads alike.
-/

namespace BankManagement

open Wal

/-- A transaction on its way to a call; `number` counts the ids handed out before its own. -/
structure Ticket where
  number : ℕ
  txn : Transaction
  deriving DecidableEq

inductive Submission
  | fetched (ticket : Ticket) (id : TransactionId)
  | reserved (ticket : Ticket)
  deriving DecidableEq

/-- The processor's members, with the threads that call it. `taking` are the threads between their
two pops, in the order of the first. The code does not keep the last four: every id handed out and
the transaction it was meant for, the ticket that a thread works on, and the tickets whose calls
wrote to the journal and to the transaction repository. -/
structure TransactionProcessor (ι : Type) where
  pipeline : State ι
  accepting : Bool
  queue : List Ticket
  reserved : List TransactionId
  nextId : UInt64
  submitting : Option Submission
  taking : List (ι × Ticket)
  handed : List (Transaction × TransactionId)
  working : ι → ℕ
  journaled : List ℕ
  recorded : List ℕ

def maxId (records : List TransactionRecord) (start : UInt64) : UInt64 :=
  records.foldl (fun m r => max m r.id) start

/-- The first id of the counter: no id of either store is to be used again. -/
def seedId (world : World) : UInt64 := maxId world.wal.loadAll (maxId world.transactions 0) + 1

inductive Event (ι : Type)
  | start
  | stop
  | submit (txn : Transaction)
  | reserve
  | enqueue
  | processOne (i : ι) (txn : Transaction)
  | pop (i : ι)
  | take (i : ι)
  | act (i : ι) (now : TimePoint) (fault : Option Exn)

namespace TransactionProcessor

variable {ι : Type}

def create (world : World) : TransactionProcessor ι where
  pipeline := State.init world
  accepting := true
  queue := []
  reserved := []
  nextId := seedId world
  submitting := none
  taking := []
  handed := []
  working := fun _ => 0
  journaled := []
  recorded := []

def handOut (txn : Transaction) (p : TransactionProcessor ι) : TransactionProcessor ι :=
  { p with nextId := p.nextId + 1, handed := p.handed ++ [(txn, p.nextId)] }

variable [DecidableEq ι]

def idle (p : TransactionProcessor ι) (i : ι) : Bool :=
  p.taking.all (·.1 ≠ i) && match p.pipeline.threads i with
    | none => true
    | some (.finished _) => true
    | some _ => false

def call (i : ι) (number : ℕ) (c : Call) (p : TransactionProcessor ι) : Option (TransactionProcessor ι) :=
  (p.pipeline.start i (.processImpl c)).map fun pipeline =>
    { p with pipeline, working := Function.update p.working i number }

def takeReservedId (i : ι) (ticket : Ticket) (p : TransactionProcessor ι) : Option (TransactionProcessor ι) :=
  match p.reserved with
  | id :: reserved => { p with reserved }.call i ticket.number ⟨ticket.txn, id⟩
  | [] => (p.handOut ticket.txn).call i ticket.number ⟨ticket.txn, p.nextId⟩

/-- `wait_pop` and `try_pop` do not move on an empty queue; a refused `submit` changes nothing. -/
def next (p : TransactionProcessor ι) : Event ι → Option (TransactionProcessor ι)
  | .start => if p.submitting = none then some { p with accepting := true } else none
  | .stop => if p.submitting = none then some { p with accepting := false } else none
  | .submit txn =>
    if p.submitting = none then
      if p.accepting then
        some { p.handOut txn with submitting := some (.fetched ⟨p.handed.length, txn⟩ p.nextId) }
      else some p
    else none
  | .reserve => match p.submitting with
    | some (.fetched ticket id) =>
      some { p with reserved := p.reserved ++ [id], submitting := some (.reserved ticket) }
    | _ => none
  | .enqueue => match p.submitting with
    | some (.reserved ticket) => some { p with queue := p.queue ++ [ticket], submitting := none }
    | _ => none
  | .processOne i txn =>
    if p.idle i then (p.handOut txn).call i p.handed.length ⟨txn, p.nextId⟩ else none
  | .pop i => match p.queue with
    | [] => none
    | ticket :: queue => if p.idle i then some { p with queue, taking := p.taking ++ [(i, ticket)] } else none
  | .take i => match p.taking.find? (·.1 = i) with
    | none => none
    | some (_, ticket) => { p with taking := p.taking.eraseP (·.1 = i) }.takeReservedId i ticket
  | .act i now fault => (p.pipeline.step i now fault).map fun pipeline =>
    { p with
      pipeline
      journaled := p.journaled ++
        List.replicate (pipeline.world.wal.size - p.pipeline.world.wal.size) (p.working i)
      recorded := p.recorded ++
        List.replicate (pipeline.world.transactions.length - p.pipeline.world.transactions.length) (p.working i) }

def run (p : TransactionProcessor ι) (events : List (Event ι)) : Option (TransactionProcessor ι) :=
  Runs.run next p events

/-- The counter has not passed the largest id, and every journal line of the next id decodes to
a record of that id. -/
def CounterSound (p : TransactionProcessor ι) : Prop :=
  p.nextId ≠ 0 ∧ ∀ e ∈ p.pipeline.world.wal.entries, e.id = p.nextId →
    (WalLogger.record e).map (·.id) = some e.id

instance (p : TransactionProcessor ι) : Decidable p.CounterSound :=
  inferInstanceAs (Decidable (_ ∧ ∀ e ∈ p.pipeline.world.wal.entries, _))

def HandsOutSound (p : TransactionProcessor ι) : Event ι → Prop
  | .submit _ => p.submitting = none ∧ p.accepting = true → p.CounterSound
  | .processOne _ _ => p.CounterSound
  | .take _ => p.reserved = [] → p.CounterSound
  | _ => True

instance (p : TransactionProcessor ι) : (event : Event ι) → Decidable (p.HandsOutSound event)
  | .submit _ => inferInstanceAs (Decidable (_ ∧ _ → p.CounterSound))
  | .processOne _ _ => inferInstanceAs (Decidable p.CounterSound)
  | .take _ => inferInstanceAs (Decidable (_ → p.CounterSound))
  | .start | .stop | .reserve | .enqueue | .pop _ | .act _ _ _ => isTrue trivial

end TransactionProcessor

end BankManagement
