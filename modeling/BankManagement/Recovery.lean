import BankManagement.BankingService
import BankManagement.Serialisability
import BankManagement.SnapshotStore
import BankManagement.TransactionProcessorIds

/-!
One node with its files: transactions one after another, snapshots between them, and crashes at any
point, each followed by recovery.
-/

namespace BankManagement

open Wal Codec WalLogger

structure Disk where
  wal : Bytes
  snapshot : Option Bytes
  tmp : Option Bytes

def recover (disk : Disk) : Option (List Account) :=
  (Snapshot.load disk.snapshot).bind fun s => (replay ((openFile disk.wal).replayFrom s.lsn) s.accounts).toOption

/-- A running process and its files; the journal file is in the logger. `committed` are the
transactions whose commit was written, in order: the code does not keep them. -/
structure Node where
  processor : TransactionProcessor Unit
  trail : ServiceTrail
  snapshot : Option Bytes
  tmp : Option Bytes
  committed : List Transaction

/-- Where a crash falls: between two effects, inside the append of a journal line, or inside the
write of a snapshot's temporary file. -/
inductive Crash
  | between
  | append (written : ℕ)
  | store (written : ℕ)

inductive NodeEvent
  | processOne (txn : Transaction)
  | act (now : TimePoint)
  | snapshot
  | crash (c : Crash) (transactions : TransactionRepository)
  | freeze (k : AccountId) (now : TimePoint)
  | unfreeze (k : AccountId) (now : TimePoint)

def NodeEvent.changesStatus : NodeEvent → Bool
  | .freeze _ _ => true
  | .unfreeze _ _ => true
  | _ => false

def NodeEvent.crashes : NodeEvent → Bool
  | .crash _ _ => true
  | _ => false

namespace Node

def pipeline (n : Node) : State Unit := n.processor.pipeline

def world (n : Node) : World := n.pipeline.world

def idle (n : Node) : Bool := n.processor.idle ()

def disk (n : Node) : Disk := ⟨n.world.wal.file, n.snapshot, n.tmp⟩

def image (n : Node) : Snapshot := ⟨n.world.wal.size, n.world.accounts.all⟩

def crash (n : Node) : Crash → Option Disk
  | .between => some n.disk
  | .append written => match n.pipeline.threads () with
    | some (.inside _ (.appendWal _ record _)) =>
      if written < (line record).length then
        some { n.disk with wal := (n.world.wal.appendTorn record written).file }
      else none
    | _ => none
  | .store written => if n.idle then some { n.disk with tmp := some (n.image.text.take written) } else none

def create (world : World) : Node where
  processor := .create world
  trail := .initial
  snapshot := none
  tmp := none
  committed := []

/-- A process that starts on the files, with the accounts that were recovered from them and what
its transaction repository has kept. -/
def boot (disk : Disk) (accounts : List Account) (transactions : TransactionRepository) : Node :=
  let world : World :=
    { accounts := .ofAccounts accounts, transactions, audit := [], wal := openFile disk.wal, nextAuditId := 1,
      mutexes := [] }
  { create world with snapshot := disk.snapshot, tmp := disk.tmp }

def setWorld (n : Node) (world : World) : Node :=
  { n with processor := { n.processor with pipeline := { n.processor.pipeline with world } } }

def changeStatus (n : Node) (change : World → ServiceTrail → Result Unit × World × ServiceTrail) : Option Node :=
  if n.idle then
    let (_, world, trail) := change n.world n.trail
    some { n.setWorld world with trail }
  else none

def next (n : Node) : NodeEvent → Option Node
  | .processOne txn => (n.processor.next (.processOne () txn)).map fun processor => { n with processor }
  | .act now => (n.processor.next (.act () now none)).map fun processor =>
    { n with processor, committed := n.committed ++ ((n.pipeline.committing ()).map (·.1.txn)).toList }
  | .snapshot => if n.idle then some { n with snapshot := some n.image.text, tmp := none } else none
  | .crash c transactions => (n.crash c).bind fun disk => (recover disk).map fun accounts =>
    { boot disk accounts transactions with committed := n.committed }
  | .freeze k now => n.changeStatus (BankingService.freeze none none k now)
  | .unfreeze k now => n.changeStatus (BankingService.unfreeze none none k now)

def run (n : Node) (events : List NodeEvent) : Option Node := Runs.run next n events

/-- What a step needs to leave files that read back: ids from a sound counter, committed records
that decode, and a snapshot whose numbers fit. -/
def StaysReadable (n : Node) : NodeEvent → Prop
  | .processOne _ => n.processor.CounterSound
  | .act _ => ∀ p ∈ n.pipeline.committing (), Decodable p.2
  | .snapshot => n.world.wal.size < 2 ^ 63 ∧ ∀ a ∈ n.world.accounts.all, a.Storable
  | _ => True

instance (n : Node) : (event : NodeEvent) → Decidable (n.StaysReadable event)
  | .processOne _ => inferInstanceAs (Decidable n.processor.CounterSound)
  | .act _ => inferInstanceAs (Decidable (∀ p ∈ n.pipeline.committing (), Decodable p.2))
  | .snapshot => inferInstanceAs (Decidable (_ ∧ ∀ a ∈ n.world.accounts.all, a.Storable))
  | .crash _ _ | .freeze _ _ | .unfreeze _ _ => isTrue trivial

def depositEvents : List NodeEvent := .processOne (.deposit 7 5) :: List.replicate 20 (.act 0)

end Node

namespace TransactionProcessor

variable {ι : Type} [DecidableEq ι] {p p' : TransactionProcessor ι} {i : ι}

theorem processOne_start {t : Transaction}
    (h : p.next (.processOne i t) = some p') :
    p.pipeline.start i (.processImpl ⟨t, p.nextId⟩) = some p'.pipeline := by
  simp only [TransactionProcessor.next] at h
  split_ifs at h
  obtain ⟨s, hs, rfl⟩ := Option.map_eq_some_iff.mp h
  exact hs

theorem act_step {now : TimePoint}
    {fault : Option Exn} (h : p.next (.act i now fault) = some p') :
    p.pipeline.step i now fault = some p'.pipeline := by
  obtain ⟨s, hs, rfl⟩ := Option.map_eq_some_iff.mp h
  exact hs

omit [DecidableEq ι] in
theorem Numbered.setWorld {world w : World} (hn : Numbered world p) (hw : w.wal = p.pipeline.world.wal)
    (ht : w.transactions = p.pipeline.world.transactions) :
    Numbered world { p with pipeline := { p.pipeline with world := w } } := by
  obtain ⟨accounts, transactions, audit, wal, nextAuditId, mutexes⟩ := w
  obtain rfl : wal = p.pipeline.world.wal := hw
  obtain rfl : transactions = p.pipeline.world.transactions := ht
  exact { hn with tracked := { hn.tracked with }, delivered := { hn.delivered with } }

end TransactionProcessor

theorem idle_act {p : TransactionProcessor Unit} (h : p.idle () = true) :
    ∀ i pc, p.pipeline.threads i = some pc → pc.act = none := by
  intro i pc hi
  simp only [TransactionProcessor.idle, Bool.and_eq_true] at h
  obtain ⟨_, h⟩ := h
  rw [hi] at h
  cases pc with
  | finished _ => rfl
  | want _ _ => cases h
  | inside _ _ => cases h
  | lock _ _ _ _ => cases h
  | audit _ _ => cases h
  | unlock _ _ _ => cases h

namespace State

variable {ι : Type} [DecidableEq ι] {s s' : State ι} {i : ι} {base ledger : Ledger} {start : ℕ}

theorem coherent_step {now : TimePoint} {fault : Option Exn} (hc : Coherent s.world.wal)
    (h : s.step i now fault = some s') : Coherent s'.world.wal := by
  obtain ⟨lines, tail, hl⟩ := hc
  have hcommit (id : TransactionId) : Coherent (s.world.wal.markCommitted id).2 := by
    obtain ⟨lines', hl', _⟩ := hl.markCommitted id
    exact ⟨lines', tail, hl'⟩
  cases step_effect h with
  | quiet hi hm hq ha hw => exact hw ▸ ⟨lines, tail, hl⟩
  | thrown what hf hi hm hw => exact hw ▸ ⟨lines, tail, hl⟩
  | append hi happ hm ha hw => exact hw ▸ ⟨_, _, hl.append _⟩
  | refused hi happ hm ha hw => exact hw ▸ ⟨_, _, hl.append _⟩
  | save hi hm ha hw => exact hw ▸ ⟨lines, tail, hl⟩
  | commit hi hr hm ha hw => exact hw ▸ hcommit _
  | rejected hi hr hm ha hw => exact hw ▸ hcommit _
  | record hi hm ha hw => exact hw ▸ ⟨lines, tail, hl⟩

omit [DecidableEq ι] in
theorem Tracked.setWorld (ht : Tracked s) {w : World} (hw : w.wal = s.world.wal) : Tracked { s with world := w } := by
  obtain ⟨accounts, transactions, audit, wal, nextAuditId, mutexes⟩ := w
  obtain rfl : wal = s.world.wal := hw
  exact { ht with }

omit [DecidableEq ι] in
theorem Journaled.rebase (hj : Journaled base start ledger s) (hidle : ∀ i pc, s.threads i = some pc → pc.act = none)
    {w : World} (hw : w.wal = s.world.wal) :
    s.store = ledger ∧
      Journaled w.accounts.findById s.entries.length w.accounts.findById { s with world := w } := by
  have hsettled (k : AccountId) : s.Settled k := by
    rintro i pc hi ⟨act, ha, _⟩
    rw [hidle i pc hi] at ha
    cases ha
  have hentries : ({ s with world := w } : State ι).entries = s.entries := congrArg WalLogger.entries hw
  refine ⟨funext fun k => hj.store k (hsettled k), { hj.guarded with }, hj.tracked.setWorld hw, ?_, ?_, ?_,
    fun _ _ => rfl, fun i pc hi act ha => ?_⟩
  · rw [hentries]
  · simp [hentries]
  · simp [hentries, movements]
  · rw [hidle i pc hi] at ha
    cases ha

omit [DecidableEq ι] in
theorem Journaled.restart (hj : Journaled base start ledger s) {world : World} (he : world.wal.entries = s.entries)
    (hs : world.accounts.findById = ledger) : Journaled base start ledger (State.init world : State ι) where
  guarded := guarded_init world
  tracked := tracked_init world
  start_le := by
    change start ≤ world.wal.entries.length
    rw [he]
    exact hj.start_le
  sound := by
    change ∀ e ∈ world.wal.entries.drop start, e.Sound
    rw [he]
    exact hj.sound
  reached := by
    change LocalActions.run Ledger.post (movements (world.wal.entries.drop start)) base = some ledger
    rw [he]
    exact hj.reached
  store := fun k _ => congrFun hs k
  fact := fun i pc hi => by simp [State.init] at hi

end State

end BankManagement
