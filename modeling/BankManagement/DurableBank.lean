import BankManagement.ConcurrentBooks
import BankManagement.CrashAtomicity

namespace BankManagement

open Wal Codec WalLogger Ledger LocalActions AtomicObject

namespace TransactionProcessor

variable {ι : Type} [DecidableEq ι] {p p' : TransactionProcessor ι} {event : BankManagement.Event ι}

def label (p : TransactionProcessor ι) : BankManagement.Event ι → Option (Label ι)
  | .processOne i txn => some (.begin i (.processImpl ⟨txn, p.nextId⟩))
  | .take i => (p.taking.find? (·.1 = i)).map fun (_, ticket) =>
    .begin i (.processImpl ⟨ticket.txn, p.reserved.headD p.nextId⟩)
  | .act i now fault => some (.act i now fault)
  | .start | .stop | .submit _ | .reserve | .enqueue | .pop _ => none

theorem call_pipeline {i : ι} {number : ℕ} {c : Call} (h : p.call i number c = some p') :
    p.pipeline.next (.begin i (.processImpl c)) = some p'.pipeline := by
  obtain ⟨s, hs, rfl⟩ := Option.map_eq_some_iff.mp h
  exact hs

theorem next_label (h : p.next event = some p') :
    match p.label event with
    | none => p'.pipeline = p.pipeline
    | some label => p.pipeline.next label = some p'.pipeline := by
  cases event with
  | processOne i txn =>
    simp only [TransactionProcessor.next] at h
    split_ifs at h
    have hcall := call_pipeline h
    exact hcall
  | take i =>
    simp only [TransactionProcessor.next] at h
    cases hfind : p.taking.find? (·.1 = i) with
    | none => simp [hfind] at h
    | some taken =>
      obtain ⟨j, ticket⟩ := taken
      simp only [hfind] at h
      simp only [label, hfind, Option.map_some]
      unfold takeReservedId at h
      split at h
      · rename_i id reserved hr
        dsimp only at hr
        rw [hr]
        have hcall := call_pipeline h
        exact hcall
      · rename_i hr
        dsimp only at hr
        rw [hr]
        have hcall := call_pipeline h
        exact hcall
  | act i now fault => exact act_step h
  | start =>
    simp only [TransactionProcessor.next] at h
    split_ifs at h
    obtain rfl := Option.some.inj h
    rfl
  | stop =>
    simp only [TransactionProcessor.next] at h
    split_ifs at h
    obtain rfl := Option.some.inj h
    rfl
  | submit txn =>
    simp only [TransactionProcessor.next] at h
    split_ifs at h <;> obtain rfl := Option.some.inj h <;> rfl
  | reserve =>
    simp only [TransactionProcessor.next] at h
    split at h
    · obtain rfl := Option.some.inj h
      rfl
    · cases h
  | enqueue =>
    simp only [TransactionProcessor.next] at h
    split at h
    · obtain rfl := Option.some.inj h
      rfl
    · cases h
  | pop i =>
    simp only [TransactionProcessor.next] at h
    split at h
    · cases h
    · split_ifs at h
      obtain rfl := Option.some.inj h
      rfl

omit [DecidableEq ι] in
theorem Numbered.fresh_next {world : World} (hn : p.Numbered world) (hc : p.CounterSound) :
    p.pipeline.FreshId p.nextId :=
  hn.unused _ (hn.nextId_notMem hc) (hn.counterSound hc).2.2

theorem Numbered.fresh {world : World} (hn : p.Numbered world) (hs : p.HandsOutSound event) {i : ι} {c : Call}
    (h : p.label event = some (.begin i (.processImpl c))) : p.pipeline.FreshId c.id := by
  cases event with
  | processOne j txn =>
    obtain ⟨-, ⟨-⟩⟩ := Label.begin.inj (Option.some.inj h)
    exact hn.fresh_next hs
  | take j =>
    obtain ⟨taken, -, h⟩ := Option.map_eq_some_iff.mp h
    obtain ⟨-, hjob⟩ := Label.begin.inj h
    obtain rfl := Job.processImpl.inj hjob
    cases hr : p.reserved with
    | nil => exact hn.fresh_next (hs hr)
    | cons id reserved =>
      apply (hn.pending id _).2
      rw [pendingIds, hr]
      exact List.mem_append_left _ List.mem_cons_self
  | act j now fault => cases h
  | start | stop | reserve | enqueue | submit | pop => cases h

theorem idle_quiet {i : ι} (h : p.idle i = true) {pc : Pc} (hi : p.pipeline.threads i = some pc) : pc.act = none := by
  simp only [TransactionProcessor.idle, Bool.and_eq_true] at h
  obtain ⟨_, h⟩ := h
  rw [hi] at h
  cases pc with
  | finished _ => rfl
  | want _ _ => cases h
  | inside _ _ => cases h
  | lock _ _ _ _ => cases h
  | audit _ _ => cases h
  | unlock _ _ _ => cases h

end TransactionProcessor

/-- A running process, and its files; the journal file is in the logger. `era` counts the crashes, to
tell the threads of one process from those of another. -/
structure Server (ι : Type) where
  processor : TransactionProcessor ι
  snapshot : Option Bytes
  tmp : Option Bytes
  era : ℕ

inductive Outage (ι : Type)
  | between
  | append (i : ι) (written : ℕ)
  | store (written : ℕ)

inductive ServerEvent (ι : Type)
  | work (event : BankManagement.Event ι)
  | snapshot
  | crash (c : Outage ι) (transactions : TransactionRepository)

namespace Server

variable {ι : Type} [DecidableEq ι]

def pipeline (s : Server ι) : State ι := s.processor.pipeline

def world (s : Server ι) : World := s.pipeline.world

def disk (s : Server ι) : Disk := ⟨s.world.wal.file, s.snapshot, s.tmp⟩

def image (s : Server ι) : Snapshot := ⟨s.world.wal.size, s.world.accounts.all⟩

def boot (disk : Disk) (accounts : List Account) (transactions : TransactionRepository) (era : ℕ) : Server ι where
  processor := .create
    { accounts := .ofAccounts accounts, transactions, audit := [], wal := openFile disk.wal, nextAuditId := 1,
      mutexes := [] }
  snapshot := disk.snapshot
  tmp := disk.tmp
  era := era

variable [Fintype ι]

def Idle (s : Server ι) : Prop := ∀ i, s.processor.idle i = true

instance (s : Server ι) : Decidable s.Idle := inferInstanceAs (Decidable (∀ i : ι, s.processor.idle i = true))

def crash (s : Server ι) : Outage ι → Option Disk
  | .between => some s.disk
  | .append i written => match s.pipeline.threads i with
    | some (.inside _ (.appendWal _ record _)) =>
      if written < (line record).length then
        some { s.disk with wal := (s.world.wal.appendTorn record written).file }
      else none
    | _ => none
  | .store written => if s.Idle then some { s.disk with tmp := some (s.image.text.take written) } else none

def next (s : Server ι) : ServerEvent ι → Option (Server ι)
  | .work event => (s.processor.next event).map fun processor => { s with processor }
  | .snapshot => if s.Idle then some { s with snapshot := some s.image.text, tmp := none } else none
  | .crash c transactions => (s.crash c).bind fun disk => (recover disk).map fun accounts =>
    boot disk accounts transactions (s.era + 1)

def run (s : Server ι) (events : List (ServerEvent ι)) : Option (Server ι) := Runs.run next s events

/-- No call throws, ids come from a sound counter, what is committed decodes, and the numbers of a
snapshot fit. -/
def StaysReadable (s : Server ι) : ServerEvent ι → Prop
  | .work event => s.processor.HandsOutSound event ∧
    ∀ label ∈ s.processor.label event, label.fault = none ∧ s.pipeline.CommitsDecodable label
  | .snapshot => s.world.wal.size < 2 ^ 63 ∧ ∀ a ∈ s.world.accounts.all, a.Storable
  | .crash _ _ => True

instance (s : Server ι) : (event : ServerEvent ι) → Decidable (s.StaysReadable event)
  | .work event => inferInstanceAs (Decidable (s.processor.HandsOutSound event ∧ ∀ label ∈ s.processor.label event, _))
  | .snapshot => inferInstanceAs (Decidable (_ ∧ ∀ a ∈ s.world.accounts.all, a.Storable))
  | .crash _ _ => isTrue trivial

def event (s : Server ι) : ServerEvent ι → Server ι → Option (AtomicObject.Event (ℕ × ι) Call (Result TransactionRecord))
  | .work event, s' => ((s.processor.label event).bind fun label => Label.event s.pipeline label s'.pipeline).map
    (.rename (s.era, ·))
  | .snapshot, _ => none
  | .crash _ _, _ => none

def history (s : Server ι) (events : List (ServerEvent ι)) :
    List (AtomicObject.Event (ℕ × ι) Call (Result TransactionRecord)) := trace next event s events

structure Durable (s : Server ι) (o : Bankers (ℕ × ι)) : Prop where
  numbered : ∃ world, s.processor.Numbered world
  coherent : Coherent s.world.wal
  keyed : o.value.Keyed
  snapshot : ∃ stored, Snapshot.load s.snapshot = some stored ∧ (stored.accounts.map (·.id)).Nodup ∧
    State.Journaled (findAccount stored.accounts) stored.lsn o.value s.pipeline
  mirrors : s.pipeline.Mirrors ⟨o.value, o.clients ∘ (s.era, ·)⟩
  unborn : ∀ era, s.era < era → ∀ i : ι, o.clients (era, i) = .idle

variable {s s' : Server ι} {o : Bankers (ℕ × ι)}

omit [Fintype ι] in
theorem Durable.moved (hd : s.Durable o) {processor : TransactionProcessor ι}
    {event : Option (AtomicObject.Event ι Call (Result TransactionRecord))} {o' : Bankers ι}
    (hstep : Step Serves ⟨o.value, o.clients ∘ (s.era, ·)⟩ event o') (hn : ∃ world, processor.Numbered world)
    (hcoherent : Coherent processor.pipeline.world.wal) (hkeyed : o'.value.Keyed)
    (hj : ∀ {base start}, State.Journaled base start o.value s.pipeline →
      State.Journaled base start o'.value processor.pipeline)
    (hm : processor.pipeline.Mirrors o') :
    ∃ o'', Step Serves o (event.map (.rename (s.era, ·))) o'' ∧ Durable { s with processor } o'' := by
  obtain ⟨stored, hload, hids, hjournaled⟩ := hd.snapshot
  obtain ⟨o'', hstep', hvalue, hclients, hothers⟩ := hstep.among (Prod.mk_right_injective s.era)
  refine ⟨o'', hstep', hn, hcoherent, hvalue ▸ hkeyed, ⟨stored, hload, hids, hvalue ▸ hj hjournaled⟩, ?_, ?_⟩
  · change processor.pipeline.Mirrors ⟨o''.value, o''.clients ∘ (s.era, ·)⟩
    rw [hvalue, hclients]
    exact hm
  · intro era hera i
    rw [hothers (era, i) fun j heq => Nat.ne_of_gt hera (Prod.mk.inj heq).1]
    exact hd.unborn era hera i

omit [Fintype ι] in
theorem Durable.work (hd : s.Durable o) {event : BankManagement.Event ι} (hs : s.StaysReadable (.work event))
    {processor : TransactionProcessor ι} (h : s.processor.next event = some processor) :
    ∃ o', Step Serves o (s.event (.work event) { s with processor }) o' ∧ Durable { s with processor } o' := by
  obtain ⟨world, hn⟩ := hd.numbered
  have hn' := hn.next hs.1 h
  have hnext := TransactionProcessor.next_label h
  have hevent : s.event (.work event) { s with processor } =
      ((s.processor.label event).bind fun label => Label.event s.pipeline label processor.pipeline).map
        (.rename (s.era, ·)) := rfl
  cases hlabel : s.processor.label event with
  | none =>
    rw [hlabel] at hnext hevent
    change processor.pipeline = s.pipeline at hnext
    rw [hevent]
    refine hd.moved .stutter ⟨world, hn'⟩ ?_ hd.keyed ?_ ?_
    · rw [hnext]
      exact hd.coherent
    · intro base start hj
      rwa [hnext]
    · rw [hnext]
      exact hd.mirrors
  | some label =>
    obtain ⟨hfault, hdecodes⟩ := hs.2 label hlabel
    rw [hlabel] at hnext hevent
    change s.pipeline.next label = some processor.pipeline at hnext
    rw [hevent, Option.bind_some]
    cases label with
    | begin i job =>
      obtain ⟨o', hstep, hm, hvalue⟩ := hd.mirrors.start hnext
      obtain ⟨_, hgoto⟩ := State.start_eq_some hnext
      refine hd.moved hstep ⟨world, hn'⟩ ?_ (hvalue ▸ hd.keyed) ?_ hm
      · rw [hgoto]
        exact hd.coherent
      · intro base start hj
        rw [hvalue]
        refine hj.started (fun c hjob => ?_) hnext
        subst hjob
        exact hn.fresh hs.1 hlabel
    | act i now fault =>
      obtain rfl : fault = none := hfault
      change s.pipeline.step i now none = some processor.pipeline at hnext
      obtain ⟨o', hstep, hm, hvalue⟩ := hd.mirrors.step hnext
      refine hd.moved hstep ⟨world, hn'⟩ (State.coherent_step hd.coherent hnext) ?_ ?_ hm
      · cases hcommit : s.pipeline.committing i with
        | none =>
          rw [hcommit] at hvalue
          exact hvalue ▸ hd.keyed
        | some p =>
          rw [hcommit] at hvalue
          exact (hd.keyed.serve hvalue).2
      · intro base start hj
        obtain ⟨ledger, hj', hpost⟩ := hj.step (fun c record hc => hdecodes (c, record) hc) hnext
        cases hcommit : s.pipeline.committing i with
        | none =>
          rw [hcommit] at hvalue hpost
          rw [hvalue]
          exact hpost ▸ hj'
        | some p =>
          rw [hcommit] at hvalue hpost
          obtain rfl := Option.some.inj (hpost.symm.trans (hd.keyed.serve hvalue).1)
          exact hj'

theorem Durable.store (hd : s.Durable o) (hs : s.StaysReadable .snapshot) (h : s.next .snapshot = some s') :
    s'.Durable o := by
  simp only [Server.next] at h
  split_ifs at h with hidle
  obtain rfl := Option.some.inj h
  obtain ⟨stored, _, _, hj⟩ := hd.snapshot
  obtain ⟨hstore, hj'⟩ := hj.rebase (fun i pc hi => TransactionProcessor.idle_quiet (hidle i) hi) rfl
  refine ⟨hd.numbered, hd.coherent, hd.keyed, ⟨s.image, Snapshot.load_text hs.1 hs.2, s.world.accounts.all_nodup, ?_⟩,
    hd.mirrors, hd.unborn⟩
  rw [← hstore]
  exact hj'

theorem crash_leaves (hc : Coherent s.world.wal) {c : Outage ι} {disk : Disk} (h : s.crash c = some disk) :
    disk.snapshot = s.snapshot ∧ (openFile disk.wal).entries = s.world.wal.entries := by
  obtain ⟨lines, tail, hl⟩ := hc
  cases c with
  | between =>
    obtain rfl := Option.some.inj h
    exact ⟨rfl, hl.reopen_entries⟩
  | append i written =>
    simp only [Server.crash] at h
    split at h
    · split_ifs at h with hw
      obtain rfl := Option.some.inj h
      exact ⟨rfl, by rw [(hl.crash hw).entries, hl.entries]⟩
    · cases h
  | store written =>
    simp only [Server.crash] at h
    split_ifs at h
    obtain rfl := Option.some.inj h
    exact ⟨rfl, hl.reopen_entries⟩

theorem Durable.recovers (hd : s.Durable o) {c : Outage ι} {disk : Disk} (h : s.crash c = some disk) :
    ∃ accounts, recover disk = some accounts ∧ (accounts.map (·.id)).Nodup ∧ findAccount accounts = o.value := by
  obtain ⟨hsnapshot, hentries⟩ := crash_leaves hd.coherent h
  obtain ⟨stored, hload, hids, hj⟩ := hd.snapshot
  obtain ⟨accounts, hreplay, hledger⟩ := hj.replays
  refine ⟨accounts, ?_, by rw [replay_ids hreplay]; exact hids, hledger⟩
  have hfrom : (openFile disk.wal).replayFrom stored.lsn = s.world.wal.replayFrom stored.lsn := by
    simp only [replayFrom, hentries]
  rw [recover, hsnapshot, hload, Option.bind_some, hfrom]
  change (replay (s.pipeline.world.wal.replayFrom stored.lsn) stored.accounts).toOption = _
  rw [hreplay]
  rfl

theorem Durable.restart (hd : s.Durable o) {c : Outage ι} {transactions : TransactionRepository}
    (h : s.next (.crash c transactions) = some s') : s'.Durable o := by
  obtain ⟨disk, hcrash, h⟩ := Option.bind_eq_some_iff.mp h
  obtain ⟨accounts, hrecover, rfl⟩ := Option.map_eq_some_iff.mp h
  obtain ⟨accounts', hrecover', hids, hledger⟩ := hd.recovers hcrash
  obtain rfl := Option.some.inj (hrecover.symm.trans hrecover')
  obtain ⟨hsnapshot, hentries⟩ := crash_leaves hd.coherent hcrash
  obtain ⟨stored, hload, hsids, hj⟩ := hd.snapshot
  have hstore : (AccountRepository.ofAccounts accounts).findById = o.value := by
    rw [← hledger]
    exact AccountRepository.findById_ofAccounts hids
  have hidle : o.clients ∘ (s.era + 1, ·) = fun _ : ι => .idle := by
    funext i
    exact hd.unborn (s.era + 1) (Nat.lt_succ_self _) i
  refine ⟨⟨_, TransactionProcessor.numbered_create _⟩, openFile_coherent _, hd.keyed, ⟨stored, ?_, hsids, ?_⟩, ?_, ?_⟩
  · change Snapshot.load disk.snapshot = some stored
    rw [hsnapshot, hload]
  · exact hj.restart hentries hstore
  · change (State.init _ : State ι).Mirrors ⟨o.value, o.clients ∘ (s.era + 1, ·)⟩
    rw [hidle, ← hstore]
    exact State.mirrors_init _
  · intro era hera
    exact hd.unborn era (Nat.lt_of_succ_lt hera)

theorem Durable.next (hd : s.Durable o) {event : ServerEvent ι} (hs : s.StaysReadable event)
    (h : s.next event = some s') : ∃ o', Step Serves o (s.event event s') o' ∧ s'.Durable o' := by
  cases event with
  | work event =>
    obtain ⟨processor, hp, rfl⟩ := Option.map_eq_some_iff.mp h
    exact hd.work hs hp
  | snapshot => exact ⟨o, .stutter, hd.store hs h⟩
  | crash c transactions => exact ⟨o, .stutter, hd.restart h⟩

omit [DecidableEq ι] [Fintype ι] in
theorem durable_boot {disk : Disk} {stored : Snapshot} {accounts : List Account} {transactions : TransactionRepository}
    (hload : Snapshot.load disk.snapshot = some stored) (hids : (stored.accounts.map (·.id)).Nodup)
    (hlsn : stored.lsn ≤ (openFile disk.wal).size) (hrecover : recover disk = some accounts) :
    (boot disk accounts transactions 0 : Server ι).Durable ⟨findAccount accounts, fun _ => .idle⟩ := by
  rw [recover, hload, Option.bind_some] at hrecover
  have hreplay := toOption_eq_some.mp hrecover
  have hnodup : (accounts.map (·.id)).Nodup := by
    rw [replay_ids hreplay]
    exact hids
  have hsound := replay_sound hreplay
  have hrun := replay_run hsound stored.accounts
  rw [show replay (((openFile disk.wal).entries.drop stored.lsn).filterMap WalLogger.record) stored.accounts =
    .ok accounts from hreplay] at hrun
  have hstore : (AccountRepository.ofAccounts accounts).findById = findAccount accounts :=
    AccountRepository.findById_ofAccounts hnodup
  refine ⟨⟨_, TransactionProcessor.numbered_create _⟩, openFile_coherent _, findAccount_keyed accounts,
    ⟨stored, hload, hids, ?_⟩, ?_, fun _ _ _ => rfl⟩
  · exact {
      guarded := State.guarded_init _
      tracked := State.tracked_init _
      start_le := hlsn
      sound := hsound
      reached := hrun.symm
      store := fun k _ => congrFun hstore k
      fact := fun i pc hi => by simp [pipeline, boot, TransactionProcessor.create, State.init] at hi }
  · change (State.init _ : State ι).Mirrors ⟨findAccount accounts, fun _ => .idle⟩
    rw [← hstore]
    exact State.mirrors_init _

/-- From a disk that recovers, with a snapshot no further than its journal, through any number of crashes:
the calls of all the processes are those of one bank that takes each of them in a single step, and
recovery at any point finds the accounts of that bank. -/
theorem run_durable {disk disk' : Disk} {stored : Snapshot} {accounts : List Account}
    {transactions : TransactionRepository} {events : List (ServerEvent ι)} {c : Outage ι}
    (hload : Snapshot.load disk.snapshot = some stored) (hids : (stored.accounts.map (·.id)).Nodup)
    (hlsn : stored.lsn ≤ (openFile disk.wal).size) (hrecover : recover disk = some accounts)
    (hread : Runs.Along Server.next StaysReadable (boot disk accounts transactions 0) events)
    (h : (boot disk accounts transactions 0).run events = some s) (hcrash : s.crash c = some disk') :
    ∃ recovered ledger, recover disk' = some recovered ∧ findAccount recovered = ledger ∧
      Linearisable Serves (findAccount accounts) (history (boot disk accounts transactions 0) events) ledger := by
  obtain ⟨o, he, hd⟩ := run_simulated (R := Durable) (P := StaysReadable) (fun hd hs hnext => hd.next hs hnext)
    (durable_boot hload hids hlsn hrecover) hread h
  obtain ⟨recovered, hrecovered, _, hledger⟩ := hd.recovers hcrash
  exact ⟨recovered, o.value, hrecovered, hledger, he.linearisable⟩

def tornThenUnanswered : List (ServerEvent Bool) :=
  [.work (.processOne false (.deposit 7 5)), .work (.processOne true (.withdraw 7 10))] ++
    List.replicate 20 (.work (.act false 0 none)) ++ List.replicate 7 (.work (.act true 0 none)) ++
    [.crash (.append true 5) [], .work (.submit (.deposit 7 1)), .work .reserve, .work .enqueue, .work (.pop true),
      .work (.take true)] ++
    List.replicate 20 (.work (.act true 0 none)) ++ [.snapshot, .work (.processOne false (.deposit 7 3))] ++
    List.replicate 13 (.work (.act false 0 none))

theorem tornThenUnanswered_durable : ∃ s disk recovered ledger,
    (boot (Node.savedDisk 0) [Node.savedAccount 0] [] 0).run tornThenUnanswered = some s ∧
      s.crash .between = some disk ∧ recover disk = some recovered ∧ findAccount recovered = ledger ∧
      Linearisable Serves (findAccount [Node.savedAccount 0])
        (history (boot (Node.savedDisk 0) [Node.savedAccount 0] [] 0) tornThenUnanswered) ledger := by
  have hsome : ((boot (Node.savedDisk 0) [Node.savedAccount 0] [] 0).run tornThenUnanswered).isSome := by decide +kernel
  obtain ⟨s, h⟩ := Option.isSome_iff_exists.mp hsome
  obtain ⟨hload, hrecover⟩ := Node.savedDisk_recovers (show (0 : UInt64).toNat < 2 ^ 63 by decide)
  obtain ⟨recovered, ledger, hall⟩ :=
    run_durable (c := .between) hload (by decide) (by decide) hrecover (by decide +kernel) h rfl
  exact ⟨s, _, recovered, ledger, h, rfl, hall⟩

end Server

end BankManagement
