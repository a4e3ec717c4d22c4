import BankManagement.Recovery

namespace BankManagement

open Wal Codec WalLogger Ledger LocalActions

namespace Node

structure Recoverable (initial : Ledger) (n : Node) : Prop where
  numbered : ∃ world, n.processor.Numbered world
  coherent : Coherent n.world.wal
  snapshot : ∃ s ledger, Snapshot.load n.snapshot = some s ∧ (s.accounts.map (·.id)).Nodup ∧
    State.Journaled (findAccount s.accounts) s.lsn ledger n.pipeline ∧
    LocalActions.run post n.committed initial = some ledger

variable {n n' : Node} {initial : Ledger}

theorem Recoverable.processOne (hr : Recoverable initial n) {t : Transaction} (hc : n.StaysReadable (.processOne t))
    (h : n.next (.processOne t) = some n') : Recoverable initial n' := by
  obtain ⟨p, hp, rfl⟩ := Option.map_eq_some_iff.mp h
  obtain ⟨world, hn⟩ := hr.numbered
  obtain ⟨s, ledger, hload, hids, hj, hrun⟩ := hr.snapshot
  have hs := TransactionProcessor.processOne_start hp
  have hfresh := hn.unused _ (hn.nextId_notMem hc) (hn.counterSound hc).2.2
  refine ⟨⟨world, hn.next (show n.processor.HandsOutSound (.processOne () t) from hc) hp⟩, ?_, s, ledger, hload, hids, hj.started (fun c hcall => ?_) hs, hrun⟩
  · obtain ⟨_, hgoto⟩ := State.start_eq_some hs
    change Coherent p.pipeline.world.wal
    rw [hgoto]
    exact hr.coherent
  · obtain rfl := Job.processImpl.inj hcall
    exact hfresh

theorem Recoverable.act (hr : Recoverable initial n) {now : TimePoint} (hc : n.StaysReadable (.act now))
    (h : n.next (.act now) = some n') : Recoverable initial n' := by
  obtain ⟨p, hp, rfl⟩ := Option.map_eq_some_iff.mp h
  obtain ⟨world, hn⟩ := hr.numbered
  obtain ⟨s, ledger, hload, hids, hj, hrun⟩ := hr.snapshot
  have hs := TransactionProcessor.act_step hp
  obtain ⟨ledger', hj', hpost⟩ := hj.step (fun c record hcr => hc (c, record) hcr) hs
  refine ⟨⟨world, hn.act hp⟩, State.coherent_step hr.coherent hs, s, ledger', hload, hids, hj', ?_⟩
  change LocalActions.run post (n.committed ++ _) initial = some ledger'
  cases hcommit : n.pipeline.committing () with
  | none =>
    rw [hcommit] at hpost
    subst hpost
    simpa using hrun
  | some p =>
    rw [hcommit] at hpost
    simp only [Option.map_some, Option.toList_some]
    rw [run_concat, hrun]
    exact hpost

theorem Recoverable.store (hr : Recoverable initial n) (hc : n.StaysReadable .snapshot)
    (h : n.next .snapshot = some n') : Recoverable initial n' := by
  simp only [Node.next] at h
  split_ifs at h with hidle
  obtain rfl := Option.some.inj h
  obtain ⟨s, ledger, _, _, hj, hrun⟩ := hr.snapshot
  obtain ⟨hstore, hj'⟩ := hj.rebase (idle_act hidle) rfl
  obtain rfl := hstore
  exact ⟨hr.numbered, hr.coherent, n.image, _, Snapshot.load_text hc.1 hc.2, n.world.accounts.all_nodup, hj', hrun⟩

theorem crash_files (hc : Coherent n.world.wal) {c : Crash} {disk : Disk} (h : n.crash c = some disk) :
    disk.snapshot = n.snapshot ∧ (openFile disk.wal).entries = n.world.wal.entries := by
  obtain ⟨lines, tail, hl⟩ := hc
  cases c with
  | between =>
    obtain rfl := Option.some.inj h
    exact ⟨rfl, hl.reopen_entries⟩
  | append written =>
    simp only [Node.crash] at h
    split at h
    · split_ifs at h with hw
      obtain rfl := Option.some.inj h
      exact ⟨rfl, by rw [(hl.crash hw).entries, hl.entries]⟩
    · cases h
  | store written =>
    simp only [Node.crash] at h
    split_ifs at h
    obtain rfl := Option.some.inj h
    exact ⟨rfl, hl.reopen_entries⟩

theorem Recoverable.recovers (hr : Recoverable initial n) {c : Crash} {disk : Disk} (h : n.crash c = some disk) :
    ∃ accounts, recover disk = some accounts ∧ (accounts.map (·.id)).Nodup ∧
      LocalActions.run post n.committed initial = some (findAccount accounts) := by
  obtain ⟨hsnapshot, hentries⟩ := crash_files hr.coherent h
  obtain ⟨s, ledger, hload, hids, hj, hrun⟩ := hr.snapshot
  obtain ⟨accounts, hreplay, hledger⟩ := hj.replays
  refine ⟨accounts, ?_, by rw [replay_ids hreplay]; exact hids, by rw [hledger, hrun]⟩
  have hfrom : (openFile disk.wal).replayFrom s.lsn = n.world.wal.replayFrom s.lsn := by
    simp only [replayFrom, hentries]
  rw [recover, hsnapshot, hload, Option.bind_some, hfrom]
  change (replay (n.pipeline.world.wal.replayFrom s.lsn) s.accounts).toOption = _
  rw [hreplay]
  rfl

theorem Recoverable.restart (hr : Recoverable initial n) {c : Crash} {transactions : TransactionRepository}
    (h : n.next (.crash c transactions) = some n') : Recoverable initial n' := by
  obtain ⟨disk, hcrash, h⟩ := Option.bind_eq_some_iff.mp h
  obtain ⟨accounts, hrecover, rfl⟩ := Option.map_eq_some_iff.mp h
  obtain ⟨accounts', hrecover', hids, hrun⟩ := hr.recovers hcrash
  obtain rfl := Option.some.inj (hrecover.symm.trans hrecover')
  obtain ⟨hsnapshot, hentries⟩ := crash_files hr.coherent hcrash
  obtain ⟨s, ledger, hload, hsids, hj, hrun'⟩ := hr.snapshot
  obtain rfl := Option.some.inj (hrun.symm.trans hrun')
  refine ⟨⟨_, TransactionProcessor.numbered_create _⟩, openFile_coherent _, s, _, ?_, hsids, ?_, hrun⟩
  · change Snapshot.load disk.snapshot = some s
    rw [hsnapshot, hload]
  · exact hj.restart hentries (AccountRepository.findById_ofAccounts hids)

theorem Recoverable.next (hr : Recoverable initial n) {event : NodeEvent} (hs : event.changesStatus = false)
    (hc : n.StaysReadable event) (h : n.next event = some n') : Recoverable initial n' := by
  cases event with
  | processOne t => exact hr.processOne hc h
  | act now => exact hr.act hc h
  | snapshot => exact hr.store hc h
  | crash c transactions => exact hr.restart h
  | freeze k now => cases hs
  | unfreeze k now => cases hs

theorem recoverable_boot {disk : Disk} {s : Snapshot} {accounts : List Account} {transactions : TransactionRepository}
    (hload : Snapshot.load disk.snapshot = some s) (hids : (s.accounts.map (·.id)).Nodup)
    (hlsn : s.lsn ≤ (openFile disk.wal).size) (hrecover : recover disk = some accounts) :
    Recoverable (findAccount accounts) (boot disk accounts transactions) := by
  rw [recover, hload, Option.bind_some] at hrecover
  have hreplay := toOption_eq_some.mp hrecover
  have hnodup : (accounts.map (·.id)).Nodup := by
    rw [replay_ids hreplay]
    exact hids
  have hsound := replay_sound hreplay
  have hrun := replay_run hsound s.accounts
  rw [show replay (((openFile disk.wal).entries.drop s.lsn).filterMap WalLogger.record) s.accounts = .ok accounts from
    hreplay] at hrun
  refine ⟨⟨_, TransactionProcessor.numbered_create _⟩, openFile_coherent _, s, findAccount accounts, hload, hids, ?_, rfl⟩
  exact {
    guarded := State.guarded_init _
    tracked := State.tracked_init _
    start_le := hlsn
    sound := hsound
    reached := hrun.symm
    store := fun k _ => congrFun (AccountRepository.findById_ofAccounts hnodup) k
    fact := fun i pc hi => by simp [pipeline, boot, create, TransactionProcessor.create, State.init] at hi }

/-- On a disk that recovers, with a snapshot no further than its journal: after any number of crashes and
recoveries, the next recovery succeeds at any point, with the accounts that the committed transactions
make of the first ones. -/
theorem run_recovers {disk disk' : Disk} {s : Snapshot} {accounts : List Account}
    {transactions : TransactionRepository} {events : List NodeEvent} {c : Crash}
    (hload : Snapshot.load disk.snapshot = some s) (hids : (s.accounts.map (·.id)).Nodup)
    (hlsn : s.lsn ≤ (openFile disk.wal).size) (hrecover : recover disk = some accounts)
    (hstatus : ∀ event ∈ events, event.changesStatus = false)
    (hread : Runs.Along Node.next StaysReadable (boot disk accounts transactions) events)
    (h : (boot disk accounts transactions).run events = some n) (hcrash : n.crash c = some disk') :
    ∃ recovered expected, recover disk' = some recovered ∧ applyAll n.committed accounts = some expected ∧
      recovered.Perm expected := by
  have hr : Recoverable (findAccount accounts) n :=
    Runs.run_preserves (fun hr hp hnext => Recoverable.next hr hp.1 hp.2 hnext)
      (recoverable_boot hload hids hlsn hrecover) (hread.also hstatus) h
  obtain ⟨recovered, hrecovered, hnodup, hrun⟩ := hr.recovers hcrash
  rw [← applyAll_run] at hrun
  obtain ⟨expected, hexpected, hsame⟩ := Option.map_eq_some_iff.mp hrun
  refine ⟨recovered, expected, hrecovered, hexpected, perm_of_findAccount hnodup ?_ hsame.symm⟩
  rw [applyAll_ids hexpected]
  rw [recover, hload, Option.bind_some] at hrecover
  rw [replay_ids (toOption_eq_some.mp hrecover)]
  exact hids

def savedAccount (version : UInt64) : Account := { State.openAccount 7 with version }

def savedDisk (version : UInt64) : Disk := ⟨[], some (Snapshot.text ⟨0, [savedAccount version]⟩), none⟩

def tornThenStored : List NodeEvent :=
  .processOne (.deposit 7 5) :: List.replicate 7 (.act 0) ++ [.crash (.append 5) []] ++
    depositEvents ++ [.snapshot] ++ depositEvents

theorem savedDisk_recovers {version : UInt64} (h : version.toNat < 2 ^ 63) :
    Snapshot.load (savedDisk version).snapshot = some ⟨0, [savedAccount version]⟩ ∧
      recover (savedDisk version) = some [savedAccount version] := by
  have hload : Snapshot.load (savedDisk version).snapshot = some ⟨0, [savedAccount version]⟩ := by
    apply Snapshot.load_text (show 0 < 2 ^ 63 by decide)
    intro a ha
    rw [List.mem_singleton.mp ha]
    exact ⟨show (7 : UInt64).toNat < 2 ^ 63 by decide, show (1 : UInt64).toNat < 2 ^ 63 by decide, h⟩
  refine ⟨hload, ?_⟩
  rw [recover, hload]
  rfl

theorem tornThenStored_recovers : ∃ n disk, (boot (savedDisk 0) [savedAccount 0] []).run tornThenStored = some n ∧
    n.crash .between = some disk ∧
    ∃ recovered expected, recover disk = some recovered ∧ applyAll n.committed [savedAccount 0] = some expected ∧
      recovered.Perm expected := by
  have hsome : ((boot (savedDisk 0) [savedAccount 0] []).run tornThenStored).isSome := by decide +kernel
  obtain ⟨n, h⟩ := Option.isSome_iff_exists.mp hsome
  obtain ⟨hload, hrecover⟩ := savedDisk_recovers (show (0 : UInt64).toNat < 2 ^ 63 by decide)
  exact ⟨n, _, h, rfl, run_recovers (c := .between) hload (by decide) (by decide) hrecover (by decide) (by decide +kernel) h rfl⟩

theorem storedVersion_unrecoverable :
    recover (savedDisk 0x7fffffffffffffff) = some [savedAccount 0x7fffffffffffffff] ∧
      ∃ n disk, (boot (savedDisk 0x7fffffffffffffff) [savedAccount 0x7fffffffffffffff] []).run
          (depositEvents ++ [.snapshot]) = some n ∧
        n.crash .between = some disk ∧ recover disk = none := by
  refine ⟨(savedDisk_recovers (by decide)).2, ?_⟩
  have hrun : ((boot (savedDisk 0x7fffffffffffffff) [savedAccount 0x7fffffffffffffff] []).run
      (depositEvents ++ [.snapshot])).map (fun n => recover n.disk) = some none := by decide +kernel
  obtain ⟨n, h, hrecover⟩ := Option.map_eq_some_iff.mp hrun
  exact ⟨n, _, h, rfl, hrecover⟩

end Node

end BankManagement
