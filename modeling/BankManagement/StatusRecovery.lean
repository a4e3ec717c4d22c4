import BankManagement.Recovery

namespace BankManagement

open Wal Codec WalLogger Ledger LocalActions

def SameMoney (m m' : Ledger) : Prop := ∀ k, (m k).map (·.balance) = (m' k).map (·.balance)

def SameStatus (m m' : Ledger) : Prop := ∀ k, (m k).map (·.status) = (m' k).map (·.status)

theorem SameStatus.isOpen {m m' : Ledger} (h : SameStatus m m') (k : AccountId) : Open m k ↔ Open m' k := by
  rw [Open, Open, h k]

theorem Account.deposit_money {a a' b : Account} {amount : Money} (hb : a.balance = b.balance)
    (h : a.deposit amount = .ok a') :
    ∃ b', b.deposit amount = .ok b' ∧ a'.balance = b'.balance ∧ b'.status = b.status := by
  unfold Account.deposit at h ⊢
  split_ifs at h ⊢
  · obtain rfl := Except.ok.inj h
    exact ⟨b, rfl, hb, rfl⟩
  · rw [hb] at h
    cases hp : b.balance.plus amount with
    | error what =>
      rw [hp] at h
      cases h
    | ok sum =>
      rw [hp] at h
      obtain rfl := Except.ok.inj h
      exact ⟨_, rfl, rfl, rfl⟩

theorem Account.withdraw_money {a a' b : Account} {amount : Money} (hb : a.balance = b.balance)
    (hopen : b.status = .active) (h : a.withdraw amount = .ok a') :
    ∃ b', b.withdraw amount = .ok b' ∧ a'.balance = b'.balance ∧ b'.status = b.status := by
  obtain ⟨hcan, _, _, _, hmoney⟩ := Account.withdraw_ok h
  have hcan' : b.canWithdraw amount = true := by
    simp only [Account.canWithdraw, Bool.and_eq_true, decide_eq_true_eq] at hcan ⊢
    exact ⟨hopen, hb ▸ hcan.2⟩
  obtain ⟨b', hb'⟩ := Account.withdraw_of_can hcan'
  obtain ⟨_, _, _, hstatus, hmoney'⟩ := Account.withdraw_ok hb'
  refine ⟨b', hb', ?_, hstatus⟩
  have hcents : a'.balance.cents = b'.balance.cents := by
    rw [hb] at hmoney
    omega
  cases ha : a'.balance
  cases hb : b'.balance
  simp_all

theorem amend_money {k : AccountId} {f : Account → Except Exn Account} {m m' n : Ledger}
    (hf : ∀ {a a' b : Account}, a.balance = b.balance → b.status = .active → f a = .ok a' →
      ∃ b', f b = .ok b' ∧ a'.balance = b'.balance ∧ b'.status = b.status)
    (hm : SameMoney m m') (ho : Open m' k) (h : amend k f m = some n) :
    ∃ n', amend k f m' = some n' ∧ SameMoney n n' ∧ SameStatus n' m' := by
  obtain ⟨a, a', hma, hfa, rfl⟩ := amend_eq_some.mp h
  obtain ⟨b, hmb, hopen⟩ := Option.map_eq_some_iff.mp ho
  have hbalance := hm k
  rw [hma, hmb] at hbalance
  obtain ⟨b', hfb, hmoney, hstatus⟩ := hf (Option.some.inj hbalance) hopen hfa
  refine ⟨_, amend_eq_some.mpr ⟨b, b', hmb, hfb, rfl⟩, fun j => ?_, fun j => ?_⟩
  · by_cases hj : j = k
    · subst hj
      rw [Function.update_self, Function.update_self, Option.map_some, Option.map_some, hmoney]
    · rw [Function.update_of_ne hj, Function.update_of_ne hj, hm j]
  · by_cases hj : j = k
    · subst hj
      rw [Function.update_self, hmb, Option.map_some, Option.map_some, hstatus]
    · rw [Function.update_of_ne hj]

theorem post_money {t : Transaction} {m m' n : Ledger} (hm : SameMoney m m') (ho : ∀ k ∈ footprint t, Open m' k)
    (h : post t m = some n) : ∃ n', post t m' = some n' ∧ SameMoney n n' ∧ SameStatus n' m' := by
  cases t with
  | deposit k amount =>
    simp only [post] at h ⊢
    split_ifs at h with hg
    have hk : Open m' k := ho k (by simp [footprint, Transaction.involvedAccounts, Transaction.debitAccount,
      Transaction.creditAccount, Transaction.pushUnique])
    rw [if_pos ⟨hk, hg.2⟩]
    exact amend_money (fun hb _ hd => Account.deposit_money hb hd) hm hk h
  | withdraw k amount =>
    simp only [post] at h ⊢
    split_ifs at h with hg
    have hk : Open m' k := ho k (by simp [footprint, Transaction.involvedAccounts, Transaction.debitAccount,
      Transaction.creditAccount, Transaction.pushUnique])
    rw [if_pos hg]
    exact amend_money Account.withdraw_money hm hk h
  | transfer i j amount =>
    simp only [post] at h ⊢
    split_ifs at h with hg
    rw [footprint_transfer] at ho
    obtain ⟨p, hp, hn⟩ := Option.bind_eq_some_iff.mp h
    obtain ⟨p', hp', hmoney, hstatus⟩ := amend_money Account.withdraw_money hm (ho i (by simp)) hp
    have hj : Open p' j := (hstatus.isOpen j).mpr (ho j (by simp))
    obtain ⟨n', hn', hmoney', hstatus'⟩ := amend_money (fun hb _ hd => Account.deposit_money hb hd) hmoney hj hn
    refine ⟨n', ?_, hmoney', fun k => (hstatus' k).trans (hstatus k)⟩
    rw [if_pos ⟨hg.1, hg.2.1, ho j (by simp)⟩, hp', Option.bind_some, hn']

structure Mixed (statuses m m' : Ledger) : Prop where
  money : SameMoney m m'
  status : SameStatus m' statuses

theorem run_mixed {statuses m m' n : Ledger} {ts : List Transaction} (hm : Mixed statuses m m')
    (ho : ∀ t ∈ ts, ∀ k ∈ footprint t, Open statuses k) (h : LocalActions.run post ts m = some n) :
    ∃ n', LocalActions.run post ts m' = some n' ∧ Mixed statuses n n' := by
  have hstep {t : Transaction} {m m' n : Ledger} (ht : ∀ k ∈ footprint t, Open statuses k) (hr : Mixed statuses m m')
      (hpost : post t m = some n) : ∃ n', post t m' = some n' ∧ Mixed statuses n n' := by
    obtain ⟨n', hn', hmoney, hstatus⟩ :=
      post_money hr.money (fun k hk => (hr.status.isOpen k).mpr (ht k hk)) hpost
    exact ⟨n', hn', hmoney, fun k => (hstatus k).trans (hr.status k)⟩
  exact run_simulates (P := fun t => ∀ k ∈ footprint t, Open statuses k) (R := Mixed statuses) hstep ho hm h

theorem movement_commit {e : Entry} {t : Transaction} (h : ({ e with state := .committed } : Entry).movement = some t) :
    e.intent = some t := by
  rwa [Entry.movement, if_pos rfl, intent_state] at h

theorem State.Journaled.step_movements {ι : Type} [DecidableEq ι] {s s' : State ι} {i : ι} {base ledger : Ledger}
    {start : ℕ} (hj : s.Journaled base start ledger) {now : TimePoint} (h : s.step i now none = some s') :
    s'.entries.take start = s.entries.take start ∧
      ∀ t ∈ movements (s'.entries.drop start), t ∈ movements (s.entries.drop start) ∨
        ∃ p ∈ s.committing i, t = p.1.txn := by
  have hsame (hw : s'.world.wal = s.world.wal) : s'.entries.take start = s.entries.take start ∧
      ∀ t ∈ movements (s'.entries.drop start), t ∈ movements (s.entries.drop start) ∨
        ∃ p ∈ s.committing i, t = p.1.txn := by
    rw [State.entries, State.entries, hw]
    exact ⟨rfl, fun t ht => .inl ht⟩
  have happended {held c record loaded} (hi : s.threads i = some (.inside held (.appendWal c record loaded)))
      (hw : s'.world.wal = s.world.wal.append record) : s'.entries.take start = s.entries.take start ∧
      ∀ t ∈ movements (s'.entries.drop start), t ∈ movements (s.entries.drop start) ∨
        ∃ p ∈ s.committing i, t = p.1.txn := by
    obtain ⟨now, rfl⟩ := hj.tracked.draft i _ c record hi rfl
    have hentries : s'.entries = s.entries ++ [appended (c.record now) s.world.wal] := by
      rw [State.entries, hw, append_entries, State.entries]
    have hmovement : (appended (c.record now) s.world.wal).movement = none := by
      rw [Entry.movement, if_neg (by simp [appended, Call.record])]
    rw [hentries, List.take_append_of_le_length hj.start_le, List.drop_append_of_le_length hj.start_le, movements,
      List.filterMap_append, List.filterMap_cons_none hmovement, List.filterMap_nil, List.append_nil]
    exact ⟨rfl, fun t ht => .inl ht⟩
  cases State.step_effect h with
  | quiet hi hm hq ha hw => exact hsame hw
  | thrown what hf => cases hf
  | append hi happ hm ha hw => exact happended hi hw
  | refused hi happ hm ha hw => exact happended hi hw
  | save hi hm ha hw => exact hsame hw
  | @commit held c lsn record hi hr hm ha hw =>
    obtain ⟨now, rfl⟩ := hj.tracked.draft i _ c record hi rfl
    obtain ⟨e, he, _, _, hpayload, hcommit⟩ := hj.tracked.commits_own hi
    obtain ⟨saved, hs⟩ := hj.fact i _ hi _ rfl
    have hentries : s'.entries = s.entries.set lsn { e with state := .committed } := by
      rw [State.entries, hw, hcommit]
      rfl
    rw [hentries, List.take_set_of_le hs.start_le, List.drop_set, if_neg (Nat.not_lt.mpr hs.start_le)]
    refine ⟨rfl, fun t ht => ?_⟩
    obtain ⟨x, hx, hmovement⟩ := List.mem_filterMap.mp ht
    rcases List.mem_or_eq_of_mem_set hx with hx | rfl
    · exact .inl (List.mem_filterMap.mpr ⟨x, hx, hmovement⟩)
    · have hintent := movement_commit hmovement
      rw [intent_project hpayload] at hintent
      split_ifs at hintent
      obtain rfl := Option.some.inj hintent
      exact .inr ⟨(c, c.record now), by rw [State.committing, hi]; rfl, rfl⟩
  | rejected hi hr hm ha hw =>
    obtain ⟨_, _, _, _, _, hok⟩ := hj.tracked.commits_own hi
    rw [hok] at hr
    cases hr
  | record hi hm ha hw => exact hsame hw

namespace Node

structure Reconcilable (s : Snapshot) (entries : List Entry) (base : Ledger) (start : ℕ) : Prop where
  lsn_le : s.lsn ≤ start
  sound : ∀ e ∈ (entries.take start).drop s.lsn, e.Sound
  prior : ∃ m, LocalActions.run post (movements ((entries.take start).drop s.lsn)) (findAccount s.accounts) = some m ∧
    Mixed (findAccount s.accounts) base m
  allowed : ∀ t ∈ movements (entries.drop start), ∀ k ∈ footprint t, Open (findAccount s.accounts) k

structure Reconciled (n : Node) : Prop where
  numbered : ∃ world, n.processor.Numbered world
  coherent : Coherent n.world.wal
  journaled : ∃ base start ledger, State.Journaled base start ledger n.pipeline ∧
    (n.snapshot = none ∨ ∃ s, Snapshot.load n.snapshot = some s ∧ Reconcilable s n.pipeline.entries base start)

variable {n n' : Node} {s : Snapshot} {base ledger : Ledger} {start : ℕ}

theorem Reconcilable.whole (h : Reconcilable s n.pipeline.entries base start)
    (hj : State.Journaled base start ledger n.pipeline) :
    (∀ e ∈ n.pipeline.entries.drop s.lsn, e.Sound) ∧
      ∃ m, LocalActions.run post (movements (n.pipeline.entries.drop s.lsn)) (findAccount s.accounts) = some m ∧
        Mixed (findAccount s.accounts) ledger m := by
  have hsplit : n.pipeline.entries.drop s.lsn =
      (n.pipeline.entries.take start).drop s.lsn ++ n.pipeline.entries.drop start := by
    have hle : s.lsn ≤ (n.pipeline.entries.take start).length := by
      rw [List.length_take, Nat.min_eq_left hj.start_le]
      exact h.lsn_le
    rw [← List.drop_append_of_le_length hle, List.take_append_drop]
  obtain ⟨mid, hmid, hmixed⟩ := h.prior
  obtain ⟨m, hm, hmixed'⟩ := run_mixed hmixed h.allowed hj.reached
  refine ⟨fun e he => ?_, m, ?_, hmixed'⟩
  · rw [hsplit] at he
    rcases List.mem_append.mp he with he | he
    · exact h.sound e he
    · exact hj.sound e he
  · rw [hsplit, movements, List.filterMap_append, run_append]
    change (LocalActions.run post (movements _) _).bind (LocalActions.run post (movements _)) = _
    rw [hmid, Option.bind_some, hm]

def StaysOpen (n : Node) : NodeEvent → Prop
  | .act _ => ∀ p ∈ n.pipeline.committing (), ∀ s ∈ Snapshot.load n.snapshot, ∀ k ∈ p.1.txn.involvedAccounts,
    Open (findAccount s.accounts) k
  | _ => True

instance (n : Node) : (event : NodeEvent) → Decidable (n.StaysOpen event)
  | .act _ =>
    let _involved (s : Snapshot) (t : Transaction) :
        Decidable (∀ k ∈ t.involvedAccounts, Open (findAccount s.accounts) k) := List.decidableBAll _ _
    inferInstanceAs (Decidable (∀ p ∈ n.pipeline.committing (), ∀ s ∈ Snapshot.load n.snapshot,
      ∀ k ∈ p.1.txn.involvedAccounts, Open (findAccount s.accounts) k))
  | .processOne _ | .snapshot | .crash _ _ | .freeze _ _ | .unfreeze _ _ => isTrue trivial

theorem reconciled_create {world : World} (hc : Coherent world.wal) : Reconciled (create world) where
  numbered := ⟨_, TransactionProcessor.numbered_create world⟩
  coherent := hc
  journaled := ⟨_, _, _, State.Journaled.init world, .inl rfl⟩

theorem Reconciled.processOne (hr : Reconciled n) {t : Transaction} (hc : n.StaysReadable (.processOne t))
    (h : n.next (.processOne t) = some n') : Reconciled n' := by
  obtain ⟨p, hp, rfl⟩ := Option.map_eq_some_iff.mp h
  obtain ⟨world, hn⟩ := hr.numbered
  obtain ⟨base, start, ledger, hj, hstored⟩ := hr.journaled
  have hs := TransactionProcessor.processOne_start hp
  have hfresh := hn.unused _ (hn.nextId_notMem hc) (hn.counterSound hc).2.2
  have hj' := hj.started (fun c hcall => by obtain rfl := Job.processImpl.inj hcall; exact hfresh) hs
  have hworld : p.pipeline.world = n.pipeline.world := by
    obtain ⟨_, hgoto⟩ := State.start_eq_some hs
    rw [hgoto]
    rfl
  refine ⟨⟨world, hn.next (show n.processor.HandsOutSound (.processOne () t) from hc) hp⟩, ?_, base, start, ledger,
    hj', ?_⟩
  · change Coherent p.pipeline.world.wal
    rw [hworld]
    exact hr.coherent
  · have hentries : p.pipeline.entries = n.pipeline.entries := by rw [State.entries, hworld, State.entries]
    change n.snapshot = none ∨ ∃ s, Snapshot.load n.snapshot = some s ∧ Reconcilable s p.pipeline.entries base start
    rw [hentries]
    exact hstored

theorem Reconciled.act (hr : Reconciled n) {now : TimePoint} (hc : n.StaysReadable (.act now))
    (ho : n.StaysOpen (.act now)) (h : n.next (.act now) = some n') : Reconciled n' := by
  obtain ⟨p, hp, rfl⟩ := Option.map_eq_some_iff.mp h
  obtain ⟨world, hn⟩ := hr.numbered
  obtain ⟨base, start, ledger, hj, hstored⟩ := hr.journaled
  have hs := TransactionProcessor.act_step hp
  obtain ⟨ledger', hj', _⟩ := hj.step (fun c record hcr => hc (c, record) hcr) hs
  obtain ⟨htake, hmovements⟩ := hj.step_movements hs
  refine ⟨⟨world, hn.act hp⟩, State.coherent_step hr.coherent hs, base, start, ledger', hj', ?_⟩
  rcases hstored with hnone | ⟨s, hload, hrec⟩
  · exact .inl hnone
  · refine .inr ⟨s, hload, hrec.lsn_le, ?_, ?_, fun t ht k hk => ?_⟩
    · change ∀ e ∈ (p.pipeline.entries.take start).drop s.lsn, e.Sound
      rw [htake]
      exact hrec.sound
    · change ∃ m, LocalActions.run post (movements ((p.pipeline.entries.take start).drop s.lsn)) _ = some m ∧ _
      rw [htake]
      exact hrec.prior
    · rcases hmovements t ht with ht | ⟨q, hq, rfl⟩
      · exact hrec.allowed t ht k hk
      · exact ho q hq s hload k hk

theorem Reconciled.store (hr : Reconciled n) (hc : n.StaysReadable .snapshot) (h : n.next .snapshot = some n') :
    Reconciled n' := by
  simp only [Node.next] at h
  split_ifs at h with hidle
  obtain rfl := Option.some.inj h
  obtain ⟨base, start, ledger, hj, _⟩ := hr.journaled
  obtain ⟨_, hj'⟩ := hj.rebase (idle_act hidle) rfl
  refine ⟨hr.numbered, hr.coherent, _, _, _, hj', .inr ⟨n.image, Snapshot.load_text hc.1 hc.2, Nat.le_refl _, ?_,
    ⟨_, ?_, fun _ => rfl, fun _ => rfl⟩, ?_⟩⟩
  · change ∀ e ∈ (n.pipeline.entries.take n.pipeline.entries.length).drop n.pipeline.entries.length, e.Sound
    simp
  · change LocalActions.run post (movements ((n.pipeline.entries.take n.pipeline.entries.length).drop
      n.pipeline.entries.length)) _ = _
    simp only [List.take_length, List.drop_length, movements, List.filterMap_nil, run_nil]
    rfl
  · change ∀ t ∈ movements (n.pipeline.entries.drop n.pipeline.entries.length), _
    simp [movements]

theorem changeStatus_money {w w' : World} (h : w'.accounts = w.accounts ∨ ∃ a version, ∃ k status,
      w.accounts.findById k = some a ∧ w'.accounts = w.accounts.save { a with status, version }) :
    SameMoney w'.accounts.findById w.accounts.findById := by
  rcases h with h | ⟨a, version, k, status, ha, h⟩
  · rw [h]
    exact fun _ => rfl
  · intro j
    rw [h, AccountRepository.findById_save]
    change (Function.update w.accounts.findById a.id _ j).map _ = _
    obtain rfl : a.id = k := findAccount_id ha
    by_cases hj : j = a.id
    · subst hj
      rw [Function.update_self, ha]
      rfl
    · rw [Function.update_of_ne hj]

theorem Reconciled.changeStatus (hr : Reconciled n) {status : AccountStatus} {verb refusal action : String}
    {k : AccountId} {now : TimePoint}
    (h : n.changeStatus (BankingService.changeStatus status verb refusal action none none k now) = some n') :
    Reconciled n' := by
  cases hchange : BankingService.changeStatus status verb refusal action none none k now n.world n.trail with
  | mk result rest =>
    obtain ⟨w, trail⟩ := rest
    simp only [Node.changeStatus, hchange] at h
    split_ifs at h with hidle
    obtain rfl := Option.some.inj h
    obtain ⟨hwal, htransactions, haccounts⟩ := BankingService.changeStatus_findById hchange
    obtain ⟨world, hn⟩ := hr.numbered
    obtain ⟨base, start, ledger, hj, hstored⟩ := hr.journaled
    obtain ⟨hstore, hj'⟩ := hj.rebase (idle_act hidle) hwal
    have hmoney : SameMoney w.accounts.findById ledger := by
      rw [← hstore]
      refine changeStatus_money (haccounts.imp id ?_)
      rintro ⟨a, version, ha, _, hsave⟩
      exact ⟨a, version, k, status, ha, hsave⟩
    refine ⟨⟨world, hn.setWorld hwal htransactions⟩, ?_, _, _, _, hj', ?_⟩
    · change Coherent w.wal
      rw [hwal]
      exact hr.coherent
    · rcases hstored with hnone | ⟨s, hload, hrec⟩
      · exact .inl hnone
      · obtain ⟨hsound, m, hm, hmixed⟩ := hrec.whole hj
        have hentries : ({ n.pipeline with world := w } : State Unit).entries = n.pipeline.entries :=
          congrArg WalLogger.entries hwal
        refine .inr ⟨s, hload, ?_⟩
        change Reconcilable s ({ n.pipeline with world := w } : State Unit).entries _ _
        rw [hentries]
        refine ⟨Nat.le_trans hrec.lsn_le hj.start_le, ?_, ⟨m, ?_, fun j => (hmoney j).trans (hmixed.money j),
          hmixed.status⟩, by simp [movements]⟩
        · rwa [List.take_length]
        · rwa [List.take_length]

theorem Reconciled.next (hr : Reconciled n) {event : NodeEvent} (hcrash : event.crashes = false)
    (hc : n.StaysReadable event) (ho : n.StaysOpen event) (h : n.next event = some n') : Reconciled n' := by
  cases event with
  | processOne t => exact hr.processOne hc h
  | act now => exact hr.act hc ho h
  | snapshot => exact hr.store hc h
  | crash c transactions => cases hcrash
  | freeze k now =>
    exact hr.changeStatus (show n.changeStatus (BankingService.changeStatus .frozen "freeze"
      "cannot freeze closed account" "account.frozen" none none k now) = some n' from h)
  | unfreeze k now =>
    exact hr.changeStatus (show n.changeStatus (BankingService.changeStatus .active "unfreeze"
      "cannot unfreeze closed account" "account.unfrozen" none none k now) = some n' from h)

theorem Reconciled.recovers (hr : Reconciled n) (hidle : n.idle = true) (hstored : n.snapshot.isSome) :
    ∃ accounts, recover n.disk = some accounts ∧
      SameMoney (findAccount accounts) n.world.accounts.findById := by
  obtain ⟨base, start, ledger, hj, hnone | ⟨s, hload, hrec⟩⟩ := hr.journaled
  · rw [hnone] at hstored
    cases hstored
  · obtain ⟨hsound, m, hm, hmixed⟩ := hrec.whole hj
    obtain ⟨hstore, _⟩ := hj.rebase (idle_act hidle) rfl
    obtain ⟨lines, tail, hl⟩ := hr.coherent
    have hfrom : (openFile n.world.wal.file).replayFrom s.lsn = n.world.wal.replayFrom s.lsn := by
      simp only [replayFrom, hl.reopen_entries]
    have hreplay := replay_run hsound s.accounts
    rw [show LocalActions.run post ((n.pipeline.entries.drop s.lsn).filterMap Entry.movement)
      (findAccount s.accounts) = some m from hm] at hreplay
    obtain ⟨accounts, haccounts, rfl⟩ := Option.map_eq_some_iff.mp hreplay
    refine ⟨accounts, ?_, fun k => ?_⟩
    · change (Snapshot.load n.snapshot).bind _ = _
      rw [hload, Option.bind_some]
      change (replay ((openFile n.world.wal.file).replayFrom s.lsn) s.accounts).toOption = _
      rw [hfrom]
      exact haccounts
    · have hk := hmixed.money k
      rw [← hstore] at hk
      exact hk.symm

/-- After any operations, with a snapshot stored between some of them, recovery finds the balance of
every account, as long as what was committed after a snapshot names only accounts active in it. -/
theorem run_reconciles {world : World} {data : Bytes} {events : List NodeEvent} (hwal : world.wal = openFile data)
    (hcrash : ∀ event ∈ events, event.crashes = false)
    (hs : Runs.Along Node.next (fun n event => n.StaysReadable event ∧ n.StaysOpen event) (create world) events)
    (h : (create world).run events = some n) (hidle : n.idle = true) (hstored : n.snapshot.isSome) :
    ∃ accounts, recover n.disk = some accounts ∧
      ∀ k, (findAccount accounts k).map (·.balance) = (n.world.accounts.findById k).map (·.balance) :=
  (Runs.run_preserves (fun hr hp hnext => Reconciled.next hr hp.1 hp.2.1 hp.2.2 hnext)
    (reconciled_create (hwal ▸ openFile_coherent data)) (hs.also hcrash) h).recovers hidle hstored

def activeSnapshot : List NodeEvent :=
  [.snapshot, .freeze 7 0, .unfreeze 7 0] ++ depositEvents ++ [.freeze 7 0]

theorem activeSnapshot_reconciles : ∃ n, (create (State.oneAccountWorld 7)).run activeSnapshot = some n ∧
    ∃ accounts, recover n.disk = some accounts ∧
      ∀ k, (findAccount accounts k).map (·.balance) = (n.world.accounts.findById k).map (·.balance) := by
  have hrun : ((create (State.oneAccountWorld 7)).run activeSnapshot).map (fun n => (n.idle, n.snapshot.isSome)) =
    some (true, true) := by decide +kernel
  obtain ⟨n, h, hn⟩ := Option.map_eq_some_iff.mp hrun
  obtain ⟨hidle, hstored⟩ := Prod.mk.inj hn
  exact ⟨n, h, run_reconciles (show (State.oneAccountWorld 7).wal = openFile [] from rfl) (by decide) (by decide +kernel) h hidle hstored⟩

def frozenSnapshot : List NodeEvent := [.freeze 7 0, .snapshot, .unfreeze 7 0] ++ depositEvents

theorem frozenSnapshot_throws : ∃ n s what, (create (State.oneAccountWorld 7)).run frozenSnapshot = some n ∧
    n.idle = true ∧ Snapshot.load n.snapshot = some s ∧
    replay (n.world.wal.replayFrom s.lsn) s.accounts = .error what := by
  have hrun : ((create (State.oneAccountWorld 7)).run frozenSnapshot).map (fun n => (n.idle,
      (Snapshot.load n.snapshot).map fun s => (replay (n.world.wal.replayFrom s.lsn) s.accounts).toOption)) =
    some (true, some none) := by decide +kernel
  obtain ⟨n, h, hn⟩ := Option.map_eq_some_iff.mp hrun
  obtain ⟨hidle, hreplay⟩ := Prod.mk.inj hn
  obtain ⟨s, hload, hnone⟩ := Option.map_eq_some_iff.mp hreplay
  cases hr : replay (n.world.wal.replayFrom s.lsn) s.accounts with
  | error what => exact ⟨n, s, what, h, hidle, hload, hr⟩
  | ok accounts =>
    rw [hr] at hnone
    cases hnone

end Node

end BankManagement
