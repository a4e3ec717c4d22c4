import BankManagement.PipelineWatch

namespace BankManagement

open Wal Codec

structure TransactionRecord.Matches (r r' : TransactionRecord) : Prop where
  id : r'.id = r.id
  type : r'.type = r.type
  fromId : r'.fromId = r.fromId
  toId : r'.toId = r.toId
  amount : r'.amount = r.amount

theorem stored_matches (r : TransactionRecord) : r.Matches (stored r) := by
  cases r
  exact ⟨rfl, rfl, rfl, rfl, rfl⟩

theorem Pc.Quiet.delivers {w : World} {pc pc' : Pc} (h : pc.Quiet w pc') {c : Call} {record : TransactionRecord}
    (ha : pc.act = some (.appendTransaction c record)) : pc'.act = some (.appendTransaction c record) := by
  cases h with
  | enter => exact ha
  | found => cases ha
  | locked => cases ha
  | loaded => cases ha
  | missing => cases ha
  | checked now => cases ha
  | saved => cases ha
  | noted entry => cases ha
  | audited => cases ha
  | unlocked => cases ha
  | settled => cases ha

namespace State

variable {ι : Type} {s s' : State ι} {i : ι}

def Delivers (s : State ι) (r : TransactionRecord) : Prop :=
  r ∈ s.world.transactions ∨ ∃ i pc c, s.threads i = some pc ∧ pc.act = some (.appendTransaction c r)

structure Balanced (s : State ι) : Prop where
  tracked : s.Tracked
  delivered : s.Delivered
  lines : ∀ e ∈ s.world.wal.entries, ∃ c now, e.id = Call.id c ∧ e.payload = serialize (c.record now)
  genuine : ∀ r, s.Delivers r → Achieved s.world.wal.entries r ∧ Decodable r ∧
    ∃ c now, r = { Call.record c now with state := .committed }
  complete : ∀ e ∈ s.world.wal.entries, e.state = .committed → ∃ r, s.Delivers r ∧ r.id = e.id

theorem init_balanced {world : World} (hw : world.wal.entries = []) (ht : world.transactions = []) :
    (init world : State ι).Balanced where
  tracked := tracked_init world
  delivered := delivered_init world
  lines := by simp [init, hw]
  genuine := by simp [Delivers, init, ht]
  complete := by simp [init, hw]

variable [DecidableEq ι]

theorem Moves.delivering {pc' : Pc} {r : TransactionRecord} (hm : Moves s s' i pc')
    (hi : (∃ c, pc'.act = some (.appendTransaction c r)) ↔
      ∃ pc c, s.threads i = some pc ∧ pc.act = some (.appendTransaction c r)) :
    (∃ j pc c, s'.threads j = some pc ∧ pc.act = some (.appendTransaction c r)) ↔
      ∃ j pc c, s.threads j = some pc ∧ pc.act = some (.appendTransaction c r) := by
  constructor
  · rintro ⟨j, pcj, c, hj, hr⟩
    rcases hm.cases hj with ⟨rfl, rfl⟩ | ⟨_, hj⟩
    · exact ⟨j, hi.mp ⟨c, hr⟩⟩
    · exact ⟨j, pcj, c, hj, hr⟩
  · rintro ⟨j, pcj, c, hj, hr⟩
    by_cases hji : j = i
    · subst hji
      obtain ⟨c, hr⟩ := hi.mpr ⟨pcj, c, hj, hr⟩
      exact ⟨j, pc', c, hm.self, hr⟩
    · exact ⟨j, pcj, c, by rw [hm.other hji, hj], hr⟩

theorem Moves.delivers {pc pc' : Pc} (hm : Moves s s' i pc') (hi : s.threads i = some pc)
    (ht : s'.world.transactions = s.world.transactions)
    (hact : ∀ c r, pc'.act = some (.appendTransaction c r) ↔ pc.act = some (.appendTransaction c r))
    (r : TransactionRecord) : s'.Delivers r ↔ s.Delivers r := by
  unfold Delivers
  rw [ht]
  apply or_congr_right
  apply hm.delivering
  constructor
  · rintro ⟨c, hr⟩
    exact ⟨pc, c, hi, (hact c r).mp hr⟩
  · rintro ⟨pc₁, c, hi₁, hr⟩
    obtain rfl := Option.some.inj (hi.symm.trans hi₁)
    exact ⟨c, (hact c r).mpr hr⟩

theorem Moves.delivers_record {held : List AccountId} {c : Call} {record : TransactionRecord}
    (hm : Moves s s' i (.audit held (.completed c record)))
    (hi : s.threads i = some (.inside held (.appendTransaction c record)))
    (ht : s'.world.transactions = s.world.transactions ++ [record]) (r : TransactionRecord) :
    s'.Delivers r ↔ s.Delivers r := by
  unfold Delivers
  rw [ht, List.mem_append, List.mem_singleton]
  constructor
  · rintro ((hr | rfl) | ⟨j, pcj, c', hj, hr⟩)
    · exact .inl hr
    · exact .inr ⟨i, _, c, hi, rfl⟩
    · rcases hm.cases hj with ⟨rfl, rfl⟩ | ⟨_, hj⟩
      · cases hr
      · exact .inr ⟨j, pcj, c', hj, hr⟩
  · rintro (hr | ⟨j, pcj, c', hj, hr⟩)
    · exact .inl (.inl hr)
    · by_cases hji : j = i
      · subst hji
        obtain rfl := Option.some.inj (hi.symm.trans hj)
        obtain ⟨rfl, rfl⟩ := Act.appendTransaction.inj (Option.some.inj hr)
        exact .inl (.inr rfl)
      · exact .inr ⟨j, pcj, c', by rw [hm.other hji, hj], hr⟩

omit [DecidableEq ι] in
theorem JournalEffect.lines_of_calls (h : JournalEffect s s' i)
    (hl : ∀ e ∈ s.world.wal.entries, ∃ c now, e.id = Call.id c ∧ e.payload = serialize (c.record now)) :
    ∀ e ∈ s'.world.wal.entries, ∃ c now, e.id = Call.id c ∧ e.payload = serialize (c.record now) := by
  intro e he
  cases h with
  | keep hw => exact hl e (hw ▸ he)
  | @append pc c now hi hjob hfresh hw =>
    rw [hw] at he
    rcases List.mem_append.mp he with he | he
    · exact hl e he
    · rw [List.mem_singleton.mp he]
      exact ⟨c, now, rfl, rfl⟩
  | @commit held c lsn now x hi hx hid hp hw =>
    rw [hw] at he
    rcases List.mem_or_eq_of_mem_set he with he | rfl
    · exact hl e he
    · exact ⟨c, now, hid, hp⟩

omit [DecidableEq ι] in
theorem Balanced.keep (h : s.Balanced) (ht : s'.Tracked) (hd : s'.Delivered) (hj : JournalEffect s s' i)
    (hback : ∀ e ∈ s'.world.wal.entries, e.state = .committed → e ∈ s.world.wal.entries)
    (hr : ∀ r, s'.Delivers r ↔ s.Delivers r) : s'.Balanced where
  tracked := ht
  delivered := hd
  lines := hj.lines_of_calls h.lines
  genuine r hs' := by
    obtain ⟨hachieved, hdec, hcall⟩ := h.genuine r ((hr r).mp hs')
    exact ⟨hj.achieved hachieved, hdec, hcall⟩
  complete e he hc := by
    obtain ⟨r, hs, hid⟩ := h.complete e (hback e he hc) hc
    exact ⟨r, (hr r).mpr hs, hid⟩

theorem Balanced.commit (h : s.Balanced) (ht : s'.Tracked) (hd : s'.Delivered) (hj : JournalEffect s s' i)
    {held : List AccountId} {c : Call} {lsn : ℕ} {record : TransactionRecord}
    (hi : s.threads i = some (.inside held (.markCommitted c lsn record))) (hdec : Decodable record)
    (hm : Moves s s' i (.want held (.appendTransaction c { record with state := .committed })))
    (hw : s'.world.wal = (s.world.wal.markCommitted c.id).2)
    (htxn : s'.world.transactions = s.world.transactions) : s'.Balanced := by
  obtain ⟨now, rfl⟩ := h.tracked.draft i _ c record hi rfl
  obtain ⟨e, he, hid, _, _, hr⟩ := h.tracked.commits_own hi
  have hentries : s'.world.wal.entries = s.world.wal.entries.set lsn { e with state := .committed } := by
    rw [hw, hr]
    rfl
  have hkept {r} (hr : s.Delivers r) : s'.Delivers r := by
    rcases hr with hr | ⟨j, pcj, c', hpc, hr⟩
    · exact .inl (htxn ▸ hr)
    · by_cases hji : j = i
      · subst hji
        obtain rfl := Option.some.inj (hi.symm.trans hpc)
        cases hr
      · exact .inr ⟨j, pcj, c', by rw [hm.other hji, hpc], hr⟩
  refine ⟨ht, hd, hj.lines_of_calls h.lines, ?_, ?_⟩
  · rintro r (hr | ⟨j, pcj, c', hj', hr⟩)
    · obtain ⟨hachieved, hrest⟩ := h.genuine r (.inl (htxn ▸ hr))
      exact ⟨hj.achieved hachieved, hrest⟩
    · rcases hm.cases hj' with ⟨rfl, rfl⟩ | ⟨_, hold⟩
      · obtain ⟨rfl, rfl⟩ := Act.appendTransaction.inj (Option.some.inj hr)
        exact ⟨hd.achieved j _ _ hj' rfl, hdec, c, now, rfl⟩
      · obtain ⟨hachieved, hrest⟩ := h.genuine r (.inr ⟨j, pcj, c', hold, hr⟩)
        exact ⟨hj.achieved hachieved, hrest⟩
  · intro x hx hc
    rw [hentries] at hx
    rcases List.mem_or_eq_of_mem_set hx with hx | rfl
    · obtain ⟨r, hs, hrid⟩ := h.complete x hx hc
      exact ⟨r, hkept hs, hrid⟩
    · exact ⟨_, .inr ⟨i, _, c, hm.self, rfl⟩, hid.symm⟩

theorem Balanced.step (h : s.Balanced) {now : TimePoint}
    (hdec : ∀ c record, s.committing i = some (c, record) → Decodable record)
    (hs : s.step i now none = some s') : s'.Balanced := by
  have ht := h.tracked.step hs
  have hd := h.delivered.step h.tracked hs
  have hj := h.tracked.step_journal hs
  have hsame (hw : s'.world.wal = s.world.wal) :
      ∀ e ∈ s'.world.wal.entries, e.state = .committed → e ∈ s.world.wal.entries := by
    rw [hw]
    exact fun e he _ => he
  have happended {held c record loaded} (hi : s.threads i = some (.inside held (.appendWal c record loaded)))
      (hw : s'.world.wal = s.world.wal.append record) :
      ∀ e ∈ s'.world.wal.entries, e.state = .committed → e ∈ s.world.wal.entries := by
    obtain ⟨now', rfl⟩ := h.tracked.draft i _ c record hi rfl
    rw [hw, append_entries]
    intro e he hc
    rcases List.mem_append.mp he with he | he
    · exact he
    · rw [List.mem_singleton.mp he] at hc
      cases hc
  cases step_effect hs with
  | quiet hi hm hq ha hw htxn =>
    apply h.keep ht hd hj (hsame hw)
    exact hm.delivers hi htxn fun c r => ⟨hq.act_appendTransaction c r, hq.delivers⟩
  | thrown what hf => cases hf
  | append hi happ hm ha hw htxn =>
    apply h.keep ht hd hj (happended hi hw)
    exact hm.delivers hi htxn fun c r => ⟨fun hact => (by cases hact), fun hact => (by cases hact)⟩
  | refused hi happ hm ha hw htxn =>
    apply h.keep ht hd hj (happended hi hw)
    exact hm.delivers hi htxn fun c r => ⟨fun hact => (by cases hact), fun hact => (by cases hact)⟩
  | save hi hm ha hw htxn =>
    apply h.keep ht hd hj (hsame hw)
    exact hm.delivers hi htxn fun c r => ⟨fun hact => (by cases hact), fun hact => (by cases hact)⟩
  | @commit held c lsn record hi hr hm ha hw htxn =>
    exact h.commit ht hd hj hi (hdec c record (by rw [committing, hi])) hm hw htxn
  | rejected hi hr hm ha hw =>
    obtain ⟨e, _, _, _, _, hok⟩ := h.tracked.commits_own hi
    rw [hok] at hr
    cases hr
  | record hi hm ha hw htxn => exact h.keep ht hd hj (hsame hw) (hm.delivers_record hi htxn)

theorem Balanced.start (h : s.Balanced) {job : Job} (hfresh : ∀ c, job = .processImpl c → s.FreshId c.id)
    (hs : s.start i job = some s') : s'.Balanced := by
  have ht := h.tracked.start hfresh hs
  have hd := h.delivered.start hs
  obtain ⟨hidle, rfl⟩ := start_eq_some hs
  have hm : Moves s (s.goto i job.entry) i job.entry := rfl
  refine h.keep ht hd (i := i) (.keep rfl) (fun e he _ => he) fun r => ?_
  apply or_congr_right
  apply hm.delivering
  constructor
  · rintro ⟨c, hr⟩
    exact absurd hr job.entry_act
  · rintro ⟨pc, c, hpc, hr⟩
    rcases hidle with hn | ⟨exit, hn⟩
    · cases hn.symm.trans hpc
    · obtain rfl := Option.some.inj (hn.symm.trans hpc)
      cases hr

omit [DecidableEq ι]

theorem record_id {e : Entry} {c : Call} {now : TimePoint} (hp : e.payload = serialize (c.record now))
    {r : TransactionRecord} (hr : WalLogger.record e = some r) : r.id = c.id := by
  rw [record_project hp] at hr
  split_ifs at hr
  obtain rfl := Option.some.inj hr
  rfl

theorem Balanced.line (h : s.Balanced) {r : TransactionRecord} (hr : s.Delivers r) :
    ∃ before e after, s.world.wal.entries = before ++ e :: after ∧ WalLogger.record e = some (stored r) ∧
      e.state = .committed ∧ e.id = r.id ∧ (∀ x ∈ before, x.id ≠ r.id) ∧ ∀ x ∈ after, x.id ≠ r.id := by
  obtain ⟨⟨lsn, e, he, hid, hstate, hpayload, hunique⟩, hdec, c, now, rfl⟩ := h.genuine r hr
  obtain ⟨hlt, hget⟩ := List.getElem?_eq_some_iff.mp he
  refine ⟨s.world.wal.entries.take lsn, e, s.world.wal.entries.drop (lsn + 1), ?_, ?_, hstate, hid, ?_, ?_⟩
  · rw [← hget, List.cons_getElem_drop_succ, List.take_append_drop]
  · have hline := @record_project e c.id now c.txn .validated hpayload
    rw [if_pos, hstate] at hline
    · exact hline
    · exact hdec
  · intro x hx hxid
    obtain ⟨j, hj⟩ := List.mem_iff_getElem?.mp hx
    rw [List.getElem?_take] at hj
    split_ifs at hj with hjl
    have hsame := hunique j x hj hxid
    omega
  · intro x hx hxid
    obtain ⟨j, hj⟩ := List.mem_iff_getElem?.mp hx
    rw [List.getElem?_drop] at hj
    have hsame := hunique _ x hj hxid
    omega

theorem Balanced.loadAll_ids (h : s.Balanced) {entries : List Entry} (hsub : ∀ e ∈ entries, e ∈ s.world.wal.entries)
    {x : TransactionId} (hx : ∀ e ∈ entries, e.id ≠ x) : ∀ r ∈ entries.filterMap WalLogger.record, r.id ≠ x := by
  intro r hr
  obtain ⟨e, he, hr⟩ := List.mem_filterMap.mp hr
  obtain ⟨c, now, hid, hp⟩ := h.lines e (hsub e he)
  rw [record_id hp hr, ← hid]
  exact hx e he

theorem Balanced.found (h : s.Balanced) {r : TransactionRecord} (hr : s.Delivers r) :
    s.world.wal.loadAll.filter (fun r' => r'.id = r.id) = [stored r] := by
  obtain ⟨before, e, after, hentries, hrecord, _, _, hbefore, hafter⟩ := h.line hr
  have hnone {entries : List Entry} (hsub : ∀ x ∈ entries, x ∈ s.world.wal.entries) (hx : ∀ x ∈ entries, x.id ≠ r.id) :
      (entries.filterMap WalLogger.record).filter (fun r' => r'.id = r.id) = [] := by
    apply List.filter_eq_nil_iff.mpr
    intro r' hr'
    simpa using h.loadAll_ids hsub hx r' hr'
  rw [WalLogger.loadAll, hentries, List.filterMap_append, List.filterMap_cons_some hrecord, List.filter_append,
    List.filter_cons_of_pos (by simp [stored_id]), hnone (by simp +contextual [hentries]) hbefore,
    hnone (by simp +contextual [hentries]) hafter, List.nil_append]

theorem Balanced.mem_committed (h : s.Balanced) {x : TransactionRecord} :
    x ∈ s.world.wal.loadAll.filter (·.state = .committed) ↔ ∃ r, s.Delivers r ∧ stored r = x := by
  rw [List.mem_filter]
  constructor
  · rintro ⟨hx, hc⟩
    obtain ⟨e, he, hrecord⟩ := List.mem_filterMap.mp hx
    have hstate : e.state = .committed := by simpa [record_state hrecord] using hc
    obtain ⟨r, hr, hid⟩ := h.complete e he hstate
    refine ⟨r, hr, ?_⟩
    obtain ⟨c, now, heid, hp⟩ := h.lines e he
    have hmem : x ∈ s.world.wal.loadAll.filter (fun r' => r'.id = r.id) := by
      apply List.mem_filter.mpr
      refine ⟨hx, ?_⟩
      rw [record_id hp hrecord, hid, heid]
      simp
    rw [h.found hr] at hmem
    exact (List.mem_singleton.mp hmem).symm
  · rintro ⟨r, hr, rfl⟩
    obtain ⟨before, e, after, hentries, hrecord, hstate, _⟩ := h.line hr
    refine ⟨List.mem_filterMap.mpr ⟨e, by simp [hentries], hrecord⟩, ?_⟩
    rw [record_state hrecord, hstate]
    simp

theorem Balanced.committed_nodup (h : s.Balanced) : (s.world.wal.loadAll.filter (·.state = .committed)).Nodup := by
  rw [List.nodup_iff_count_le_one]
  intro x
  by_cases hx : x ∈ s.world.wal.loadAll.filter (·.state = .committed)
  · obtain ⟨r, hr, rfl⟩ := h.mem_committed.mp hx
    have hid := stored_id r
    calc
      _ ≤ s.world.wal.loadAll.count (stored r) := List.filter_sublist.count_le _
      _ = (s.world.wal.loadAll.filter (·.id = r.id)).count (stored r) := (List.count_filter (by simp [hid])).symm
      _ = 1 := by rw [h.found hr, List.count_singleton_self]
  · rw [List.count_eq_zero_of_not_mem hx]
    exact Nat.zero_le 1

theorem Balanced.perm (h : s.Balanced) (hn : (s.world.transactions.map (·.id)).Nodup) (hidle : ∀ i, s.Idle i) :
    (s.world.transactions.map stored).Perm (s.world.wal.loadAll.filter (·.state = .committed)) := by
  have hdelivers (r : TransactionRecord) : s.Delivers r ↔ r ∈ s.world.transactions := by
    constructor
    · rintro (hr | ⟨i, pc, c, hi, hr⟩)
      · exact hr
      · rcases hidle i with hn | ⟨exit, hn⟩
        · rw [hn] at hi
          cases hi
        · obtain rfl := Option.some.inj (hn.symm.trans hi)
          cases hr
    · exact .inl
  have hids : ((s.world.transactions.map stored).map (·.id)).Nodup := by
    have hsame : (·.id) ∘ stored = TransactionRecord.id := funext stored_id
    rw [List.map_map, hsame]
    exact hn
  apply (List.perm_ext_iff_of_nodup (hids.of_map _) h.committed_nodup).mpr
  intro x
  rw [h.mem_committed, List.mem_map]
  simp only [hdelivers]

end State

namespace Watched

open State

variable {ι : Type} {w w' : Watched ι}

structure Agrees (w : Watched ι) : Prop where
  journaled : ∀ r ∈ w.pipeline.world.transactions, ∃ r',
    w.pipeline.world.wal.loadAll.filter (fun x => x.id = r.id) = [r'] ∧ r'.state = .committed ∧ r.Matches r'
  once : (w.pipeline.world.transactions.map (·.id)).Nodup
  settled : (∀ i, w.pipeline.Idle i) → (w.pipeline.world.transactions.map stored).Perm
    (w.pipeline.world.wal.loadAll.filter (·.state = .committed))
  trail : w.written.map (·.2) = w.pipeline.world.audit
  returns : ∀ p ∈ w.exits, ∃ result, p.2 = .returned result
  completed : ∀ c r, (c, .returned (.success r)) ∈ w.exits →
    (∃ e, w.entriesOf c.id = [e] ∧ e.action = "txn.completed") ∧ w.recordsOf c.id = [r]
  failed : ∀ c what, (c, .returned (.failure what)) ∈ w.exits →
    (∃ e, w.entriesOf c.id = [e] ∧ e.action = "txn.failed") ∧ w.recordsOf c.id = []

structure Reconciled (w : Watched ι) : Prop where
  accounted : w.Accounted
  balanced : w.pipeline.Balanced

theorem Reconciled.agrees (hw : w.Reconciled) : w.Agrees where
  journaled r hr := by
    obtain ⟨_, _, c, now, hrecord⟩ := hw.balanced.genuine r (.inl hr)
    refine ⟨stored r, hw.balanced.found (.inl hr), ?_, stored_matches r⟩
    rw [hrecord]
    rfl
  once := hw.accounted.once
  settled hidle := hw.balanced.perm hw.accounted.once hidle
  trail := hw.accounted.trail
  returns := by
    rintro ⟨c, exit⟩ hp
    obtain ⟨hstand, _⟩ := hw.accounted.ended _ hp
    cases exit with
    | returned result => exact ⟨result, rfl⟩
    | thrown what => cases hstand
    | unlocked => cases hstand
  completed c r hp := by
    obtain ⟨⟨hrecords, hentries⟩, _⟩ := hw.accounted.ended _ hp
    exact ⟨hentries, hrecords⟩
  failed c what hp := by
    obtain ⟨⟨hrecords, hentries⟩, _⟩ := hw.accounted.ended _ hp
    exact ⟨hentries, hrecords⟩

variable [DecidableEq ι]

theorem Reconciled.next (hw : w.Reconciled) {label : Label ι} (hu : ∀ x, label.callId = some x → w.Unused x)
    (hf : label.fault = none) (hd : w.pipeline.CommitsDecodable label) (hn : w.next label = some w') :
    w'.Reconciled := by
  refine ⟨hw.accounted.next hu hf hn, ?_⟩
  have hs := next_pipeline hn
  cases label with
  | begin i job =>
    refine hw.balanced.start (fun c hc => ?_) hs
    subst hc
    exact (hu c.id rfl).fresh
  | act i now fault =>
    obtain rfl : fault = none := hf
    exact hw.balanced.step (fun c record hc => hd (c, record) hc) hs

/-- In a run with distinct ids, without throws, and in which every record committed reads back, the
transactions, the journal and the audit trail agree. -/
theorem run_agrees {world : World} (hwal : world.wal = openFile []) (htxn : world.transactions = [])
    (haudit : world.audit = []) {labels : List (Label ι)} (h : (init world).run labels = some w)
    (hids : (labels.filterMap Label.callId).Nodup) (hfaults : ∀ label ∈ labels, label.fault = none)
    (hd : Runs.Along next (fun w label => w.pipeline.CommitsDecodable label) (init world) labels) : w.Agrees := by
  have hempty : world.wal.entries = [] := by rw [hwal]; rfl
  have hw : w.Reconciled := by
    refine Runs.run_distinct ?_ ?_ ⟨init_accounted htxn haudit, init_balanced hempty htxn⟩
      (fun x _ => init_unused hempty htxn x) hids (hd.also hfaults) h
    · rintro w label w' hw hu ⟨hf, hd⟩ hn
      exact hw.next hu hf hd hn
    · rintro w label w' x hw hx hne ⟨hf, _⟩ hn
      exact hx.next hw.accounted hne hf hn
  exact hw.agrees

theorem depositRun_agrees : ∃ w, (init (oneAccountWorld 7)).run (depositRun 7) = some w ∧ w.Agrees := by
  have hsome : ((State.init (oneAccountWorld 7)).run (depositRun 7)).isSome := by decide +kernel
  obtain ⟨s, hs⟩ := Option.isSome_iff_exists.mp hsome
  obtain ⟨w, h, _⟩ := exists_run hs
  refine ⟨w, h, run_agrees rfl rfl rfl h (by decide) (by decide) ?_⟩
  apply Runs.Along.of_map map_pipeline
  decide +kernel

theorem depositRun_disagrees : ∃ w, (init (oneAccountWorld 0x8000000000000000)).run
      (depositRun 0x8000000000000000) = some w ∧ (∀ i, w.pipeline.Idle i) ∧ ¬ w.Agrees := by
  have hrun : ((State.init (oneAccountWorld 0x8000000000000000)).run (depositRun 0x8000000000000000)).map (fun s =>
      (s.exitOf () |>.isSome, s.world.transactions.length, s.world.wal.loadAll)) = some (true, 1, []) := by
    decide +kernel
  obtain ⟨s, hs, hw⟩ := Option.map_eq_some_iff.mp hrun
  obtain ⟨w, h, rfl⟩ := exists_run hs
  obtain ⟨hexit, hw⟩ := Prod.mk.inj hw
  obtain ⟨hlength, hload⟩ := Prod.mk.inj hw
  obtain ⟨exit, hexit⟩ := Option.isSome_iff_exists.mp hexit
  refine ⟨w, h, fun i => .inr ⟨exit, exitOf_eq_some hexit⟩, fun hagrees => ?_⟩
  obtain ⟨r, hr⟩ := List.length_eq_one_iff.mp hlength
  obtain ⟨r', hfound, _⟩ := hagrees.journaled r (by simp [hr])
  rw [hload] at hfound
  cases hfound

end Watched

end BankManagement
