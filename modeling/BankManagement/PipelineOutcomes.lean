import BankManagement.PipelineIds

namespace BankManagement

open Wal Codec

def Act.job : Act → Job
  | .mutexFor job _ _ => job
  | .load c _ _ => .processImpl c
  | .appendWal c _ _ => .processImpl c
  | .save c _ _ _ _ => .processImpl c
  | .markCommitted c _ _ => .processImpl c
  | .appendTransaction c _ => .processImpl c
  | .appendAudit _ note => .processImpl note.call

def Job.call : Job → Option Call
  | .processImpl c => some c
  | .lockPair .. => none

def Result.value? {α : Type} : Result α → Option α
  | .success value => some value
  | .failure _ => none

def Act.outcome : Act → Option TransactionRecord
  | .appendTransaction _ record => some record
  | .appendAudit _ note => note.result.value?
  | _ => none

def Exit.outcome : Exit → Option TransactionRecord
  | .returned result => result.value?
  | _ => none

namespace Pc

def job : Pc → Option Job
  | .want _ act => some act.job
  | .inside _ act => some act.job
  | .lock job _ _ _ => some job
  | .audit _ note => some (.processImpl note.call)
  | .unlock job _ _ => some job
  | .finished _ => none

def outcome : Pc → Option TransactionRecord
  | .want _ act => act.outcome
  | .inside _ act => act.outcome
  | .audit _ note => note.result.value?
  | .unlock _ _ exit => exit.outcome
  | .finished exit => exit.outcome
  | .lock _ _ _ _ => none

structure Continues (pc pc' : Pc) : Prop where
  job : ∀ job, pc'.job = some job → pc.job = some job
  outcome : ∀ r, pc'.outcome = some r → pc.outcome = some r

end Pc

theorem Job.lockNext_job (job : Job) (held todo : List AccountId) : (job.lockNext held todo).job = some job := by
  cases todo <;> cases job <;> rfl

theorem Job.lockNext_outcome (job : Job) (held todo : List AccountId) : (job.lockNext held todo).outcome = none := by
  cases todo <;> cases job <;> rfl

theorem Job.entry_job (job : Job) : job.entry.job = some job := by
  cases job with
  | processImpl c =>
    simp only [Job.entry]
    split_ifs
    · rfl
    · exact Job.lockNext_job _ _ _
  | lockPair first second => exact Job.lockNext_job _ _ _

theorem Job.lockNext_act (job : Job) (held todo : List AccountId) {c : Call} {record : TransactionRecord} :
    (job.lockNext held todo).act ≠ some (.appendTransaction c record) := by
  cases todo <;> cases job <;> simp [lockNext, locked, Pc.act]

theorem Job.entry_act {job : Job} {c : Call} {record : TransactionRecord} :
    job.entry.act ≠ some (.appendTransaction c record) := by
  cases job with
  | processImpl c =>
    simp only [Job.entry]
    split_ifs
    · simp [Pc.act]
    · exact Job.lockNext_act _ _ _
  | lockPair first second => exact Job.lockNext_act _ _ _

theorem Job.entry_outcome (job : Job) : job.entry.outcome = none := by
  cases job with
  | processImpl c =>
    simp only [Job.entry]
    split_ifs
    · rfl
    · exact Job.lockNext_outcome _ _ _
  | lockPair first second => exact Job.lockNext_outcome _ _ _

theorem Exit.settle_continues (job : Job) (exit : Exit) : (Pc.unlock job [] exit).Continues (exit.settle job) := by
  cases job with
  | processImpl c =>
    cases exit with
    | returned result => exact ⟨fun j hj => (by cases hj), fun r hr => hr⟩
    | thrown what => exact ⟨fun j hj => hj, fun r hr => hr⟩
    | unlocked => exact ⟨fun j hj => (by cases hj), fun r hr => hr⟩
  | lockPair first second => exact ⟨fun j hj => (by cases hj), fun r hr => hr⟩

theorem Act.thrown_continues (act : Act) (held : List AccountId) (what : Exn) :
    (Pc.inside held act).Continues (act.thrown held what) := by
  cases act with
  | appendAudit entry note =>
    simp only [Act.thrown]
    split_ifs
    · exact ⟨fun j hj => (by cases hj), fun r hr => (by cases hr)⟩
    · exact ⟨fun j hj => hj, fun r hr => by cases hr⟩
  | mutexFor _ _ _ => exact ⟨fun j hj => hj, fun r hr => by cases hr⟩
  | load _ _ _ => exact ⟨fun j hj => hj, fun r hr => by cases hr⟩
  | appendWal _ _ _ => exact ⟨fun j hj => hj, fun r hr => by cases hr⟩
  | save _ _ _ _ _ => exact ⟨fun j hj => hj, fun r hr => by cases hr⟩
  | markCommitted _ _ _ => exact ⟨fun j hj => hj, fun r hr => by cases hr⟩
  | appendTransaction _ _ => exact ⟨fun j hj => hj, fun r hr => by cases hr⟩

theorem Pc.Quiet.continues {w : World} {pc pc' : Pc} (h : pc.Quiet w pc') : pc.Continues pc' := by
  cases h with
  | enter => exact ⟨fun j hj => hj, fun r hr => hr⟩
  | found => exact ⟨fun j hj => hj, fun r hr => by cases hr⟩
  | locked =>
    refine ⟨fun j hj => ?_, fun r hr => ?_⟩
    · rwa [Job.lockNext_job] at hj
    · rw [Job.lockNext_outcome] at hr
      cases hr
  | loaded => exact ⟨fun j hj => hj, fun r hr => by cases hr⟩
  | missing => exact ⟨fun j hj => hj, fun r hr => by cases hr⟩
  | checked now =>
    unfold validated
    split_ifs
    · exact ⟨fun j hj => hj, fun r hr => by cases hr⟩
    · exact ⟨fun j hj => hj, fun r hr => by cases hr⟩
  | saved => exact ⟨fun j hj => hj, fun r hr => by cases hr⟩
  | noted entry => exact ⟨fun j hj => hj, fun r hr => hr⟩
  | audited => exact ⟨fun j hj => hj, fun r hr => hr⟩
  | unlocked => exact ⟨fun j hj => hj, fun r hr => hr⟩
  | settled => exact Exit.settle_continues _ _

theorem Pc.Quiet.act_appendTransaction {w : World} {pc pc' : Pc} (h : pc.Quiet w pc') (c : Call)
    (record : TransactionRecord) (ha : pc'.act = some (.appendTransaction c record)) :
    pc.act = some (.appendTransaction c record) := by
  cases h with
  | enter => exact ha
  | @locked job held k todo => exact absurd ha (job.lockNext_act _ _)
  | checked now =>
    unfold validated at ha
    split_ifs at ha <;> cases ha
  | @settled job exit => cases job <;> cases exit <;> cases ha
  | found => cases ha
  | loaded => cases ha
  | missing => cases ha
  | saved => cases ha
  | noted entry => cases ha
  | audited => cases ha
  | unlocked => cases ha

theorem Act.thrown_act (act : Act) (held : List AccountId) (what : Exn) : (act.thrown held what).act = none := by
  cases act with
  | appendAudit entry note =>
    simp only [Act.thrown]
    split_ifs <;> rfl
  | mutexFor _ _ _ => rfl
  | load _ _ _ => rfl
  | appendWal _ _ _ => rfl
  | save _ _ _ _ _ => rfl
  | markCommitted _ _ _ => rfl
  | appendTransaction _ _ => rfl

def Achieved (entries : List Entry) (r : TransactionRecord) : Prop :=
  ∃ (lsn : ℕ) (e : Entry), entries[lsn]? = some e ∧ e.id = r.id ∧ e.state = .committed ∧
    e.payload = serialize { r with state := .validated } ∧
    ∀ (j : ℕ) (e' : Entry), entries[j]? = some e' → e'.id = r.id → j = lsn

theorem Achieved.append {entries : List Entry} {r : TransactionRecord} (h : Achieved entries r) {e : Entry}
    (hfresh : ∀ e' ∈ entries, e'.id ≠ e.id) : Achieved (entries ++ [e]) r := by
  obtain ⟨lsn, x, hx, hid, hstate, hpayload, hunique⟩ := h
  refine ⟨lsn, x, ?_, hid, hstate, hpayload, fun j e' hj hid' => ?_⟩
  · rw [List.getElem?_append_left (List.getElem?_eq_some_iff.mp hx).1, hx]
  · rcases State.getElem?_append_single hj with hj | ⟨_, rfl⟩
    · exact hunique j e' hj hid'
    · exact absurd (hid.trans hid'.symm) (hfresh x (List.mem_of_getElem? hx))

theorem Achieved.commit {entries : List Entry} {r : TransactionRecord} (h : Achieved entries r) {lsn : ℕ}
    {e : Entry} (he : entries[lsn]? = some e) : Achieved (entries.set lsn { e with state := .committed }) r := by
  obtain ⟨k, x, hx, hid, hstate, hpayload, hunique⟩ := h
  have hothers : ∀ j e', (entries.set lsn { e with state := .committed })[j]? = some e' → e'.id = r.id → j = k := by
    intro j e' hj hid'
    obtain ⟨y, hy, hyid, _⟩ := State.committed_back he hj
    exact hunique j y hy (hyid.trans hid')
  by_cases hl : lsn = k
  · subst hl
    obtain rfl := Option.some.inj (he.symm.trans hx)
    exact ⟨lsn, _, List.getElem?_set_self (List.getElem?_eq_some_iff.mp he).1, hid, rfl, hpayload, hothers⟩
  · exact ⟨k, x, by rw [List.getElem?_set_ne hl, hx], hid, hstate, hpayload, hothers⟩

namespace State

variable {ι : Type} {s s' : State ι} {i : ι}

structure Delivered (s : State ι) : Prop where
  achieved : ∀ i pc r, s.threads i = some pc → pc.outcome = some r → Achieved s.world.wal.entries r
  own : ∀ i pc c record, s.threads i = some pc → pc.act = some (.appendTransaction c record) →
    ∃ now, record = { c.record now with state := .committed }

def exitOf (s : State ι) (i : ι) : Option Exit :=
  match s.threads i with
  | some (.finished exit) => some exit
  | _ => none

theorem exitOf_eq_some {exit : Exit} (h : s.exitOf i = some exit) : s.threads i = some (.finished exit) := by
  unfold exitOf at h
  split at h
  · obtain rfl := Option.some.inj h
    assumption
  · cases h

def callOf (s : State ι) (i : ι) : Option Call := ((s.threads i).bind Pc.job).bind Job.call

theorem delivered_init (world : World) : Delivered (init world : State ι) :=
  ⟨by simp [init], by simp [init]⟩

theorem callOf_eq_some {c : Call} : s.callOf i = some c ↔ ∃ pc, s.threads i = some pc ∧ pc.job = some (.processImpl c) := by
  constructor
  · intro h
    obtain ⟨job, hjob, hc⟩ := Option.bind_eq_some_iff.mp h
    obtain ⟨pc, hi, hpc⟩ := Option.bind_eq_some_iff.mp hjob
    refine ⟨pc, hi, ?_⟩
    cases job with
    | processImpl c' =>
      obtain rfl := Option.some.inj hc
      exact hpc
    | lockPair first second => cases hc
  · rintro ⟨pc, hi, hpc⟩
    rw [callOf, hi, Option.bind_some, hpc]
    rfl

theorem Idle.callOf (h : s.Idle i) : s.callOf i = none := by
  rcases h with h | ⟨exit, h⟩ <;> rw [State.callOf, h] <;> rfl

variable [DecidableEq ι]

theorem step_job {now : TimePoint} {fault : Option Exn} (h : s.step i now fault = some s') :
    ∃ pc pc', s.threads i = some pc ∧ Moves s s' i pc' ∧ ∀ job, pc'.job = some job → pc.job = some job := by
  cases step_effect h with
  | quiet hi hm hq => exact ⟨_, _, hi, hm, hq.continues.job⟩
  | thrown what hf hi hm => exact ⟨_, _, hi, hm, (Act.thrown_continues _ _ _).job⟩
  | append hi happ hm => exact ⟨_, _, hi, hm, fun job hj => hj⟩
  | refused hi happ hm => exact ⟨_, _, hi, hm, fun job hj => hj⟩
  | save hi hm => exact ⟨_, _, hi, hm, fun job hj => hj⟩
  | commit hi hr hm => exact ⟨_, _, hi, hm, fun job hj => hj⟩
  | rejected hi hr hm => exact ⟨_, _, hi, hm, fun job hj => hj⟩
  | record hi hm => exact ⟨_, _, hi, hm, fun job hj => hj⟩

theorem Moves.callOf {pc pc' : Pc} (hm : Moves s s' i pc') (hi : s.threads i = some pc)
    (hjob : ∀ job, pc'.job = some job → pc.job = some job) {j : ι} {c : Call} (hj : s'.callOf j = some c) :
    s.callOf j = some c := by
  obtain ⟨pcj, hj, hc⟩ := callOf_eq_some.mp hj
  apply callOf_eq_some.mpr
  rcases hm.cases hj with ⟨rfl, rfl⟩ | ⟨_, hj⟩
  · exact ⟨pc, hi, hjob _ hc⟩
  · exact ⟨pcj, hj, hc⟩

theorem Delivered.move (hd : Delivered s) {pc pc' : Pc} (hi : s.threads i = some pc) (hm : Moves s s' i pc')
    (hentries : ∀ r, Achieved s.world.wal.entries r → Achieved s'.world.wal.entries r)
    (houtcome : ∀ r, pc'.outcome = some r → pc.outcome = some r ∨ Achieved s'.world.wal.entries r)
    (hown : ∀ c record, pc'.act = some (.appendTransaction c record) →
      pc.act = some (.appendTransaction c record) ∨ ∃ now, record = { c.record now with state := .committed }) :
    Delivered s' := by
  constructor
  · intro j pcj r hj hr
    rcases hm.cases hj with ⟨rfl, rfl⟩ | ⟨_, hj⟩
    · rcases houtcome r hr with hr | hr
      · exact hentries r (hd.achieved _ pc r hi hr)
      · exact hr
    · exact hentries r (hd.achieved j pcj r hj hr)
  · intro j pcj c record hj hact
    rcases hm.cases hj with ⟨rfl, rfl⟩ | ⟨_, hj⟩
    · rcases hown c record hact with hact | hnow
      · exact hd.own _ pc c record hi hact
      · exact hnow
    · exact hd.own j pcj c record hj hact

inductive JournalEffect (s s' : State ι) (i : ι) : Prop
  | keep (hw : s'.world.wal = s.world.wal)
  | append {pc c} (now : TimePoint) (hi : s.threads i = some pc) (hjob : pc.job = some (.processImpl c))
    (hfresh : ∀ e ∈ s.world.wal.entries, e.id ≠ c.id)
    (hw : s'.world.wal.entries = s.world.wal.entries ++ [appended (c.record now) s.world.wal])
  | commit {held c lsn now e} (hi : s.threads i = some (.inside held (.markCommitted c lsn (c.record now))))
    (he : s.world.wal.entries[lsn]? = some e) (hid : e.id = c.id) (hp : e.payload = serialize (c.record now))
    (hw : s'.world.wal.entries = s.world.wal.entries.set lsn { e with state := .committed })

theorem Tracked.step_journal (ht : Tracked s) {now : TimePoint} {fault : Option Exn}
    (h : s.step i now fault = some s') : JournalEffect s s' i := by
  have happended {held c record loaded} (hi : s.threads i = some (.inside held (.appendWal c record loaded)))
      (hw : s'.world.wal = s.world.wal.append record) : JournalEffect s s' i := by
    obtain ⟨now', rfl⟩ := ht.draft i _ c record hi rfl
    exact .append now' hi rfl (ht.fresh i _ c.id hi rfl) (by rw [hw, append_entries])
  cases step_effect h with
  | quiet hi hm hq ha hw => exact .keep hw
  | thrown what hf hi hm hw => exact .keep (by rw [hw])
  | append hi happ hm ha hw => exact happended hi hw
  | refused hi happ hm ha hw => exact happended hi hw
  | save hi hm ha hw => exact .keep hw
  | @commit held c lsn record hi hr hm ha hw =>
    obtain ⟨e, he, hid, _, hpayload, hcommit⟩ := ht.commits_own hi
    obtain ⟨now', rfl⟩ := ht.draft i _ c record hi rfl
    refine .commit hi he hid hpayload ?_
    rw [hw, hcommit]
    rfl
  | rejected hi hr hm ha hw =>
    obtain ⟨_, _, _, _, _, hok⟩ := ht.commits_own hi
    rw [hok] at hr
    cases hr
  | record hi hm ha hw => exact .keep hw

omit [DecidableEq ι] in
theorem JournalEffect.achieved (h : JournalEffect s s' i) {r : TransactionRecord}
    (hr : Achieved s.world.wal.entries r) : Achieved s'.world.wal.entries r := by
  cases h with
  | keep hw => rwa [hw]
  | append now hi hjob hfresh hw =>
    rw [hw]
    exact hr.append hfresh
  | commit hi he hid hp hw =>
    rw [hw]
    exact hr.commit he

theorem Delivered.step (hd : Delivered s) (ht : Tracked s) {now : TimePoint} {fault : Option Exn}
    (h : s.step i now fault = some s') : Delivered s' := by
  have hsame {pc pc' : Pc} (hi : s.threads i = some pc) (hm : Moves s s' i pc') (hw : s'.world.wal = s.world.wal)
      (hc : pc.Continues pc')
      (hown : ∀ c record, pc'.act = some (.appendTransaction c record) → pc.act = some (.appendTransaction c record)) :
      Delivered s' := by
    refine hd.move hi hm (fun r hr => ?_) (fun r hr => .inl (hc.outcome r hr)) (fun c record hact => .inl (hown c record hact))
    rwa [hw]
  have hkept (r : TransactionRecord) (hr : Achieved s.world.wal.entries r) : Achieved s'.world.wal.entries r :=
    (ht.step_journal h).achieved hr
  cases step_effect h with
  | quiet hi hm hq ha hw => exact hsame hi hm hw hq.continues hq.act_appendTransaction
  | thrown what hf hi hm hw =>
    exact hsame hi hm (by rw [hw]) (Act.thrown_continues _ _ _) (by simp [Act.thrown_act])
  | append hi happ hm ha hw =>
    exact hd.move hi hm hkept (fun r hr => (by cases hr)) (fun c record hact => (by cases hact))
  | refused hi happ hm ha hw =>
    exact hd.move hi hm hkept (fun r hr => (by cases hr)) (fun c record hact => (by cases hact))
  | save hi hm ha hw => exact hsame hi hm hw ⟨fun job hj => hj, fun r hr => (by cases hr)⟩ (by simp [Pc.act])
  | @commit held c lsn record hi hr hm ha hw =>
    obtain ⟨e, he, hid, _, hpayload, hcommit⟩ := ht.commits_own hi
    obtain ⟨now, rfl⟩ := ht.draft i _ c record hi rfl
    have hentries : s'.world.wal.entries = s.world.wal.entries.set lsn { e with state := .committed } := by
      rw [hw, hcommit]
      rfl
    refine hd.move hi hm hkept (fun r hr => .inr ?_) (fun c' record hact => .inr ?_)
    · obtain rfl := Option.some.inj hr
      rw [hentries]
      refine ⟨lsn, _, List.getElem?_set_self (List.getElem?_eq_some_iff.mp he).1, hid, rfl, hpayload, ?_⟩
      intro j x hx hxid
      obtain ⟨y, hy, hyid, _⟩ := committed_back he hx
      exact ht.unique i _ c lsn _ hi rfl j y hy (hyid.trans hxid)
    · obtain ⟨rfl, rfl⟩ := Act.appendTransaction.inj (Option.some.inj hact)
      exact ⟨now, rfl⟩
  | rejected hi hr hm ha hw =>
    obtain ⟨e, _, _, _, _, hok⟩ := ht.commits_own hi
    rw [hok] at hr
    cases hr
  | record hi hm ha hw => exact hsame hi hm hw ⟨fun job hj => hj, fun r hr => hr⟩ (by simp [Pc.act])

theorem Delivered.start (hd : Delivered s) {job : Job} (h : s.start i job = some s') : Delivered s' := by
  obtain ⟨_, rfl⟩ := start_eq_some h
  have hm : Moves s (s.goto i job.entry) i job.entry := rfl
  constructor
  · intro j pcj r hj hr
    rcases hm.cases hj with ⟨rfl, rfl⟩ | ⟨_, hj⟩
    · rw [job.entry_outcome] at hr
      cases hr
    · exact hd.achieved j pcj r hj hr
  · intro j pcj c record hj hact
    rcases hm.cases hj with ⟨rfl, rfl⟩ | ⟨_, hj⟩
    · exact absurd hact job.entry_act
    · exact hd.own j pcj c record hj hact

omit [DecidableEq ι] in
theorem JournalEffect.lines (h : JournalEffect s s' i) :
    (s'.world.wal.entries.length = s.world.wal.entries.length ∧
      ∀ (j : ℕ) e', s'.world.wal.entries[j]? = some e' →
        ∃ e, s.world.wal.entries[j]? = some e ∧ e.id = e'.id ∧ e.payload = e'.payload) ∨
    ∃ pc c now' e, s.threads i = some pc ∧ pc.job = some (.processImpl c) ∧ e.id = c.id ∧
      e.payload = serialize (c.record now') ∧ s'.world.wal.entries = s.world.wal.entries ++ [e] := by
  cases h with
  | keep hw =>
    rw [hw]
    exact .inl ⟨rfl, fun j e' he' => ⟨e', he', rfl, rfl⟩⟩
  | append now hi hjob hfresh hw => exact .inr ⟨_, _, now, _, hi, hjob, rfl, rfl, hw⟩
  | commit hi he hid hp hw =>
    rw [hw]
    exact .inl ⟨List.length_set, fun j e' he' => committed_back he he'⟩

theorem Tracked.step_entries (ht : Tracked s) {now : TimePoint} {fault : Option Exn}
    (h : s.step i now fault = some s') {e : Entry} (he : e ∈ s.world.wal.entries) :
    ∃ e' ∈ s'.world.wal.entries, e'.id = e.id ∧ e'.payload = e.payload := by
  rcases (ht.step_journal h).lines with ⟨hlen, hback⟩ | ⟨_, _, _, _, _, _, _, _, hentries⟩
  · obtain ⟨j, hj⟩ := List.mem_iff_getElem?.mp he
    have hlt : j < s'.world.wal.entries.length := hlen ▸ (List.getElem?_eq_some_iff.mp hj).1
    have hget := List.getElem?_eq_getElem hlt
    obtain ⟨x, hx, hid, hpayload⟩ := hback j _ hget
    obtain rfl := Option.some.inj (hj.symm.trans hx)
    exact ⟨_, List.mem_of_getElem? hget, hid.symm, hpayload.symm⟩
  · exact ⟨e, by rw [hentries]; exact List.mem_append_left _ he, rfl, rfl⟩

theorem Delivered.step_transactions (hd : Delivered s) {now : TimePoint} {fault : Option Exn}
    (h : s.step i now fault = some s') :
    s'.world.transactions = s.world.transactions ∨
      ∃ pc c now', s.threads i = some pc ∧ pc.job = some (.processImpl c) ∧
        s'.world.transactions = s.world.transactions ++ [{ c.record now' with state := .committed }] := by
  cases step_effect h with
  | quiet hi hm hq ha hw ht => exact .inl ht
  | thrown what hf hi hm hw => exact .inl (by rw [hw])
  | append hi happ hm ha hw ht => exact .inl ht
  | refused hi happ hm ha hw ht => exact .inl ht
  | save hi hm ha hw ht => exact .inl ht
  | commit hi hr hm ha hw ht => exact .inl ht
  | rejected hi hr hm ha hw ht => exact .inl ht
  | record hi hm ha hw ht =>
    obtain ⟨now', rfl⟩ := hd.own i _ _ _ hi rfl
    exact .inr ⟨_, _, now', hi, rfl, ht⟩

end State

end BankManagement
