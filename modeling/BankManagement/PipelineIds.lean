import BankManagement.Journal
import BankManagement.PipelineSteps

namespace BankManagement

open Wal Codec

def Act.intends : Act → Option TransactionId
  | .mutexFor (.processImpl c) _ _ => some c.id
  | .load c _ _ => some c.id
  | .appendWal c _ _ => some c.id
  | _ => none

def Act.written : Act → Option (Call × ℕ × TransactionRecord)
  | .save c lsn record _ _ => some (c, lsn, record)
  | .markCommitted c lsn record => some (c, lsn, record)
  | _ => none

def Act.draft : Act → Option (Call × TransactionRecord)
  | .appendWal c record _ => some (c, record)
  | .save c _ record _ _ => some (c, record)
  | .markCommitted c _ record => some (c, record)
  | _ => none

namespace Pc

def act : Pc → Option Act
  | .want _ act => some act
  | .inside _ act => some act
  | _ => none

def intends : Pc → Option TransactionId
  | .want _ act => act.intends
  | .inside _ act => act.intends
  | .lock (.processImpl c) _ _ _ => some c.id
  | _ => none

def written (pc : Pc) : Option (Call × ℕ × TransactionRecord) := pc.act.bind Act.written

def draft (pc : Pc) : Option (Call × TransactionRecord) := pc.act.bind Act.draft

def Done (pc : Pc) : Prop := pc.intends = none ∧ pc.written = none ∧ pc.draft = none

end Pc

theorem Act.thrown_done (act : Act) (held : List AccountId) (what : Exn) : (act.thrown held what).Done := by
  cases act with
  | appendAudit entry note =>
    simp only [Act.thrown]
    split_ifs <;> exact ⟨rfl, rfl, rfl⟩
  | mutexFor job k todo => exact ⟨rfl, rfl, rfl⟩
  | load c _ _ => exact ⟨rfl, rfl, rfl⟩
  | appendWal c _ _ => exact ⟨rfl, rfl, rfl⟩
  | save c _ _ _ _ => exact ⟨rfl, rfl, rfl⟩
  | markCommitted c _ _ => exact ⟨rfl, rfl, rfl⟩
  | appendTransaction c _ => exact ⟨rfl, rfl, rfl⟩

theorem Exit.settle_done (job : Job) (exit : Exit) : (exit.settle job).Done := by
  cases job <;> cases exit <;> exact ⟨rfl, rfl, rfl⟩

structure Pc.Inherits (pc pc' : Pc) : Prop where
  intends : ∀ x, pc'.intends = some x → pc.intends = some x
  written : ∀ p, pc'.written = some p → pc.written = some p
  draft : ∀ p, pc'.draft = some p → pc.draft = some p ∨ ∃ now, p.2 = p.1.record now

theorem Pc.Done.inherits {pc pc' : Pc} (h : pc'.Done) : pc.Inherits pc' := by
  obtain ⟨hi, hw, hd⟩ := h
  exact ⟨by simp [hi], by simp [hw], by simp [hd]⟩

theorem Job.lockNext_inherits (job : Job) (held : List AccountId) (k : AccountId) (todo : List AccountId) :
    (Pc.lock job held k todo).Inherits (job.lockNext (held ++ [k]) todo) := by
  cases job with
  | processImpl c => cases todo <;> exact ⟨fun x hx => hx, by simp [lockNext, locked, Pc.written, Pc.act, Act.written],
      by simp [lockNext, locked, Pc.draft, Pc.act, Act.draft]⟩
  | lockPair first second => cases todo <;> exact Pc.Done.inherits ⟨rfl, rfl, rfl⟩

theorem Pc.Quiet.inherits {w : World} {pc pc' : Pc} (h : pc.Quiet w pc') : pc.Inherits pc' := by
  cases h with
  | enter => exact ⟨fun x hx => hx, fun p hp => hp, fun p hp => .inl hp⟩
  | @found job held k todo =>
    cases job with
    | processImpl c => exact ⟨fun x hx => hx, by simp [written, act], by simp [draft, act]⟩
    | lockPair first second => exact Done.inherits ⟨rfl, rfl, rfl⟩
  | locked => exact Job.lockNext_inherits _ _ _ _
  | loaded => exact ⟨fun x hx => hx, fun p hp => hp, fun p hp => .inl hp⟩
  | missing => exact Done.inherits ⟨rfl, rfl, rfl⟩
  | checked now =>
    unfold validated
    split_ifs
    · exact Done.inherits ⟨rfl, rfl, rfl⟩
    · refine ⟨fun x hx => hx, by simp [written, act, Act.written], fun p hp => .inr ⟨now, ?_⟩⟩
      obtain rfl := Option.some.inj hp
      rfl
  | saved => exact ⟨by simp [intends, Act.intends], fun p hp => hp, fun p hp => .inl hp⟩
  | noted entry => exact Done.inherits ⟨rfl, rfl, rfl⟩
  | audited => exact Done.inherits ⟨rfl, rfl, rfl⟩
  | unlocked => exact Done.inherits ⟨rfl, rfl, rfl⟩
  | settled => exact Done.inherits (Exit.settle_done _ _)

theorem Job.entry_intends {job : Job} {x : TransactionId} (h : job.entry.intends = some x) :
    ∃ c, job = .processImpl c ∧ c.id = x := by
  cases job with
  | processImpl c =>
    refine ⟨c, rfl, ?_⟩
    simp only [Job.entry] at h
    split_ifs at h
    · simp [Pc.intends] at h
    · generalize (Job.processImpl c).order = todo at h
      cases todo <;> exact Option.some.inj h
  | lockPair first second =>
    simp only [Job.entry] at h
    generalize (Job.lockPair first second).order = todo at h
    cases todo <;> cases h

theorem Job.entry_fresh (job : Job) : job.entry.written = none ∧ job.entry.draft = none := by
  cases job with
  | processImpl c =>
    simp only [Job.entry]
    split_ifs
    · exact ⟨rfl, rfl⟩
    · generalize (Job.processImpl c).order = todo
      cases todo <;> exact ⟨rfl, rfl⟩
  | lockPair first second =>
    simp only [Job.entry]
    generalize (Job.lockPair first second).order = todo
    cases todo <;> exact ⟨rfl, rfl⟩

theorem markCommitted_own {w : WalLogger} {id : TransactionId} {lsn : ℕ} {e : Entry}
    (he : w.entries[lsn]? = some e) (hid : e.id = id)
    (hu : ∀ j e', w.entries[j]? = some e' → e'.id = id → j = lsn) (hs : e.state ≠ .committed) :
    w.markCommitted id = (.ok (), w.commitAt lsn e) := by
  obtain ⟨j, e', hj, hid', _, hcase⟩ := WalLogger.markCommitted_known ⟨e, List.mem_of_getElem? he, hid⟩
  obtain rfl := hu j e' hj hid'
  obtain rfl := Option.some.inj (he.symm.trans hj)
  rcases hcase with ⟨hc, _⟩ | ⟨_, hr⟩
  · exact absurd hc hs
  · exact hr

namespace State

variable {ι : Type} {s s' : State ι} {i : ι}

def FreshId (s : State ι) (x : TransactionId) : Prop :=
  (∀ e ∈ s.world.wal.entries, e.id ≠ x) ∧ ∀ i pc, s.threads i = some pc → pc.intends ≠ some x

structure Tracked (s : State ι) : Prop where
  fresh : ∀ i pc x, s.threads i = some pc → pc.intends = some x → ∀ e ∈ s.world.wal.entries, e.id ≠ x
  distinct : ∀ i j pc pc' x, s.threads i = some pc → s.threads j = some pc' →
    pc.intends = some x → pc'.intends = some x → i = j
  draft : ∀ i pc c record, s.threads i = some pc → pc.draft = some (c, record) → ∃ now, record = c.record now
  own : ∀ i pc c lsn record, s.threads i = some pc → pc.written = some (c, lsn, record) →
    ∃ e, s.world.wal.entries[lsn]? = some e ∧ e.id = c.id ∧ e.state = .validated ∧ e.payload = serialize record
  unique : ∀ i pc c lsn record, s.threads i = some pc → pc.written = some (c, lsn, record) →
    ∀ j e, s.world.wal.entries[j]? = some e → e.id = c.id → j = lsn
  apart : ∀ i j pc pc' c c' lsn record record', s.threads i = some pc → s.threads j = some pc' →
    pc.written = some (c, lsn, record) → pc'.written = some (c', lsn, record') → i = j

theorem Tracked.commits_own (ht : Tracked s) {held : List AccountId} {c : Call} {lsn : ℕ}
    {record : TransactionRecord} (hi : s.threads i = some (.inside held (.markCommitted c lsn record))) :
    ∃ e, s.world.wal.entries[lsn]? = some e ∧ e.id = c.id ∧ e.state = .validated ∧
      e.payload = serialize record ∧ s.world.wal.markCommitted c.id = (.ok (), s.world.wal.commitAt lsn e) := by
  obtain ⟨e, he, hid, hs, hp⟩ := ht.own i _ c lsn record hi rfl
  refine ⟨e, he, hid, hs, hp, markCommitted_own he hid (ht.unique i _ c lsn record hi rfl) ?_⟩
  simp [hs]

theorem tracked_init (world : World) : Tracked (init world : State ι) := by
  constructor <;> intros <;> simp_all [init]

variable [DecidableEq ι]

theorem Moves.cases {pc' pcj : Pc} (hm : Moves s s' i pc') {j : ι} (hj : s'.threads j = some pcj) :
    (j = i ∧ pcj = pc') ∨ (j ≠ i ∧ s.threads j = some pcj) := by
  by_cases hji : j = i
  · subst hji
    exact .inl ⟨rfl, Option.some.inj (hj.symm.trans hm.self)⟩
  · rw [hm.other hji] at hj
    exact .inr ⟨hji, hj⟩

theorem Tracked.inherit (ht : Tracked s) {pc pc' : Pc} (hi : s.threads i = some pc) (hm : Moves s s' i pc')
    (hh : pc.Inherits pc') (hw : s'.world.wal = s.world.wal) : Tracked s' := by
  have hintends (j pcj x) (hj : s'.threads j = some pcj) (hx : pcj.intends = some x) :
      ∃ pcj', s.threads j = some pcj' ∧ pcj'.intends = some x := by
    rcases hm.cases hj with ⟨rfl, rfl⟩ | ⟨_, hj⟩
    · exact ⟨pc, hi, hh.intends x hx⟩
    · exact ⟨pcj, hj, hx⟩
  have hwritten (j pcj p) (hj : s'.threads j = some pcj) (hd : pcj.written = some p) :
      ∃ pcj', s.threads j = some pcj' ∧ pcj'.written = some p := by
    rcases hm.cases hj with ⟨rfl, rfl⟩ | ⟨_, hj⟩
    · exact ⟨pc, hi, hh.written p hd⟩
    · exact ⟨pcj, hj, hd⟩
  constructor
  · intro j pcj x hj hx
    obtain ⟨pcj', hj', hx'⟩ := hintends j pcj x hj hx
    rw [hw]
    exact ht.fresh j pcj' x hj' hx'
  · intro j k pcj pck x hj hk hxj hxk
    obtain ⟨pcj', hj', hxj'⟩ := hintends j pcj x hj hxj
    obtain ⟨pck', hk', hxk'⟩ := hintends k pck x hk hxk
    exact ht.distinct j k pcj' pck' x hj' hk' hxj' hxk'
  · intro j pcj c record hj hd
    rcases hm.cases hj with ⟨rfl, rfl⟩ | ⟨_, hj⟩
    · rcases hh.draft _ hd with hd | hnow
      · exact ht.draft j pc c record hi hd
      · exact hnow
    · exact ht.draft j pcj c record hj hd
  · intro j pcj c lsn record hj hd
    obtain ⟨pcj', hj', hd'⟩ := hwritten j pcj _ hj hd
    rw [hw]
    exact ht.own j pcj' c lsn record hj' hd'
  · intro j pcj c lsn record hj hd
    obtain ⟨pcj', hj', hd'⟩ := hwritten j pcj _ hj hd
    rw [hw]
    exact ht.unique j pcj' c lsn record hj' hd'
  · intro j k pcj pck c c' lsn record record' hj hk hdj hdk
    obtain ⟨pcj', hj', hdj'⟩ := hwritten j pcj _ hj hdj
    obtain ⟨pck', hk', hdk'⟩ := hwritten k pck _ hk hdk
    exact ht.apart j k pcj' pck' c c' lsn record record' hj' hk' hdj' hdk'

theorem getElem?_append_single {α : Type} {l : List α} {a b : α} {j : ℕ} (h : (l ++ [a])[j]? = some b) :
    l[j]? = some b ∨ (j = l.length ∧ a = b) := by
  rcases Nat.lt_or_ge j l.length with hlt | hge
  · rw [List.getElem?_append_left hlt] at h
    exact .inl h
  · rw [List.getElem?_append_right hge] at h
    rcases Nat.eq_zero_or_pos (j - l.length) with hz | hp
    · rw [hz] at h
      exact .inr ⟨by omega, by simpa using h⟩
    · rw [List.getElem?_eq_none (by rw [List.length_singleton]; exact hp)] at h
      contradiction

theorem Tracked.append (ht : Tracked s) {held : List AccountId} {c : Call} {record : TransactionRecord}
    {loaded : List Account} (hi : s.threads i = some (.inside held (.appendWal c record loaded))) {pc' : Pc}
    (hm : Moves s s' i pc') (hw : s'.world.wal = s.world.wal.append record) (hintends : pc'.intends = none)
    (hwritten : ∀ p, pc'.written = some p → p = (c, s.world.wal.entries.length, record))
    (hdraft : ∀ p, pc'.draft = some p → p = (c, record)) : Tracked s' := by
  obtain ⟨now, rfl⟩ := ht.draft i _ c record hi rfl
  have hfresh := ht.fresh i _ c.id hi rfl
  have hentries : s'.world.wal.entries = s.world.wal.entries ++ [appended (c.record now) s.world.wal] := by
    rw [hw, append_entries]
  have hlt (j pcj c' lsn record') (hj : s.threads j = some pcj) (hd : pcj.written = some (c', lsn, record')) :
      lsn < s.world.wal.entries.length ∧ c'.id ≠ c.id := by
    obtain ⟨e, he, hid, _⟩ := ht.own j pcj c' lsn record' hj hd
    have hlt := (List.getElem?_eq_some_iff.mp he).1
    exact ⟨hlt, hid ▸ hfresh e (List.mem_of_getElem? he)⟩
  constructor
  · intro j pcj x hj hx e he
    rcases hm.cases hj with ⟨rfl, rfl⟩ | ⟨hji, hj⟩
    · simp [hintends] at hx
    · rw [hentries] at he
      rcases List.mem_append.mp he with he | he
      · exact ht.fresh j pcj x hj hx e he
      · rw [List.mem_singleton.mp he]
        rintro rfl
        exact hji (ht.distinct j i _ _ c.id hj hi hx rfl)
  · intro j k pcj pck x hj hk hxj hxk
    rcases hm.cases hj with ⟨rfl, rfl⟩ | ⟨_, hj⟩
    · simp [hintends] at hxj
    · rcases hm.cases hk with ⟨rfl, rfl⟩ | ⟨_, hk⟩
      · simp [hintends] at hxk
      · exact ht.distinct j k pcj pck x hj hk hxj hxk
  · intro j pcj c' record' hj hd
    rcases hm.cases hj with ⟨rfl, rfl⟩ | ⟨_, hj⟩
    · obtain ⟨rfl, rfl⟩ := Prod.mk.inj (hdraft _ hd)
      exact ⟨now, rfl⟩
    · exact ht.draft j pcj c' record' hj hd
  · intro j pcj c' lsn record' hj hd
    rw [hentries]
    rcases hm.cases hj with ⟨rfl, rfl⟩ | ⟨_, hj⟩
    · obtain ⟨rfl, h⟩ := Prod.mk.inj (hwritten _ hd)
      obtain ⟨rfl, rfl⟩ := Prod.mk.inj h
      exact ⟨_, List.getElem?_concat_length, rfl, rfl, rfl⟩
    · obtain ⟨e, he, hrest⟩ := ht.own j pcj c' lsn record' hj hd
      exact ⟨e, by rw [List.getElem?_append_left (hlt j pcj c' lsn record' hj hd).1, he], hrest⟩
  · intro j pcj c' lsn record' hj hd k e he hid
    rw [hentries] at he
    rcases hm.cases hj with ⟨rfl, rfl⟩ | ⟨_, hj⟩
    · obtain ⟨rfl, h⟩ := Prod.mk.inj (hwritten _ hd)
      obtain ⟨rfl, rfl⟩ := Prod.mk.inj h
      rcases getElem?_append_single he with he | ⟨hk, _⟩
      · exact absurd hid (hfresh e (List.mem_of_getElem? he))
      · exact hk
    · rcases getElem?_append_single he with he | ⟨_, rfl⟩
      · exact ht.unique j pcj c' lsn record' hj hd k e he hid
      · exact absurd hid.symm (hlt j pcj c' lsn record' hj hd).2
  · intro j k pcj pck c₁ c₂ lsn record₁ record₂ hj hk hdj hdk
    rcases hm.cases hj with ⟨rfl, rfl⟩ | ⟨_, hj⟩
    · rcases hm.cases hk with ⟨rfl, rfl⟩ | ⟨_, hk⟩
      · rfl
      · obtain ⟨_, h⟩ := Prod.mk.inj (hwritten _ hdj)
        obtain ⟨rfl, _⟩ := Prod.mk.inj h
        exact absurd (hlt k pck c₂ _ record₂ hk hdk).1 (Nat.lt_irrefl _)
    · rcases hm.cases hk with ⟨rfl, rfl⟩ | ⟨_, hk⟩
      · obtain ⟨_, h⟩ := Prod.mk.inj (hwritten _ hdk)
        obtain ⟨rfl, _⟩ := Prod.mk.inj h
        exact absurd (hlt j pcj c₁ _ record₁ hj hdj).1 (Nat.lt_irrefl _)
      · exact ht.apart j k pcj pck c₁ c₂ lsn record₁ record₂ hj hk hdj hdk

theorem committed_back {entries : List Entry} {lsn : ℕ} {e : Entry} (he : entries[lsn]? = some e) {j : ℕ}
    {x : Entry} (hx : (entries.set lsn { e with state := .committed })[j]? = some x) :
    ∃ y, entries[j]? = some y ∧ y.id = x.id ∧ y.payload = x.payload := by
  by_cases hl : lsn = j
  · subst hl
    rw [List.getElem?_set_self (List.getElem?_eq_some_iff.mp he).1] at hx
    obtain rfl := Option.some.inj hx
    exact ⟨e, he, rfl, rfl⟩
  · rw [List.getElem?_set_ne hl] at hx
    exact ⟨x, hx, rfl, rfl⟩

theorem Tracked.commit (ht : Tracked s) {held : List AccountId} {c : Call} {lsn : ℕ}
    {record : TransactionRecord} (hi : s.threads i = some (.inside held (.markCommitted c lsn record)))
    {pc' : Pc} (hm : Moves s s' i pc') (hd : pc'.Done) (hw : s'.world.wal = (s.world.wal.markCommitted c.id).2) :
    Tracked s' := by
  obtain ⟨e, he, hid, hs, _, hr⟩ := ht.commits_own hi
  obtain ⟨hintends, hwritten, hdraft⟩ := hd
  have hentries : s'.world.wal.entries = s.world.wal.entries.set lsn { e with state := .committed } := by
    rw [hw, hr]
    rfl
  have hids (k : ℕ) (x : Entry) (hx : s'.world.wal.entries[k]? = some x) :
      ∃ y : Entry, s.world.wal.entries[k]? = some y ∧ y.id = x.id := by
    rw [hentries] at hx
    obtain ⟨y, hy, hid, _⟩ := committed_back he hx
    exact ⟨y, hy, hid⟩
  have hold {j pcj} (hj : s'.threads j = some pcj) (hne : pcj ≠ pc') : j ≠ i ∧ s.threads j = some pcj := by
    rcases hm.cases hj with ⟨_, rfl⟩ | hj
    · exact absurd rfl hne
    · exact hj
  constructor
  · intro j pcj x hj hx y hy
    obtain ⟨_, hj⟩ := hold hj (by rintro rfl; simp [hintends] at hx)
    obtain ⟨k, hk⟩ := List.mem_iff_getElem?.mp hy
    obtain ⟨z, hz, hzid⟩ := hids k y hk
    rw [← hzid]
    exact ht.fresh j pcj x hj hx z (List.mem_of_getElem? hz)
  · intro j k pcj pck x hj hk hxj hxk
    obtain ⟨_, hj⟩ := hold hj (by rintro rfl; simp [hintends] at hxj)
    obtain ⟨_, hk⟩ := hold hk (by rintro rfl; simp [hintends] at hxk)
    exact ht.distinct j k pcj pck x hj hk hxj hxk
  · intro j pcj c' record' hj hx
    obtain ⟨_, hj⟩ := hold hj (by rintro rfl; simp [hdraft] at hx)
    exact ht.draft j pcj c' record' hj hx
  · intro j pcj c' lsn' record' hj hx
    obtain ⟨hji, hj⟩ := hold hj (by rintro rfl; simp [hwritten] at hx)
    have hne : lsn ≠ lsn' := by
      rintro rfl
      exact hji (ht.apart j i _ _ c' c lsn record' record hj hi hx rfl)
    rw [hentries, List.getElem?_set_ne hne]
    exact ht.own j pcj c' lsn' record' hj hx
  · intro j pcj c' lsn' record' hj hx k y hk hyid
    obtain ⟨_, hj⟩ := hold hj (by rintro rfl; simp [hwritten] at hx)
    obtain ⟨z, hz, hzid⟩ := hids k y hk
    exact ht.unique j pcj c' lsn' record' hj hx k z hz (hzid.trans hyid)
  · intro j k pcj pck c₁ c₂ lsn' record₁ record₂ hj hk hxj hxk
    obtain ⟨_, hj⟩ := hold hj (by rintro rfl; simp [hwritten] at hxj)
    obtain ⟨_, hk⟩ := hold hk (by rintro rfl; simp [hwritten] at hxk)
    exact ht.apart j k pcj pck c₁ c₂ lsn' record₁ record₂ hj hk hxj hxk

theorem Tracked.step (ht : Tracked s) {now : TimePoint} {fault : Option Exn}
    (h : s.step i now fault = some s') : Tracked s' := by
  cases step_effect h with
  | quiet hi hm hq ha hw => exact ht.inherit hi hm hq.inherits hw
  | thrown what hf hi hm hw => exact ht.inherit hi hm (Act.thrown_done _ _ _).inherits (by rw [hw])
  | append hi happ hm ha hw =>
    exact ht.append hi hm hw rfl (fun p hp => (Option.some.inj hp).symm) (fun p hp => (Option.some.inj hp).symm)
  | refused hi happ hm ha hw => exact ht.append hi hm hw rfl (by simp [Pc.written, Pc.act]) (by simp [Pc.draft, Pc.act])
  | save hi hm ha hw => exact ht.inherit hi hm ⟨fun x hx => hx, fun p hp => hp, fun p hp => .inl hp⟩ hw
  | commit hi hr hm ha hw => exact ht.commit hi hm ⟨rfl, rfl, rfl⟩ hw
  | rejected hi hr hm ha hw => exact ht.commit hi hm ⟨rfl, rfl, rfl⟩ hw
  | record hi hm ha hw => exact ht.inherit hi hm (Pc.Done.inherits ⟨rfl, rfl, rfl⟩) hw

theorem Tracked.start (ht : Tracked s) {job : Job} (hfresh : ∀ c, job = .processImpl c → s.FreshId c.id)
    (h : s.start i job = some s') : Tracked s' := by
  obtain ⟨_, rfl⟩ := start_eq_some h
  have hm : Moves s (s.goto i job.entry) i job.entry := rfl
  obtain ⟨hwritten, hdraft⟩ := job.entry_fresh
  have hid {x} (hx : job.entry.intends = some x) : s.FreshId x := by
    obtain ⟨c, rfl, rfl⟩ := Job.entry_intends hx
    exact hfresh c rfl
  have hold {j pcj} (hj : (s.goto i job.entry).threads j = some pcj) (hne : pcj ≠ job.entry) :
      s.threads j = some pcj := by
    rcases hm.cases hj with ⟨_, rfl⟩ | ⟨_, hj⟩
    · exact absurd rfl hne
    · exact hj
  constructor
  · intro j pcj x hj hx
    rcases hm.cases hj with ⟨rfl, rfl⟩ | ⟨_, hj⟩
    · exact (hid hx).1
    · exact ht.fresh j pcj x hj hx
  · intro j k pcj pck x hj hk hxj hxk
    rcases hm.cases hj with ⟨rfl, rfl⟩ | ⟨_, hj'⟩
    · rcases hm.cases hk with ⟨rfl, rfl⟩ | ⟨_, hk'⟩
      · rfl
      · exact absurd hxk ((hid hxj).2 k pck hk')
    · rcases hm.cases hk with ⟨rfl, rfl⟩ | ⟨_, hk'⟩
      · exact absurd hxj ((hid hxk).2 j pcj hj')
      · exact ht.distinct j k pcj pck x hj' hk' hxj hxk
  · intro j pcj c record hj hx
    exact ht.draft j pcj c record (hold hj (by rintro rfl; simp [hdraft] at hx)) hx
  · intro j pcj c lsn record hj hx
    exact ht.own j pcj c lsn record (hold hj (by rintro rfl; simp [hwritten] at hx)) hx
  · intro j pcj c lsn record hj hx
    exact ht.unique j pcj c lsn record (hold hj (by rintro rfl; simp [hwritten] at hx)) hx
  · intro j k pcj pck c₁ c₂ lsn record₁ record₂ hj hk hxj hxk
    exact ht.apart j k pcj pck c₁ c₂ lsn record₁ record₂ (hold hj (by rintro rfl; simp [hwritten] at hxj))
      (hold hk (by rintro rfl; simp [hwritten] at hxk)) hxj hxk

theorem FreshId.step {x : TransactionId} (hf : s.FreshId x) (ht : Tracked s) {now : TimePoint}
    {fault : Option Exn} (h : s.step i now fault = some s') : s'.FreshId x := by
  have hmoved {pc pc' : Pc} (hi : s.threads i = some pc) (hm : Moves s s' i pc')
      (hx : pc'.intends = some x → pc.intends = some x) : ∀ j pcj, s'.threads j = some pcj → pcj.intends ≠ some x := by
    intro j pcj hj hxj
    rcases hm.cases hj with ⟨rfl, rfl⟩ | ⟨_, hj⟩
    · exact hf.2 _ _ hi (hx hxj)
    · exact hf.2 j pcj hj hxj
  have happended {held c record loaded} (hi : s.threads i = some (.inside held (.appendWal c record loaded)))
      (hw : s'.world.wal = s.world.wal.append record) : ∀ e ∈ s'.world.wal.entries, e.id ≠ x := by
    obtain ⟨now, rfl⟩ := ht.draft i _ c record hi rfl
    rw [hw, append_entries]
    intro e he
    rcases List.mem_append.mp he with he | he
    · exact hf.1 e he
    · rw [List.mem_singleton.mp he]
      exact fun hid => hf.2 i _ hi (congrArg some hid)
  have hcommitted {held c lsn record} (hi : s.threads i = some (.inside held (.markCommitted c lsn record)))
      (hw : s'.world.wal = (s.world.wal.markCommitted c.id).2) : ∀ e ∈ s'.world.wal.entries, e.id ≠ x := by
    obtain ⟨e, he, _, _, _, hr⟩ := ht.commits_own hi
    rw [hw, hr]
    intro y hy
    rcases List.mem_or_eq_of_mem_set hy with hy | rfl
    · exact hf.1 y hy
    · exact hf.1 e (List.mem_of_getElem? he)
  cases step_effect h with
  | quiet hi hm hq ha hw => exact ⟨by rw [hw]; exact hf.1, hmoved hi hm (hq.inherits.intends x)⟩
  | thrown what hfault hi hm hw =>
    exact ⟨by rw [hw]; exact hf.1, hmoved hi hm ((Act.thrown_done _ _ _).inherits.intends x)⟩
  | append hi happ hm ha hw => exact ⟨happended hi hw, hmoved hi hm (by simp [Pc.intends, Act.intends])⟩
  | refused hi happ hm ha hw => exact ⟨happended hi hw, hmoved hi hm (by simp [Pc.intends])⟩
  | save hi hm ha hw => exact ⟨by rw [hw]; exact hf.1, hmoved hi hm (fun hx => hx)⟩
  | commit hi hr hm ha hw => exact ⟨hcommitted hi hw, hmoved hi hm (by simp [Pc.intends, Act.intends])⟩
  | rejected hi hr hm ha hw => exact ⟨hcommitted hi hw, hmoved hi hm (by simp [Pc.intends])⟩
  | record hi hm ha hw => exact ⟨by rw [hw]; exact hf.1, hmoved hi hm (by simp [Pc.intends])⟩

theorem FreshId.start {x : TransactionId} (hf : s.FreshId x) {job : Job}
    (hne : ∀ c, job = .processImpl c → c.id ≠ x) (h : s.start i job = some s') : s'.FreshId x := by
  obtain ⟨_, rfl⟩ := start_eq_some h
  have hm : Moves s (s.goto i job.entry) i job.entry := rfl
  refine ⟨hf.1, fun j pcj hj hx => ?_⟩
  rcases hm.cases hj with ⟨rfl, rfl⟩ | ⟨_, hj⟩
  · obtain ⟨c, rfl, hid⟩ := Job.entry_intends hx
    exact hne c rfl hid
  · exact hf.2 j pcj hj hx

end State

end BankManagement
