import BankManagement.PipelineOutcomes
import BankManagement.TransactionProcessor

namespace BankManagement

open Wal Codec

theorem start_le_maxId (records : List TransactionRecord) (start : UInt64) :
    start.toNat ≤ (maxId records start).toNat := by
  induction records generalizing start with
  | nil => exact Nat.le_refl _
  | cons r records ih =>
    refine Nat.le_trans ?_ (ih (max start r.id))
    rw [UInt64.max_def]
    split_ifs with h
    · exact UInt64.le_iff_toNat_le.mp h
    · exact Nat.le_refl _

theorem le_maxId {records : List TransactionRecord} {r : TransactionRecord} (h : r ∈ records) (start : UInt64) :
    r.id.toNat ≤ (maxId records start).toNat := by
  induction records generalizing start with
  | nil => cases h
  | cons b records ih =>
    rcases List.mem_cons.mp h with rfl | h
    · refine Nat.le_trans ?_ (start_le_maxId records (max start r.id))
      rw [UInt64.max_def]
      split_ifs with h
      · exact Nat.le_refl _
      · exact Nat.le_of_not_le (fun hc => h (UInt64.le_iff_toNat_le.mpr hc))
    · exact ih h _

theorem lt_seedId {world : World} (h : seedId world ≠ 0) {r : TransactionRecord}
    (hr : r ∈ world.transactions ∨ r ∈ world.wal.loadAll) : r.id.toNat < (seedId world).toNat := by
  have hle : r.id.toNat ≤ (maxId world.wal.loadAll (maxId world.transactions 0)).toNat := by
    rcases hr with hr | hr
    · exact Nat.le_trans (le_maxId hr 0) (start_le_maxId _ _)
    · exact le_maxId hr _
  have hne : (seedId world).toNat ≠ 0 := fun hc => h (UInt64.toNat_inj.mp hc)
  have hlt := (maxId world.wal.loadAll (maxId world.transactions 0)).toNat_lt
  rw [seedId, UInt64.toNat_add] at hne ⊢
  change (_ + 1) % 2 ^ 64 ≠ 0 at hne
  change _ < (_ + 1) % 2 ^ 64
  omega

def Submission.id? : Submission → Option TransactionId
  | .fetched _ id => some id
  | .reserved _ => none

namespace TransactionProcessor

variable {ι : Type}

def ids (p : TransactionProcessor ι) : List TransactionId := p.handed.map (·.2)

def pendingIds (p : TransactionProcessor ι) : List TransactionId :=
  p.reserved ++ (p.submitting.bind Submission.id?).toList

structure Numbered (world : World) (p : TransactionProcessor ι) : Prop where
  tracked : p.pipeline.Tracked
  delivered : p.pipeline.Delivered
  counter : p.nextId = seedId world + UInt64.ofNat p.handed.length
  bound : (seedId world).toNat + p.handed.length ≤ 2 ^ 64
  numbers : ∀ (n : ℕ) t x, p.handed[n]? = some (t, x) → seedId world ≠ 0 ∧ x.toNat = (seedId world).toNat + n
  new : ∀ x ∈ p.ids, ∀ e ∈ world.wal.entries, e.id ≠ x
  opened : ∀ e ∈ world.wal.entries, ∃ e' ∈ p.pipeline.world.wal.entries, e'.id = e.id ∧ e'.payload = e.payload
  pending : ∀ x ∈ p.pendingIds, x ∈ p.ids ∧ p.pipeline.FreshId x
  nodup : p.pendingIds.Nodup
  unused : ∀ x ∉ p.ids, (∀ e ∈ world.wal.entries, e.id ≠ x) → p.pipeline.FreshId x
  records : ∀ r ∈ p.pipeline.world.transactions, r ∈ world.transactions ∨ r.id ∈ p.ids
  calls : ∀ i pc c, p.pipeline.threads i = some pc → pc.job = some (.processImpl c) → c.id ∈ p.ids

variable {world : World} {p p' : TransactionProcessor ι}

theorem numbered_create (world : World) : Numbered world (create world : TransactionProcessor ι) where
  tracked := State.tracked_init world
  delivered := State.delivered_init world
  counter := (UInt64.add_zero _).symm
  bound := Nat.le_of_lt (UInt64.toNat_lt _)
  numbers := by simp [create]
  new := by simp [create, ids]
  opened := fun e he => ⟨e, he, rfl, rfl⟩
  pending := by simp [create, pendingIds]
  nodup := by simp [create, pendingIds]
  unused := fun x _ hx => ⟨hx, by simp [create, State.init]⟩
  records := fun r hr => .inl hr
  calls := by simp [create, State.init]

theorem Numbered.counterSound (hn : Numbered world p) (hc : p.CounterSound) :
    seedId world ≠ 0 ∧ p.nextId.toNat = (seedId world).toNat + p.handed.length ∧
      ∀ e ∈ world.wal.entries, e.id ≠ p.nextId := by
  obtain ⟨hzero, hdecodes⟩ := hc
  have hcounter := congrArg UInt64.toNat hn.counter
  rw [UInt64.toNat_add, UInt64.toNat_ofNat'] at hcounter
  have hpos : p.nextId.toNat ≠ 0 := fun hz => hzero (UInt64.toNat_inj.mp hz)
  have hbound := hn.bound
  have hseed : seedId world ≠ 0 := by
    intro hz
    cases hl : p.handed with
    | nil =>
      rw [hl, hz] at hcounter
      exact hpos (by simpa using hcounter)
    | cons first rest => exact (hn.numbers 0 first.1 first.2 (by rw [hl]; rfl)).1 hz
  have hseedpos : (seedId world).toNat ≠ 0 := fun hz => hseed (UInt64.toNat_inj.mp hz)
  have hnumber : p.nextId.toNat = (seedId world).toNat + p.handed.length := by omega
  refine ⟨hseed, hnumber, fun e he hid => ?_⟩
  obtain ⟨e', he', hid', hpayload⟩ := hn.opened e he
  obtain ⟨r, hr, hrid⟩ := Option.map_eq_some_iff.mp (hdecodes e' he' (hid'.trans hid))
  obtain ⟨r', hd, rfl⟩ := Option.map_eq_some_iff.mp hr
  rw [hpayload] at hd
  have hmem : { r' with state := e.state } ∈ world.wal.loadAll :=
    List.mem_filterMap.mpr ⟨e, he, by rw [WalLogger.record, hd]; rfl⟩
  have hlt := lt_seedId hseed (.inr hmem)
  change r'.id = e'.id at hrid
  change r'.id.toNat < _ at hlt
  rw [hrid, hid', hid] at hlt
  omega

theorem Numbered.mem_ids (hn : Numbered world p) {x : TransactionId} (hx : x ∈ p.ids) :
    seedId world ≠ 0 ∧ (seedId world).toNat ≤ x.toNat ∧ x.toNat < (seedId world).toNat + p.handed.length := by
  obtain ⟨⟨t, x'⟩, hmem, rfl⟩ := List.mem_map.mp hx
  obtain ⟨n, hget⟩ := List.mem_iff_getElem?.mp hmem
  obtain ⟨hseed, hnumber⟩ := hn.numbers n t x' hget
  have hlt := (List.getElem?_eq_some_iff.mp hget).1
  change _ ∧ _ ≤ x'.toNat ∧ x'.toNat < _
  exact ⟨hseed, by omega, by omega⟩

theorem Numbered.nextId_notMem (hn : Numbered world p) (hc : p.CounterSound) : p.nextId ∉ p.ids := by
  intro hmem
  have hlt := (hn.mem_ids hmem).2.2
  have hnumber := (hn.counterSound hc).2.1
  omega

theorem ids_handOut (t : Transaction) : (p.handOut t).ids = p.ids ++ [p.nextId] := List.map_append

theorem Numbered.handOut (hn : Numbered world p) (hc : p.CounterSound) (t : Transaction) :
    Numbered world (p.handOut t) := by
  obtain ⟨hseed, hnumber, hnew⟩ := hn.counterSound hc
  have hlen : (p.handOut t).handed.length = p.handed.length + 1 := List.length_append
  have hlt := p.nextId.toNat_lt
  refine ⟨hn.tracked, hn.delivered, ?_, by rw [hlen]; omega, fun n t' x hx => ?_, fun x hx => ?_, hn.opened,
    fun x hx => ?_, hn.nodup, fun x hx => ?_, fun r hr => ?_, fun i pc c hi hj => ?_⟩
  · rw [hlen, UInt64.ofNat_add, ← UInt64.add_assoc, ← hn.counter]
    rfl
  · rcases State.getElem?_append_single hx with hold | ⟨rfl, hlast⟩
    · exact hn.numbers n t' x hold
    · obtain ⟨_, rfl⟩ := Prod.mk.inj hlast
      exact ⟨hseed, hnumber⟩
  · rw [ids_handOut] at hx
    rcases List.mem_append.mp hx with hx | hx
    · exact hn.new x hx
    · rw [List.mem_singleton.mp hx]
      exact hnew
  · rw [ids_handOut]
    exact ⟨List.mem_append_left _ (hn.pending x hx).1, (hn.pending x hx).2⟩
  · rw [ids_handOut, List.mem_append, not_or] at hx
    exact hn.unused x hx.1
  · rw [ids_handOut]
    exact (hn.records r hr).imp id (List.mem_append_left _)
  · rw [ids_handOut]
    exact List.mem_append_left _ (hn.calls i pc c hi hj)

structure IdsFresh (world : World) (p : TransactionProcessor ι) : Prop where
  distinct : p.ids.Nodup
  new : ∀ x ∈ p.ids, (∀ r ∈ world.transactions, r.id ≠ x) ∧ ∀ e ∈ world.wal.entries, e.id ≠ x
  next : p.CounterSound → p.nextId ∉ p.ids ∧ (∀ r ∈ p.pipeline.world.transactions, r.id ≠ p.nextId) ∧
    ∀ e ∈ p.pipeline.world.wal.entries, e.id ≠ p.nextId
  commits : ∀ i held c lsn record, p.pipeline.threads i = some (.inside held (.markCommitted c lsn record)) →
    ∃ e, p.pipeline.world.wal.entries[lsn]? = some e ∧ e.id = c.id ∧ e.payload = serialize record ∧
      p.pipeline.world.wal.markCommitted c.id = (.ok (), p.pipeline.world.wal.commitAt lsn e)
  returned : ∀ i r, p.pipeline.threads i = some (.finished (.returned (.success r))) →
    Achieved p.pipeline.world.wal.entries r

theorem Numbered.idsFresh (hn : Numbered world p) : IdsFresh world p := by
  have hold {r : TransactionRecord} (hr : r ∈ world.transactions) {x : TransactionId} (hseed : seedId world ≠ 0)
      (hx : (seedId world).toNat ≤ x.toNat) : r.id ≠ x := by
    rintro rfl
    have hlt := lt_seedId hseed (.inl hr)
    omega
  refine ⟨?_, fun x hx => ?_, fun hc => ?_, fun i held c lsn record hi => ?_, fun i r hi => ?_⟩
  · rw [ids, List.nodup_iff_getElem?_ne_getElem?]
    intro a b hab hb heq
    rw [List.length_map] at hb
    rw [List.getElem?_map, List.getElem?_map, List.getElem?_eq_getElem hb,
      List.getElem?_eq_getElem (Nat.lt_trans hab hb)] at heq
    have hna := (hn.numbers a _ _ (List.getElem?_eq_getElem (Nat.lt_trans hab hb))).2
    have hnb := (hn.numbers b _ _ (List.getElem?_eq_getElem hb)).2
    have hids : p.handed[a].2 = p.handed[b].2 := Option.some.inj heq
    rw [show (p.handed.get ⟨a, _⟩).2 = p.handed[a].2 from rfl, hids] at hna
    have hsame := hna.symm.trans hnb
    omega
  · obtain ⟨hseed, hle, _⟩ := hn.mem_ids hx
    exact ⟨fun r hr => hold hr hseed hle, hn.new x hx⟩
  · obtain ⟨hseed, hnumber, hnew⟩ := hn.counterSound hc
    have hnot := hn.nextId_notMem hc
    refine ⟨hnot, fun r hr => ?_, (hn.unused p.nextId hnot hnew).1⟩
    rcases hn.records r hr with hr | hr
    · exact hold hr hseed (by omega)
    · rintro hid
      exact hnot (hid ▸ hr)
  · obtain ⟨e, he, hid, _, hpayload, hcommit⟩ := hn.tracked.commits_own hi
    exact ⟨e, he, hid, hpayload, hcommit⟩
  · exact hn.delivered.achieved i _ r hi rfl

variable [DecidableEq ι]

theorem Numbered.call (hn : Numbered world p) {i : ι} {number : ℕ} {c : Call} (hid : c.id ∈ p.ids)
    (hfresh : p.pipeline.FreshId c.id) (hnot : c.id ∉ p.pendingIds) (h : p.call i number c = some p') :
    Numbered world p' := by
  obtain ⟨s, hs, rfl⟩ := Option.map_eq_some_iff.mp h
  have hfreshId : ∀ c', Job.processImpl c = .processImpl c' → p.pipeline.FreshId c'.id := by
    rintro c' ⟨⟩
    exact hfresh
  have hworld : s.world = p.pipeline.world := by
    obtain ⟨_, rfl⟩ := State.start_eq_some hs
    rfl
  have hother {x : TransactionId} (hne : x ≠ c.id) (hx : p.pipeline.FreshId x) : s.FreshId x := by
    refine hx.start ?_ hs
    rintro c' ⟨⟩
    exact hne.symm
  refine ⟨hn.tracked.start hfreshId hs, hn.delivered.start hs, hn.counter, hn.bound, hn.numbers, hn.new, ?_,
    fun x hx => ⟨(hn.pending x hx).1, hother ?_ (hn.pending x hx).2⟩, hn.nodup,
    fun x hx hw => hother ?_ (hn.unused x hx hw), ?_, fun j pc c' hj hjob => ?_⟩
  · rw [hworld]
    exact hn.opened
  · rintro rfl
    exact hnot hx
  · rintro rfl
    exact hx hid
  · rw [hworld]
    exact hn.records
  · obtain ⟨_, rfl⟩ := State.start_eq_some hs
    have hm : State.Moves p.pipeline (p.pipeline.goto i (Job.processImpl c).entry) i (Job.processImpl c).entry := rfl
    rcases hm.cases hj with ⟨rfl, rfl⟩ | ⟨_, hj⟩
    · rw [Job.entry_job] at hjob
      obtain rfl := Job.processImpl.inj (Option.some.inj hjob)
      exact hid
    · exact hn.calls j pc c' hj hjob

theorem Numbered.handedOut (hn : Numbered world p) (hc : p.CounterSound) {i : ι} {number : ℕ} {t t' : Transaction}
    (h : (p.handOut t').call i number ⟨t, p.nextId⟩ = some p') : Numbered world p' := by
  have hnot := hn.nextId_notMem hc
  have hfresh := hn.unused p.nextId hnot (hn.counterSound hc).2.2
  have hmem : p.nextId ∈ (p.handOut t').ids := by
    rw [ids_handOut]
    exact List.mem_append_right _ List.mem_cons_self
  exact (hn.handOut hc t').call (c := ⟨t, p.nextId⟩) hmem hfresh (fun hc => hnot (hn.pending p.nextId hc).1) h

theorem Numbered.act (hn : Numbered world p) {i : ι} {now : TimePoint} {fault : Option Exn}
    (h : p.next (.act i now fault) = some p') : Numbered world p' := by
  obtain ⟨s, hs, rfl⟩ := Option.map_eq_some_iff.mp h
  refine ⟨hn.tracked.step hs, hn.delivered.step hn.tracked hs, hn.counter, hn.bound, hn.numbers, hn.new,
    fun e he => ?_, fun x hx => ⟨(hn.pending x hx).1, (hn.pending x hx).2.step hn.tracked hs⟩, hn.nodup,
    fun x hx hw => (hn.unused x hx hw).step hn.tracked hs, fun r hr => ?_, fun j pcj c hj hjob => ?_⟩
  · obtain ⟨e', he', hid, hpayload⟩ := hn.opened e he
    obtain ⟨e'', he'', hid', hpayload'⟩ := hn.tracked.step_entries hs he'
    exact ⟨e'', he'', hid'.trans hid, hpayload'.trans hpayload⟩
  · rcases hn.delivered.step_transactions hs with ht | ⟨pc, c, now', hi, hjob, ht⟩
    · exact hn.records r (by rwa [ht] at hr)
    · rw [ht] at hr
      rcases List.mem_append.mp hr with hr | hr
      · exact hn.records r hr
      · rw [List.mem_singleton.mp hr]
        exact .inr (hn.calls i pc c hi hjob)
  · obtain ⟨pc, pc', hi, hm, hcont⟩ := State.step_job hs
    rcases hm.cases hj with ⟨rfl, rfl⟩ | ⟨_, hj⟩
    · exact hn.calls _ pc c hi (hcont _ hjob)
    · exact hn.calls j pcj c hj hjob

theorem Numbered.takeReservedId (hn : Numbered world p) {i : ι} {ticket : Ticket}
    (hs : p.reserved = [] → p.CounterSound) (h : p.takeReservedId i ticket = some p') : Numbered world p' := by
  unfold TransactionProcessor.takeReservedId at h
  split at h
  · rename_i id reserved hr
    have hpending : p.pendingIds = id :: (reserved ++ (p.submitting.bind Submission.id?).toList) := by
      rw [pendingIds, hr]
      rfl
    have hnodup := hn.nodup
    rw [hpending] at hnodup
    have hmem : id ∈ p.pendingIds := by rw [hpending]; exact List.mem_cons_self
    have hrest : Numbered world { p with reserved } := by
      refine { hn with pending := fun x hx => hn.pending x ?_, nodup := (List.nodup_cons.mp hnodup).2 }
      rw [hpending]
      exact List.mem_cons_of_mem _ hx
    exact hrest.call (hn.pending id hmem).1 (hn.pending id hmem).2 (List.nodup_cons.mp hnodup).1 h
  · rename_i hr
    exact hn.handedOut (hs hr) h

theorem Numbered.next (hn : Numbered world p) {event : Event ι} (hs : p.HandsOutSound event)
    (h : p.next event = some p') : Numbered world p' := by
  cases event with
  | start =>
    simp only [TransactionProcessor.next] at h
    split_ifs at h
    obtain rfl := Option.some.inj h
    exact { hn with }
  | stop =>
    simp only [TransactionProcessor.next] at h
    split_ifs at h
    obtain rfl := Option.some.inj h
    exact { hn with }
  | submit txn =>
    simp only [TransactionProcessor.next] at h
    split_ifs at h with hidle haccepting
    · obtain rfl := Option.some.inj h
      have hc := hs ⟨hidle, haccepting⟩
      have hnot := hn.nextId_notMem hc
      have hh := hn.handOut hc txn
      have hpending : p.pendingIds = p.reserved := by simp [pendingIds, hidle]
      refine { hh with pending := fun x hx => ?_, nodup := ?_ }
      · rcases List.mem_append.mp hx with hx | hx
        · exact hh.pending x (List.mem_append_left _ hx)
        · rw [List.mem_singleton.mp hx]
          refine ⟨?_, hn.unused p.nextId hnot (hn.counterSound hc).2.2⟩
          change p.nextId ∈ (p.handOut txn).ids
          rw [ids_handOut]
          exact List.mem_append_right _ List.mem_cons_self
      · change (p.reserved ++ [p.nextId]).Nodup
        rw [← hpending]
        refine List.nodup_append.mpr ⟨hn.nodup, List.nodup_singleton _, fun a ha b hb => ?_⟩
        rw [List.mem_singleton.mp hb]
        rintro rfl
        exact hnot (hn.pending _ ha).1
    · obtain rfl := Option.some.inj h
      exact hn
  | reserve =>
    simp only [TransactionProcessor.next] at h
    split at h
    · rename_i ticket id hsub
      obtain rfl := Option.some.inj h
      have hpending : p.pendingIds = p.reserved ++ [id] := by simp [pendingIds, hsub, Submission.id?]
      refine { hn with pending := fun x hx => hn.pending x ?_, nodup := ?_ }
      · rw [hpending]
        simpa [pendingIds, Submission.id?] using hx
      · have hnodup := hn.nodup
        rw [hpending] at hnodup
        simpa [pendingIds, Submission.id?] using hnodup
    · cases h
  | enqueue =>
    simp only [TransactionProcessor.next] at h
    split at h
    · rename_i ticket hsub
      obtain rfl := Option.some.inj h
      have hpending : p.pendingIds = p.reserved := by simp [pendingIds, hsub, Submission.id?]
      refine { hn with pending := fun x hx => hn.pending x ?_, nodup := ?_ }
      · rw [hpending]
        simpa [pendingIds] using hx
      · have hnodup := hn.nodup
        rw [hpending] at hnodup
        simpa [pendingIds] using hnodup
    · cases h
  | processOne i txn =>
    simp only [TransactionProcessor.next] at h
    split_ifs at h
    exact hn.handedOut hs h
  | pop i =>
    simp only [TransactionProcessor.next] at h
    split at h
    · cases h
    · split_ifs at h
      obtain rfl := Option.some.inj h
      exact { hn with }
  | take i =>
    simp only [TransactionProcessor.next] at h
    split at h
    · cases h
    · have hrest : Numbered world { p with taking := p.taking.eraseP (·.1 = i) } := { hn with }
      exact hrest.takeReservedId hs h
  | act i now fault => exact hn.act h

/-- Along steps that find the counter sound, ids are fresh and every call commits its own record. -/
theorem run_idsFresh {events : List (Event ι)} (h : (create world).run events = some p)
    (hs : Runs.Along TransactionProcessor.next HandsOutSound (create world) events) : IdsFresh world p :=
  (Runs.run_preserves (fun hn hp hnext => Numbered.next hn hp hnext) (numbered_create world) hs h).idsFresh

def depositEvents : List (Event Unit) :=
  .processOne () (.deposit 7 5) :: List.replicate 20 (.act () 0 none)

theorem depositEvents_idsFresh : ∃ p, (create (State.oneAccountWorld 7)).run depositEvents = some p ∧
    p.ids = [1] ∧ IdsFresh (State.oneAccountWorld 7) p := by
  have hrun : ((create (State.oneAccountWorld 7)).run depositEvents).map ids = some [1] := by decide +kernel
  obtain ⟨p, h, hids⟩ := Option.map_eq_some_iff.mp hrun
  exact ⟨p, h, hids, run_idsFresh h (by decide +kernel)⟩

def corruptWorld : World :=
  { State.oneAccountWorld 7 with wal := openFile (ascii "00000000000000014\x7b" ++ [newline]) }

theorem depositEvents_reuses : ∃ p r, (create corruptWorld).run depositEvents = some p ∧
    (∃ x ∈ p.ids, ∃ e ∈ corruptWorld.wal.entries, e.id = x) ∧
    p.pipeline.threads () = some (.finished (.returned (.success r))) ∧
    ∀ e ∈ p.pipeline.world.wal.entries, e.payload = serialize { r with state := .validated } → e.state ≠ .committed := by
  have hrun : ((create corruptWorld).run depositEvents).map (fun p =>
      (p.ids, p.pipeline.threads (), p.pipeline.world.wal.entries.map fun e => (e.state, e.payload))) =
    some ([1], some (.finished (.returned (.success
        { Call.record ⟨.deposit 7 5, 1⟩ 0 with state := .committed }))),
      [(.committed, ascii "\x7b"), (.validated, serialize (Call.record ⟨.deposit 7 5, 1⟩ 0))]) := by
    decide +kernel
  obtain ⟨p, h, hp⟩ := Option.map_eq_some_iff.mp hrun
  obtain ⟨hids, hp⟩ := Prod.mk.inj hp
  obtain ⟨hthread, hentries⟩ := Prod.mk.inj hp
  refine ⟨p, _, h, ⟨1, by rw [hids]; exact List.mem_cons_self, by decide +kernel⟩, hthread, fun e he hpayload hstate => ?_⟩
  have hmem := List.mem_map_of_mem (f := fun e : Entry => (e.state, e.payload)) he
  rw [hentries, hstate, hpayload] at hmem
  revert hmem
  decide +kernel

end TransactionProcessor

end BankManagement
