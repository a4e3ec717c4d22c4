import BankManagement.AccountBooks
import BankManagement.PipelineOutcomes
import BankManagement.Serialisability
import BankManagement.StatusChanges
import Mathlib.Algebra.BigOperators.Group.Finset.Basic

namespace BankManagement

open Ledger BankingService

namespace Account

variable (a : Account) (status : AccountStatus)

@[simp] theorem setStatus_id : (a.setStatus status).id = a.id := by
  unfold setStatus
  split_ifs <;> rfl

@[simp] theorem setStatus_balance : (a.setStatus status).balance = a.balance := by
  unfold setStatus
  split_ifs <;> rfl

@[simp] theorem setStatus_status : (a.setStatus status).status = status := by
  unfold setStatus
  split_ifs with h
  · exact h
  · rfl

end Account

namespace Transaction

def effect (t : Transaction) (k : AccountId) : Int :=
  (if t.creditAccount = some k then (t.amountOf.cents : Int) else 0) -
    if t.debitAccount = some k then (t.amountOf.cents : Int) else 0

theorem effect_footprint {t : Transaction} {k : AccountId} (h : k ∉ footprint t) : t.effect k = 0 := by
  have hc : t.creditAccount ≠ some k := fun hc => h ((legs_footprint t).1 k hc)
  have hd : t.debitAccount ≠ some k := fun hd => h ((legs_footprint t).2 k hd)
  rw [effect, if_neg hc, if_neg hd]
  rfl

end Transaction

theorem TransactionRecord.Records.effect {r : TransactionRecord} {t : Transaction} (h : r.Records t) (k : AccountId) :
    r.credit k - r.debit k = t.effect k := by
  obtain ⟨-, hfrom, hto, hamount⟩ := h
  rw [credit, debit, hfrom, hto, hamount, Transaction.effect]

theorem Call.record_records (c : Call) (now : TimePoint) : (c.record now).Records c.txn := ⟨rfl, rfl, rfl, rfl⟩

def savings (k : AccountId) (p : Call × List AccountId) : Int := if k ∈ p.2 then p.1.txn.effect k else 0

def Copies (store : Ledger) (stale : List AccountId) (rows : List Account) : Prop :=
  ∀ a ∈ rows, a.id ∉ stale → store a.id = some a

def Updates (store : Ledger) (stale : List AccountId) (t : Transaction) (rows : List Account) : Prop :=
  ∀ a ∈ rows, a.id ∉ stale → ∃ b, store a.id = some b ∧
    (a.balance.cents : Int) = b.balance.cents + t.effect a.id ∧ a.status = b.status

def Act.Holds (store : Ledger) (stale : List AccountId) : Act → Prop
  | .load c todo loaded => Copies store stale loaded ∧ loaded.map (·.id) ++ todo = (Job.processImpl c).order
  | .appendWal c record loaded => record.Records c.txn ∧ Copies store stale loaded ∧
    loaded.map (·.id) = (Job.processImpl c).order
  | .save c _ record saved todo => record.Records c.txn ∧ Updates store stale c.txn todo ∧
    (saved ++ todo).map (·.id) = (Job.processImpl c).order
  | .markCommitted c _ record => record.Records c.txn
  | .appendTransaction c record => record.Records c.txn
  | _ => True

def Pc.Holds (store : Ledger) (stale : List AccountId) (pc : Pc) : Prop :=
  ∀ act, pc.act = some act → act.Holds store stale

section

variable {store store' : Ledger} {stale stale' : List AccountId} {w : World} {pc pc' : Pc}

theorem Act.Holds.frame {act : Act} (h : act.Holds store stale)
    (hk : ∀ k ∈ act.copies, k ∉ stale' → k ∉ stale ∧ store' k = store k) : act.Holds store' stale' := by
  have hcopies {rows : List Account} (hc : Copies store stale rows)
      (hk : ∀ k ∈ rows.map (·.id), k ∉ stale' → k ∉ stale ∧ store' k = store k) : Copies store' stale' rows := by
    intro a ha hs
    obtain ⟨hold, hstore⟩ := hk a.id (List.mem_map_of_mem ha) hs
    rw [hstore]
    exact hc a ha hold
  cases act with
  | load c todo loaded => exact ⟨hcopies h.1 hk, h.2⟩
  | appendWal c record loaded => exact ⟨h.1, hcopies h.2.1 hk, h.2.2⟩
  | save c lsn record saved todo =>
    refine ⟨h.1, fun a ha hs => ?_, h.2.2⟩
    obtain ⟨hold, hstore⟩ := hk a.id (List.mem_map_of_mem ha) hs
    rw [hstore]
    exact h.2.1 a ha hold
  | markCommitted c lsn record => exact h
  | appendTransaction c record => exact h
  | mutexFor job k todo => trivial
  | appendAudit entry note => trivial

theorem Act.Holds.copies {act : Act} (h : act.Holds store stale) {k : AccountId} (hk : k ∈ act.copies) :
    ∃ c, act.call = some c ∧ k ∈ footprint c.txn := by
  cases act with
  | load c todo loaded =>
    refine ⟨c, rfl, mem_order.mp ?_⟩
    rw [← h.2]
    exact List.mem_append_left _ hk
  | appendWal c record loaded =>
    refine ⟨c, rfl, mem_order.mp ?_⟩
    rw [← h.2.2]
    exact hk
  | save c lsn record saved todo =>
    refine ⟨c, rfl, mem_order.mp ?_⟩
    rw [← h.2.2, List.map_append]
    exact List.mem_append_right _ hk
  | markCommitted c lsn record => cases hk
  | appendTransaction c record => cases hk
  | mutexFor job k todo => cases hk
  | appendAudit entry note => cases hk

theorem Pc.holds_of_act (h : pc.act = none) : pc.Holds store stale := by
  intro act hact
  rw [h] at hact
  cases hact

theorem Job.lockNext_holds (job : Job) (held todo : List AccountId) : (job.lockNext held todo).Holds store stale := by
  intro act hact
  cases todo with
  | nil =>
    cases job with
    | processImpl c =>
      obtain rfl := Option.some.inj hact
      exact ⟨fun a ha => (by cases ha), rfl⟩
    | lockPair first second => cases hact
  | cons k todo =>
    obtain rfl := Option.some.inj hact
    trivial

theorem Job.entry_holds (job : Job) : job.entry.Holds store stale := by
  cases job with
  | processImpl c =>
    rw [Job.entry]
    split_ifs
    · exact Pc.holds_of_act rfl
    · exact Job.lockNext_holds _ _ _
  | lockPair first second => exact Job.lockNext_holds _ _ _

theorem Pc.Quiet.holds (h : pc.Quiet w pc') (hs : pc.Holds w.accounts.findById stale) :
    pc'.Holds w.accounts.findById stale := by
  cases h with
  | enter => exact hs
  | found => exact holds_of_act rfl
  | locked => exact Job.lockNext_holds _ _ _
  | @loaded held c k todo loaded a hfind =>
    intro act hact
    obtain rfl := Option.some.inj hact
    obtain ⟨hcopies, hids⟩ := hs (.load c (k :: todo) loaded) rfl
    have hid : a.id = k := findAccount_id hfind
    refine ⟨fun b hb hstale => ?_, by simpa [hid] using hids⟩
    rcases List.mem_append.mp hb with hb | hb
    · exact hcopies b hb hstale
    · rw [List.mem_singleton.mp hb, hid, hfind]
  | missing => exact holds_of_act rfl
  | @checked held c loaded now =>
    unfold validated
    split_ifs
    · exact holds_of_act rfl
    · intro act hact
      obtain rfl := Option.some.inj hact
      obtain ⟨hcopies, hids⟩ := hs (.load c [] loaded) rfl
      rw [List.append_nil] at hids
      exact ⟨c.record_records now, hcopies, hids⟩
  | @saved held c lsn record saved =>
    intro act hact
    obtain rfl := Option.some.inj hact
    exact (hs (.save c lsn record saved []) rfl).1
  | noted entry =>
    intro act hact
    obtain rfl := Option.some.inj hact
    trivial
  | audited => exact holds_of_act rfl
  | unlocked => exact holds_of_act rfl
  | settled => exact holds_of_act (Exit.settle_act _ _)

theorem Pc.Quiet.saved_eq (h : pc.Quiet w pc') (hs : pc.Holds store stale) :
    pc'.act.bind Act.saved = pc.act.bind Act.saved := by
  cases h with
  | enter => rfl
  | found => rfl
  | @locked job held k todo =>
    cases todo <;> cases job <;> rfl
  | loaded => rfl
  | missing => rfl
  | checked now =>
    unfold validated
    split_ifs <;> rfl
  | @saved held c lsn record saved =>
    obtain ⟨_, _, hids⟩ := hs (.save c lsn record saved []) rfl
    rw [List.append_nil] at hids
    simp only [act, Option.bind_some, Act.saved, hids]
  | noted entry => rfl
  | audited => rfl
  | unlocked => rfl
  | @settled job exit => rw [Exit.settle_act]; rfl

theorem apply_updates {c : Call} {loaded loaded' : List Account} (hc : Copies store stale loaded)
    (hids : loaded.map (·.id) = (Job.processImpl c).order) (happ : apply c.txn loaded = (.ok (), loaded')) :
    Updates store stale c.txn loaded' ∧ loaded'.map (·.id) = (Job.processImpl c).order := by
  have happ' : applied c.txn loaded = some loaded' := applied_eq_some.mpr happ
  have hids' : loaded'.map (·.id) = (Job.processImpl c).order := (applied_ids happ').trans hids
  have hnodup : (loaded'.map (·.id)).Nodup := by
    rw [hids']
    exact (Job.processImpl c).order_sorted.imp fun hlt => UInt64.ne_of_lt hlt
  have hpost : post c.txn (findAccount loaded) = some (findAccount loaded') := by
    rw [← apply_post, happ', Option.map_some]
  have hrecord := c.record_records 0
  refine ⟨fun a ha hstale => ?_, hids'⟩
  have hfind := (mem_iff_findAccount hnodup a).mp ha
  have hshift := post_shifts hpost hrecord a.id
  have hstatus := post_status hpost a.id
  rw [hfind, Option.map_some] at hshift hstatus
  obtain ⟨b, hb, hcents⟩ := Option.map_eq_some_iff.mp hshift.symm
  rw [hb, Option.map_some] at hstatus
  have hid : b.id = a.id := findAccount_id hb
  refine ⟨b, ?_, ?_, Option.some.inj hstatus⟩
  · rw [← hid]
    exact hc b (List.mem_of_find?_eq_some hb) (by rwa [hid])
  · rw [← hrecord.effect]
    exact hcents.symm

end

namespace State

variable {ι : Type} {s s' : State ι} {i : ι} {k : AccountId}

def pendingOn (s : State ι) (k : AccountId) (i : ι) : Int := (s.savedBy i).elim 0 (savings k)

variable [DecidableEq ι]

theorem Moves.savedBy_other {pc' : Pc} (hm : Moves s s' i pc') {j : ι} (hj : j ≠ i) : s'.savedBy j = s.savedBy j := by
  rw [savedBy, actOf, hm.other hj, savedBy, actOf]

theorem Moves.savedBy_self {pc' : Pc} (hm : Moves s s' i pc') : s'.savedBy i = pc'.act.bind Act.saved := by
  rw [savedBy, actOf, hm.self, Option.bind_some]

omit [DecidableEq ι] in
theorem savedBy_eq {pc : Pc} (hi : s.threads i = some pc) : s.savedBy i = pc.act.bind Act.saved := by
  rw [savedBy, actOf, hi, Option.bind_some]

theorem Moves.sum_pending {pc' : Pc} (hm : Moves s s' i pc') {active : Finset ι} (hi : i ∈ active) :
    ∑ j ∈ active, s'.pendingOn k j = ∑ j ∈ active, s.pendingOn k j + (s'.pendingOn k i - s.pendingOn k i) := by
  rw [← Finset.add_sum_erase _ _ hi, ← Finset.add_sum_erase _ _ hi]
  have hrest : ∑ j ∈ active.erase i, s'.pendingOn k j = ∑ j ∈ active.erase i, s.pendingOn k j := by
    apply Finset.sum_congr rfl
    intro j hj
    rw [pendingOn, hm.savedBy_other (Finset.ne_of_mem_erase hj), pendingOn]
  rw [hrest]
  omega

omit [DecidableEq ι] in
theorem abandonedBy_sum (htxn : s'.world.transactions = s.world.transactions)
    (h : s'.savedBy i = s.savedBy i ∨ s'.savedBy i = none ∨ s.savedBy i = none ∧ s'.pendingOn k i = 0) :
    ((s.abandonedBy s' i).map (savings k)).sum + (s'.pendingOn k i - s.pendingOn k i) = 0 := by
  unfold abandonedBy pendingOn at *
  rw [htxn]
  rcases h with h | h | ⟨h, hzero⟩
  · rw [h]
    cases s.savedBy i <;> simp
  · rw [h]
    cases s.savedBy i <;> simp
  · rw [hzero, h]
    simp

theorem save_store {held : List AccountId} {c : Call} {lsn : ℕ} {record : TransactionRecord} {saved todo : List Account}
    {a : Account} {now : TimePoint} {fault : Option Exn} (h : s.step i now fault = some s')
    (hi : s.threads i = some (.inside held (.save c lsn record saved (a :: todo))))
    (hm : Moves s s' i (.inside held (.save c lsn record (saved ++ [a]) todo))) : fault = none ∧ s.saving i = some a := by
  refine ⟨?_, by rw [saving, hi]⟩
  cases fault with
  | none => rfl
  | some what =>
    simp only [step, hi, Option.some.injEq] at h
    have hself := hm.self
    rw [← h] at hself
    simp [goto, Act.thrown] at hself

theorem step_balances {stale : List AccountId} {now : TimePoint} {fault : Option Exn}
    (hh : ∀ pc, s.threads i = some pc → pc.Holds s.store stale)
    (hsave : fault = none → ∀ a ∈ s.saving i, a.id ∉ stale) (h : s.step i now fault = some s') :
    ∃ recorded d, s'.world.transactions = s.world.transactions ++ recorded ∧ Shifts d s.store s'.store ∧
      (∀ k, (s'.store k).map (·.status) = (s.store k).map (·.status)) ∧
      ∀ k, d k = credited k recorded - debited k recorded + ((s.abandonedBy s' i).map (savings k)).sum +
        (s'.pendingOn k i - s.pendingOn k i) := by
  have hstay (ha : s'.world.accounts = s.world.accounts) (htxn : s'.world.transactions = s.world.transactions)
      (hp : ∀ k, s'.savedBy i = s.savedBy i ∨ s'.savedBy i = none ∨ s.savedBy i = none ∧ s'.pendingOn k i = 0) :
      ∃ recorded d, s'.world.transactions = s.world.transactions ++ recorded ∧ Shifts d s.store s'.store ∧
        (∀ k, (s'.store k).map (·.status) = (s.store k).map (·.status)) ∧
        ∀ k, d k = credited k recorded - debited k recorded + ((s.abandonedBy s' i).map (savings k)).sum +
          (s'.pendingOn k i - s.pendingOn k i) := by
    have hstore : s'.store = s.store := by rw [State.store, ha, State.store]
    refine ⟨[], fun _ => 0, by rw [htxn, List.append_nil], hstore ▸ Shifts.refl _, fun k => by rw [hstore], fun k => ?_⟩
    have hsum := abandonedBy_sum htxn (hp k)
    simp only [credited, debited, List.map_nil, List.sum_nil]
    omega
  cases step_effect h with
  | quiet hi hm hq ha hw htxn =>
    apply hstay ha htxn
    intro k
    rw [hm.savedBy_self, savedBy_eq hi]
    exact .inl (hq.saved_eq (hh _ hi))
  | thrown what hf hi hm hw =>
    apply hstay (by rw [hw]) (by rw [hw])
    intro k
    rw [hm.savedBy_self, Act.thrown_act]
    exact .inr (.inl rfl)
  | append hi happ hm ha hw htxn =>
    apply hstay ha htxn
    intro k
    right; right
    rw [savedBy_eq hi, pendingOn, hm.savedBy_self]
    exact ⟨rfl, by simp [Pc.act, Act.saved, savings]⟩
  | refused hi happ hm ha hw htxn =>
    apply hstay ha htxn
    intro k
    rw [hm.savedBy_self]
    exact .inr (.inl rfl)
  | commit hi hr hm ha hw htxn =>
    apply hstay ha htxn
    intro k
    rw [hm.savedBy_self, savedBy_eq hi]
    exact .inl rfl
  | rejected hi hr hm ha hw htxn =>
    apply hstay ha htxn
    intro k
    rw [hm.savedBy_self]
    exact .inr (.inl rfl)
  | @record held c record hi hm ha hw htxn =>
    have hrecords : record.Records c.txn := hh _ hi _ rfl
    have hstore : s'.store = s.store := by rw [State.store, ha, State.store]
    refine ⟨[record], fun _ => 0, htxn, hstore ▸ Shifts.refl _, fun k => by rw [hstore], fun k => ?_⟩
    have hbefore : s.pendingOn k i = c.txn.effect k := by
      rw [pendingOn, savedBy_eq hi]
      change (if k ∈ (Job.processImpl c).order then c.txn.effect k else 0) = _
      split_ifs with hk
      · rfl
      · rw [Transaction.effect_footprint fun hf => hk (mem_order.mpr hf)]
    have hafter : s'.pendingOn k i = 0 := by
      rw [pendingOn, hm.savedBy_self]
      rfl
    have habandoned : s.abandonedBy s' i = [] := by
      rw [abandonedBy, savedBy_eq hi, hm.savedBy_self, htxn]
      simp [Pc.act, Act.saved]
    have heffect := hrecords.effect k
    rw [hbefore, hafter, habandoned]
    simp only [credited, debited, List.map_cons, List.map_nil, List.sum_cons, List.sum_nil]
    omega
  | @save held c lsn record saved a todo hi hm ha hw htxn =>
    obtain ⟨hfault, hsaving⟩ := save_store h hi hm
    obtain ⟨_, hupdates, hids⟩ := hh _ hi _ rfl
    obtain ⟨b, hb, hcents, hstatus⟩ := hupdates a List.mem_cons_self (hsave hfault a hsaving)
    have hstore : s'.store = Function.update s.store a.id (some a) := by
      rw [State.store, ha, AccountRepository.findById_save]
      rfl
    have hnew : a.id ∉ saved.map (·.id) := by
      have hsorted := (Job.processImpl c).order_sorted
      rw [← hids, List.map_append, List.map_cons] at hsorted
      intro hmem
      exact absurd rfl (UInt64.ne_of_lt ((List.pairwise_append.mp hsorted).2.2 _ hmem _ List.mem_cons_self))
    refine ⟨[], _, by rw [htxn, List.append_nil], hstore ▸ update_shifts hb hcents, fun k => ?_, fun k => ?_⟩
    · rw [hstore]
      by_cases hk : k = a.id
      · rw [hk, Function.update_self, hb, Option.map_some, Option.map_some, hstatus]
      · rw [Function.update_of_ne hk]
    · have habandoned : s.abandonedBy s' i = [] := by
        rw [abandonedBy, savedBy_eq hi, hm.savedBy_self]
        rfl
      have hbefore : s.pendingOn k i = if k ∈ saved.map (·.id) then c.txn.effect k else 0 := by
        rw [pendingOn, savedBy_eq hi]
        rfl
      have hafter : s'.pendingOn k i = if k ∈ saved.map (·.id) ++ [a.id] then c.txn.effect k else 0 := by
        rw [pendingOn, hm.savedBy_self]
        change savings k (c, (saved ++ [a]).map (·.id)) = _
        rw [List.map_append]
        rfl
      rw [hbefore, hafter, habandoned]
      simp only [credited, debited, List.map_nil, List.sum_nil, List.mem_append, List.mem_singleton]
      by_cases hk : k = a.id
      · subst hk
        simp [hnew]
      · simp [hk]

theorem step_holds {stale : ι → List AccountId} {now : TimePoint} {fault : Option Exn} (hg : s.Guarded)
    (hh : ∀ j pc, s.threads j = some pc → pc.Holds s.store (stale j)) (h : s.step i now fault = some s') :
    ∀ j pc, s'.threads j = some pc → pc.Holds s'.store (stale j) := by
  have hsame {pc' : Pc} (hm : Moves s s' i pc') (ha : s'.world.accounts = s.world.accounts)
      (hown : pc'.Holds s.store (stale i)) : ∀ j pc, s'.threads j = some pc → pc.Holds s'.store (stale j) := by
    have hstore : s'.store = s.store := by rw [store, ha, store]
    rw [hstore]
    intro j pc hj
    rcases hm.cases hj with ⟨rfl, rfl⟩ | ⟨_, hj⟩
    · exact hown
    · exact hh j pc hj
  cases step_effect h with
  | quiet hi hm hq ha hw => exact hsame hm ha (hq.holds (hh _ _ hi))
  | thrown what hf hi hm hw => exact hsame hm (by rw [hw]) (Pc.holds_of_act (Act.thrown_act _ _ _))
  | @append held c record loaded hi loaded' happ hm ha hw =>
    apply hsame hm ha
    intro act hact
    obtain rfl := Option.some.inj hact
    obtain ⟨hrecords, hcopies, hids⟩ := hh _ _ hi _ rfl
    obtain ⟨hupdates, hids'⟩ := apply_updates hcopies hids happ
    exact ⟨hrecords, hupdates, hids'⟩
  | refused hi happ hm ha hw => exact hsame hm ha (Pc.holds_of_act rfl)
  | @commit held c lsn record hi hr hm ha hw =>
    apply hsame hm ha
    intro act hact
    obtain rfl := Option.some.inj hact
    exact hh _ _ hi (.markCommitted c lsn record) rfl
  | rejected hi hr hm ha hw => exact hsame hm ha (Pc.holds_of_act rfl)
  | record hi hm ha hw => exact hsame hm ha (Pc.holds_of_act rfl)
  | @save held c lsn record saved a todo hi hm ha hw =>
    obtain ⟨hrecords, hupdates, hids⟩ := hh _ _ hi _ rfl
    have hstore : s'.store = Function.update s.store a.id (some a) := by
      rw [store, ha, AccountRepository.findById_save]
      rfl
    intro j pc hj act hact
    rcases hm.cases hj with ⟨rfl, rfl⟩ | ⟨hji, hj⟩
    · obtain rfl := Option.some.inj hact
      refine ⟨hrecords, fun b hb hstale => ?_, by simpa using hids⟩
      have hne : b.id ≠ a.id := by
        have hsorted := (Job.processImpl c).order_sorted
        rw [← hids, List.map_append, List.map_cons] at hsorted
        have htail := (List.pairwise_cons.mp (List.pairwise_append.mp hsorted).2.1).1
        exact (UInt64.ne_of_lt (htail b.id (List.mem_map_of_mem hb))).symm
      rw [hstore, Function.update_of_ne hne]
      exact hupdates b (List.mem_cons_of_mem _ hb) hstale
    · refine (hh j pc hj act hact).frame fun k hk hstale => ⟨hstale, ?_⟩
      obtain ⟨c', hc', hk'⟩ := (hh j pc hj act hact).copies hk
      have hmem : a.id ∈ footprint c.txn := by
        rw [← mem_order, ← hids]
        simp
      have hdisjoint := hg.disjoint (Ne.symm hji) hi hj rfl hact rfl hc'
      have hne : k ≠ a.id := by
        rintro rfl
        exact Set.disjoint_left.mp hdisjoint hmem hk'
      rw [hstore, Function.update_of_ne hne]

end State

def lastStatus (k : AccountId) (statuses : List (AccountId × AccountStatus)) : Option AccountStatus :=
  ((statuses.filter fun p => p.1 = k).getLast?).map (·.2)

theorem lastStatus_append (k : AccountId) (statuses : List (AccountId × AccountStatus)) (p : AccountId × AccountStatus) :
    lastStatus k (statuses ++ [p]) = if p.1 = k then some p.2 else lastStatus k statuses := by
  rw [lastStatus, List.filter_append, List.filter_singleton]
  split_ifs with hk
  · simp [hk]
  · simp [hk, lastStatus]

namespace Branch

open State

variable {ι : Type} {b b' : Branch ι} {world : World}

def Finished (b : Branch ι) : Prop := (∀ i, b.pipeline.Idle i) ∧ b.inside = none

def KeepsUpdates (world : World) (b : Branch ι) : Prop :=
  ∃ recorded, b.world.transactions = world.transactions ++ recorded ∧
    ∀ k, (b.world.accounts.findById k).map (fun a => ((a.balance.cents : Int), a.status)) =
      (world.accounts.findById k).map fun a =>
        (a.balance.cents + (credited k recorded - debited k recorded + (b.abandoned.map (savings k)).sum),
          (lastStatus k b.statuses).getD a.status)

/-- A status change is saved on the row that it loaded, and a worker saves no account that a status
change has overwritten since the worker loaded it. -/
def SavesAsLoaded (b : Branch ι) : Event ι → Prop
  | .serve _ none => match b.inside with
    | some (.save _ _ account) => b.world.accounts.findById account.id = some account
    | _ => True
  | .work (.act i _ none) => ∀ a ∈ b.pipeline.saving i, a.id ∉ b.stale i
  | _ => True

structure Straight [DecidableEq ι] (world : World) (b : Branch ι) : Prop where
  guarded : b.pipeline.Guarded
  holds : ∀ i pc, b.pipeline.threads i = some pc → pc.Holds b.pipeline.store (b.stale i)
  balances : ∃ recorded, b.world.transactions = world.transactions ++ recorded ∧
    ∃ active : Finset ι, (∀ i pc, b.pipeline.threads i = some pc → i ∈ active) ∧
      Shifts (fun k => credited k recorded - debited k recorded + (b.abandoned.map (savings k)).sum +
        ∑ i ∈ active, b.pipeline.pendingOn k i) world.accounts.findById b.pipeline.store
  statuses : ∀ k, (b.pipeline.store k).map (·.status) =
    (world.accounts.findById k).map fun a => (lastStatus k b.statuses).getD a.status

variable [DecidableEq ι]

theorem straight_opened (world : World) (trail : ServiceTrail) : Straight world (opened world trail : Branch ι) where
  guarded := guarded_init world
  holds := by rintro i pc ⟨⟩
  balances := by
    refine ⟨[], (List.append_nil _).symm, ∅, by rintro i pc ⟨⟩, ?_⟩
    exact Shifts.refl _
  statuses k := by
    change (world.accounts.findById k).map (·.status) = _
    cases world.accounts.findById k <;> rfl

theorem Straight.begin (h : b.Straight world) {i : ι} {job : Job} (hn : b.next (.work (.begin i job)) = some b') :
    b'.Straight world := by
  obtain ⟨s', hs, rfl⟩ := Option.map_eq_some_iff.mp hn
  have hg := h.guarded.next hs
  obtain ⟨hidle, rfl⟩ := start_eq_some hs
  have hm : Moves b.pipeline (b.pipeline.goto i job.entry) i job.entry := rfl
  have hbefore : b.pipeline.savedBy i = none := by
    rcases hidle with hn | ⟨exit, hn⟩ <;> simp [savedBy, actOf, hn, Pc.act]
  have hafter : (b.pipeline.goto i job.entry).savedBy i = none := by
    rw [hm.savedBy_self]
    cases job with
    | processImpl c =>
      rw [Job.entry]
      split_ifs
      · rfl
      · cases (Job.processImpl c).order <;> rfl
    | lockPair first second =>
      rw [Job.entry]
      cases (Job.lockPair first second).order <;> rfl
  obtain ⟨recorded, htxn, active, hactive, hshifts⟩ := h.balances
  refine ⟨hg, fun j pc hj => ?_, ⟨recorded, htxn, insert i active, fun j pc hj => ?_, hshifts.congr fun k => ?_⟩, h.statuses⟩
  · rcases hm.cases hj with ⟨rfl, rfl⟩ | ⟨hji, hj⟩
    · exact job.entry_holds
    · change pc.Holds b.pipeline.store (Function.update b.stale i [] j)
      rw [Function.update_of_ne hji]
      exact h.holds j pc hj
  · rcases hm.cases hj with ⟨rfl, _⟩ | ⟨_, hj⟩
    · exact Finset.mem_insert_self _ _
    · exact Finset.mem_insert_of_mem (hactive j pc hj)
  · have hpending (j : ι) : (b.pipeline.goto i job.entry).pendingOn k j = b.pipeline.pendingOn k j := by
      by_cases hji : j = i
      · rw [hji, pendingOn, hafter, pendingOn, hbefore]
      · rw [pendingOn, hm.savedBy_other hji, pendingOn]
    have hsum : ∑ j ∈ insert i active, b.pipeline.pendingOn k j = ∑ j ∈ active, b.pipeline.pendingOn k j := by
      apply Finset.sum_insert_of_eq_zero_if_notMem
      intro _
      rw [pendingOn, hbefore]
      rfl
    change _ = _ - _ + ((b.abandoned ++ []).map (savings k)).sum + ∑ j ∈ insert i active, (b.pipeline.goto i job.entry).pendingOn k j
    simp only [hpending, hsum, List.append_nil]

theorem Straight.act (h : b.Straight world) {i : ι} {now : TimePoint} {fault : Option Exn}
    (hs : b.SavesAsLoaded (.work (.act i now fault))) (hn : b.next (.work (.act i now fault)) = some b') :
    b'.Straight world := by
  obtain ⟨s', hstep, rfl⟩ := Option.map_eq_some_iff.mp hn
  have hstep : b.pipeline.step i now fault = some s' := hstep
  obtain ⟨pc, pc', hi, hm, _⟩ := step_job hstep
  have hsave : fault = none → ∀ a ∈ b.pipeline.saving i, a.id ∉ b.stale i := by
    rintro rfl
    exact hs
  obtain ⟨recorded', d, htxn', hshifts', hstatus, hd⟩ := step_balances (h.holds i) hsave hstep
  obtain ⟨recorded, htxn, active, hactive, hshifts⟩ := h.balances
  have hmem : i ∈ active := hactive i pc hi
  refine ⟨h.guarded.step hstep, step_holds h.guarded h.holds hstep,
    ⟨recorded ++ recorded', ?_, active, fun j pcj hj => ?_, (hshifts.trans hshifts').congr fun k => ?_⟩,
    fun k => (hstatus k).trans (h.statuses k)⟩
  · change s'.world.transactions = _
    rw [htxn', ← List.append_assoc, ← htxn]
    rfl
  · rcases hm.cases hj with ⟨rfl, _⟩ | ⟨_, hj⟩
    · exact hmem
    · exact hactive j pcj hj
  · have hsum := hm.sum_pending (k := k) hmem
    have hcredited : credited k (recorded ++ recorded') = credited k recorded + credited k recorded' := by
      simp [credited]
    have hdebited : debited k (recorded ++ recorded') = debited k recorded + debited k recorded' := by
      simp [debited]
    change _ = _ - _ + ((b.abandoned ++ b.pipeline.abandonedBy s' i).map (savings k)).sum + ∑ j ∈ active, s'.pendingOn k j
    rw [hsum, hd k, hcredited, hdebited, List.map_append, List.sum_append]
    omega

theorem Straight.save (h : b.Straight world) {change : StatusChange} {account : Account}
    (hload : b.world.accounts.findById account.id = some account)
    (hp : b'.pipeline = (b.setWorld { b.world with
      accounts := b.world.accounts.save (account.setStatus change.status) }).pipeline)
    (hstale : b'.stale = b.outdate account.id) (habandoned : b'.abandoned = b.abandoned)
    (hstatuses : b'.statuses = b.statuses ++ [(account.id, change.status)]) : b'.Straight world := by
  have hstore : b'.pipeline.store =
      Function.update b.pipeline.store account.id (some (account.setStatus change.status)) := by
    rw [hp]
    change (b.world.accounts.save _).findById = _
    rw [AccountRepository.findById_save, account.setStatus_id]
    rfl
  have hthreads : b'.pipeline.threads = b.pipeline.threads := by
    rw [hp]
    rfl
  obtain ⟨recorded, htxn, active, hactive, hshifts⟩ := h.balances
  refine ⟨?_, fun i pc hi act hact => ?_, ⟨recorded, ?_, active, fun i pc hi => ?_, ?_⟩, fun j => ?_⟩
  · rw [hp]
    exact ⟨h.guarded.owns, h.guarded.placed⟩
  · rw [hthreads] at hi
    rw [hstale, hstore]
    refine (h.holds i pc hi act hact).frame fun j hj hnot => ?_
    have hactOf : b.pipeline.actOf i = some act := by rw [actOf, hi, Option.bind_some, hact]
    rw [outdate, hactOf, Option.map_some, Option.getD_some] at hnot
    split_ifs at hnot with hcopy
    · obtain ⟨hne, hnot⟩ := List.ne_and_not_mem_of_not_mem_cons hnot
      exact ⟨hnot, Function.update_of_ne hne _ _⟩
    · have hne : j ≠ account.id := by
        rintro rfl
        exact hcopy hj
      exact ⟨hnot, Function.update_of_ne hne _ _⟩
  · rw [Branch.world, hp]
    exact htxn
  · exact hactive i pc (hthreads ▸ hi)
  · rw [hstore]
    refine (hshifts.trans (update_shifts (x := 0) hload ?_)).congr fun j => ?_
    · rw [account.setStatus_balance, Int.add_zero]
    · have hpending (i : ι) : b'.pipeline.pendingOn j i = b.pipeline.pendingOn j i := by
        rw [pendingOn, savedBy, actOf, hthreads, pendingOn, savedBy, actOf]
      rw [ite_self, Int.add_zero, habandoned]
      simp only [hpending]
  · have hj := h.statuses j
    rw [hstore, hstatuses, lastStatus_append]
    by_cases hid : account.id = j
    · subst hid
      have hsome : (b.pipeline.store account.id).map (·.status) = some account.status :=
        congrArg (Option.map _) hload
      rw [hsome] at hj
      obtain ⟨a, ha, _⟩ := Option.map_eq_some_iff.mp hj.symm
      rw [Function.update_self, if_pos rfl, ha, Option.map_some, account.setStatus_status]
      rfl
    · rw [Function.update_of_ne (Ne.symm hid), if_neg hid]
      exact hj

theorem Straight.serve (h : b.Straight world) {now : TimePoint} {fault : Option Exn}
    (hs : b.SavesAsLoaded (.serve now fault)) (hn : b.serve now fault = some b') : b'.Straight world := by
  unfold Branch.serve at hn
  unfold SavesAsLoaded at hs
  cases hin : b.inside with
  | none =>
    rw [hin] at hn
    cases hn
  | some stage =>
    rw [hin] at hn
    cases stage with
    | find change k =>
      cases fault with
      | some what =>
        obtain rfl := Option.some.inj hn
        exact ⟨h.guarded, h.holds, h.balances, h.statuses⟩
      | none =>
        simp only at hn
        split at hn
        · obtain rfl := Option.some.inj hn
          exact ⟨h.guarded, h.holds, h.balances, h.statuses⟩
        · split_ifs at hn
          all_goals
            obtain rfl := Option.some.inj hn
            exact ⟨h.guarded, h.holds, h.balances, h.statuses⟩
    | save change k account =>
      cases fault with
      | some what =>
        obtain rfl := Option.some.inj hn
        exact ⟨h.guarded, h.holds, h.balances, h.statuses⟩
      | none =>
        obtain rfl := Option.some.inj hn
        rw [hin] at hs
        exact h.save hs rfl rfl rfl rfl
    | audit change k =>
      obtain rfl := Option.some.inj hn
      exact ⟨⟨h.guarded.owns, h.guarded.placed⟩, h.holds, h.balances, h.statuses⟩

theorem Straight.next (h : b.Straight world) {event : Event ι} (hs : b.SavesAsLoaded event)
    (hn : b.next event = some b') : b'.Straight world := by
  cases event with
  | work label =>
    cases label with
    | begin i job => exact h.begin hn
    | act i now fault => exact h.act hs hn
  | call change k =>
    rw [Branch.next] at hn
    split at hn
    · obtain rfl := Option.some.inj hn
      exact ⟨h.guarded, h.holds, h.balances, h.statuses⟩
    · cases hn
  | serve now fault => exact h.serve hs hn

theorem Straight.keeps (h : b.Straight world) (hf : b.Finished) : b.KeepsUpdates world := by
  obtain ⟨recorded, htxn, active, _, hshifts⟩ := h.balances
  have hpending (k : AccountId) (i : ι) : b.pipeline.pendingOn k i = 0 := by
    rcases hf.1 i with hi | ⟨exit, hi⟩ <;> simp [pendingOn, savedBy, actOf, hi, Pc.act]
  refine ⟨recorded, htxn, fun k => ?_⟩
  have hbalance := hshifts k
  have hstatus := h.statuses k
  simp only [hpending, Finset.sum_const_zero, Int.add_zero] at hbalance
  change (b.pipeline.store k).map _ = _
  cases hold : world.accounts.findById k <;> cases hnew : b.pipeline.store k <;> rw [hold, hnew] at hbalance hstatus
  · rfl
  · cases hbalance
  · cases hbalance
  · exact congrArg some (Prod.ext (Option.some.inj hbalance) (Option.some.inj hstatus))

/-- When all calls are over, the balances and the statuses are what was recorded and saved, in any run in
which every call saves what it has changed on the row it loaded. -/
theorem run_keepsUpdates {trail : ServiceTrail} {events : List (Event ι)} (h : (opened world trail).run events = some b)
    (hs : Runs.Along next SavesAsLoaded (opened world trail) events) (hf : b.Finished) : b.KeepsUpdates world :=
  (Runs.run_preserves (fun hs hp hn => Straight.next hs hp hn) (straight_opened world trail) hs h).keeps hf

instance (b : Branch ι) : (event : Event ι) → Decidable (b.SavesAsLoaded event)
  | .serve _ none =>
    match h : b.inside with
    | some (.save _ _ account) =>
      decidable_of_iff (b.world.accounts.findById account.id = some account) (by simp [SavesAsLoaded, h])
    | some (.find _ _) => isTrue (by simp [SavesAsLoaded, h])
    | some (.audit _ _) => isTrue (by simp [SavesAsLoaded, h])
    | none => isTrue (by simp [SavesAsLoaded, h])
  | .work (.act i _ none) => inferInstanceAs (Decidable (∀ a ∈ b.pipeline.saving i, a.id ∉ b.stale i))
  | .serve _ (some _) => isTrue trivial
  | .work (.act _ _ (some _)) => isTrue trivial
  | .work (.begin _ _) => isTrue trivial
  | .call _ _ => isTrue trivial

def depositThenFreeze : List (Event Unit) :=
  (depositRun 7).map .work ++ [.call .freeze 7, .serve 0 none, .serve 0 none, .serve 0 none]

theorem depositThenFreeze_keepsUpdates : ∃ b, (opened (oneAccountWorld 7) .initial).run depositThenFreeze = some b ∧
    b.KeepsUpdates (oneAccountWorld 7) := by
  have hrun : ((opened (oneAccountWorld 7) .initial).run depositThenFreeze).map (fun b =>
      ((b.pipeline.exitOf ()).isSome, b.inside.isNone)) = some (true, true) := by decide +kernel
  obtain ⟨b, h, hb⟩ := Option.map_eq_some_iff.mp hrun
  obtain ⟨hexit, hinside⟩ := Prod.mk.inj hb
  obtain ⟨exit, hexit⟩ := Option.isSome_iff_exists.mp hexit
  have hf : b.Finished := ⟨fun _ => .inr ⟨exit, exitOf_eq_some hexit⟩, Option.isNone_iff_eq_none.mp hinside⟩
  exact ⟨b, h, run_keepsUpdates h (by decide +kernel) hf⟩

def freezeAcrossDeposit : List (Event Unit) :=
  [.call .freeze 7, .serve 0 none] ++ (depositRun 7).map .work ++ [.serve 0 none, .serve 0 none]

theorem freezeAcrossDeposit_losesUpdate : ∃ b, (opened (oneAccountWorld 7) .initial).run freezeAcrossDeposit = some b ∧
    b.Finished ∧ ¬ b.KeepsUpdates (oneAccountWorld 7) := by
  have hrun : ((opened (oneAccountWorld 7) .initial).run freezeAcrossDeposit).map (fun b =>
      ((b.pipeline.exitOf ()).isSome && b.inside.isNone && b.abandoned.isEmpty,
        credited 7 b.world.transactions - debited 7 b.world.transactions,
        (b.world.accounts.findById 7).map (·.balance.cents))) = some (true, 5, some 100) := by decide +kernel
  obtain ⟨b, h, hb⟩ := Option.map_eq_some_iff.mp hrun
  obtain ⟨hover, hb⟩ := Prod.mk.inj hb
  obtain ⟨hrecorded, hbalance⟩ := Prod.mk.inj hb
  simp only [Bool.and_eq_true, Option.isNone_iff_eq_none, List.isEmpty_iff] at hover
  obtain ⟨⟨hexit, hinside⟩, habandoned⟩ := hover
  obtain ⟨exit, hexit⟩ := Option.isSome_iff_exists.mp hexit
  refine ⟨b, h, ⟨fun _ => .inr ⟨exit, exitOf_eq_some hexit⟩, hinside⟩, ?_⟩
  rintro ⟨recorded, htxn, hkeeps⟩
  obtain rfl : recorded = b.world.transactions := htxn.symm
  have hk := congrArg (Option.map Prod.fst) (hkeeps 7)
  have hinit : (oneAccountWorld 7).accounts.findById 7 = some (openAccount 7) := by decide +kernel
  obtain ⟨a, ha, hcents⟩ := Option.map_eq_some_iff.mp hbalance
  rw [ha, hinit, habandoned, hrecorded] at hk
  have hsum : (a.balance.cents : Int) = 100 + (5 + 0) := Option.some.inj hk
  rw [hcents] at hsum
  omega

end Branch

end BankManagement
