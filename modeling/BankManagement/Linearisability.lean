import BankManagement.AtomicBank
import BankManagement.AtomicObject
import BankManagement.PipelineOutcomes

/-!
Concurrent calls of `process_impl` look to their callers like calls of one atomic bank, which serves
each call in a single step. A call takes effect when its record is marked committed in the journal,
or where it is refused.
-/

namespace BankManagement

open Wal Ledger LocalActions AtomicObject

abbrev Bankers (ι : Type) := Object ι Call (Result TransactionRecord) Ledger

def Job.client : Job → Client Call (Result TransactionRecord)
  | .processImpl c => .called c
  | .lockPair .. => .idle

def Act.client : Act → Client Call (Result TransactionRecord)
  | .mutexFor job _ _ => job.client
  | .load c _ _ => .called c
  | .appendWal c _ _ => .called c
  | .save c _ _ _ _ => .called c
  | .markCommitted c _ _ => .called c
  | .appendTransaction _ record => .answered (.success record)
  | .appendAudit _ note => .answered note.result

def Exit.client (job : Job) : Exit → Client Call (Result TransactionRecord)
  | .returned result => .answered result
  | .thrown what => match job with
    | .processImpl _ => .answered (.failure (Processor.caught what))
    | .lockPair .. => .idle
  | .unlocked => .idle

def Pc.client : Pc → Client Call (Result TransactionRecord)
  | .want _ act => act.client
  | .inside _ act => act.client
  | .lock job _ _ _ => job.client
  | .audit _ note => .answered note.result
  | .unlock job _ exit => exit.client job
  | .finished _ => .idle

structure Ahead (store ledger : Ledger) (c : Call) (record : TransactionRecord) (saved todo : List Account) :
    Prop where
  made : ∃ loaded, Loaded ledger c loaded [] ∧ validate c.txn loaded = true ∧
    apply c.txn loaded = (.ok (), saved ++ todo)
  dated : ∃ now, record = c.record now
  values : ∀ a ∈ saved, store a.id = some a

def Act.Ready (store ledger : Ledger) : Act → Prop
  | .load c todo loaded => Loaded store c loaded todo
  | .appendWal c record loaded =>
    Loaded store c loaded [] ∧ validate c.txn loaded = true ∧ ∃ now, record = c.record now
  | .save c _ record saved todo => Ahead store ledger c record saved todo
  | .markCommitted c _ record => ∃ saved, Ahead store ledger c record saved []
  | _ => True

def Pc.Ready (store ledger : Ledger) (pc : Pc) : Prop := ∀ act, pc.act = some act → act.Ready store ledger

theorem Loaded.congr {store store' : Ledger} {c : Call} {loaded : List Account} {todo : List AccountId}
    (h : Loaded store c loaded todo) (hsame : ∀ k ∈ footprint c.txn, store' k = store k) :
    Loaded store' c loaded todo := by
  refine ⟨h.ids, fun a ha => ?_⟩
  have hk : a.id ∈ footprint c.txn := by
    rw [← mem_order, ← h.ids]
    exact List.mem_append_left _ (List.mem_map_of_mem ha)
  rw [hsame a.id hk, h.values a ha]

theorem Ahead.ids {store ledger : Ledger} {c : Call} {record : TransactionRecord} {saved todo : List Account}
    (h : Ahead store ledger c record saved todo) : (saved ++ todo).map (·.id) = (Job.processImpl c).order := by
  obtain ⟨loaded, hl, _, happ⟩ := h.made
  rw [applied_ids (applied_eq_some.mpr happ), ← hl.ids, List.append_nil]

theorem Act.Ready.frame {store store' ledger ledger' : Ledger} {act : Act} (h : act.Ready store ledger)
    (hstore : ∀ c, act.call = some c → ∀ k ∈ footprint c.txn, store' k = store k)
    (hledger : ∀ c, act.call = some c → ∀ k ∈ footprint c.txn, ledger' k = ledger k) :
    act.Ready store' ledger' := by
  have hahead {c record saved todo} (hc : act.call = some c) (ha : Ahead store ledger c record saved todo) :
      Ahead store' ledger' c record saved todo := by
    obtain ⟨loaded, hl, hmade⟩ := ha.made
    refine ⟨⟨loaded, hl.congr (hledger c hc), hmade⟩, ha.dated, fun a hs => ?_⟩
    have hk : a.id ∈ footprint c.txn := by
      rw [← mem_order, ← ha.ids]
      exact List.mem_map_of_mem (List.mem_append_left _ hs)
    rw [hstore c hc a.id hk, ha.values a hs]
  cases act with
  | load c todo loaded => exact h.congr (hstore c rfl)
  | appendWal c record loaded => exact ⟨h.1.congr (hstore c rfl), h.2⟩
  | save c lsn record saved todo => exact hahead rfl h
  | markCommitted c lsn record =>
    obtain ⟨saved, hs⟩ := h
    exact ⟨saved, hahead rfl hs⟩
  | mutexFor _ _ _ => trivial
  | appendTransaction _ _ => trivial
  | appendAudit _ _ => trivial

theorem Job.lockNext_client (job : Job) (held todo : List AccountId) : (job.lockNext held todo).client = job.client := by
  cases todo <;> cases job <;> rfl

theorem Job.lockNext_ready (job : Job) (held todo : List AccountId) {store ledger : Ledger} :
    (job.lockNext held todo).Ready store ledger := by
  intro act hact
  cases todo with
  | nil =>
    cases job with
    | processImpl c =>
      obtain rfl := Option.some.inj hact
      exact ⟨rfl, by simp⟩
    | lockPair _ _ => cases hact
  | cons k todo =>
    obtain rfl := Option.some.inj hact
    trivial

theorem Job.entry_lockNext (job : Job) : job.entry = job.lockNext [] job.order := by
  cases job with
  | processImpl c => exact if_neg (Processor.involvedAccounts_ne_nil c.txn)
  | lockPair _ _ => rfl

theorem Pc.ready_of_act {pc : Pc} (h : pc.act = none) {store ledger : Ledger} : pc.Ready store ledger := by
  intro act hact
  rw [h] at hact
  cases hact

theorem Ahead.save {store ledger : Ledger} {c : Call} {record : TransactionRecord} {saved todo : List Account}
    {a : Account} (h : Ahead store ledger c record saved (a :: todo)) :
    Ahead (Function.update store a.id (some a)) ledger c record (saved ++ [a]) todo := by
  have hsorted := (Job.processImpl c).order_sorted
  rw [← h.ids, List.map_append, List.map_cons] at hsorted
  refine ⟨by simpa using h.made, h.dated, fun b hb => ?_⟩
  rcases List.mem_append.mp hb with hb | hb
  · have hlt := (List.pairwise_append.mp hsorted).2.2 _ (List.mem_map_of_mem hb) _ List.mem_cons_self
    rw [Function.update_of_ne (UInt64.ne_of_lt hlt), h.values b hb]
  · rw [List.mem_singleton.mp hb, Function.update_self]

theorem Ahead.settles {store ledger : Ledger} {c : Call} {record : TransactionRecord} {saved : List Account}
    (h : Ahead store ledger c record saved []) {k : AccountId} (hk : k ∈ footprint c.txn) :
    store k = ledger.overwrite saved k := by
  have hids : k ∈ saved.map (·.id) := by
    rw [← List.append_nil saved, h.ids]
    exact mem_order.mpr hk
  rw [overwrite_of_mem hids]
  exact (State.findAccount_values h.values hids).symm

theorem Ahead.outside {store ledger : Ledger} {c : Call} {record : TransactionRecord} {saved : List Account}
    (h : Ahead store ledger c record saved []) {k : AccountId} (hk : k ∉ footprint c.txn) :
    ledger.overwrite saved k = ledger k := by
  apply overwrite_of_notMem
  rw [← List.append_nil saved, h.ids]
  exact fun hmem => hk (mem_order.mp hmem)

theorem Ahead.serves {store ledger : Ledger} {c : Call} {record : TransactionRecord} {saved : List Account}
    (h : Ahead store ledger c record saved []) : ledger.serve c.txn = .ok (ledger.overwrite saved) := by
  obtain ⟨loaded, hl, hvalid, happ⟩ := h.made
  rw [List.append_nil] at happ
  simp [serve_loaded hl, hvalid, happ]

def Pc.answer : Pc → Option (Result TransactionRecord)
  | .finished (.returned result) => some result
  | _ => none

theorem Job.lockNext_answer (job : Job) (held todo : List AccountId) : (job.lockNext held todo).answer = none := by
  cases todo <;> cases job <;> rfl

inductive Pc.Shows (ledger : Ledger) (pc pc' : Pc) : Prop
  | nothing (h : pc'.client = pc.client) (ha : pc'.answer = none)
  | refusal {c message} (h : pc.client = .called c) (h' : pc'.client = .answered (.failure message))
    (hs : ledger.serve c.txn = .error message) (ha : pc'.answer = none)
  | answered {result} (h : pc.client = .answered result) (h' : pc'.client = .idle) (ha : pc'.answer = some result)

theorem Exit.settle_shows (job : Job) (exit : Exit) (ledger : Ledger) :
    (Pc.unlock job [] exit).Shows ledger (exit.settle job) := by
  cases exit with
  | returned result => cases job <;> exact .answered rfl rfl rfl
  | thrown what =>
    cases job with
    | processImpl c => exact .nothing rfl rfl
    | lockPair _ _ => exact .nothing rfl rfl
  | unlocked => cases job <;> exact .nothing rfl rfl

theorem Pc.Quiet.shows {w : World} {pc pc' : Pc} (h : pc.Quiet w pc') {ledger : Ledger}
    (hl : ∀ c loaded todo, pc.act = some (.load c todo loaded) → Loaded ledger c loaded todo)
    (hagree : ∀ c loaded todo, pc.act = some (.load c todo loaded) →
      ∀ k ∈ footprint c.txn, w.accounts.findById k = ledger k) : pc.Shows ledger pc' := by
  cases h with
  | enter => exact .nothing rfl rfl
  | found => exact .nothing rfl rfl
  | @locked job held k todo => exact .nothing (job.lockNext_client _ _) (job.lockNext_answer _ _)
  | loaded => exact .nothing rfl rfl
  | @missing held c k todo loaded hk =>
    have hload := hl c loaded (k :: todo) rfl
    refine .refusal rfl rfl (serve_missing hload ?_) rfl
    rw [← hagree c loaded (k :: todo) rfl k, hk]
    rw [← mem_order, ← hload.ids]
    exact List.mem_append_right _ List.mem_cons_self
  | @checked held c loaded now =>
    have hserve := serve_loaded (hl c loaded [] rfl)
    unfold validated
    split_ifs with hv
    · rw [if_pos hv] at hserve
      exact .refusal rfl rfl hserve rfl
    · exact .nothing rfl rfl
  | saved => exact .nothing rfl rfl
  | noted entry => exact .nothing rfl rfl
  | audited => exact .nothing rfl rfl
  | unlocked => exact .nothing rfl rfl
  | @settled job exit => exact exit.settle_shows job ledger

theorem Pc.Quiet.ready {w : World} {pc pc' : Pc} (h : pc.Quiet w pc') {ledger : Ledger}
    (hr : pc.Ready w.accounts.findById ledger) : pc'.Ready w.accounts.findById ledger := by
  cases h with
  | enter => exact hr
  | found => exact ready_of_act rfl
  | locked => exact Job.lockNext_ready _ _ _
  | @loaded held c k todo loaded a h =>
    intro act hact
    obtain rfl := Option.some.inj hact
    have hl : Loaded w.accounts.findById c loaded (k :: todo) := hr _ rfl
    have hid : a.id = k := findAccount_id h
    refine ⟨by simpa [hid] using hl.ids, fun b hb => ?_⟩
    rcases List.mem_append.mp hb with hb | hb
    · exact hl.values b hb
    · rw [List.mem_singleton.mp hb, hid, h]
  | missing => exact ready_of_act rfl
  | @checked held c loaded now =>
    unfold validated
    split_ifs with hv
    · exact ready_of_act rfl
    · intro act hact
      obtain rfl := Option.some.inj hact
      exact ⟨hr (.load c [] loaded) rfl, by simpa using hv, now, rfl⟩
  | @saved held c lsn record saved =>
    intro act hact
    obtain rfl := Option.some.inj hact
    exact ⟨saved, hr (.save c lsn record saved []) rfl⟩
  | noted entry =>
    intro act hact
    obtain rfl := Option.some.inj hact
    trivial
  | audited => exact ready_of_act rfl
  | unlocked => exact ready_of_act rfl
  | settled => exact ready_of_act (Exit.settle_act _ _)

theorem markCommitted_ids (w : WalLogger) (id : TransactionId) :
    (w.markCommitted id).2.entries.map (·.id) = w.entries.map (·.id) := by
  by_cases h : ∃ e ∈ w.entries, e.id = id
  · obtain ⟨i, e, he, _, _, ⟨_, hr⟩ | ⟨_, hr⟩⟩ := WalLogger.markCommitted_known h
    · rw [hr]
    · rw [hr]
      obtain ⟨hlt, rfl⟩ := List.getElem?_eq_some_iff.mp he
      change (w.entries.set i { w.entries[i] with state := .committed }).map (·.id) = w.entries.map (·.id)
      rw [List.map_set]
      apply List.ext_getElem?
      intro j
      by_cases hj : i = j
      · subst hj
        simp [hlt]
      · rw [List.getElem?_set_ne hj]
  · rw [WalLogger.markCommitted_unknown (by simpa using h)]

namespace State

variable {ι : Type}

def client (s : State ι) (i : ι) : Client Call (Result TransactionRecord) :=
  match s.threads i with
  | none => .idle
  | some pc => pc.client

structure Mirrors (s : State ι) (o : Bankers ι) : Prop where
  guarded : s.Guarded
  clients : o.clients = s.client
  settled : ∀ k, s.Settled k → s.store k = o.value k
  ready : ∀ i pc, s.threads i = some pc → pc.Ready s.store o.value
  journal : ∀ i pc c lsn record, s.threads i = some pc → pc.written = some (c, lsn, record) →
    c.id ∈ s.entries.map (·.id)

theorem client_of {s : State ι} {i : ι} {pc : Pc} (h : s.threads i = some pc) : s.client i = pc.client := by
  rw [client, h]

variable {s s' : State ι} {o : Bankers ι} {i : ι}

theorem mirrors_init (world : World) :
    (init world : State ι).Mirrors ⟨world.accounts.findById, fun _ => .idle⟩ where
  guarded := guarded_init world
  clients := rfl
  settled _ _ := rfl
  ready _ _ h := by simp [init] at h
  journal _ _ _ _ _ h := by simp [init] at h

theorem Mirrors.agrees (hr : s.Mirrors o) {pc : Pc} (hi : s.threads i = some pc) {act : Act} {c : Call}
    (ha : pc.act = some act) (hc : act.call = some c) (hcov : act.covers = ∅) {k : AccountId}
    (hk : k ∈ footprint c.txn) : s.store k = o.value k := by
  apply hr.settled
  rintro j pcj hjt ⟨act', ha', hk'⟩
  by_cases hne : i = j
  · subst hne
    obtain rfl := Option.some.inj (hi.symm.trans hjt)
    obtain rfl := Option.some.inj (ha.symm.trans ha')
    rw [hcov] at hk'
    exact Set.notMem_empty k hk'
  · obtain ⟨c', hc', hk'⟩ := Act.covers_call hk'
    exact Set.disjoint_left.mp (hr.guarded.disjoint hne hi hjt ha ha' hc hc') hk hk'

theorem Mirrors.loaded (hr : s.Mirrors o) {pc : Pc} (hi : s.threads i = some pc) {act : Act} {c : Call}
    (ha : pc.act = some act) (hc : act.call = some c) (hcov : act.covers = ∅) {loaded : List Account}
    {todo : List AccountId} (hl : Loaded s.store c loaded todo) : Loaded o.value c loaded todo := by
  refine ⟨hl.ids, fun a hmem => ?_⟩
  rw [← hr.agrees hi ha hc hcov, hl.values a hmem]
  rw [← mem_order, ← hl.ids]
  exact List.mem_append_left _ (List.mem_map_of_mem hmem)

theorem Mirrors.others (hr : s.Mirrors o) {pc : Pc} (hi : s.threads i = some pc) {act : Act} {c : Call}
    (ha : pc.act = some act) (hc : act.call = some c) {store' ledger' : Ledger}
    (hstore : ∀ k ∉ footprint c.txn, store' k = s.store k) (hledger : ∀ k ∉ footprint c.txn, ledger' k = o.value k)
    {j : ι} (hne : j ≠ i) {pcj : Pc} (hjt : s.threads j = some pcj) : pcj.Ready store' ledger' := by
  intro act' ha'
  have hdisj {c'} (hc' : act'.call = some c') : Disjoint (footprint c'.txn) (footprint c.txn) :=
    hr.guarded.disjoint hne hjt hi ha' ha hc' hc
  apply (hr.ready j pcj hjt act' ha').frame
  · intro c' hc' k hk
    exact hstore k (Set.disjoint_left.mp (hdisj hc') hk)
  · intro c' hc' k hk
    exact hledger k (Set.disjoint_left.mp (hdisj hc') hk)

variable [DecidableEq ι]

theorem Moves.clients_update {pc' : Pc} (hm : Moves s s' i pc') : s'.client = Function.update s.client i pc'.client := by
  funext j
  by_cases hj : j = i
  · subst hj
    rw [client_of hm.self, Function.update_self]
  · rw [client, hm.other hj, Function.update_of_ne hj, client]

theorem Mirrors.moved (hr : s.Mirrors o) (hg : s'.Guarded) {pc' : Pc} (hm : Moves s s' i pc') {ledger : Ledger}
    (hsettled : ∀ k, s'.Settled k → s'.store k = ledger k) (hready : pc'.Ready s'.store ledger)
    (hothers : ∀ j pcj, j ≠ i → s.threads j = some pcj → pcj.Ready s'.store ledger)
    (hids : ∀ x ∈ s.entries.map (·.id), x ∈ s'.entries.map (·.id))
    (hown : ∀ c lsn record, pc'.written = some (c, lsn, record) → c.id ∈ s'.entries.map (·.id)) :
    s'.Mirrors ⟨ledger, Function.update o.clients i pc'.client⟩ where
  guarded := hg
  clients := by rw [hm.clients_update, hr.clients]
  settled := hsettled
  ready j pcj hj := by
    rcases hm.cases hj with ⟨_, rfl⟩ | ⟨hji, hj⟩
    · exact hready
    · exact hothers j pcj hji hj
  journal j pcj c lsn record hj hw := by
    rcases hm.cases hj with ⟨_, rfl⟩ | ⟨_, hj⟩
    · exact hown c lsn record hw
    · exact hids _ (hr.journal j pcj c lsn record hj hw)

theorem Mirrors.quiet (hr : s.Mirrors o) (hg : s'.Guarded) {pc pc' : Pc} (hi : s.threads i = some pc)
    (hm : Moves s s' i pc') (ha : s'.world.accounts = s.world.accounts)
    (hids : ∀ x ∈ s.entries.map (·.id), x ∈ s'.entries.map (·.id)) (hcov : pc'.covers = pc.covers)
    (hready : pc'.Ready s.store o.value) (hown : ∀ p, pc'.written = some p → pc.written = some p) :
    s'.Mirrors ⟨o.value, Function.update o.clients i pc'.client⟩ := by
  have hstore : s'.store = s.store := by rw [State.store, ha, State.store]
  apply hr.moved hg hm
  · intro k hk
    rw [hstore]
    apply hr.settled
    refine hk.back hm fun hnot pc₁ hpc => ?_
    obtain rfl := Option.some.inj (hi.symm.trans hpc)
    rwa [hcov] at hnot
  · rwa [hstore]
  · intro j pcj _ hj
    rw [hstore]
    exact hr.ready j pcj hj
  · exact hids
  · intro c lsn record hw
    exact hids _ (hr.journal i pc c lsn record hi (hown _ hw))

theorem Mirrors.stutter (hr : s.Mirrors o) {pc pc' : Pc} (hi : s.threads i = some pc) (hc : pc'.client = pc.client) :
    Step Serves o none ⟨o.value, Function.update o.clients i pc'.client⟩ := by
  rw [hc, ← client_of hi, ← hr.clients, Function.update_eq_self]
  exact .stutter

end State

def Label.event {ι : Type} : State ι → Label ι → State ι → Option (AtomicObject.Event ι Call (Result TransactionRecord))
  | _, .begin i (.processImpl c), _ => some (.call i c)
  | _, .begin _ (.lockPair _ _), _ => none
  | _, .act i _ _, s' => ((s'.threads i).bind Pc.answer).map (.answer i)

namespace State

variable {ι : Type} [DecidableEq ι] {s s' : State ι} {o : Bankers ι} {i : ι}

theorem Moves.event {pc' : Pc} (hm : Moves s s' i pc') (now : TimePoint) (fault : Option Exn) :
    Label.event s (.act i now fault) s' = pc'.answer.map (.answer i) := by
  rw [Label.event, hm.self, Option.bind_some]

theorem Mirrors.step_shows (hr : s.Mirrors o) {pc pc' : Pc} (hi : s.threads i = some pc) (h : pc.Shows o.value pc') :
    Step Serves o (pc'.answer.map (.answer i)) ⟨o.value, Function.update o.clients i pc'.client⟩ := by
  have hclient : o.clients i = pc.client := by rw [hr.clients, client_of hi]
  cases h with
  | nothing h ha =>
    rw [ha]
    exact hr.stutter hi h
  | refusal h h' hs ha =>
    rw [ha, h']
    exact .effect (hclient.trans h) (.refused hs)
  | answered h h' ha =>
    rw [ha, h']
    exact .answer (hclient.trans h)

omit [DecidableEq ι] in
theorem entries_append {c : Call} {now : TimePoint} (hw : s'.world.wal = s.world.wal.append (c.record now)) :
    s'.entries.map (·.id) = s.entries.map (·.id) ++ [c.id] := by
  rw [entries, hw, append_entries, List.map_append]
  rfl

theorem Mirrors.append (hr : s.Mirrors o) (hg : s'.Guarded) {held : List AccountId} {c : Call}
    {record : TransactionRecord} {loaded loaded' : List Account}
    (hi : s.threads i = some (.inside held (.appendWal c record loaded))) (happ : apply c.txn loaded = (.ok (), loaded'))
    (hm : Moves s s' i (.want held (.save c s.world.wal.size record [] loaded')))
    (ha : s'.world.accounts = s.world.accounts) (hw : s'.world.wal = s.world.wal.append record) :
    ∃ o', Step Serves o none o' ∧ s'.Mirrors o' ∧ o'.value = o.value := by
  obtain ⟨hload, hvalid, now, rfl⟩ := hr.ready i _ hi _ rfl
  have hstore : s'.store = s.store := by rw [State.store, ha, State.store]
  refine ⟨_, hr.stutter hi rfl, hr.moved hg hm ?_ ?_ ?_ ?_ ?_, rfl⟩
  · intro k hk
    rw [hstore]
    apply hr.settled
    refine hk.back hm fun _ pc hpc => ?_
    obtain rfl := Option.some.inj (hi.symm.trans hpc)
    rw [Pc.covers_inside]
    exact Set.notMem_empty k
  · intro act hact
    obtain rfl := Option.some.inj hact
    exact ⟨⟨loaded, hr.loaded hi rfl rfl rfl hload, hvalid, happ⟩, ⟨now, rfl⟩, by simp⟩
  · intro j pcj _ hj
    rw [hstore]
    exact hr.ready j pcj hj
  · intro x hx
    rw [entries_append hw]
    exact List.mem_append_left _ hx
  · rintro c' lsn record hwritten
    obtain ⟨rfl, -⟩ := Prod.mk.inj (Option.some.inj hwritten)
    rw [entries_append hw]
    exact List.mem_append_right _ (List.mem_singleton_self _)

theorem Mirrors.refused (hr : s.Mirrors o) (hg : s'.Guarded) {held : List AccountId} {c : Call}
    {record : TransactionRecord} {loaded loaded' : List Account} {what : Exn}
    (hi : s.threads i = some (.inside held (.appendWal c record loaded)))
    (happ : apply c.txn loaded = (.error what, loaded'))
    (hm : Moves s s' i (.unlock (.processImpl c) held (.thrown what)))
    (ha : s'.world.accounts = s.world.accounts) (hw : s'.world.wal = s.world.wal.append record) :
    ∃ o', Step Serves o none o' ∧ s'.Mirrors o' ∧ o'.value = o.value := by
  obtain ⟨hload, hvalid, now, rfl⟩ := hr.ready i _ hi _ rfl
  have hserve := serve_loaded (hr.loaded hi rfl rfl rfl hload)
  simp only [hvalid, happ, Bool.not_true, Bool.false_eq_true, ↓reduceIte] at hserve
  refine ⟨_, .effect ?_ (.refused hserve), hr.quiet hg hi hm ha ?_ ?_ (Pc.ready_of_act rfl) ?_, rfl⟩
  · rw [hr.clients, client_of hi]
    rfl
  · intro x hx
    rw [entries_append hw]
    exact List.mem_append_left _ hx
  · rw [Pc.covers_inside, Pc.covers_of_act rfl]
    rfl
  · intro p hp
    cases hp

theorem Mirrors.save (hr : s.Mirrors o) (hg : s'.Guarded) {held : List AccountId} {c : Call} {lsn : ℕ}
    {record : TransactionRecord} {saved todo : List Account} {a : Account}
    (hi : s.threads i = some (.inside held (.save c lsn record saved (a :: todo))))
    (hm : Moves s s' i (.inside held (.save c lsn record (saved ++ [a]) todo)))
    (ha : s'.world.accounts = s.world.accounts.save a) (hw : s'.world.wal = s.world.wal) :
    ∃ o', Step Serves o none o' ∧ s'.Mirrors o' ∧ o'.value = o.value := by
  have hahead : Ahead s.store o.value c record saved (a :: todo) := hr.ready i _ hi _ rfl
  have hstore : s'.store = Function.update s.store a.id (some a) := by
    rw [State.store, ha, AccountRepository.findById_save]
    rfl
  have hentries : s'.entries = s.entries := by rw [entries, hw, entries]
  have hmem : a.id ∈ footprint c.txn := by
    rw [← mem_order, ← hahead.ids]
    simp
  have houtside : ∀ k ∉ footprint c.txn, s'.store k = s.store k := by
    intro k hk
    rw [hstore, Function.update_of_ne (by rintro rfl; exact hk hmem)]
  refine ⟨_, hr.stutter hi rfl, hr.moved hg hm ?_ ?_ ?_ ?_ ?_, rfl⟩
  · intro k hk
    have hnot : k ∉ footprint c.txn := by
      have hnot := hk i _ hm.self
      rwa [Pc.covers_inside] at hnot
    rw [houtside k hnot]
    apply hr.settled
    refine hk.back hm fun _ pc hpc => ?_
    obtain rfl := Option.some.inj (hi.symm.trans hpc)
    rwa [Pc.covers_inside]
  · intro act hact
    obtain rfl := Option.some.inj hact
    rw [hstore]
    exact hahead.save
  · intro j pcj hji hj
    exact hr.others hi rfl rfl houtside (fun _ _ => rfl) hji hj
  · intro x hx
    rwa [hentries]
  · intro c' lsn' record' hwritten
    rw [hentries]
    exact hr.journal i _ c' lsn' record' hi hwritten

theorem Mirrors.commit (hr : s.Mirrors o) (hg : s'.Guarded) {held : List AccountId} {c : Call} {lsn : ℕ}
    {record : TransactionRecord} (hi : s.threads i = some (.inside held (.markCommitted c lsn record)))
    (hm : Moves s s' i (.want held (.appendTransaction c { record with state := .committed })))
    (ha : s'.world.accounts = s.world.accounts) (hw : s'.world.wal = (s.world.wal.markCommitted c.id).2) :
    ∃ o', Step Serves o none o' ∧ s'.Mirrors o' ∧ o.value.serve c.txn = .ok o'.value := by
  obtain ⟨saved, hahead⟩ : ∃ saved, Ahead s.store o.value c record saved [] := hr.ready i _ hi _ rfl
  obtain ⟨now, rfl⟩ := hahead.dated
  have hstore : s'.store = s.store := by rw [State.store, ha, State.store]
  refine ⟨_, .effect ?_ (.committed now hahead.serves), hr.moved hg hm ?_ ?_ ?_ ?_ ?_, hahead.serves⟩
  · rw [hr.clients, client_of hi]
    rfl
  · intro k hk
    rw [hstore]
    by_cases hkc : k ∈ footprint c.txn
    · exact hahead.settles hkc
    · rw [hahead.outside hkc]
      apply hr.settled
      refine hk.back hm fun _ pc hpc => ?_
      obtain rfl := Option.some.inj (hi.symm.trans hpc)
      rwa [Pc.covers_inside]
  · intro act hact
    obtain rfl := Option.some.inj hact
    trivial
  · intro j pcj hji hj
    rw [hstore]
    exact hr.others hi rfl rfl (fun _ _ => rfl) (fun k hk => hahead.outside hk) hji hj
  · intro x hx
    rwa [entries, hw, markCommitted_ids]
  · intro c' lsn' record' hwritten
    cases hwritten

omit [DecidableEq ι] in
theorem committing_none {pc : Pc} (hi : s.threads i = some pc)
    (hne : ∀ held c lsn record, pc ≠ .inside held (.markCommitted c lsn record)) : s.committing i = none := by
  unfold committing
  split
  · rename_i held c lsn record hpc
    exact absurd (Option.some.inj (hi.symm.trans hpc)) (hne held c lsn record)
  · rfl

theorem Mirrors.step (hr : s.Mirrors o) {now : TimePoint} (h : s.step i now none = some s') :
    ∃ o', Step Serves o (Label.event s (.act i now none) s') o' ∧ s'.Mirrors o' ∧
      match s.committing i with
      | none => o'.value = o.value
      | some (c, _) => o.value.serve c.txn = .ok o'.value := by
  have hg := hr.guarded.step h
  cases step_effect h with
  | @quiet pc pc' hi hm hq ha hw =>
    rw [hm.event]
    rw [committing_none hi (by rintro held c lsn record rfl; cases hq)]
    refine ⟨_, hr.step_shows hi (hq.shows ?_ ?_), hr.quiet hg hi hm ha ?_ hq.covers ?_ hq.inherits.written, rfl⟩
    · intro c loaded todo hact
      exact hr.loaded hi hact rfl rfl (hr.ready i pc hi _ hact)
    · intro c loaded todo hact k hk
      exact hr.agrees hi hact rfl rfl hk
    · intro x hx
      rwa [entries, hw]
    · exact hq.ready (hr.ready i pc hi)
  | thrown what hf => cases hf
  | append hi happ hm ha hw =>
    rw [hm.event, committing_none hi (by simp)]
    exact hr.append hg hi happ hm ha hw
  | refused hi happ hm ha hw =>
    rw [hm.event, committing_none hi (by simp)]
    exact hr.refused hg hi happ hm ha hw
  | save hi hm ha hw =>
    rw [hm.event, committing_none hi (by simp)]
    exact hr.save hg hi hm ha hw
  | @commit held c lsn record hi hok hm ha hw =>
    rw [hm.event, show s.committing i = some (c, record) by rw [committing, hi]]
    exact hr.commit hg hi hm ha hw
  | @rejected held c lsn record hi what hno hm ha hw =>
    obtain ⟨e, he, hid⟩ := List.mem_map.mp (hr.journal i _ c lsn record hi rfl)
    obtain ⟨_, _, _, _, _, ⟨_, hok⟩ | ⟨_, hok⟩⟩ := WalLogger.markCommitted_known ⟨e, he, hid⟩
    · rw [hok] at hno
      cases hno
    · rw [hok] at hno
      cases hno
  | @record held c record hi hm ha hw =>
    rw [hm.event, committing_none hi (by simp)]
    have hsame : (Pc.audit held (.completed c record)).client =
      (Pc.inside held (.appendTransaction c record)).client := rfl
    refine ⟨_, hr.stutter hi hsame, hr.quiet hg hi hm ha ?_ ?_ (Pc.ready_of_act rfl) ?_, rfl⟩
    · intro x hx
      rwa [entries, hw]
    · rw [Pc.covers_inside, Pc.covers_of_act rfl]
      rfl
    · intro p hp
      cases hp

omit [DecidableEq ι] in
theorem Idle.client (h : s.Idle i) : s.client i = .idle := by
  rcases h with hn | ⟨exit, hf⟩
  · rw [State.client, hn]
  · rw [client_of hf]
    rfl

theorem Mirrors.start (hr : s.Mirrors o) {job : Job} (h : s.start i job = some s') :
    ∃ o', Step Serves o (Label.event s (.begin i job) s') o' ∧ s'.Mirrors o' ∧ o'.value = o.value := by
  have hg := hr.guarded.next (show s.next (.begin i job) = some s' from h)
  obtain ⟨hidle, rfl⟩ := start_eq_some h
  have hm : Moves s (s.goto i job.entry) i job.entry := rfl
  have hclient : job.entry.client = job.client := by rw [job.entry_lockNext, Job.lockNext_client]
  have hmirrors : (s.goto i job.entry).Mirrors ⟨o.value, Function.update o.clients i job.client⟩ := by
    rw [← hclient]
    apply hr.moved hg hm
    · intro k hk
      apply hr.settled
      refine hk.back hm fun _ pc hpc => ?_
      rcases hidle with hn | ⟨exit, hf⟩
      · rw [hn] at hpc
        cases hpc
      · obtain rfl := Option.some.inj (hf.symm.trans hpc)
        rw [Pc.covers_of_act rfl]
        exact Set.notMem_empty k
    · rw [job.entry_lockNext]
      exact Job.lockNext_ready _ _ _
    · exact fun j pcj _ hj => hr.ready j pcj hj
    · exact fun x hx => hx
    · intro c lsn record hw
      rw [job.entry_fresh.1] at hw
      cases hw
  refine ⟨_, ?_, hmirrors, rfl⟩
  have hnone : o.clients i = .idle := by rw [hr.clients, hidle.client]
  cases job with
  | processImpl c => exact .call hnone
  | lockPair first second =>
    have hsame : Function.update o.clients i (Job.lockPair first second).client = o.clients := by
      apply Function.update_eq_self_iff.mpr
      exact hnone.symm
    rw [hsame]
    exact .stutter

theorem Mirrors.next (hr : s.Mirrors o) {label : Label ι} (hfault : label.fault = none)
    (h : s.next label = some s') : ∃ o', Step Serves o (Label.event s label s') o' ∧ s'.Mirrors o' := by
  cases label with
  | begin i job =>
    obtain ⟨o', hstep, hr', _⟩ := hr.start h
    exact ⟨o', hstep, hr'⟩
  | act i now fault =>
    obtain rfl : fault = none := hfault
    obtain ⟨o', hstep, hr', _⟩ := hr.step h
    exact ⟨o', hstep, hr'⟩

def history (s : State ι) (labels : List (Label ι)) : List (AtomicObject.Event ι Call (Result TransactionRecord)) :=
  trace next Label.event s labels

theorem run_mirrors {world : World} {labels : List (Label ι)} (h : (init world).run labels = some s)
    (hfaults : ∀ label ∈ labels, label.fault = none) :
    ∃ o, Execution Serves ⟨world.accounts.findById, fun _ => .idle⟩ (history (init world) labels) o ∧ s.Mirrors o :=
  run_simulated (fun hr hfault hs => Mirrors.next hr hfault hs) (mirrors_init world)
    (Runs.Along.of_forall hfaults) h

/-- Whatever the interleaving, each call returns what it would have returned alone at one point
between its beginning and its return, and so do the accounts that no call holds. -/
theorem run_linearisable {world : World} {labels : List (Label ι)} (h : (init world).run labels = some s)
    (hfaults : ∀ label ∈ labels, label.fault = none) :
    ∃ ledger, Linearisable Serves world.accounts.findById (history (init world) labels) ledger ∧
      ∀ k, s.owner (.account k) = none → s.world.accounts.findById k = ledger k := by
  obtain ⟨o, he, hr⟩ := run_mirrors h hfaults
  refine ⟨o.value, he.linearisable, fun k hk => ?_⟩
  exact hr.settled k (hr.guarded.settled_of_free hk)

def overlappingCalls : List (Label Bool) :=
  [.begin false (.processImpl ⟨.deposit 7 5, 1⟩), .begin true (.processImpl ⟨.withdraw 7 200, 2⟩)] ++
    List.replicate 20 (.act false 0 none) ++ List.replicate 11 (.act true 0 none)

theorem overlappingCalls_linearisable : ∃ s, (init (oneAccountWorld 7)).run overlappingCalls = some s ∧
    ∃ ledger, Linearisable Serves (oneAccountWorld 7).accounts.findById
        (history (init (oneAccountWorld 7)) overlappingCalls) ledger ∧
      ∀ k, s.owner (.account k) = none → s.world.accounts.findById k = ledger k := by
  have hsome : ((init (oneAccountWorld 7)).run overlappingCalls).isSome := by decide +kernel
  obtain ⟨s, h⟩ := Option.isSome_iff_exists.mp hsome
  exact ⟨s, h, run_linearisable h (by decide)⟩

end State

end BankManagement
