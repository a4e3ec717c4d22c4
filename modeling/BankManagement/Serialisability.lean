import BankManagement.PipelineIds

namespace BankManagement

open Wal Codec Ledger LocalActions

def Act.call : Act → Option Call
  | .load c _ _ => some c
  | .appendWal c _ _ => some c
  | .save c _ _ _ _ => some c
  | .markCommitted c _ _ => some c
  | .appendTransaction c _ => some c
  | _ => none

def Act.covers : Act → Set AccountId
  | .save c _ _ _ _ => footprint c.txn
  | .markCommitted c _ _ => footprint c.txn
  | _ => ∅

def Pc.covers (pc : Pc) : Set AccountId := {k | ∃ act, pc.act = some act ∧ k ∈ act.covers}

structure Loaded (store : Ledger) (c : Call) (loaded : List Account) (todo : List AccountId) : Prop where
  ids : loaded.map (·.id) ++ todo = (Job.processImpl c).order
  values : ∀ a ∈ loaded, store a.id = some a

structure Saving (entries : List Entry) (store ledger : Ledger) (start : ℕ) (c : Call) (lsn : ℕ)
    (saved todo : List Account) : Prop where
  start_le : start ≤ lsn
  later : ∀ j e t, lsn < j → entries[j]? = some e → e.intent = some t →
    Disjoint (footprint c.txn) (footprint t)
  ids : (saved ++ todo).map (·.id) = (Job.processImpl c).order
  posts : ∃ ledger', post c.txn ledger = some ledger' ∧
    ∀ k ∈ footprint c.txn, ledger' k = findAccount (saved ++ todo) k
  values : ∀ a ∈ saved, store a.id = some a

def Act.Fact (entries : List Entry) (store ledger : Ledger) (start : ℕ) : Act → Prop
  | .load c todo loaded => Loaded store c loaded todo
  | .appendWal c _ loaded => Loaded store c loaded []
  | .save c lsn _ saved todo => Saving entries store ledger start c lsn saved todo
  | .markCommitted c lsn _ => ∃ saved, Saving entries store ledger start c lsn saved []
  | _ => True

def Pc.Fact (entries : List Entry) (store ledger : Ledger) (start : ℕ) (pc : Pc) : Prop :=
  ∀ act, pc.act = some act → act.Fact entries store ledger start

theorem mem_order {c : Call} {k : AccountId} : k ∈ (Job.processImpl c).order ↔ k ∈ footprint c.txn :=
  (List.perm_insertionSort _ _).mem_iff

theorem Act.covers_call {act : Act} {k : AccountId} (h : k ∈ act.covers) :
    ∃ c, act.call = some c ∧ k ∈ footprint c.txn := by
  cases act with
  | save c _ _ _ _ => exact ⟨c, rfl, h⟩
  | markCommitted c _ _ => exact ⟨c, rfl, h⟩
  | mutexFor _ _ _ => exact absurd h (Set.notMem_empty k)
  | load _ _ _ => exact absurd h (Set.notMem_empty k)
  | appendWal _ _ _ => exact absurd h (Set.notMem_empty k)
  | appendTransaction _ _ => exact absurd h (Set.notMem_empty k)
  | appendAudit _ _ => exact absurd h (Set.notMem_empty k)

theorem Act.Placed.order {held : List AccountId} {act : Act} {c : Call} (h : act.Placed held)
    (hc : act.call = some c) : held = (Job.processImpl c).order := by
  cases act with
  | load _ _ _ => obtain rfl := Option.some.inj hc; exact h
  | appendWal _ _ _ => obtain rfl := Option.some.inj hc; exact h
  | save _ _ _ _ _ => obtain rfl := Option.some.inj hc; exact h
  | markCommitted _ _ _ => obtain rfl := Option.some.inj hc; exact h
  | appendTransaction _ _ => obtain rfl := Option.some.inj hc; exact h
  | mutexFor _ _ _ => cases hc
  | appendAudit _ _ => cases hc

theorem Pc.Placed.holds_footprint {pc : Pc} (h : pc.Placed) {act : Act} {c : Call} (ha : pc.act = some act)
    (hc : act.call = some c) {k : AccountId} (hk : k ∈ footprint c.txn) : .account k ∈ pc.holding := by
  cases pc with
  | want held act' =>
    obtain rfl := Option.some.inj ha
    exact List.mem_map_of_mem (Act.Placed.order h hc ▸ mem_order.mpr hk)
  | inside held act' =>
    obtain rfl := Option.some.inj ha
    exact List.mem_cons_of_mem _ (List.mem_map_of_mem (Act.Placed.order h hc ▸ mem_order.mpr hk))
  | lock _ _ _ _ => cases ha
  | audit _ _ => cases ha
  | unlock _ _ _ => cases ha
  | finished _ => cases ha

theorem Act.Fact.frame {entries entries' : List Entry} {store store' ledger ledger' : Ledger} {start : ℕ}
    {act : Act} (h : act.Fact entries store ledger start)
    (hstore : ∀ c, act.call = some c → ∀ k ∈ footprint c.txn, store' k = store k)
    (hledger : ∀ c, act.call = some c → ∀ k ∈ footprint c.txn, ledger' k = ledger k)
    (hlater : ∀ c lsn record, act.written = some (c, lsn, record) →
      ∀ j e t, lsn < j → entries'[j]? = some e → e.intent = some t →
        (∃ e', entries[j]? = some e' ∧ e'.intent = some t) ∨ Disjoint (footprint c.txn) (footprint t)) :
    act.Fact entries' store' ledger' start := by
  have hloaded {c loaded todo} (hc : act.call = some c) (hl : Loaded store c loaded todo) :
      Loaded store' c loaded todo := by
    refine ⟨hl.ids, fun a ha => ?_⟩
    have hk : a.id ∈ footprint c.txn := by
      rw [← mem_order, ← hl.ids]
      exact List.mem_append_left _ (List.mem_map_of_mem ha)
    rw [hstore c hc a.id hk, hl.values a ha]
  have hsaving {c lsn record saved todo} (hc : act.call = some c) (hw : act.written = some (c, lsn, record))
      (hs : Saving entries store ledger start c lsn saved todo) :
      Saving entries' store' ledger' start c lsn saved todo := by
    obtain ⟨next, hpost, hnext⟩ := hs.posts
    obtain ⟨next', hpost', hagree⟩ :=
      (post_local c.txn).reads (fun k hk => (hledger c hc k hk).symm) hpost
    refine ⟨hs.start_le, fun j e t hj he ht => ?_, hs.ids, ⟨next', hpost', fun k hk => ?_⟩, fun a ha => ?_⟩
    · rcases hlater c lsn record hw j e t hj he ht with ⟨e', he', ht'⟩ | hd
      · exact hs.later j e' t hj he' ht'
      · exact hd
    · rw [← hagree k hk, hnext k hk]
    · have hk : a.id ∈ footprint c.txn := by
        rw [← mem_order, ← hs.ids]
        exact List.mem_map_of_mem (List.mem_append_left _ ha)
      rw [hstore c hc a.id hk, hs.values a ha]
  cases act with
  | load c todo loaded => exact hloaded rfl h
  | appendWal c record loaded => exact hloaded rfl h
  | save c lsn record saved todo => exact hsaving rfl rfl h
  | markCommitted c lsn record =>
    obtain ⟨saved, hs⟩ := h
    exact ⟨saved, hsaving rfl rfl hs⟩
  | mutexFor _ _ _ => trivial
  | appendTransaction _ _ => trivial
  | appendAudit _ _ => trivial

theorem Job.lockNext_fact (job : Job) (held todo : List AccountId) {entries : List Entry} {store ledger : Ledger}
    {start : ℕ} : (job.lockNext held todo).Fact entries store ledger start := by
  intro act hact
  cases todo with
  | nil =>
    cases job with
    | processImpl c =>
      obtain rfl := Option.some.inj hact
      exact ⟨rfl, by simp⟩
    | lockPair _ _ => cases hact
  | cons k todo =>
    obtain rfl := Option.some.inj hact
    trivial

theorem Pc.fact_of_act {pc : Pc} (h : pc.act = none) {entries : List Entry} {store ledger : Ledger} {start : ℕ} :
    pc.Fact entries store ledger start := by
  intro act hact
  rw [h] at hact
  cases hact

theorem Pc.covers_of_act {pc : Pc} (h : pc.act = none) : pc.covers = ∅ := by
  simp [covers, h]

theorem Job.entry_fact (job : Job) {entries : List Entry} {store ledger : Ledger} {start : ℕ} :
    job.entry.Fact entries store ledger start := by
  cases job with
  | processImpl c =>
    simp only [Job.entry]
    split_ifs
    · exact Pc.fact_of_act rfl
    · exact Job.lockNext_fact _ _ _
  | lockPair _ _ => exact Job.lockNext_fact _ _ _

theorem Exit.settle_act (job : Job) (exit : Exit) : (exit.settle job).act = none := by
  cases job <;> cases exit <;> rfl

theorem Pc.Quiet.fact {w : World} {pc pc' : Pc} (h : pc.Quiet w pc') {entries : List Entry} {ledger : Ledger}
    {start : ℕ} (hf : pc.Fact entries w.accounts.findById ledger start) :
    pc'.Fact entries w.accounts.findById ledger start := by
  cases h with
  | enter => exact hf
  | found => exact fact_of_act rfl
  | locked => exact Job.lockNext_fact _ _ _
  | @loaded held c k todo loaded a h =>
    intro act hact
    obtain rfl := Option.some.inj hact
    have hl : Loaded w.accounts.findById c loaded (k :: todo) := hf _ rfl
    have hid : a.id = k := findAccount_id h
    refine ⟨by simpa [hid] using hl.ids, fun b hb => ?_⟩
    rcases List.mem_append.mp hb with hb | hb
    · exact hl.values b hb
    · rw [List.mem_singleton.mp hb, hid, h]
  | missing => exact fact_of_act rfl
  | @checked held c loaded now =>
    unfold validated
    split_ifs
    · exact fact_of_act rfl
    · intro act hact
      obtain rfl := Option.some.inj hact
      exact hf (.load c [] loaded) rfl
  | @saved held c lsn record saved =>
    intro act hact
    obtain rfl := Option.some.inj hact
    exact ⟨saved, hf (.save c lsn record saved []) rfl⟩
  | noted entry =>
    intro act hact
    obtain rfl := Option.some.inj hact
    trivial
  | audited => exact fact_of_act rfl
  | unlocked => exact fact_of_act rfl
  | settled => exact fact_of_act (Exit.settle_act _ _)

theorem Pc.covers_want {held : List AccountId} {act : Act} : (Pc.want held act).covers = act.covers := by
  ext k
  simp [covers, Pc.act]

theorem Pc.covers_inside {held : List AccountId} {act : Act} : (Pc.inside held act).covers = act.covers := by
  ext k
  simp [covers, Pc.act]

theorem Job.lockNext_covers (job : Job) (held todo : List AccountId) : (job.lockNext held todo).covers = ∅ := by
  cases todo with
  | nil =>
    cases job with
    | processImpl c => exact Pc.covers_want
    | lockPair _ _ => exact Pc.covers_of_act rfl
  | cons k todo => exact Pc.covers_want

theorem Pc.Quiet.covers {w : World} {pc pc' : Pc} (h : pc.Quiet w pc') : pc'.covers = pc.covers := by
  cases h with
  | enter => rw [covers_want, covers_inside]
  | found => rw [covers_inside, covers_of_act rfl]; rfl
  | locked => rw [Job.lockNext_covers, covers_of_act rfl]
  | loaded h => rw [covers_inside, covers_inside]; rfl
  | missing h => rw [covers_inside, covers_of_act rfl]; rfl
  | checked now =>
    rw [covers_inside]
    unfold validated
    split_ifs
    · exact covers_of_act rfl
    · exact covers_want
  | saved => rw [covers_inside, covers_want]; rfl
  | noted entry => rw [covers_want, covers_of_act rfl]; rfl
  | audited => rw [covers_inside, covers_of_act rfl]; rfl
  | unlocked h => rw [covers_of_act rfl, covers_of_act rfl]
  | settled => rw [covers_of_act (Exit.settle_act _ _), covers_of_act rfl]

def movements (entries : List Entry) : List Transaction := entries.filterMap Entry.movement

namespace State

variable {ι : Type}

def entries (s : State ι) : List Entry := s.world.wal.entries

def store (s : State ι) : Ledger := s.world.accounts.findById

def Settled (s : State ι) (k : AccountId) : Prop := ∀ i pc, s.threads i = some pc → k ∉ pc.covers

structure Journaled (base : Ledger) (start : ℕ) (ledger : Ledger) (s : State ι) : Prop where
  guarded : s.Guarded
  tracked : s.Tracked
  start_le : start ≤ s.entries.length
  sound : ∀ e ∈ s.entries.drop start, e.Sound
  reached : LocalActions.run post (movements (s.entries.drop start)) base = some ledger
  store : ∀ k, s.Settled k → s.store k = ledger k
  fact : ∀ i pc, s.threads i = some pc → pc.Fact s.entries s.store ledger start

variable {base ledger : Ledger} {start : ℕ} {s s' : State ι} {i : ι}

theorem Guarded.holds_footprint (hg : s.Guarded) {pc : Pc} (hi : s.threads i = some pc) {act : Act} {c : Call}
    (ha : pc.act = some act) (hc : act.call = some c) {k : AccountId} (hk : k ∈ footprint c.txn) :
    s.holds i (.account k) :=
  ⟨pc, hi, (hg.placed i pc hi).holds_footprint ha hc hk⟩

theorem Guarded.disjoint (hg : s.Guarded) {j : ι} (hne : i ≠ j) {pc pc' : Pc} (hi : s.threads i = some pc)
    (hj : s.threads j = some pc') {act act' : Act} {c c' : Call} (ha : pc.act = some act)
    (ha' : pc'.act = some act') (hc : act.call = some c) (hc' : act'.call = some c') :
    Disjoint (footprint c.txn) (footprint c'.txn) := by
  rw [Set.disjoint_left]
  intro k hk hk'
  exact hne (hg.owns.exclusive (hg.holds_footprint hi ha hc hk) (hg.holds_footprint hj ha' hc' hk'))

theorem Guarded.settled_of_free (hg : s.Guarded) {k : AccountId} (hfree : s.owner (.account k) = none) :
    s.Settled k := by
  rintro i pc hi ⟨act, ha, hk⟩
  obtain ⟨c, hc, hk⟩ := Act.covers_call hk
  have howner := (hg.owns i (.account k)).mpr (hg.holds_footprint hi ha hc hk)
  rw [hfree] at howner
  cases howner

theorem Journaled.init (world : World) :
    Journaled world.accounts.findById world.wal.entries.length world.accounts.findById (init world : State ι) where
  guarded := guarded_init world
  tracked := tracked_init world
  start_le := Nat.le_refl _
  sound := by simp [entries, State.init]
  reached := by simp [entries, State.init, movements]
  store := fun _ _ => rfl
  fact := fun _ _ h => by simp [State.init] at h

theorem Journaled.replays {accounts : List Account} (hj : Journaled (findAccount accounts) start ledger s) :
    ∃ final, replay (s.world.wal.replayFrom start) accounts = .ok final ∧ findAccount final = ledger := by
  have hreplay := replay_run hj.sound accounts
  rw [show LocalActions.run post ((s.entries.drop start).filterMap Entry.movement) (findAccount accounts) =
    some ledger from hj.reached] at hreplay
  obtain ⟨final, hfinal, hledger⟩ := Option.map_eq_some_iff.mp hreplay
  exact ⟨final, toOption_eq_some.mp hfinal, hledger⟩

theorem findAccount_values {store : Ledger} {l : List Account} (h : ∀ a ∈ l, store a.id = some a)
    {k : AccountId} (hk : k ∈ l.map (·.id)) : findAccount l k = store k := by
  obtain ⟨a, ha, rfl⟩ := List.mem_map.mp hk
  cases hf : findAccount l a.id with
  | none => simpa using List.find?_eq_none.mp hf a ha
  | some b =>
    have hid := findAccount_id hf
    rw [← hid, h b (List.mem_of_find?_eq_some hf)]

theorem Journaled.settled (hj : Journaled base start ledger s) {pc : Pc} (hi : s.threads i = some pc)
    {act : Act} {c : Call} (ha : pc.act = some act) (hc : act.call = some c) (hcov : act.covers = ∅)
    {k : AccountId} (hk : k ∈ footprint c.txn) : s.Settled k := by
  rintro j pcj hjt ⟨act', ha', hk'⟩
  by_cases hne : i = j
  · subst hne
    obtain rfl := Option.some.inj (hi.symm.trans hjt)
    obtain rfl := Option.some.inj (ha.symm.trans ha')
    rw [hcov] at hk'
    exact Set.notMem_empty k hk'
  · obtain ⟨c', hc', hk'⟩ := Act.covers_call hk'
    exact Set.disjoint_left.mp (hj.guarded.disjoint hne hi hjt ha ha' hc hc') hk hk'

theorem Journaled.frame (hj : Journaled base start ledger s) {pc : Pc} (hi : s.threads i = some pc) {act : Act}
    {c : Call} (ha : pc.act = some act) (hc : act.call = some c) {entries' : List Entry} {store' ledger' : Ledger}
    (hstore : ∀ k ∉ footprint c.txn, store' k = s.store k) (hledger : ∀ k ∉ footprint c.txn, ledger' k = ledger k)
    (hentries : ∀ (l : ℕ) (e : Entry) (t : Transaction), entries'[l]? = some e → e.intent = some t →
      (∃ e', s.entries[l]? = some e' ∧ e'.intent = some t) ∨ t = c.txn)
    {j : ι} (hne : j ≠ i) {pcj : Pc} (hjt : s.threads j = some pcj) : pcj.Fact entries' store' ledger' start := by
  intro act' ha'
  have hdisj {c'} (hc' : act'.call = some c') : Disjoint (footprint c'.txn) (footprint c.txn) :=
    hj.guarded.disjoint hne hjt hi ha' ha hc' hc
  apply (hj.fact j pcj hjt act' ha').frame
  · intro c' hc' k hk
    exact hstore k (Set.disjoint_left.mp (hdisj hc') hk)
  · intro c' hc' k hk
    exact hledger k (Set.disjoint_left.mp (hdisj hc') hk)
  · intro c' lsn record hw l e t _ he ht
    have hc' : act'.call = some c' := by
      cases act' <;> simp_all [Act.written, Act.call]
    rcases hentries l e t he ht with hold | rfl
    · exact .inl hold
    · exact .inr (hdisj hc')

theorem Journaled.saving (hj : Journaled base start ledger s) {held : List AccountId} {c : Call}
    {record : TransactionRecord} {loaded loaded' : List Account}
    (hi : s.threads i = some (.inside held (.appendWal c record loaded)))
    (happ : apply c.txn loaded = (.ok (), loaded')) (e : Entry) :
    Saving (s.entries ++ [e]) s.store ledger start c s.entries.length [] loaded' := by
  have hl : Loaded s.store c loaded [] := hj.fact i _ hi _ rfl
  have hids : loaded.map (·.id) = (Job.processImpl c).order := by simpa using hl.ids
  have happlied := applied_eq_some.mpr happ
  have hpost := apply_post c.txn loaded
  rw [happlied, Option.map_some] at hpost
  have hagree : ∀ k ∈ footprint c.txn, findAccount loaded k = ledger k := by
    intro k hk
    rw [findAccount_values hl.values (by rw [hids]; exact mem_order.mpr hk)]
    exact hj.store k (hj.settled hi rfl rfl rfl hk)
  obtain ⟨ledger', hpost', hagree'⟩ := (post_local c.txn).reads hagree hpost.symm
  refine ⟨hj.start_le, fun j x t hlt hx _ => ?_, ?_, ⟨ledger', hpost', fun k hk => (hagree' k hk).symm⟩, by simp⟩
  · have hlen := (List.getElem?_eq_some_iff.mp hx).1
    rw [List.length_append, List.length_singleton] at hlen
    omega
  · rw [List.nil_append, applied_ids happlied, hids]

theorem movements_set {l : List Entry} {n : ℕ} {e : Entry} (e' : Entry) (he : l[n]? = some e)
    (hs : e.state ≠ .committed) :
    movements l = movements (l.take n) ++ movements (l.drop (n + 1)) ∧
      movements (l.set n e') = movements (l.take n) ++ e'.movement.toList ++ movements (l.drop (n + 1)) := by
  obtain ⟨hlt, rfl⟩ := List.getElem?_eq_some_iff.mp he
  have hm : l[n].movement = none := by simp [Entry.movement, hs]
  constructor
  · conv_lhs => rw [← List.take_append_drop n l, List.drop_eq_getElem_cons hlt]
    rw [movements, List.filterMap_append, List.filterMap_cons_none hm]
    rfl
  · rw [List.set_eq_take_append_cons_drop, if_pos hlt, movements, List.filterMap_append, List.filterMap_cons]
    cases e'.movement <;> simp [movements]

theorem Journaled.posts (hj : Journaled base start ledger s) {held : List AccountId} {c : Call} {lsn : ℕ}
    {record : TransactionRecord} (hi : s.threads i = some (.inside held (.markCommitted c lsn record)))
    (hd : Decodable record) {e : Entry} (he : s.entries[lsn]? = some e) (hstate : e.state = .validated)
    (hpayload : e.payload = serialize record) :
    ∃ ledger', post c.txn ledger = some ledger' ∧
      LocalActions.run post (movements ((s.entries.set lsn { e with state := .committed }).drop start)) base =
        some ledger' ∧
      (∀ k ∈ footprint c.txn, s.store k = ledger' k) ∧ ∀ k ∉ footprint c.txn, ledger' k = ledger k := by
  obtain ⟨now, rfl⟩ := hj.tracked.draft i _ c record hi rfl
  obtain ⟨saved, hs⟩ : ∃ saved, Saving s.entries s.store ledger start c lsn saved [] := hj.fact i _ hi _ rfl
  obtain ⟨ledger', hpost, hagree⟩ := hs.posts
  refine ⟨ledger', hpost, ?_, fun k hk => ?_, fun k hk => (post_local c.txn).frame hpost k hk⟩
  · have hn : (s.entries.drop start)[lsn - start]? = some e := by
      rw [List.getElem?_drop, Nat.add_sub_cancel' hs.start_le, he]
    have hset : (s.entries.set lsn { e with state := .committed }).drop start =
        (s.entries.drop start).set (lsn - start) { e with state := .committed } := by
      rw [List.drop_set, if_neg (Nat.not_lt.mpr hs.start_le)]
    obtain ⟨hold, hnew⟩ := movements_set { e with state := .committed } hn (by simp [hstate])
    have hmove : ({ e with state := .committed } : Entry).movement = some c.txn := by
      rw [Entry.movement, if_pos rfl, intent_state, intent_project hpayload]
      exact if_pos hd
    have hreached := hj.reached
    rw [hold] at hreached
    rw [hset, hnew, hmove, Option.toList_some, List.append_assoc, List.singleton_append,
      run_insert post_local, hreached]
    · exact hpost
    · intro t ht
      obtain ⟨x, hx, hxt⟩ := List.mem_filterMap.mp ht
      obtain ⟨j, hj'⟩ := List.mem_iff_getElem?.mp hx
      rw [List.drop_drop, List.getElem?_drop] at hj'
      have hint : x.intent = some t := by
        unfold Entry.movement at hxt
        split_ifs at hxt
        exact hxt
      have hle := hs.start_le
      exact hs.later _ x t (by omega) hj' hint
  · rw [hagree k hk, List.append_nil]
    exact (findAccount_values hs.values (by rw [← List.append_nil saved, hs.ids]; exact mem_order.mpr hk)).symm

variable [DecidableEq ι]

theorem Settled.back {pc' : Pc} (hm : Moves s s' i pc') {k : AccountId} (hk : s'.Settled k)
    (hcov : k ∉ pc'.covers → ∀ pc, s.threads i = some pc → k ∉ pc.covers) : s.Settled k := by
  intro j pcj hjt
  by_cases hji : j = i
  · subst hji
    exact hcov (hk j pc' hm.self) pcj hjt
  · exact hk j pcj (by rw [hm.other hji]; exact hjt)

theorem Journaled.quiet (hj : Journaled base start ledger s) (hg : Guarded s') (ht : Tracked s') {pc' : Pc}
    (hm : Moves s s' i pc') (ha : s'.world.accounts = s.world.accounts) (hw : s'.world.wal = s.world.wal)
    (hcov : ∀ k, k ∉ pc'.covers → ∀ pc, s.threads i = some pc → k ∉ pc.covers)
    (hfact : pc'.Fact s.entries s.store ledger start) : Journaled base start ledger s' := by
  have hentries : s'.entries = s.entries := by rw [entries, hw, entries]
  have hstore : s'.store = s.store := by rw [State.store, ha, State.store]
  refine ⟨hg, ht, by rw [hentries]; exact hj.start_le, by rw [hentries]; exact hj.sound,
    by rw [hentries]; exact hj.reached, fun k hk => ?_, fun j pcj hjt => ?_⟩
  · rw [hstore]
    exact hj.store k (hk.back hm (hcov k))
  · rw [hentries, hstore]
    rcases hm.cases hjt with ⟨_, rfl⟩ | ⟨_, hjt⟩
    · exact hfact
    · exact hj.fact j pcj hjt

theorem movements_append {l : List Entry} {e : Entry} (h : e.state ≠ .committed) (n : ℕ) (hn : n ≤ l.length) :
    movements ((l ++ [e]).drop n) = movements (l.drop n) := by
  rw [List.drop_append_of_le_length hn, movements, List.filterMap_append]
  simp [movements, Entry.movement, h]

theorem Journaled.append (hj : Journaled base start ledger s) (hg : Guarded s') (ht : Tracked s')
    {held : List AccountId} {c : Call} {record : TransactionRecord} {loaded : List Account}
    (hi : s.threads i = some (.inside held (.appendWal c record loaded))) {pc' : Pc} (hm : Moves s s' i pc')
    (ha : s'.world.accounts = s.world.accounts) (hw : s'.world.wal = s.world.wal.append record)
    (hfact : ∀ e : Entry, s'.entries = s.entries ++ [e] → pc'.Fact s'.entries s.store ledger start) :
    Journaled base start ledger s' := by
  obtain ⟨now, rfl⟩ := hj.tracked.draft i _ c record hi rfl
  obtain ⟨e, he, hpayload, hstate⟩ : ∃ e : Entry, s'.entries = s.entries ++ [e] ∧
      e.payload = serialize (c.record now) ∧ e.state = .validated :=
    ⟨appended (c.record now) s.world.wal, by rw [entries, hw, append_entries, entries], rfl, rfl⟩
  have hstore : s'.store = s.store := by rw [State.store, ha, State.store]
  have hcov {k : AccountId} (hk : s'.Settled k) : s.Settled k := by
    refine hk.back hm fun _ pc hpc => ?_
    obtain rfl := Option.some.inj (hi.symm.trans hpc)
    rw [Pc.covers_inside]
    exact Set.notMem_empty k
  refine ⟨hg, ht, ?_, ?_, ?_, fun k hk => ?_, fun j pcj hjt => ?_⟩
  · rw [he, List.length_append]
    exact Nat.le_add_right_of_le hj.start_le
  · rw [he, List.drop_append_of_le_length hj.start_le]
    intro x hx
    rcases List.mem_append.mp hx with hx | hx
    · exact hj.sound x hx
    · rw [List.mem_singleton.mp hx]
      exact sound_project hpayload
  · rw [he, movements_append (by simp [hstate]) _ hj.start_le]
    exact hj.reached
  · rw [hstore]
    exact hj.store k (hcov hk)
  · rw [hstore]
    rcases hm.cases hjt with ⟨_, rfl⟩ | ⟨hji, hjt⟩
    · exact hfact e he
    · refine hj.frame hi rfl rfl (fun _ _ => rfl) (fun _ _ => rfl) (fun l x t hx hxt => ?_) hji hjt
      rw [he] at hx
      rcases getElem?_append_single hx with hx | ⟨_, rfl⟩
      · exact .inl ⟨x, hx, hxt⟩
      · rw [intent_project hpayload] at hxt
        split_ifs at hxt
        exact .inr (Option.some.inj hxt).symm

theorem Journaled.save (hj : Journaled base start ledger s) (hg : Guarded s') (ht : Tracked s')
    {held : List AccountId} {c : Call} {lsn : ℕ} {record : TransactionRecord} {saved todo : List Account}
    {a : Account} (hi : s.threads i = some (.inside held (.save c lsn record saved (a :: todo))))
    (hm : Moves s s' i (.inside held (.save c lsn record (saved ++ [a]) todo)))
    (ha : s'.world.accounts = s.world.accounts.save a) (hw : s'.world.wal = s.world.wal) :
    Journaled base start ledger s' := by
  have hs : Saving s.entries s.store ledger start c lsn saved (a :: todo) := hj.fact i _ hi _ rfl
  have hentries : s'.entries = s.entries := by rw [entries, hw, entries]
  have hstore : s'.store = Function.update s.store a.id (some a) := by
    rw [State.store, ha, AccountRepository.findById_save]
    rfl
  have hmem : a.id ∈ footprint c.txn := by
    rw [← mem_order, ← hs.ids]
    simp
  have hne : ∀ b ∈ saved, b.id ≠ a.id := by
    have hsorted := (Job.processImpl c).order_sorted
    rw [← hs.ids, List.map_append, List.map_cons] at hsorted
    intro b hb
    exact UInt64.ne_of_lt ((List.pairwise_append.mp hsorted).2.2 _ (List.mem_map_of_mem hb) _ List.mem_cons_self)
  have houtside : ∀ k ∉ footprint c.txn, s'.store k = s.store k := by
    intro k hk
    rw [hstore, Function.update_of_ne (by rintro rfl; exact hk hmem)]
  refine ⟨hg, ht, by rw [hentries]; exact hj.start_le, by rw [hentries]; exact hj.sound,
    by rw [hentries]; exact hj.reached, fun k hk => ?_, fun j pcj hjt => ?_⟩
  · have hnot : k ∉ footprint c.txn := by
      have hk' := hk i _ hm.self
      rwa [Pc.covers_inside] at hk'
    rw [houtside k hnot]
    refine hj.store k (hk.back hm fun _ pc hpc => ?_)
    obtain rfl := Option.some.inj (hi.symm.trans hpc)
    rw [Pc.covers_inside]
    exact hnot
  · rw [hentries]
    rcases hm.cases hjt with ⟨_, rfl⟩ | ⟨hji, hjt⟩
    · intro act hact
      obtain rfl := Option.some.inj hact
      refine ⟨hs.start_le, hs.later, by simpa using hs.ids, by simpa using hs.posts, fun b hb => ?_⟩
      rw [hstore]
      rcases List.mem_append.mp hb with hb | hb
      · rw [Function.update_of_ne (hne b hb), hs.values b hb]
      · rw [List.mem_singleton.mp hb, Function.update_self]
    · exact hj.frame hi rfl rfl houtside (fun _ _ => rfl) (fun l x t hx hxt => .inl ⟨x, hx, hxt⟩) hji hjt

theorem Journaled.commit (hj : Journaled base start ledger s) (hg : Guarded s') (ht : Tracked s')
    {held : List AccountId} {c : Call} {lsn : ℕ} {record : TransactionRecord}
    (hi : s.threads i = some (.inside held (.markCommitted c lsn record))) (hd : Decodable record) {pc' : Pc}
    (hm : Moves s s' i pc') (hcov : pc'.covers = ∅) (hfact : ∀ {ledger'}, pc'.Fact s'.entries s.store ledger' start)
    (ha : s'.world.accounts = s.world.accounts) (hw : s'.world.wal = (s.world.wal.markCommitted c.id).2) :
    ∃ ledger', post c.txn ledger = some ledger' ∧ Journaled base start ledger' s' := by
  obtain ⟨now, rfl⟩ := hj.tracked.draft i _ c record hi rfl
  obtain ⟨e, he, _, hstate, hpayload, hr⟩ := hj.tracked.commits_own hi
  change s.entries[lsn]? = some e at he
  obtain ⟨ledger', hpost, hreached, hin, hout⟩ := hj.posts hi hd he hstate hpayload
  have hentries : s'.entries = s.entries.set lsn { e with state := .committed } := by
    rw [entries, hw, hr]
    rfl
  have hstore : s'.store = s.store := by rw [State.store, ha, State.store]
  refine ⟨ledger', hpost, hg, ht, ?_, ?_, by rw [hentries]; exact hreached, fun k hk => ?_, fun j pcj hjt => ?_⟩
  · rw [hentries, List.length_set]
    exact hj.start_le
  · rw [hentries]
    rw [List.drop_set]
    intro x hx
    split_ifs at hx
    · exact hj.sound x hx
    · rcases List.mem_or_eq_of_mem_set hx with hx | rfl
      · exact hj.sound x hx
      · exact sound_project hpayload
  · rw [hstore]
    by_cases hkc : k ∈ footprint c.txn
    · exact hin k hkc
    · rw [hout k hkc]
      refine hj.store k (hk.back hm fun _ pc hpc => ?_)
      obtain rfl := Option.some.inj (hi.symm.trans hpc)
      rw [Pc.covers_inside]
      exact hkc
  · rw [hstore]
    rcases hm.cases hjt with ⟨_, rfl⟩ | ⟨hji, hjt⟩
    · exact hfact
    · refine hj.frame hi rfl rfl (fun _ _ => rfl) hout (fun l x t hx hxt => .inl ?_) hji hjt
      rw [hentries] at hx
      by_cases hl : lsn = l
      · subst hl
        rw [List.getElem?_set_self (List.getElem?_eq_some_iff.mp he).1] at hx
        obtain rfl := Option.some.inj hx
        exact ⟨e, he, (intent_state e _).symm.trans hxt⟩
      · rw [List.getElem?_set_ne hl] at hx
        exact ⟨x, hx, hxt⟩

def committing (s : State ι) (i : ι) : Option (Call × TransactionRecord) :=
  match s.threads i with
  | some (.inside _ (.markCommitted c _ record)) => some (c, record)
  | _ => none

theorem Journaled.step (hj : Journaled base start ledger s) {now : TimePoint}
    (hd : ∀ c record, s.committing i = some (c, record) → Decodable record)
    (h : s.step i now none = some s') :
    ∃ ledger', Journaled base start ledger' s' ∧
      match s.committing i with
      | none => ledger' = ledger
      | some (c, _) => post c.txn ledger = some ledger' := by
  have hg := hj.guarded.step h
  have ht := hj.tracked.step h
  have hquiet {pc} (hi : s.threads i = some pc) (hne : ∀ held c lsn record, pc ≠ .inside held (.markCommitted c lsn record)) :
      s.committing i = none := by
    unfold committing
    split
    · rename_i held c lsn record hpc
      exact absurd (Option.some.inj (hi.symm.trans hpc)) (hne held c lsn record)
    · rfl
  cases step_effect h with
  | quiet hi hm hq ha hw =>
    refine ⟨ledger, hj.quiet hg ht hm ha hw (fun k hk pc hpc => ?_) (hq.fact (hj.fact i _ hi)), ?_⟩
    · obtain rfl := Option.some.inj (hi.symm.trans hpc)
      rwa [hq.covers] at hk
    · rw [hquiet hi (by rintro held c lsn record rfl; cases hq)]
  | thrown what hf => cases hf
  | append hi happ hm ha hw =>
    refine ⟨ledger, hj.append hg ht hi hm ha hw (fun e he act hact => ?_), by rw [hquiet hi (by simp)]⟩
    obtain rfl := Option.some.inj hact
    rw [he]
    exact hj.saving hi happ e
  | refused hi happ hm ha hw =>
    exact ⟨ledger, hj.append hg ht hi hm ha hw (fun e he => Pc.fact_of_act rfl), by rw [hquiet hi (by simp)]⟩
  | save hi hm ha hw => exact ⟨ledger, hj.save hg ht hi hm ha hw, by rw [hquiet hi (by simp)]⟩
  | @commit held c lsn record hi hr hm ha hw =>
    have hc : s.committing i = some (c, record) := by rw [committing, hi]
    obtain ⟨ledger', hpost, hj'⟩ := hj.commit hg ht hi (hd c record hc) hm Pc.covers_want
      (fun act hact => by obtain rfl := Option.some.inj hact; trivial) ha hw
    exact ⟨ledger', hj', by rw [hc]; exact hpost⟩
  | rejected hi hr hm ha hw =>
    obtain ⟨e, _, _, _, _, hok⟩ := hj.tracked.commits_own hi
    rw [hok] at hr
    cases hr
  | record hi hm ha hw =>
    refine ⟨ledger, hj.quiet hg ht hm ha hw (fun k _ pc hpc => ?_) (Pc.fact_of_act rfl), by rw [hquiet hi (by simp)]⟩
    obtain rfl := Option.some.inj (hi.symm.trans hpc)
    rw [Pc.covers_inside]
    exact Set.notMem_empty k

theorem Journaled.started (hj : Journaled base start ledger s) {job : Job}
    (hfresh : ∀ c, job = .processImpl c → s.FreshId c.id) (h : s.start i job = some s') :
    Journaled base start ledger s' := by
  have hg := hj.guarded.next (show s.next (.begin i job) = some s' from h)
  have ht := hj.tracked.start hfresh h
  obtain ⟨hidle, rfl⟩ := start_eq_some h
  refine hj.quiet hg ht rfl rfl rfl (fun k _ pc hpc => ?_) job.entry_fact
  rcases hidle with hn | ⟨exit, hf⟩
  · rw [hn] at hpc
    cases hpc
  · obtain rfl := Option.some.inj (hf.symm.trans hpc)
    rw [Pc.covers_of_act rfl]
    exact Set.notMem_empty k

end State

def Label.callId {ι : Type} : Label ι → Option TransactionId
  | .begin _ (.processImpl c) => some c.id
  | _ => none

def Label.actor {ι : Type} : Label ι → Option ι
  | .act i _ _ => some i
  | .begin _ _ => none

def Label.fault {ι : Type} : Label ι → Option Exn
  | .act _ _ fault => fault
  | .begin _ _ => none

namespace State

variable {ι : Type} [DecidableEq ι]

/-- A record that is committed reads back: its account ids are below 2^63, its id is not 2^63. -/
def CommitsDecodable (s : State ι) (label : Label ι) : Prop :=
  ∀ p ∈ label.actor.bind s.committing, Decodable p.2

instance (s : State ι) (label : Label ι) : Decidable (s.CommitsDecodable label) :=
  inferInstanceAs (Decidable (∀ p ∈ label.actor.bind s.committing, Decodable p.2))

variable {base ledger : Ledger} {start : ℕ} {s s' : State ι}

theorem FreshId.next {x : TransactionId} (hf : s.FreshId x) (ht : s.Tracked) {label : Label ι}
    (hne : label.callId ≠ some x) (h : s.next label = some s') : s'.FreshId x := by
  cases label with
  | act i now fault => exact hf.step ht h
  | begin i job =>
    refine hf.start ?_ h
    rintro c rfl hid
    exact hne (congrArg some hid)

theorem Journaled.run (hj : Journaled base start ledger s) {labels : List (Label ι)}
    (hfresh : ∀ x ∈ labels.filterMap Label.callId, s.FreshId x) (hids : (labels.filterMap Label.callId).Nodup)
    (hfaults : ∀ label ∈ labels, label.fault = none) (hd : Runs.Along next CommitsDecodable s labels)
    (h : s.run labels = some s') : ∃ ledger', Journaled base start ledger' s' := by
  refine @Runs.run_distinct _ _ next _ _ _ Label.callId (fun s => ∃ ledger, Journaled base start ledger s) FreshId _
    ?_ ?_ labels ⟨ledger, hj⟩ hfresh hids (hd.also hfaults) h
  · rintro s label s' ⟨ledger, hj⟩ hfresh ⟨hfault, hdec⟩ hs
    cases label with
    | act i now fault =>
      obtain rfl : fault = none := hfault
      obtain ⟨ledger₁, hj₁, _⟩ := hj.step (fun c record hc => hdec (c, record) hc) hs
      exact ⟨ledger₁, hj₁⟩
    | begin i job =>
      refine ⟨ledger, hj.started (fun c hc => ?_) hs⟩
      subst hc
      exact hfresh c.id rfl
  · rintro s label s' x ⟨ledger, hj⟩ hf hne _ hs
    exact hf.next hj.tracked hne hs

/-- Off the mutexes, the repository is the replay of the committed journal on the initial store. -/
theorem run_serialisable {world : World} {labels : List (Label ι)} (hwal : world.wal = openFile [])
    (h : (init world).run labels = some s) (hids : (labels.filterMap Label.callId).Nodup)
    (hfaults : ∀ label ∈ labels, label.fault = none) (hd : Runs.Along next CommitsDecodable (init world) labels) :
    ∃ final, replay s.world.wal.loadAll world.accounts.all = .ok final ∧
      ∀ k, s.owner (.account k) = none → s.world.accounts.findById k = findAccount final k := by
  have hempty : world.wal.entries = [] := by rw [hwal]; rfl
  have hfresh : ∀ x ∈ labels.filterMap Label.callId, (init world : State ι).FreshId x :=
    fun x _ => ⟨by simp [init, hempty], by simp [init]⟩
  obtain ⟨ledger, hj⟩ := (Journaled.init world).run hfresh hids hfaults hd h
  obtain ⟨final, hfinal, hledger⟩ := hj.replays
  rw [hempty] at hfinal
  refine ⟨final, hfinal, fun k hk => ?_⟩
  rw [hledger]
  exact hj.store k (hj.guarded.settled_of_free hk)

def depositRun (k : AccountId) : List (Label Unit) :=
  .begin () (.processImpl ⟨.deposit k 5, 1⟩) :: List.replicate 20 (.act () 0 none)

theorem depositRun_serialisable : ∃ s, (init (oneAccountWorld 7)).run (depositRun 7) = some s ∧
    ∃ final, replay s.world.wal.loadAll [openAccount 7] = .ok final ∧
      ∀ k, s.owner (.account k) = none → s.world.accounts.findById k = findAccount final k := by
  have hsome : ((init (oneAccountWorld 7)).run (depositRun 7)).isSome := by decide +kernel
  obtain ⟨s, h⟩ := Option.isSome_iff_exists.mp hsome
  exact ⟨s, h, run_serialisable rfl h (by decide) (by decide) (by decide +kernel)⟩

theorem depositRun_replay_misses : ∃ s, (init (oneAccountWorld 0x8000000000000000)).run
      (depositRun 0x8000000000000000) = some s ∧
    s.owner (.account 0x8000000000000000) = none ∧
    ¬ ∃ final, replay s.world.wal.loadAll [openAccount 0x8000000000000000] = .ok final ∧
      s.world.accounts.findById 0x8000000000000000 = findAccount final 0x8000000000000000 := by
  have hrun : ((init (oneAccountWorld 0x8000000000000000)).run (depositRun 0x8000000000000000)).map (fun s =>
      (s.owner (.account 0x8000000000000000), s.world.accounts.findById 0x8000000000000000,
        s.world.wal.loadAll)) =
      some (none, some { openAccount 0x8000000000000000 with balance := 105, version := 1 }, []) := by
    decide +kernel
  obtain ⟨s, h, hs⟩ := Option.map_eq_some_iff.mp hrun
  obtain ⟨howner, hs⟩ := Prod.mk.inj hs
  obtain ⟨hfind, hload⟩ := Prod.mk.inj hs
  refine ⟨s, h, howner, ?_⟩
  rintro ⟨final, hfinal, heq⟩
  rw [hload] at hfinal
  obtain rfl := Except.ok.inj hfinal
  rw [hfind] at heq
  exact absurd heq (by decide)

end State

end BankManagement
