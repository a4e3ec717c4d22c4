import BankManagement.Serialisability
import BankManagement.ProcessThrows

namespace BankManagement

open Throwing Transaction Ledger Codec Wal Wal.WalLogger

structure Stores where
  accounts : AccountRepository
  transactions : TransactionRepository
  audit : AuditRepository
  wal : WalLogger

/-- What the calls throw, if anything. A call saves an account at most once, so naming the account
names the leg. -/
structure Faults where
  save : AccountId → Option Exn
  appendWal : Option Exn
  appendTransaction : Option Exn

def orThrow (fault : Option Exn) (f : Stores → Stores) : Program Exn Stores Unit := fun s =>
  match fault with
  | some what => .error what s
  | none => .ok () (f s)

/-- The time may depend on the stores, which differ from one reading to the next. -/
def inMemory (clock : Stores → TimePoint) (faults : Faults) : Collaborators Stores where
  now s := (clock s, s)
  findById k := fun s => .ok (s.accounts.findById k) s
  save a := orThrow (faults.save a.id) fun s => { s with accounts := s.accounts.save a }
  appendTransaction record :=
    orThrow faults.appendTransaction fun s => { s with transactions := s.transactions ++ [record] }
  appendAudit entry := fun s => .ok () { s with audit := s.audit ++ [entry] }
  appendWal record := orThrow faults.appendWal fun s => { s with wal := s.wal.append record }
  markCommitted id := fun s => match s.wal.markCommitted id with
    | (.ok (), wal) => .ok () { s with wal }
    | (.error what, wal) => .error what { s with wal }

namespace Processor

structure Untouched (s s' : Stores) : Prop where
  accounts : s'.accounts = s.accounts
  journal : ∀ e ∈ s'.wal.entries.drop s.wal.size, e.state ≠ .committed

theorem Untouched.refl (s : Stores) : Untouched s s := by
  refine ⟨rfl, fun e he => ?_⟩
  rw [WalLogger.size, List.drop_length] at he
  cases he

structure InEffect (txn : Transaction) (id : TransactionId) (record : TransactionRecord) (s s' : Stores) : Prop where
  projected : ∃ timestamp, record = { projectTransaction id timestamp txn with state := .committed }
  accounts : post txn s.accounts.findById = some s'.accounts.findById
  journal : ∃ e, s'.wal.entries[s.wal.size]? = some e ∧ e.id = id ∧ e.state = .committed ∧
    e.payload = serialize { record with state := .validated }
  transactions : s'.transactions = s.transactions ++ [record]

def Agrees (txn : Transaction) (id : TransactionId) (s : Stores) :
    EStateM.Result Exn (Processor Stores) (Result TransactionRecord) → Prop
  | .error _ _ => False
  | .ok (.failure _) q => Untouched s q.stores
  | .ok (.success record) q => InEffect txn id record s q.stores

def Goes (faults : Faults) (txn : Transaction) (s : Stores) : Prop :=
  faults.appendWal = none ∧ (post txn s.accounts.findById).isSome

def FirstSaveThrows (faults : Faults) (txn : Transaction) : Prop :=
  ∃ k ∈ (sortedAccounts txn).head?, (faults.save k).isSome

def AllSucceed (faults : Faults) (txn : Transaction) (id : TransactionId) (s : Stores) : Prop :=
  (∀ k ∈ sortedAccounts txn, faults.save k = none) ∧ faults.appendTransaction = none ∧
    ∀ e ∈ s.wal.entries, e.id ≠ id

def setAccounts (p : Processor Stores) (accounts : AccountRepository) : Processor Stores :=
  { p with stores := { p.stores with accounts } }

variable {clock : Stores → TimePoint} {faults : Faults} {txn : Transaction} {id : TransactionId} {p q : Processor Stores}

theorem mem_sortedAccounts {k : AccountId} : k ∈ sortedAccounts txn ↔ k ∈ footprint txn :=
  (List.perm_insertionSort _ _).mem_iff

theorem sortedAccounts_nodup (txn : Transaction) : (sortedAccounts txn).Nodup :=
  (List.perm_insertionSort _ _).nodup_iff.mpr (involvedAccounts_nodup txn)

variable (clock faults p) in
theorem load_inMemory (todo : List AccountId) (loaded : List Account) :
    (∃ found : List Account, found.map (·.id) = todo ∧ (∀ a ∈ found, p.stores.accounts.findById a.id = some a) ∧
      load (inMemory clock faults) todo loaded p = .ok (loaded ++ found, "") p) ∨
    ((∃ k ∈ todo, p.stores.accounts.findById k = none) ∧ ∃ loaded' message, message ≠ "" ∧
      load (inMemory clock faults) todo loaded p = .ok (loaded', message) p) := by
  induction todo generalizing loaded with
  | nil => exact .inl ⟨[], rfl, by simp, by rw [List.append_nil]; rfl⟩
  | cons k todo ih =>
    have hfind : onStores ((inMemory clock faults).findById k) p = .ok (p.stores.accounts.findById k) p := rfl
    cases hk : p.stores.accounts.findById k with
    | none =>
      refine .inr ⟨⟨k, List.mem_cons_self, hk⟩, loaded, "account not found: " ++ toString k.toNat, ?_, ?_⟩
      · intro he
        have hlen := congrArg String.length he
        rw [String.length_append] at hlen
        exact absurd hlen (by simp +arith)
      · rw [load, bind_ok hfind, hk]
        rfl
    | some a =>
      have hload : load (inMemory clock faults) (k :: todo) loaded p =
          load (inMemory clock faults) todo (loaded ++ [a]) p := by
        rw [load, bind_ok hfind, hk]
      rw [hload]
      rcases ih (loaded ++ [a]) with ⟨found, hids, hfound, h⟩ | ⟨⟨j, hj, hnone⟩, hmissing⟩
      · refine .inl ⟨a :: found, ?_, ?_, ?_⟩
        · rw [List.map_cons, hids, findAccount_id hk]
        · rintro b (_ | ⟨_, hb⟩)
          · rw [findAccount_id hk, hk]
          · exact hfound b hb
        · rw [h, List.append_assoc]
          rfl
      · exact .inr ⟨⟨j, List.mem_cons_of_mem _ hj, hnone⟩, hmissing⟩

variable (clock faults p) in
theorem saveAll_inMemory (accounts : List Account) :
    ((∀ a ∈ accounts, faults.save a.id = none) ∧ saveAll (inMemory clock faults) accounts p =
      .ok () (p.setAccounts (accounts.foldl AccountRepository.save p.stores.accounts))) ∨
    ∃ saved a rest what, accounts = saved ++ a :: rest ∧ (∀ b ∈ saved, faults.save b.id = none) ∧
      faults.save a.id = some what ∧ saveAll (inMemory clock faults) accounts p =
          .error what (p.setAccounts (saved.foldl AccountRepository.save p.stores.accounts)) := by
  induction accounts generalizing p with
  | nil => exact .inl ⟨by simp, rfl⟩
  | cons a accounts ih =>
    cases hf : faults.save a.id with
    | some what =>
      refine .inr ⟨[], a, accounts, what, rfl, by simp, hf, ?_⟩
      have hsave : onStores ((inMemory clock faults).save a) p = .error what p := by
        apply zoom_error
        simp [inMemory, orThrow, hf]
      rw [saveAll, bind_error hsave]
      rfl
    | none =>
      have hsave : onStores ((inMemory clock faults).save a) p =
          .ok () (p.setAccounts (p.stores.accounts.save a)) := by
        apply zoom_ok
        simp [inMemory, orThrow, hf]
      rw [saveAll, bind_ok hsave]
      rcases ih (p := p.setAccounts (p.stores.accounts.save a)) with ⟨hnone, h⟩ | ⟨saved, b, rest, what, rfl, hnone, hb, h⟩
      · refine .inl ⟨?_, h⟩
        rintro b (_ | ⟨_, hb⟩)
        · exact hf
        · exact hnone b hb
      · refine .inr ⟨a :: saved, b, rest, what, rfl, ?_, hb, h⟩
        rintro x (_ | ⟨_, hx⟩)
        · exact hf
        · exact hnone x hx

variable (clock faults p) in
theorem refuse_inMemory (message : String) : ∃ audit nextAuditId,
    refuse (inMemory clock faults) message p =
      .ok (.failure message) { p with stores := { p.stores with audit }, nextAuditId } :=
  ⟨_, _, rfl⟩

theorem handled_agrees {what : Exn} (h : attempt (inMemory clock faults) txn id p = .error what q) :
    Agrees txn id p.stores (processImpl (inMemory clock faults) txn id p) ↔ Untouched p.stores q.stores := by
  obtain ⟨audit, nextAuditId, hrefuse⟩ := refuse_inMemory clock faults q (caught what)
  rw [processImpl, if_neg (involvedAccounts_ne_nil txn), tryCatch_error h, hrefuse]
  exact ⟨fun hu => ⟨hu.accounts, hu.journal⟩, fun hu => ⟨hu.accounts, hu.journal⟩⟩

theorem refused_agrees {message : String} (h : attempt (inMemory clock faults) txn id p =
    refuse (inMemory clock faults) message p) : Agrees txn id p.stores (processImpl (inMemory clock faults) txn id p) := by
  obtain ⟨audit, nextAuditId, hrefuse⟩ := refuse_inMemory clock faults p message
  rw [processImpl, if_neg (involvedAccounts_ne_nil txn), tryCatch_ok (h.trans hrefuse)]
  exact ⟨rfl, (Untouched.refl p.stores).journal⟩

theorem post_loaded {repo : AccountRepository} {found : List Account} (hids : found.map (·.id) = sortedAccounts txn)
    (hfound : ∀ a ∈ found, repo.findById a.id = some a) :
    (post txn repo.findById).isSome = (applied txn found).isSome := by
  have hagree : ∀ k ∈ footprint txn, repo.findById k = findAccount found k := by
    intro k hk
    have hmem : k ∈ found.map (·.id) := by
      rw [hids]
      exact mem_sortedAccounts.mpr hk
    exact (State.findAccount_values hfound hmem).symm
  rw [(post_local txn).isSome_congr hagree, ← apply_post, Option.isSome_map]

theorem saved_posts {repo : AccountRepository} {found after : List Account}
    (hids : found.map (·.id) = sortedAccounts txn)
    (hfound : ∀ a ∈ found, repo.findById a.id = some a) (happ : apply txn found = (.ok (), after)) :
    post txn repo.findById = some (after.foldl AccountRepository.save repo).findById ∧
      after.map (·.id) = sortedAccounts txn := by
  have happlied := applied_eq_some.mpr happ
  have hafter : after.map (·.id) = sortedAccounts txn := (applied_ids happlied).trans hids
  have hnodup : (after.map (·.id)).Nodup := by
    rw [hafter]
    exact sortedAccounts_nodup txn
  have hmem {k : AccountId} {l : List Account} (hl : l.map (·.id) = sortedAccounts txn) :
      k ∈ l.map (·.id) ↔ k ∈ footprint txn := by rw [hl, mem_sortedAccounts]
  have hpost : post txn (findAccount found) = some (findAccount after) := by
    rw [← apply_post, happlied, Option.map_some]
  obtain ⟨n, hn, hin⟩ := (post_local txn).reads
    (fun k hk => State.findAccount_values hfound ((hmem hids).mpr hk)) hpost
  refine ⟨hn.trans (congrArg some ?_), hafter⟩
  funext k
  rw [AccountRepository.findById_foldl hnodup]
  by_cases hk : k ∈ footprint txn
  · rw [← hin k hk]
    obtain ⟨a, ha, rfl⟩ := List.mem_map.mp ((hmem hafter).mpr hk)
    rw [(mem_iff_findAccount hnodup a).mp ha]
    rfl
  · have hnone : findAccount after k = none := by
      apply List.find?_eq_none.mpr
      intro a ha hid
      exact hk ((hmem hafter).mp (List.mem_map.mpr ⟨a, ha, beq_iff_eq.mp hid⟩))
    rw [(post_local txn).frame hn k hk, hnone]
    rfl

theorem saved_touches {found saved rest : List Account} {a : Account}
    (hids : found.map (·.id) = sortedAccounts txn)
    (hfound : ∀ a ∈ found, p.stores.accounts.findById a.id = some a)
    (happ : apply txn found = (.ok (), a :: saved ++ rest)) :
    (a :: saved).foldl AccountRepository.save p.stores.accounts ≠ p.stores.accounts := by
  intro he
  obtain ⟨hpost, hafter⟩ := saved_posts hids hfound happ
  have hnodup : ((a :: saved ++ rest).map (·.id)).Nodup := by
    rw [hafter]
    exact sortedAccounts_nodup txn
  have hmem : a.id ∈ footprint txn := by
    rw [← mem_sortedAccounts, ← hafter]
    simp
  obtain ⟨b, b', hb, hb', hne⟩ := post_changes hpost hmem
  rw [AccountRepository.findById_foldl hnodup] at hb'
  have hnodup' : ((a :: saved).map (·.id)).Nodup := by
    rw [List.map_append] at hnodup
    exact (List.nodup_append.mp hnodup).1
  have hstored : p.stores.accounts.findById a.id = some a := by
    rw [← he, AccountRepository.findById_foldl hnodup', findAccount_cons, Function.update_self]
    rfl
  rw [List.cons_append, findAccount_cons, Function.update_self] at hb'
  apply hne
  rw [← Option.some.inj hb', ← Option.some.inj (hstored.symm.trans hb)]

theorem markCommitted_appended (w : WalLogger) {r : TransactionRecord} (hr : r.state = .validated) :
    ∃ w', (w.append r).markCommitted r.id = (.ok (), w') ∧
      ∃ e, w'.entries[w.size]? = some e ∧ e.id = r.id ∧ e.payload = serialize r ∧
        (e.state = .committed ↔ ∀ e ∈ w.entries, e.id ≠ r.id) := by
  have hentries : (w.append r).entries = w.entries ++ [appended r w] := append_entries r w
  have hlast : (w.append r).entries[w.size]? = some (appended r w) := by
    rw [hentries, WalLogger.size, List.getElem?_concat_length]
  have hstate : (appended r w).state ≠ .committed := by simp [appended, hr]
  have hknown : ∃ e ∈ (w.append r).entries, e.id = r.id := ⟨_, List.mem_of_getElem? hlast, rfl⟩
  obtain ⟨i, e, hi, hid, hfirst, hcase⟩ := markCommitted_known hknown
  have hle : i ≤ w.size := by
    by_contra hgt
    exact hfirst w.size (by omega) _ hlast rfl
  by_cases hfresh : ∀ e ∈ w.entries, e.id ≠ r.id
  · have hiw : i = w.size := by
      by_contra hne
      have hlt : i < w.entries.length := by
        rw [WalLogger.size] at hle hne
        omega
      rw [hentries, List.getElem?_append_left hlt] at hi
      exact hfresh e (List.mem_of_getElem? hi) hid
    subst hiw
    obtain rfl := Option.some.inj (hlast.symm.trans hi)
    rcases hcase with ⟨hc, _⟩ | ⟨_, hw⟩
    · exact absurd hc hstate
    · refine ⟨_, hw, { appended r w with state := .committed }, ?_, rfl, rfl, by simpa using hfresh⟩
      exact List.getElem?_set_self (List.getElem?_eq_some_iff.mp hlast).1
  · have hiw : i ≠ w.size := by
      rintro rfl
      push Not at hfresh
      obtain ⟨x, hx, hxid⟩ := hfresh
      obtain ⟨j, hj⟩ := List.mem_iff_getElem?.mp hx
      have hlt : j < w.entries.length := (List.getElem?_eq_some_iff.mp hj).1
      refine hfirst j hlt x ?_ hxid
      rw [hentries, List.getElem?_append_left hlt, hj]
    rcases hcase with ⟨_, hw⟩ | ⟨_, hw⟩
    · exact ⟨_, hw, appended r w, hlast, rfl, rfl, by simpa [hstate] using hfresh⟩
    · refine ⟨_, hw, appended r w, ?_, rfl, rfl, by simpa [hstate] using hfresh⟩
      exact (List.getElem?_set_ne hiw).trans hlast

theorem sortedAccounts_ne_nil (txn : Transaction) : sortedAccounts txn ≠ [] := by
  intro h
  have hperm := List.perm_insertionSort (· ≤ ·) txn.involvedAccounts
  rw [show txn.involvedAccounts.insertionSort (· ≤ ·) = [] from h] at hperm
  exact involvedAccounts_ne_nil txn hperm.nil_eq.symm

def afterIntent (c : Collaborators Stores) (txn : Transaction) (id : TransactionId) (record : TransactionRecord)
    (after : List Account) : Program Exn (Processor Stores) (Result TransactionRecord) := do
  saveAll c after
  onStores (c.markCommitted id)
  onStores (c.appendTransaction { record with state := .committed })
  appendAudit c "txn.completed" txn.describe
  pure (.success { record with state := .committed })

def journalled (p : Processor Stores) (record : TransactionRecord) : Processor Stores :=
  { p with stores := { p.stores with wal := p.stores.wal.append record } }

theorem commit_intentThrows {found : List Account} {what : Exn} (hwal : faults.appendWal = some what) :
    commit (inMemory clock faults) txn id found p = .error what p := by
  have hnow : now (inMemory clock faults) p = .ok (clock p.stores) p := rfl
  have happend (r : TransactionRecord) : onStores ((inMemory clock faults).appendWal r) p = .error what p := by
    apply zoom_error
    simp [inMemory, orThrow, hwal]
  rw [commit, bind_ok hnow, bind_error (happend _)]

variable (clock txn id p) in
theorem commit_journalled (found : List Account) (hwal : faults.appendWal = none) : ∃ timestamp,
    commit (inMemory clock faults) txn id found p = (match apply txn found with
      | (.error what, _) => throw what
      | (.ok (), after) => afterIntent (inMemory clock faults) txn id
          { projectTransaction id timestamp txn with state := .validated } after)
      (p.journalled { projectTransaction id timestamp txn with state := .validated }) := by
  refine ⟨clock p.stores, ?_⟩
  have hnow : now (inMemory clock faults) p = .ok (clock p.stores) p := rfl
  have happend (r : TransactionRecord) :
      onStores ((inMemory clock faults).appendWal r) p = .ok () (p.journalled r) := by
    apply zoom_ok
    simp [inMemory, orThrow, hwal]
  rw [commit, bind_ok hnow, bind_ok (happend _)]
  rfl

theorem markCommitted_inMemory {wal : WalLogger} (h : p.stores.wal.markCommitted id = (.ok (), wal)) :
    onStores ((inMemory clock faults).markCommitted id) p = .ok () { p with stores := { p.stores with wal } } := by
  apply zoom_ok
  simp [inMemory, h]

theorem appendTransaction_inMemory {r : TransactionRecord} (h : faults.appendTransaction = none) :
    onStores ((inMemory clock faults).appendTransaction r) p =
      .ok () { p with stores := { p.stores with transactions := p.stores.transactions ++ [r] } } := by
  apply zoom_ok
  simp [inMemory, orThrow, h]

theorem appendTransaction_throws {r : TransactionRecord} {what : Exn} (h : faults.appendTransaction = some what) :
    onStores ((inMemory clock faults).appendTransaction r) p = .error what p := by
  apply zoom_error
  simp [inMemory, orThrow, h]

theorem journalled_untouched {r : TransactionRecord} (hr : r.state = .validated)
    {accounts : AccountRepository} (ha : accounts = p.stores.accounts) :
    Untouched p.stores ((p.journalled r).setAccounts accounts).stores := by
  refine ⟨ha, fun e he => ?_⟩
  change e ∈ (p.stores.wal.append r).entries.drop _ at he
  rw [append_entries, WalLogger.size, List.drop_left, List.mem_singleton] at he
  simp [he, appended, hr]

theorem commit_agrees {found after : List Account} (hwal : faults.appendWal = none)
    (hids : found.map (·.id) = sortedAccounts txn)
    (hfound : ∀ a ∈ found, p.stores.accounts.findById a.id = some a) (happ : apply txn found = (.ok (), after))
    (h : attempt (inMemory clock faults) txn id p = commit (inMemory clock faults) txn id found p) :
    Agrees txn id p.stores (processImpl (inMemory clock faults) txn id p) ↔
      FirstSaveThrows faults txn ∨ AllSucceed faults txn id p.stores := by
  obtain ⟨hpost, hafter⟩ := saved_posts hids hfound happ
  obtain ⟨timestamp, hcommit⟩ := commit_journalled clock txn id p found hwal
  rw [happ] at hcommit
  replace h := h.trans hcommit
  generalize hr : ({ projectTransaction id timestamp txn with state := .validated } : TransactionRecord) = r at h
  have hstate : r.state = .validated := by rw [← hr]
  dsimp only at h
  rcases saveAll_inMemory clock faults (p.journalled r) after with
    ⟨hnone, hsave⟩ | ⟨saved, a, rest, what, rfl, hnone, ha, hsave⟩
  · have hsaves : ∀ k ∈ sortedAccounts txn, faults.save k = none := by
      intro k hk
      rw [← hafter] at hk
      obtain ⟨a, ha, rfl⟩ := List.mem_map.mp hk
      exact hnone a ha
    have hfirst : ¬ FirstSaveThrows faults txn := by
      rintro ⟨k, hk, hthrows⟩
      rw [hsaves k (List.mem_of_mem_head? hk)] at hthrows
      cases hthrows
    obtain ⟨wal, hmark, e, he, heid, hpayload, hcommitted⟩ := markCommitted_appended p.stores.wal hstate
    have hrid : r.id = id := by rw [← hr]; rfl
    rw [hrid] at hmark heid hcommitted
    rw [afterIntent, bind_ok hsave, bind_ok (markCommitted_inMemory hmark)] at h
    cases hrecord : faults.appendTransaction with
    | some what =>
      rw [bind_error (appendTransaction_throws hrecord)] at h
      rw [handled_agrees h]
      apply iff_of_false
      · intro hu
        obtain ⟨a, rest, rfl⟩ := List.exists_cons_of_ne_nil (l := after) (by
          rintro rfl
          exact sortedAccounts_ne_nil txn hafter.symm)
        rw [← List.append_nil (_ :: _)] at happ
        exact saved_touches hids hfound happ hu.accounts
      · rintro (hthrows | ⟨_, hnothing, _⟩)
        · exact hfirst hthrows
        · rw [hrecord] at hnothing
          cases hnothing
    | none =>
      rw [bind_ok (appendTransaction_inMemory hrecord)] at h
      rw [processImpl, if_neg (involvedAccounts_ne_nil txn), tryCatch_ok h]
      constructor
      · intro hi
        obtain ⟨e', he', _, hc, _⟩ := hi.journal
        cases he.symm.trans he'
        exact .inr ⟨hsaves, hrecord, hcommitted.mp hc⟩
      · rintro (hthrows | ⟨_, _, hfresh⟩)
        · exact absurd hthrows hfirst
        · refine ⟨⟨timestamp, by rw [← hr]⟩, hpost, ⟨e, he, heid, hcommitted.mpr hfresh, ?_⟩, rfl⟩
          rw [hpayload, ← hr]
  · rw [handled_agrees (h.trans (bind_error hsave))]
    cases saved with
    | nil =>
      apply iff_of_true (journalled_untouched hstate rfl)
      exact .inl ⟨a.id, by rw [← hafter]; rfl, by simp [ha]⟩
    | cons b saved =>
      apply iff_of_false
      · intro hu
        exact saved_touches hids hfound happ hu.accounts
      · rintro (⟨k, hk, hthrows⟩ | ⟨hsaves, _⟩)
        · rw [← hafter] at hk
          obtain rfl := Option.some.inj hk
          rw [hnone b List.mem_cons_self] at hthrows
          cases hthrows
        · have hmem : a.id ∈ sortedAccounts txn := by
            rw [← hafter]
            simp
          rw [hsaves a.id hmem] at ha
          cases ha

theorem processImpl_agrees : Agrees txn id p.stores (processImpl (inMemory clock faults) txn id p) ↔
    (Goes faults txn p.stores → FirstSaveThrows faults txn ∨ AllSucceed faults txn id p.stores) := by
  rcases load_inMemory clock faults p (sortedAccounts txn) [] with
    ⟨found, hids, hfound, hload⟩ | ⟨⟨k, hk, hnone⟩, loaded, message, hm, hload⟩
  · rw [List.nil_append] at hload
    have hgoes : Goes faults txn p.stores ↔ faults.appendWal = none ∧ (applied txn found).isSome := by
      rw [Goes, post_loaded hids hfound]
    by_cases hv : validate txn found
    · have h : attempt (inMemory clock faults) txn id p = commit (inMemory clock faults) txn id found p := by
        rw [attempt, bind_ok hload]
        simp [hv]
      cases hwal : faults.appendWal with
      | some what =>
        rw [commit_intentThrows hwal] at h
        apply iff_of_true
        · rw [handled_agrees h]
          exact Untouched.refl p.stores
        · intro hgo
          rw [hgoes, hwal] at hgo
          cases hgo.1
      | none =>
        rcases happ : apply txn found with ⟨what | ⟨⟩, after⟩
        · obtain ⟨timestamp, hcommit⟩ := commit_journalled clock txn id p found hwal
          rw [happ] at hcommit
          apply iff_of_true
          · rw [handled_agrees (h.trans hcommit)]
            exact journalled_untouched rfl rfl
          · intro hgo
            rw [hgoes, applied, happ] at hgo
            cases hgo.2
        · rw [commit_agrees hwal hids hfound happ h]
          apply Iff.symm
          apply imp_iff_right
          rw [hgoes]
          exact ⟨hwal, by rw [applied_eq_some.mpr happ]; rfl⟩
    · apply iff_of_true
      · apply refused_agrees
        rw [attempt, bind_ok hload]
        simp only [hv]
        rfl
      · intro hgo
        rw [hgoes] at hgo
        simp [applied, BankManagement.apply, hv] at hgo
  · apply iff_of_true
    · apply refused_agrees
      rw [attempt, bind_ok hload]
      exact congrFun (if_pos hm) p
    · rintro ⟨_, hpost⟩
      obtain ⟨n, hn⟩ := Option.isSome_iff_exists.mp hpost
      obtain ⟨a, _, ha, _⟩ := post_changes hn (mem_sortedAccounts.mp hk)
      cases hnone.symm.trans ha

/-- Result and effect of `process_one` agree exactly when the call stops before it has saved
anything, or goes through to its end on a fresh id. -/
theorem processOne_agrees_iff (clock : Stores → TimePoint) (faults : Faults) (txn : Transaction) (p : Processor Stores) :
    Agrees txn p.nextId p.stores (processOne (inMemory clock faults) txn p) ↔
      (Goes faults txn p.stores → FirstSaveThrows faults txn ∨ AllSucceed faults txn p.nextId p.stores) := by
  rw [processOne_eq]
  exact processImpl_agrees (p := { p with nextId := p.nextId + 1 })

def twoAccounts : Processor Stores where
  stores :=
    { accounts := .ofAccounts [⟨3, 1, 500, .active, 0⟩, ⟨7, 1, 500, .active, 0⟩]
      transactions := []
      audit := []
      wal := openFile [] }
  queue := []
  reserved := []
  nextId := 1
  nextAuditId := 1

def secondLegFails : Faults where
  save k := if k = 7 then some "account.save failed: disk full" else none
  appendWal := none
  appendTransaction := none

def leftOver (k : AccountId) : EStateM.Result Exn (Processor Stores) (Result TransactionRecord) → Option ℕ
  | .ok (.failure _) q => (q.stores.accounts.findById k).map (·.balance.cents)
  | _ => none

theorem secondLeg_disagrees : ¬ Agrees (.transfer 3 7 100) 1 twoAccounts.stores
    (processOne (inMemory (fun _ => 0) secondLegFails) (.transfer 3 7 100) twoAccounts) := by
  have hleft : leftOver 3 (processOne (inMemory (fun _ => 0) secondLegFails)
      (.transfer 3 7 100) twoAccounts) = some 400 := by decide +kernel
  have hbefore : (twoAccounts.stores.accounts.findById 3).map (·.balance.cents) = some 500 := by decide +kernel
  generalize processOne _ _ _ = result at hleft ⊢
  rintro hagrees
  rcases result with ⟨record | message, q⟩ | ⟨what, q⟩
  · cases hleft
  · change (q.stores.accounts.findById 3).map (·.balance.cents) = some 400 at hleft
    have hu : Untouched twoAccounts.stores q.stores := hagrees
    rw [hu.accounts, hbefore] at hleft
    cases hleft
  · cases hleft

end Processor

end BankManagement
