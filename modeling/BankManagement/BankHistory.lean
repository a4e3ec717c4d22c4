import BankManagement.AccountBooks
import BankManagement.BankingService
import BankManagement.ProcessFaults

namespace BankManagement

open Throwing Transaction Ledger Codec Wal Wal.WalLogger

namespace Processor

def noFaults : Faults := ⟨fun _ => none, none, none⟩

inductive Settled (txn : Transaction) (s : Stores) :
    EStateM.Result Exn (Processor Stores) (Result TransactionRecord) → Prop
  | failed (message : String) (q : Processor Stores) (ha : q.stores.accounts = s.accounts)
    (ht : q.stores.transactions = s.transactions) : Settled txn s (.ok (.failure message) q)
  | done (record : TransactionRecord) (q : Processor Stores) (hr : record.Records txn)
    (hc : record.state = .committed) (ha : post txn s.accounts.findById = some q.stores.accounts.findById)
    (ht : q.stores.transactions = s.transactions ++ [record]) : Settled txn s (.ok (.success record) q)

variable {clock : Stores → TimePoint} {txn : Transaction} {id : TransactionId} {p q : Processor Stores}

theorem handled_settles {what : Exn} (h : attempt (inMemory clock noFaults) txn id p = .error what q)
    (ha : q.stores.accounts = p.stores.accounts) (ht : q.stores.transactions = p.stores.transactions) :
    Settled txn p.stores (processImpl (inMemory clock noFaults) txn id p) := by
  obtain ⟨audit, nextAuditId, hrefuse⟩ := refuse_inMemory clock noFaults q (caught what)
  rw [processImpl, if_neg (involvedAccounts_ne_nil txn), tryCatch_error h, hrefuse]
  exact .failed _ _ ha ht

theorem refused_settles {message : String} (h : attempt (inMemory clock noFaults) txn id p =
    refuse (inMemory clock noFaults) message p) : Settled txn p.stores (processImpl (inMemory clock noFaults) txn id p) := by
  obtain ⟨audit, nextAuditId, hrefuse⟩ := refuse_inMemory clock noFaults p message
  rw [processImpl, if_neg (involvedAccounts_ne_nil txn), tryCatch_ok (h.trans hrefuse)]
  exact .failed _ _ rfl rfl

theorem commit_done {found after : List Account} (hids : found.map (·.id) = sortedAccounts txn)
    (hfound : ∀ a ∈ found, p.stores.accounts.findById a.id = some a) (happ : apply txn found = (.ok (), after))
    (h : attempt (inMemory clock noFaults) txn id p = commit (inMemory clock noFaults) txn id found p) :
    ∃ record q, processImpl (inMemory clock noFaults) txn id p = .ok (.success record) q ∧ record.Records txn ∧
      record.state = .committed ∧ post txn p.stores.accounts.findById = some q.stores.accounts.findById ∧
      q.stores.transactions = p.stores.transactions ++ [record] := by
  obtain ⟨timestamp, hcommit⟩ := @commit_journalled clock noFaults txn id p found rfl
  rw [happ] at hcommit
  replace h := h.trans hcommit
  generalize hr : ({ projectTransaction id timestamp txn with state := .validated } : TransactionRecord) = r at h
  obtain ⟨wal, hmark, -⟩ := markCommitted_appended p.stores.wal (r := r) (by rw [← hr])
  have hrid : r.id = id := by rw [← hr]; rfl
  rw [hrid] at hmark
  dsimp only at h
  rcases saveAll_inMemory clock noFaults (p.journalled r) after with
    ⟨-, hsave⟩ | ⟨_, _, _, _, _, _, ⟨⟩, _⟩
  rw [afterIntent, bind_ok hsave, bind_ok (markCommitted_inMemory hmark), bind_ok (appendTransaction_inMemory rfl)] at h
  rw [processImpl, if_neg (involvedAccounts_ne_nil txn), tryCatch_ok h]
  exact ⟨_, _, rfl, by rw [← hr]; exact ⟨rfl, rfl, rfl, rfl⟩, rfl, (saved_posts hids hfound happ).1, rfl⟩

theorem commit_settles {found after : List Account} (hids : found.map (·.id) = sortedAccounts txn)
    (hfound : ∀ a ∈ found, p.stores.accounts.findById a.id = some a) (happ : apply txn found = (.ok (), after))
    (h : attempt (inMemory clock noFaults) txn id p = commit (inMemory clock noFaults) txn id found p) :
    Settled txn p.stores (processImpl (inMemory clock noFaults) txn id p) := by
  obtain ⟨record, q, hresult, hrecords, hcommitted, hpost, htransactions⟩ := commit_done hids hfound happ h
  rw [hresult]
  exact .done record q hrecords hcommitted hpost htransactions

variable (clock txn id p) in
theorem processImpl_settles : Settled txn p.stores (processImpl (inMemory clock noFaults) txn id p) := by
  rcases load_inMemory clock noFaults p (sortedAccounts txn) [] with
    ⟨found, hids, hfound, hload⟩ | ⟨-, loaded, message, hm, hload⟩
  · rw [List.nil_append] at hload
    by_cases hv : validate txn found
    · have h : attempt (inMemory clock noFaults) txn id p = commit (inMemory clock noFaults) txn id found p := by
        rw [attempt, bind_ok hload]
        simp [hv]
      rcases happ : apply txn found with ⟨what | ⟨⟩, after⟩
      · obtain ⟨timestamp, hcommit⟩ := @commit_journalled clock noFaults txn id p found rfl
        rw [happ] at hcommit
        exact handled_settles (h.trans hcommit) rfl rfl
      · exact commit_settles hids hfound happ h
    · apply refused_settles
      rw [attempt, bind_ok hload]
      simp only [hv]
      rfl
  · apply refused_settles
    rw [attempt, bind_ok hload]
    exact congrFun (if_pos hm) p

end Processor

structure Bank where
  processor : Processor Stores
  trail : ServiceTrail

namespace Bank

abbrev stores (b : Bank) : Stores := b.processor.stores

def process (clock : Stores → TimePoint) (txn : Transaction) : Program Exn Bank (Result TransactionRecord) :=
  zoom processor (fun processor b => { b with processor })
    (Processor.processOne (inMemory clock Processor.noFaults) txn)

def deposit (clock : Stores → TimePoint) (k : AccountId) (amount : Money) := process clock (.deposit k amount)

def withdraw (clock : Stores → TimePoint) (k : AccountId) (amount : Money) := process clock (.withdraw k amount)

def transfer (clock : Stores → TimePoint) (fromId toId : AccountId) (amount : Money) :=
  process clock (.transfer fromId toId amount)

def world (b : Bank) : World where
  accounts := b.stores.accounts
  transactions := b.stores.transactions
  audit := b.stores.audit
  wal := b.stores.wal
  nextAuditId := b.processor.nextAuditId
  mutexes := []

def change (clock : Stores → TimePoint)
    (call : TimePoint → World → ServiceTrail → Result Unit × World × ServiceTrail) :
    Program Exn Bank (Result Unit) := fun b =>
  let (result, w, trail) := call (clock b.stores) b.world b.trail
  let stores := { b.stores with accounts := w.accounts, audit := w.audit }
  .ok result { processor := { b.processor with stores }, trail }

def freeze (clock : Stores → TimePoint) (k : AccountId) := change clock (BankingService.freeze none none k)

def unfreeze (clock : Stores → TimePoint) (k : AccountId) := change clock (BankingService.unfreeze none none k)

def balance (k : AccountId) (b : Bank) : Result Money :=
  match b.stores.accounts.findById k with
  | none => .failure ("account not found: " ++ toString k.toNat)
  | some a => .success a.balance

def history (k : AccountId) (b : Bank) : Result (List TransactionRecord) :=
  .success (b.stores.transactions.forAccount k)

inductive Operation
  | deposit (k : AccountId) (amount : Money)
  | withdraw (k : AccountId) (amount : Money)
  | transfer (fromId toId : AccountId) (amount : Money)
  | freeze (k : AccountId)
  | unfreeze (k : AccountId)

def after {α : Type} (call : Program Exn Bank α) (b : Bank) : Bank :=
  match call b with
  | .ok _ b' => b'
  | .error _ b' => b'

def perform (clock : Stores → TimePoint) (b : Bank) : Operation → Bank
  | .deposit k amount => after (deposit clock k amount) b
  | .withdraw k amount => after (withdraw clock k amount) b
  | .transfer fromId toId amount => after (transfer clock fromId toId amount) b
  | .freeze k => after (freeze clock k) b
  | .unfreeze k => after (unfreeze clock k) b

def run (clock : Stores → TimePoint) (b : Bank) (ops : List Operation) : Bank := ops.foldl (perform clock) b

def opened (p : Processor Stores) (trail : ServiceTrail) : Bank where
  processor := { p with stores := { p.stores with transactions := [], wal := openFile [] } }
  trail := trail

variable {clock : Stores → TimePoint} {b b₀ : Bank} {k : AccountId} {txn : Transaction}

structure Kept (b₀ b : Bank) : Prop where
  explained : Explained b.stores.transactions b₀.stores.accounts.findById b.stores.accounts.findById
  committed : ∀ r ∈ b.stores.transactions, r.state = .committed

theorem process_settles (clock : Stores → TimePoint) (txn : Transaction) (b : Bank) : ∃ result q,
    Bank.process clock txn b = .ok result { b with processor := q } ∧
      Processor.Settled txn b.stores (.ok result q) := by
  have hs := Processor.processImpl_settles clock txn b.processor.nextId
    { b.processor with nextId := b.processor.nextId + 1 }
  rw [← Processor.processOne_eq] at hs
  cases hone : Processor.processOne (inMemory clock Processor.noFaults) txn b.processor with
  | error what q =>
    rw [hone] at hs
    cases hs
  | ok result q =>
    rw [hone] at hs
    exact ⟨result, q, zoom_ok hone, hs⟩

theorem Kept.process (h : Kept b₀ b) (txn : Transaction) : Kept b₀ (after (Bank.process clock txn) b) := by
  obtain ⟨result, q, hprocess, hs⟩ := process_settles clock txn b
  have hafter : after (Bank.process clock txn) b = { b with processor := q } := by rw [after, hprocess]
  rw [hafter]
  cases hs with
  | failed message q ha ht =>
    refine ⟨?_, ?_⟩
    · rw [ht, ha]
      exact h.explained
    · rw [ht]
      exact h.committed
  | done record q hr hc ha ht =>
    refine ⟨?_, ?_⟩
    · rw [ht]
      exact h.explained.post ha hr
    · rw [ht]
      intro r hmem
      rcases List.mem_append.mp hmem with hmem | hmem
      · exact h.committed r hmem
      · rw [List.mem_singleton.mp hmem]
        exact hc

theorem Kept.change (h : Kept b₀ b) (status : AccountStatus) (verb refusal action : String) (k : AccountId) :
    Kept b₀ (after (Bank.change clock (BankingService.changeStatus status verb refusal action none none k)) b) := by
  rcases hcall : BankingService.changeStatus status verb refusal action none none k (clock b.stores) b.world b.trail with
    ⟨result, w, trail⟩
  obtain ⟨-, -, haccounts⟩ := BankingService.changeStatus_findById hcall
  have hafter : after (Bank.change clock (BankingService.changeStatus status verb refusal action none none k)) b =
      { processor := { b.processor with stores := { b.stores with accounts := w.accounts, audit := w.audit } },
        trail } := by
    rw [after, Bank.change, hcall]
  rw [hafter]
  refine ⟨h.explained.keep ?_, h.committed⟩
  rcases haccounts with ha | ⟨a, version, hfind, -, ha⟩
  · rw [ha]
    exact Shifts.refl _
  · obtain rfl := findAccount_id hfind
    rw [ha, AccountRepository.findById_save]
    have hbalance : (({ a with status, version } : Account).balance.cents : Int) = a.balance.cents + 0 := by
      rw [Int.add_zero]
    exact (update_shifts hfind hbalance).congr fun _ => ite_self 0

theorem Kept.perform (h : Kept b₀ b) (op : Operation) : Kept b₀ (perform clock b op) := by
  cases op with
  | deposit k amount => exact h.process (.deposit k amount)
  | withdraw k amount => exact h.process (.withdraw k amount)
  | transfer fromId toId amount => exact h.process (.transfer fromId toId amount)
  | freeze k => exact h.change .frozen "freeze" _ _ k
  | unfreeze k => exact h.change .active "unfreeze" _ _ k

variable (clock) in
theorem Kept.run (h : Kept b₀ b) (ops : List Operation) : Kept b₀ (run clock b ops) := by
  induction ops generalizing b with
  | nil => exact h
  | cons op ops ih => exact ih (h.perform op)

theorem opened_kept (p : Processor Stores) (trail : ServiceTrail) : Kept (opened p trail) (opened p trail) where
  explained := Explained.start _
  committed := by rintro r ⟨⟩

theorem credited_forAccount (k : AccountId) (records : TransactionRepository) :
    credited k (records.forAccount k) = credited k records ∧ debited k (records.forAccount k) = debited k records := by
  induction records with
  | nil => exact ⟨rfl, rfl⟩
  | cons r records ih =>
    unfold TransactionRepository.forAccount at ih ⊢
    by_cases hto : r.toId = some k <;> by_cases hfrom : r.fromId = some k <;>
      simp_all [credited, debited, TransactionRecord.credit, TransactionRecord.debit]

/-- After any operations the balance of an account is what it was, plus what its history credits and
minus what it debits, and the sum of all balances has changed by the committed deposits and withdrawals. -/
theorem history_explains_balance (clock : Stores → TimePoint) (p : Processor Stores) (trail : ServiceTrail)
    (ops : List Operation) :
    (∀ a ∈ p.stores.accounts.all, ∃ m records, balance a.id (run clock (opened p trail) ops) = .success m ∧
      history a.id (run clock (opened p trail) ops) = .success records ∧
        (m.cents : Int) = a.balance.cents + credited a.id records - debited a.id records) ∧
      (∀ r ∈ (run clock (opened p trail) ops).stores.transactions, r.state = .committed) ∧
        (run clock (opened p trail) ops).stores.accounts.total =
          p.stores.accounts.total + totalOf .deposit (run clock (opened p trail) ops).stores.transactions -
            totalOf .withdraw (run clock (opened p trail) ops).stores.transactions := by
  have h := (opened_kept p trail).run clock ops
  refine ⟨fun a ha => ?_, h.committed, AccountRepository.total_explained h.explained⟩
  have hfind : p.stores.accounts.findById a.id = some a := AccountRepository.mem_all.mp ha
  have hshift := h.explained.shifts a.id
  rw [show (opened p trail).stores.accounts.findById a.id = some a from hfind, Option.map_some] at hshift
  obtain ⟨a', ha', hcents⟩ := Option.map_eq_some_iff.mp hshift
  refine ⟨a'.balance, _, ?_, rfl, ?_⟩
  · rw [balance, ha']
  · obtain ⟨hcredit, hdebit⟩ := credited_forAccount a.id (run clock (opened p trail) ops).stores.transactions
    rw [hcredit, hdebit, hcents]
    exact (Int.add_sub_assoc _ _ _).symm

end Bank

end BankManagement
