import BankManagement.Ledger

namespace BankManagement

def insertOrAssign (a : Account) : List Account → List Account
  | [] => [a]
  | b :: rest =>
    if a.id = b.id then a :: rest
    else if a.id < b.id then a :: b :: rest
    else b :: insertOrAssign a rest

structure AccountRepository where
  accounts : List Account
  sorted : accounts.Pairwise (fun a b => a.id < b.id)

theorem insertOrAssign_mem {a b : Account} {l : List Account} (h : b ∈ insertOrAssign a l) : b = a ∨ b ∈ l := by
  induction l with
  | nil => simpa [insertOrAssign] using h
  | cons c l ih =>
    simp only [insertOrAssign] at h
    split_ifs at h
    · rcases List.mem_cons.mp h with rfl | h
      · exact .inl rfl
      · exact .inr (List.mem_cons_of_mem _ h)
    · rcases List.mem_cons.mp h with rfl | h
      · exact .inl rfl
      · exact .inr h
    · rcases List.mem_cons.mp h with rfl | h
      · exact .inr List.mem_cons_self
      · rcases ih h with rfl | h
        · exact .inl rfl
        · exact .inr (List.mem_cons_of_mem _ h)

theorem insertOrAssign_sorted {a : Account} {l : List Account} (h : l.Pairwise (fun a b => a.id < b.id)) :
    (insertOrAssign a l).Pairwise (fun a b => a.id < b.id) := by
  induction l with
  | nil => simp [insertOrAssign]
  | cons b l ih =>
    obtain ⟨hb, hl⟩ := List.pairwise_cons.mp h
    simp only [insertOrAssign]
    split_ifs with heq hlt
    · exact List.pairwise_cons.mpr ⟨fun c hc => by rw [heq]; exact hb c hc, hl⟩
    · refine List.pairwise_cons.mpr ⟨fun c hc => ?_, h⟩
      rcases List.mem_cons.mp hc with rfl | hc
      · exact hlt
      · exact UInt64.lt_trans hlt (hb c hc)
    · refine List.pairwise_cons.mpr ⟨fun c hc => ?_, ih hl⟩
      rcases insertOrAssign_mem hc with rfl | hc
      · rw [UInt64.lt_iff_toNat_lt] at hlt ⊢
        have hne : c.id.toNat ≠ b.id.toNat := fun he => heq (UInt64.toNat_inj.mp he)
        omega
      · exact hb c hc

namespace AccountRepository

def findById (repo : AccountRepository) (id : AccountId) : Option Account := findAccount repo.accounts id

def all (repo : AccountRepository) : List Account := repo.accounts

def save (repo : AccountRepository) (a : Account) : AccountRepository :=
  ⟨insertOrAssign a repo.accounts, insertOrAssign_sorted repo.sorted⟩

theorem findById_save (repo : AccountRepository) (a : Account) :
    (repo.save a).findById = Function.update repo.findById a.id (some a) := by
  change findAccount (insertOrAssign a repo.accounts) = Function.update (findAccount repo.accounts) a.id (some a)
  induction repo.accounts with
  | nil => exact findAccount_cons a []
  | cons b l ih =>
    simp only [insertOrAssign]
    split_ifs with heq hlt
    · rw [findAccount_cons, findAccount_cons, heq, Function.update_idem]
    · rw [findAccount_cons]
    · rw [findAccount_cons, findAccount_cons, ih, Function.update_comm heq]

def ofAccounts (accounts : List Account) : AccountRepository := accounts.foldl save ⟨[], List.Pairwise.nil⟩

theorem findById_foldl {accounts : List Account} (h : (accounts.map (·.id)).Nodup) (repo : AccountRepository)
    (k : AccountId) : (accounts.foldl save repo).findById k = (findAccount accounts k).or (repo.findById k) := by
  induction accounts generalizing repo with
  | nil => rfl
  | cons a accounts ih =>
    obtain ⟨ha, hrest⟩ := List.nodup_cons.mp h
    rw [List.foldl_cons, ih hrest, findById_save, findAccount_cons]
    by_cases hk : k = a.id
    · subst hk
      have hnone : findAccount accounts a.id = none := by
        exact List.find?_eq_none.mpr fun b hb hid => ha (List.mem_map.mpr ⟨b, hb, beq_iff_eq.mp hid⟩)
      rw [hnone, Function.update_self, Function.update_self]
      rfl
    · rw [Function.update_of_ne hk, Function.update_of_ne hk]

theorem findById_ofAccounts {accounts : List Account} (h : (accounts.map (·.id)).Nodup) :
    (ofAccounts accounts).findById = findAccount accounts := by
  funext k
  rw [ofAccounts, findById_foldl h]
  cases findAccount accounts k <;> rfl

theorem all_nodup (repo : AccountRepository) : (repo.all.map (·.id)).Nodup :=
  List.Pairwise.map _ (fun _ _ h => UInt64.ne_of_lt h) repo.sorted

end AccountRepository

structure AuditEntry where
  id : UInt64
  timestamp : TimePoint
  actorId : CustomerId
  action : String
  details : String
  deriving DecidableEq

abbrev TransactionRepository := List TransactionRecord
abbrev AuditRepository := List AuditEntry

def TransactionRepository.forAccount (records : TransactionRepository) (id : AccountId) : TransactionRepository :=
  records.filter fun record => decide (record.fromId = some id) || decide (record.toId = some id)

inductive Result (α : Type)
  | success (value : α)
  | failure (error : String)
  deriving DecidableEq

end BankManagement
