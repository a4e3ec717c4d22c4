import BankManagement.BankHistory

namespace BankManagement

open Wal Ledger

namespace Ledger

def load (ledger : Ledger) : List AccountId → Except String (List Account)
  | [] => .ok []
  | k :: todo => match ledger k with
    | none => .error ("account not found: " ++ toString k.toNat)
    | some a => (load ledger todo).map (a :: ·)

def overwrite (ledger : Ledger) (accounts : List Account) : Ledger :=
  fun k => (findAccount accounts k).or (ledger k)

def serve (t : Transaction) (ledger : Ledger) : Except String Ledger :=
  match ledger.load (Processor.sortedAccounts t) with
  | .error message => .error message
  | .ok loaded =>
    if !validate t loaded then .error ("validation failed: " ++ t.describe)
    else match apply t loaded with
      | (.error what, _) => .error (Processor.caught what)
      | (.ok (), loaded) => .ok (ledger.overwrite loaded)

end Ledger

inductive Serves (c : Call) (ledger : Ledger) : Result TransactionRecord → Ledger → Prop
  | committed {ledger'} (now : TimePoint) (h : ledger.serve c.txn = .ok ledger') :
    Serves c ledger (.success { c.record now with state := .committed }) ledger'
  | refused {message} (h : ledger.serve c.txn = .error message) : Serves c ledger (.failure message) ledger

theorem load_append {ledger : Ledger} {loaded : List Account} (h : ∀ a ∈ loaded, ledger a.id = some a)
    (todo : List AccountId) :
    ledger.load (loaded.map (·.id) ++ todo) = (ledger.load todo).map (loaded ++ ·) := by
  induction loaded with
  | nil =>
    change ledger.load todo = (ledger.load todo).map (fun l => l)
    cases ledger.load todo <;> rfl
  | cons a loaded ih =>
    rw [List.map_cons, List.cons_append, Ledger.load, h a List.mem_cons_self,
      ih fun b hb => h b (List.mem_cons_of_mem _ hb)]
    cases ledger.load todo <;> rfl

theorem load_loaded {ledger : Ledger} {loaded : List Account} (h : ∀ a ∈ loaded, ledger a.id = some a) :
    ledger.load (loaded.map (·.id)) = .ok loaded := by
  have happend := load_append h []
  rw [List.append_nil] at happend
  rw [happend]
  exact congrArg Except.ok (List.append_nil loaded)

theorem serve_loaded {c : Call} {ledger : Ledger} {loaded : List Account} (h : Loaded ledger c loaded []) :
    ledger.serve c.txn =
      if !validate c.txn loaded then .error ("validation failed: " ++ c.txn.describe)
      else match apply c.txn loaded with
        | (.error what, _) => .error (Processor.caught what)
        | (.ok (), loaded) => .ok (ledger.overwrite loaded) := by
  have hids : Processor.sortedAccounts c.txn = loaded.map (·.id) := by
    rw [← List.append_nil (loaded.map (·.id))]
    exact h.ids.symm
  rw [Ledger.serve, hids, load_loaded h.values]

theorem serve_missing {c : Call} {ledger : Ledger} {loaded : List Account} {k : AccountId} {todo : List AccountId}
    (h : Loaded ledger c loaded (k :: todo)) (hk : ledger k = none) :
    ledger.serve c.txn = .error ("account not found: " ++ toString k.toNat) := by
  have hids : Processor.sortedAccounts c.txn = loaded.map (·.id) ++ k :: todo := h.ids.symm
  rw [Ledger.serve, hids, load_append h.values, Ledger.load, hk]
  rfl

def Ledger.Keyed (ledger : Ledger) : Prop := ∀ k a, ledger k = some a → a.id = k

theorem findAccount_keyed (accounts : List Account) : Ledger.Keyed (findAccount accounts) :=
  fun _ _ h => findAccount_id h

theorem Ledger.Keyed.load {ledger : Ledger} (hk : ledger.Keyed) {found : List Account} {todo : List AccountId}
    (h : ledger.load todo = .ok found) : found.map (·.id) = todo ∧ ∀ a ∈ found, ledger a.id = some a := by
  induction todo generalizing found with
  | nil =>
    obtain rfl := Except.ok.inj h
    exact ⟨rfl, by simp⟩
  | cons k todo ih =>
    rw [Ledger.load] at h
    cases hfind : ledger k with
    | none =>
      rw [hfind] at h
      cases h
    | some a =>
      rw [hfind] at h
      cases hrest : ledger.load todo with
      | error message =>
        rw [hrest] at h
        cases h
      | ok rest =>
        rw [hrest] at h
        obtain rfl := Except.ok.inj h
        obtain ⟨hids, hvalues⟩ := ih hrest
        obtain rfl := hk k a hfind
        refine ⟨by rw [List.map_cons, hids], fun b hb => ?_⟩
        rcases List.mem_cons.mp hb with rfl | hb
        · exact hfind
        · exact hvalues b hb

theorem overwrite_of_mem {ledger : Ledger} {accounts : List Account} {k : AccountId}
    (hk : k ∈ accounts.map (·.id)) : ledger.overwrite accounts k = findAccount accounts k := by
  obtain ⟨a, ha, rfl⟩ := List.mem_map.mp hk
  rw [overwrite]
  cases hf : findAccount accounts a.id with
  | none => simpa using List.find?_eq_none.mp hf a ha
  | some b => rfl

theorem overwrite_of_notMem {ledger : Ledger} {accounts : List Account} {k : AccountId}
    (hk : k ∉ accounts.map (·.id)) : ledger.overwrite accounts k = ledger k := by
  rw [overwrite]
  cases hf : findAccount accounts k with
  | none => rfl
  | some b =>
    refine absurd (List.mem_map.mpr ⟨b, List.mem_of_find?_eq_some hf, ?_⟩) hk
    exact findAccount_id hf

theorem overwrite_saved {repo : AccountRepository} {accounts : List Account} (h : (accounts.map (·.id)).Nodup) :
    (accounts.foldl AccountRepository.save repo).findById = Ledger.overwrite repo.findById accounts := by
  funext k
  exact AccountRepository.findById_foldl h repo k

namespace Processor

open Throwing Transaction

variable {clock : Stores → TimePoint} {txn : Transaction} {id : TransactionId} {p : Processor Stores}

variable (clock p) in
theorem load_ledger (todo : List AccountId) (loaded : List Account) :
    (∃ found, Ledger.load p.stores.accounts.findById todo = .ok found ∧
      load (inMemory clock noFaults) todo loaded p = .ok (loaded ++ found, "") p) ∨
    ∃ loaded' message, Ledger.load p.stores.accounts.findById todo = .error message ∧ message ≠ "" ∧
      load (inMemory clock noFaults) todo loaded p = .ok (loaded', message) p := by
  induction todo generalizing loaded with
  | nil => exact .inl ⟨[], rfl, by rw [List.append_nil]; rfl⟩
  | cons k todo ih =>
    have hfind : onStores ((inMemory clock noFaults).findById k) p = .ok (p.stores.accounts.findById k) p := rfl
    rw [load, bind_ok hfind, Ledger.load]
    cases hk : p.stores.accounts.findById k with
    | none =>
      refine .inr ⟨loaded, _, rfl, fun he => ?_, rfl⟩
      have hlen := congrArg String.length he
      rw [String.length_append] at hlen
      exact absurd hlen (by simp +arith)
    | some a =>
      rcases ih (loaded ++ [a]) with ⟨found, hload, h⟩ | ⟨loaded', message, hload, hm, h⟩
      · refine .inl ⟨a :: found, by rw [hload]; rfl, ?_⟩
        rw [← List.append_cons] at h
        exact h
      · exact .inr ⟨loaded', message, by rw [hload]; rfl, hm, h⟩

theorem handled_serves {what : Exn} {q : Processor Stores}
    (h : attempt (inMemory clock noFaults) txn id p = .error what q) (ha : q.stores.accounts = p.stores.accounts)
    (hs : Ledger.serve txn p.stores.accounts.findById = .error (caught what)) :
    ∃ result q, processImpl (inMemory clock noFaults) txn id p = .ok result q ∧
      Serves ⟨txn, id⟩ p.stores.accounts.findById result q.stores.accounts.findById := by
  obtain ⟨audit, nextAuditId, hrefuse⟩ := refuse_inMemory clock noFaults q (caught what)
  refine ⟨_, _, by rw [processImpl, if_neg (involvedAccounts_ne_nil txn), tryCatch_error h, hrefuse], ?_⟩
  dsimp only
  rw [ha]
  exact .refused hs

theorem refused_serves {message : String} (h : attempt (inMemory clock noFaults) txn id p =
    refuse (inMemory clock noFaults) message p) (hs : Ledger.serve txn p.stores.accounts.findById = .error message) :
    ∃ result q, processImpl (inMemory clock noFaults) txn id p = .ok result q ∧
      Serves ⟨txn, id⟩ p.stores.accounts.findById result q.stores.accounts.findById := by
  obtain ⟨audit, nextAuditId, hrefuse⟩ := refuse_inMemory clock noFaults p message
  refine ⟨_, _, by rw [processImpl, if_neg (involvedAccounts_ne_nil txn), tryCatch_ok (h.trans hrefuse)], ?_⟩
  exact .refused hs

theorem commit_serves {found after : List Account} (hids : found.map (·.id) = sortedAccounts txn)
    (happ : apply txn found = (.ok (), after))
    (hs : Ledger.serve txn p.stores.accounts.findById = .ok (Ledger.overwrite p.stores.accounts.findById after))
    (h : attempt (inMemory clock noFaults) txn id p = commit (inMemory clock noFaults) txn id found p) :
    ∃ result q, processImpl (inMemory clock noFaults) txn id p = .ok result q ∧
      Serves ⟨txn, id⟩ p.stores.accounts.findById result q.stores.accounts.findById := by
  obtain ⟨timestamp, hcommit⟩ := @commit_journalled clock noFaults txn id p found rfl
  rw [happ] at hcommit
  replace h := h.trans hcommit
  dsimp only at h
  change _ = afterIntent _ txn id (Call.record ⟨txn, id⟩ timestamp) after (p.journalled (Call.record ⟨txn, id⟩ timestamp)) at h
  obtain ⟨wal, hmark, -⟩ := markCommitted_appended p.stores.wal (r := Call.record ⟨txn, id⟩ timestamp) rfl
  rcases saveAll_inMemory clock noFaults (p.journalled (Call.record ⟨txn, id⟩ timestamp)) after with
    ⟨-, hsave⟩ | ⟨_, _, _, _, _, _, ⟨⟩, _⟩
  rw [afterIntent, bind_ok hsave, bind_ok (markCommitted_inMemory hmark), bind_ok (appendTransaction_inMemory rfl)] at h
  refine ⟨_, _, by rw [processImpl, if_neg (involvedAccounts_ne_nil txn), tryCatch_ok h], ?_⟩
  have hnodup : (after.map (·.id)).Nodup := by
    rw [applied_ids (applied_eq_some.mpr happ), hids]
    exact sortedAccounts_nodup txn
  change Serves _ _ _ (after.foldl AccountRepository.save p.stores.accounts).findById
  rw [overwrite_saved hnodup]
  exact .committed timestamp hs

variable (clock txn id p) in
theorem processImpl_serves : ∃ result q, processImpl (inMemory clock noFaults) txn id p = .ok result q ∧
    Serves ⟨txn, id⟩ p.stores.accounts.findById result q.stores.accounts.findById := by
  rcases load_ledger clock p (sortedAccounts txn) [] with ⟨found, hfound, hload⟩ | ⟨_, message, hmissing, hm, hload⟩
  · rw [List.nil_append] at hload
    have hserve : Ledger.serve txn p.stores.accounts.findById =
        if !validate txn found then .error ("validation failed: " ++ txn.describe)
        else match apply txn found with
          | (.error what, _) => .error (caught what)
          | (.ok (), after) => .ok (Ledger.overwrite p.stores.accounts.findById after) := by
      rw [Ledger.serve, hfound]
    by_cases hv : validate txn found
    · have h : attempt (inMemory clock noFaults) txn id p = commit (inMemory clock noFaults) txn id found p := by
        rw [attempt, bind_ok hload]
        simp [hv]
      simp only [hv, Bool.not_true, Bool.false_eq_true, ↓reduceIte] at hserve
      rcases happ : apply txn found with ⟨what | ⟨⟩, after⟩
      · obtain ⟨timestamp, hcommit⟩ := @commit_journalled clock noFaults txn id p found rfl
        rw [happ] at hcommit hserve
        exact handled_serves (h.trans hcommit) rfl hserve
      · rw [happ] at hserve
        exact commit_serves ((findAccount_keyed _).load hfound).1 happ hserve h
    · simp only [hv, Bool.not_false, ↓reduceIte] at hserve
      refine refused_serves ?_ hserve
      rw [attempt, bind_ok hload]
      simp only [hv]
      rfl
  · refine refused_serves ?_ (by rw [Ledger.serve, hmissing])
    rw [attempt, bind_ok hload]
    exact congrFun (if_pos hm) p

end Processor

end BankManagement
