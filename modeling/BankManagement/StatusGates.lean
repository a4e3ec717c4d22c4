import BankManagement.BankHistory
import BankManagement.TransactionEffects

namespace BankManagement

open Throwing Transaction Ledger

namespace Ledger

variable {m n : Ledger} {t : Transaction} {k : AccountId}

theorem amend_moves {f : Account → Except Exn Account} {d : Int} (hf : ∀ a a', f a = .ok a' → Moved d a a')
    (h : amend k f m = some n) : ∃ a a', m k = some a ∧ n k = some a' ∧ Moved d a a' := by
  obtain ⟨a, a', hm, hfa, rfl⟩ := amend_eq_some.mp h
  exact ⟨a, a', hm, Function.update_self _ _ _, hf a a' hfa⟩

theorem amend_frame {f : Account → Except Exn Account} {j : AccountId} (h : amend k f m = some n) (hj : j ≠ k) :
    n j = m j := by
  obtain ⟨a, a', _, _, rfl⟩ := amend_eq_some.mp h
  exact Function.update_of_ne hj _ _

theorem amend_withdraw_active {amount : Money} {a : Account} (h : amend k (·.withdraw amount) m = some n)
    (ha : m k = some a) : a.status = .active := by
  obtain ⟨b, b', hm, hw, _⟩ := amend_eq_some.mp h
  obtain rfl := Option.some.inj (ha.symm.trans hm)
  have hcan := (Account.withdraw_ok hw).1
  simp only [Account.canWithdraw, Bool.and_eq_true, decide_eq_true_eq] at hcan
  exact hcan.1

theorem Open.active {a : Account} (h : Open m k) (ha : m k = some a) : a.status = .active := by
  unfold Open at h
  rw [ha] at h
  exact Option.some.inj h

theorem post_moves (h : post t m = some n) (hk : k ∈ t.involvedAccounts) :
    ∃ a a' d, m k = some a ∧ n k = some a' ∧ a.status = .active ∧ d ≠ 0 ∧ Moved d a a' := by
  rw [mem_involvedAccounts] at hk
  cases t with
  | deposit j amount =>
    obtain ⟨⟨hopen, hp⟩, h⟩ := Option.ite_none_right_eq_some.mp h
    obtain rfl : j = k := by simpa [debitAccount, creditAccount] using hk
    obtain ⟨a, a', ha, ha', hmoved⟩ := amend_moves (fun _ _ hd => Account.deposit_moved hp hd) h
    exact ⟨a, a', _, ha, ha', hopen.active ha, by omega, hmoved⟩
  | withdraw j amount =>
    obtain ⟨hp, h⟩ := Option.ite_none_right_eq_some.mp h
    obtain rfl : j = k := by simpa [debitAccount, creditAccount] using hk
    obtain ⟨a, a', ha, ha', hmoved⟩ := amend_moves (fun _ _ hw => Account.withdraw_moved hw) h
    exact ⟨a, a', _, ha, ha', amend_withdraw_active h ha, by omega, hmoved⟩
  | transfer i j amount =>
    obtain ⟨⟨hij, hp, hopen⟩, h⟩ := Option.ite_none_right_eq_some.mp h
    obtain ⟨p, hi, hj⟩ := Option.bind_eq_some_iff.mp h
    obtain hk | hk := hk
    · obtain rfl : i = k := Option.some.inj hk
      obtain ⟨a, a', ha, hp', hmoved⟩ := amend_moves (fun _ _ hw => Account.withdraw_moved hw) hi
      exact ⟨a, a', _, ha, (amend_frame hj hij).trans hp', amend_withdraw_active hi ha, by omega, hmoved⟩
    · obtain rfl : j = k := Option.some.inj hk
      obtain ⟨a, a', hp', ha', hmoved⟩ := amend_moves (fun _ _ hd => Account.deposit_moved hp hd) hj
      have ha : m j = some a := (amend_frame hi (Ne.symm hij)).symm.trans hp'
      exact ⟨a, a', _, ha, ha', hopen.active ha, by omega, hmoved⟩

end Ledger

namespace BankingService

inductive StatusChanged (status : AccountStatus) (action : String) (k : AccountId) (now : TimePoint) (w : World)
    (trail : ServiceTrail) : Result Unit × World × ServiceTrail → Prop
  | refused (e : String) (h : ∀ a, w.accounts.findById k = some a → a.status = .closed) :
    StatusChanged status action k now w trail (.failure e, w, trail)
  | kept (a : Account) (ha : w.accounts.findById k = some a) (h : a.status = status) :
    StatusChanged status action k now w trail (.success (), w, trail)
  | changed (a : Account) (details : String) (ha : w.accounts.findById k = some a) (hclosed : a.status ≠ .closed)
    (h : a.status ≠ status) : StatusChanged status action k now w trail
      (.success (), { w with
        accounts := w.accounts.save { a with status, version := a.version + 1 }
        audit := w.audit ++ [{ id := trail.nextAuditId, timestamp := now, actorId := 0, action, details }] },
        { trail with nextAuditId := trail.nextAuditId + 1 })

theorem changeStatus_changes (status : AccountStatus) (verb refusal action : String) (k : AccountId) (now : TimePoint)
    (w : World) (trail : ServiceTrail) : StatusChanged status action k now w trail
      (changeStatus status verb refusal action none none k now w trail) := by
  unfold changeStatus
  cases hf : w.accounts.findById k with
  | none =>
    apply StatusChanged.refused
    rw [hf]
    rintro a ⟨⟩
  | some a =>
    dsimp only
    split_ifs with hclosed hsame
    · apply StatusChanged.refused
      rw [hf]
      rintro b ⟨⟩
      exact hclosed
    · exact .kept a hf hsame
    · unfold Account.setStatus
      rw [if_neg hsame]
      exact .changed a _ hf hclosed hsame

end BankingService

namespace Bank

namespace Operation

def transaction : Operation → Option Transaction
  | .deposit k amount => some (.deposit k amount)
  | .withdraw k amount => some (.withdraw k amount)
  | .transfer fromId toId amount => some (.transfer fromId toId amount)
  | .freeze _ => none
  | .unfreeze _ => none

def Names (k : AccountId) (op : Operation) : Prop := ∃ t, op.transaction = some t ∧ k ∈ t.involvedAccounts

def statusChange : Operation → Option (AccountId × AccountStatus)
  | .freeze k => some (k, .frozen)
  | .unfreeze k => some (k, .active)
  | _ => none

end Operation

def succeeded {α : Type} : EStateM.Result Exn Bank (Result α) → Option Bool
  | .ok (.success _) _ => some true
  | .ok (.failure _) _ => some false
  | .error _ _ => none

def outcome (clock : Stores → TimePoint) (b : Bank) : Operation → Option Bool
  | .deposit k amount => succeeded (deposit clock k amount b)
  | .withdraw k amount => succeeded (withdraw clock k amount b)
  | .transfer fromId toId amount => succeeded (transfer clock fromId toId amount b)
  | .freeze k => succeeded (freeze clock k b)
  | .unfreeze k => succeeded (unfreeze clock k b)

def find (b : Bank) (k : AccountId) : Option Account := b.stores.accounts.findById k

inductive Effect (b : Bank) (op : Operation) : Bool → Bank → Prop
  | rejected (t : Transaction) (b' : Bank) (hop : op.transaction = some t)
    (ha : b'.stores.accounts = b.stores.accounts) : Effect b op false b'
  | posted (t : Transaction) (b' : Bank) (hop : op.transaction = some t) (hpost : post t b.find = some b'.find) :
    Effect b op true b'
  | kept (k : AccountId) (status : AccountStatus) (ok : Bool) (hop : op.statusChange = some (k, status))
    (hclosed : ok = false → ∀ a, b.find k = some a → a.status = .closed)
    (hsame : ok = true → ∃ a, b.find k = some a ∧ a.status = status) : Effect b op ok b
  | changed (k : AccountId) (status : AccountStatus) (a : Account) (b' : Bank)
    (hop : op.statusChange = some (k, status)) (ha : b.find k = some a) (hclosed : a.status ≠ .closed)
    (hstatus : a.status ≠ status)
    (haccounts : b'.stores.accounts = b.stores.accounts.save { a with status, version := a.version + 1 })
    (hrest : ∃ entry, b'.processor = { b.processor with stores := { b.stores with
      accounts := b'.stores.accounts, audit := b.stores.audit ++ [entry] } }) : Effect b op true b'

variable {clock : Stores → TimePoint} {b b' : Bank} {k : AccountId} {op : Operation} {ok : Bool} {a : Account}

theorem process_effect {t : Transaction} (hop : op.transaction = some t) :
    ∃ ok, succeeded (process clock t b) = some ok ∧ Effect b op ok (after (process clock t) b) := by
  obtain ⟨result, q, hprocess, hs⟩ := process_settles clock t b
  rw [after, hprocess]
  cases hs with
  | failed message q ha ht => exact ⟨false, rfl, .rejected t _ hop ha⟩
  | done record q hr hc ha ht => exact ⟨true, rfl, .posted t _ hop ha⟩

theorem change_effect {status : AccountStatus} {verb refusal action : String}
    (hop : op.statusChange = some (k, status)) :
    ∃ ok, succeeded (change clock (BankingService.changeStatus status verb refusal action none none k) b) = some ok ∧
      Effect b op ok (after (change clock (BankingService.changeStatus status verb refusal action none none k)) b) := by
  have hs := BankingService.changeStatus_changes status verb refusal action k (clock b.stores) b.world b.trail
  generalize hresult : BankingService.changeStatus status verb refusal action none none k (clock b.stores) b.world
    b.trail = result at hs
  unfold after change
  dsimp only
  rw [hresult]
  cases hs with
  | refused e h =>
    refine ⟨false, rfl, ?_⟩
    apply Effect.kept k status false hop
    · intro _
      exact h
    · rintro ⟨⟩
  | kept a ha h =>
    refine ⟨true, rfl, ?_⟩
    apply Effect.kept k status true hop
    · rintro ⟨⟩
    · intro _
      exact ⟨a, ha, h⟩
  | changed a details ha hclosed h => exact ⟨true, rfl, .changed k status a _ hop ha hclosed h rfl ⟨_, rfl⟩⟩

variable (clock b op) in
theorem perform_effect : ∃ ok, outcome clock b op = some ok ∧ Effect b op ok (perform clock b op) := by
  cases op with
  | deposit k amount => exact process_effect rfl
  | withdraw k amount => exact process_effect rfl
  | transfer fromId toId amount => exact process_effect rfl
  | freeze k => exact change_effect rfl
  | unfreeze k => exact change_effect rfl

theorem find_save {accounts : AccountRepository} {j : AccountId} (h : b'.stores.accounts = accounts.save a) :
    b'.find j = Function.update accounts.findById a.id (some a) j := by
  unfold find
  rw [h, AccountRepository.findById_save]

theorem find_id (h : b.find k = some a) : a.id = k := findAccount_id h

theorem Effect.inactive (h : Effect b op ok b') (ha : b.find k = some a) (hs : a.status ≠ .active)
    (hop : a.status = .closed ∨ (op = .unfreeze k → ok = false)) : b'.find k = some a := by
  cases h with
  | rejected t b' _ haccounts => rwa [find, haccounts]
  | posted t b' _ hpost =>
    by_cases hk : k ∈ t.involvedAccounts
    · obtain ⟨a', _, _, ha', _, hactive, _⟩ := post_moves hpost hk
      obtain rfl := Option.some.inj (ha.symm.trans ha')
      exact absurd hactive hs
    · exact ((post_local t).frame hpost k hk).trans ha
  | kept => exact ha
  | changed j status c b' hchange hc hclosed hstatus haccounts _ =>
    rw [find_save haccounts]
    by_cases hj : k = j
    · subst hj
      obtain rfl := Option.some.inj (ha.symm.trans hc)
      have hunfreeze := hop.resolve_left hclosed
      cases op with
      | freeze i =>
        obtain ⟨rfl, rfl⟩ := Prod.mk.inj (Option.some.inj hchange)
        cases hcase : a.status <;> simp [hcase] at hs hclosed hstatus
      | unfreeze i =>
        obtain ⟨rfl, rfl⟩ := Prod.mk.inj (Option.some.inj hchange)
        cases hunfreeze rfl
      | deposit | withdraw | transfer => cases hchange
    · have hne : k ≠ c.id := by rwa [find_id hc]
      exact (Function.update_of_ne hne _ _).trans ha

theorem Effect.names_inactive (h : Effect b op ok b') (ha : b.find k = some a) (hs : a.status ≠ .active)
    (hn : op.Names k) : ok = false := by
  obtain ⟨t, ht, hk⟩ := hn
  have hnone : op.statusChange = none := by cases op <;> first | rfl | cases ht
  cases h with
  | rejected => rfl
  | posted t' b' ht' hpost =>
    obtain rfl := Option.some.inj (ht.symm.trans ht')
    obtain ⟨a', _, _, ha', _, hactive, _⟩ := post_moves hpost hk
    obtain rfl := Option.some.inj (ha.symm.trans ha')
    exact absurd hactive hs
  | kept _ _ _ hchange => cases hnone.symm.trans hchange
  | changed _ _ _ _ hchange => cases hnone.symm.trans hchange

theorem Effect.version (h : Effect b op ok b') (ha : b.find k = some a) : ∃ a', b'.find k = some a' ∧
    a'.version = if a'.balance ≠ a.balance ∨ a'.status ≠ a.status then a.version + 1 else a.version := by
  have hsame : a.version = if a.balance ≠ a.balance ∨ a.status ≠ a.status then a.version + 1 else a.version := by
    rw [if_neg]
    simp
  cases h with
  | rejected t b' _ haccounts =>
    refine ⟨a, ?_, hsame⟩
    rwa [find, haccounts]
  | posted t b' _ hpost =>
    by_cases hk : k ∈ t.involvedAccounts
    · obtain ⟨c, c', d, hc, hc', _, hd, hmoved⟩ := post_moves hpost hk
      obtain rfl := Option.some.inj (ha.symm.trans hc)
      refine ⟨c', hc', ?_⟩
      rw [if_pos, hmoved.version]
      left
      intro hbalance
      have hcents := hmoved.balance
      rw [hbalance] at hcents
      omega
    · exact ⟨a, ((post_local t).frame hpost k hk).trans ha, hsame⟩
  | kept => exact ⟨a, ha, hsame⟩
  | changed j status c b' hchange hc hclosed hstatus haccounts _ =>
    rw [find_save haccounts]
    by_cases hj : k = c.id
    · obtain rfl : k = j := hj.trans (find_id hc)
      obtain rfl := Option.some.inj (ha.symm.trans hc)
      refine ⟨{ a with status, version := a.version + 1 }, ?_, ?_⟩
      · rw [hj]
        exact Function.update_self _ _ _
      · rw [if_pos (Or.inr (Ne.symm hstatus))]
    · exact ⟨a, (Function.update_of_ne hj _ _).trans ha, hsame⟩

/-- The account's status and version may have changed, and a change of status comes to the trail. -/
structure OnlyStatus (k : AccountId) (b b' : Bank) : Prop where
  account : ∃ status version, b'.find k = (b.find k).map fun a => { a with status, version }
  others : ∀ j, j ≠ k → b'.find j = b.find j
  trail : if (b'.find k).map (·.status) = (b.find k).map (·.status) then b'.stores.audit = b.stores.audit
    else ∃ entry, b'.stores.audit = b.stores.audit ++ [entry]
  rest : b'.processor = { b.processor with stores := { b.stores with
    accounts := b'.stores.accounts, audit := b'.stores.audit } }

theorem Effect.onlyStatus (h : Effect b op ok b') {status : AccountStatus}
    (hop : op.statusChange = some (k, status)) : OnlyStatus k b b' := by
  have hnone : op.transaction = none := by cases op <;> first | rfl | cases hop
  cases h with
  | rejected t b' ht => cases hnone.symm.trans ht
  | posted t b' ht => cases hnone.symm.trans ht
  | kept =>
    refine ⟨?_, fun _ _ => rfl, by rw [if_pos rfl], rfl⟩
    cases hf : b.find k with
    | none => exact ⟨.active, 0, rfl⟩
    | some a => exact ⟨a.status, a.version, rfl⟩
  | changed j status' a b' hchange ha _ hstatus haccounts hrest =>
    obtain ⟨rfl, rfl⟩ := Prod.mk.inj (Option.some.inj (hchange.symm.trans hop))
    obtain ⟨entry, hprocessor⟩ := hrest
    have haudit : b'.stores.audit = b.stores.audit ++ [entry] := by rw [stores, hprocessor]
    have hfound : b'.find j = some { a with status := status', version := a.version + 1 } := by
      rw [find_save haccounts, ← find_id ha]
      exact Function.update_self _ _ _
    refine ⟨⟨status', a.version + 1, ?_⟩, ?_, ?_, ?_⟩
    · rw [hfound, ha, Option.map_some]
    · intro i hi
      rw [find_save haccounts]
      apply Function.update_of_ne
      rwa [find_id ha]
    · have hchanged : (b'.find j).map (·.status) ≠ (b.find j).map (·.status) := by
        rw [hfound, ha]
        exact fun he => hstatus (Option.some.inj he).symm
      rw [if_neg hchanged]
      exact ⟨entry, haudit⟩
    · rw [haudit]
      exact hprocessor

theorem run_append (clock : Stores → TimePoint) (b : Bank) (ops ops' : List Operation) :
    run clock b (ops ++ ops') = run clock (run clock b ops) ops' := List.foldl_append

theorem run_freeze (clock : Stores → TimePoint) (b : Bank) (before during : List Operation) (k : AccountId) :
    run clock b (before ++ .freeze k :: during) = run clock (perform clock (run clock b before) (.freeze k)) during :=
  List.foldl_append

theorem run_closed (ops : List Operation) (ha : b.find k = some a) (hs : a.status = .closed) :
    (run clock b ops).find k = some a := by
  induction ops generalizing b with
  | nil => exact ha
  | cons op ops ih =>
    obtain ⟨ok, _, he⟩ := perform_effect clock b op
    apply ih
    apply he.inactive ha _ (.inl hs)
    rw [hs]
    rintro ⟨⟩

theorem run_frozen {ops : List Operation} (ha : b.find k = some a) (hs : a.status = .frozen)
    (hno : ∀ before after, ops = before ++ .unfreeze k :: after →
      outcome clock (run clock b before) (.unfreeze k) ≠ some true) : (run clock b ops).find k = some a := by
  induction ops generalizing b with
  | nil => exact ha
  | cons op ops ih =>
    have hactive : a.status ≠ .active := by
      rw [hs]
      rintro ⟨⟩
    obtain ⟨ok, hok, he⟩ := perform_effect clock b op
    apply ih
    · apply he.inactive ha hactive (.inr _)
      rintro rfl
      apply Bool.eq_false_of_not_eq_true
      rintro rfl
      exact hno [] ops rfl hok
    · intro before after h
      exact hno (op :: before) after (congrArg (op :: ·) h)

theorem freeze_succeeds (h : outcome clock b (.freeze k) = some true) :
    ∃ a, (perform clock b (.freeze k)).find k = some a ∧ a.status = .frozen ∧
      (b.find k).map (·.balance) = some a.balance := by
  obtain ⟨ok, hok, he⟩ := perform_effect clock b (.freeze k)
  obtain rfl := Option.some.inj (hok.symm.trans h)
  generalize perform clock b (.freeze k) = b' at he
  cases he with
  | posted t b' ht => cases ht
  | kept j status ok hchange _ hsame =>
    obtain ⟨rfl, rfl⟩ := Prod.mk.inj (Option.some.inj hchange)
    obtain ⟨a, ha, hstatus⟩ := hsame rfl
    exact ⟨a, ha, hstatus, by rw [ha]; rfl⟩
  | changed j status a b' hchange ha _ _ haccounts _ =>
    obtain ⟨rfl, rfl⟩ := Prod.mk.inj (Option.some.inj hchange)
    refine ⟨{ a with status := .frozen, version := a.version + 1 }, ?_, rfl, by rw [ha]; rfl⟩
    rw [find_save haccounts, ← find_id ha]
    exact Function.update_self _ _ _

/-- A closed account stays as it is; a frozen one takes part in nothing until it is unfrozen; a change of
status is one and nothing else; and versions count changes. The queries of the service change nothing. -/
theorem run_gated (clock : Stores → TimePoint) (b : Bank) :
    (∀ before after k a, (run clock b before).find k = some a → a.status = .closed →
      (run clock b (before ++ after)).find k = some a) ∧
    (∀ before k during, outcome clock (run clock b before) (.freeze k) = some true →
      (∀ first rest, during = first ++ .unfreeze k :: rest →
        outcome clock (run clock b (before ++ .freeze k :: first)) (.unfreeze k) ≠ some true) →
      ((run clock b (before ++ .freeze k :: during)).find k).map (·.balance) =
          ((run clock b before).find k).map (·.balance) ∧
        ∀ op, op.Names k → outcome clock (run clock b (before ++ .freeze k :: during)) op = some false) ∧
    (∀ before op k status, op.statusChange = some (k, status) →
      OnlyStatus k (run clock b before) (run clock b (before ++ [op]))) ∧
    ∀ before op k a, (run clock b before).find k = some a → ∃ a', (run clock b (before ++ [op])).find k = some a' ∧
      a'.version = if a'.balance ≠ a.balance ∨ a'.status ≠ a.status then a.version + 1 else a.version := by
  refine ⟨?_, ?_, ?_, ?_⟩
  · intro before after k a ha hs
    rw [run_append]
    exact run_closed after ha hs
  · intro before k during hfreeze hno
    simp only [run_freeze] at hno ⊢
    obtain ⟨a, ha, hs, hbalance⟩ := freeze_succeeds hfreeze
    have hrun := run_frozen ha hs hno
    refine ⟨by rw [hrun, hbalance]; rfl, ?_⟩
    intro op hn
    obtain ⟨ok, hok, he⟩ := perform_effect clock (run clock (perform clock (run clock b before) (.freeze k)) during) op
    rw [hok]
    apply congrArg
    apply he.names_inactive hrun _ hn
    rw [hs]
    rintro ⟨⟩
  · intro before op k status hop
    rw [run_append]
    obtain ⟨_, _, he⟩ := perform_effect clock (run clock b before) op
    exact he.onlyStatus hop
  · intro before op k a ha
    rw [run_append]
    obtain ⟨_, _, he⟩ := perform_effect clock (run clock b before) op
    exact he.version ha

end Bank

end BankManagement
