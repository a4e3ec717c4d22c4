import BankManagement.ProcessThrows

namespace BankManagement

open Throwing

namespace Processor

variable {σ : Type}

/-- With the flag that `submit` reads; the queue of a processor is never closed. -/
def submit (accepting : Bool) (txn : Transaction) : Program Exn (Processor σ) (Result TransactionId) :=
  if accepting then do
    let id ← fetchId
    modify fun p => { p with reserved := p.reserved ++ [id] }
    modify fun p => { p with queue := p.queue ++ [txn] }
    pure (.success id)
  else pure (.failure "processor stopped")

def submitAll (accepting : Bool) : List Transaction → Program Exn (Processor σ) (List (Result TransactionId))
  | [] => pure []
  | txn :: rest => do
    let result ← submit accepting txn
    let results ← submitAll accepting rest
    pure (result :: results)

/-- The loop, cut off after `turns` turns: it leaves by itself when the queue is empty. -/
def processUntilEmpty (c : Collaborators σ) : ℕ → Program Exn (Processor σ) (List (Result TransactionRecord))
  | 0 => pure []
  | turns + 1 => do
    match ← processNext c with
    | none => pure []
    | some result =>
      let results ← processUntilEmpty c turns
      pure (result :: results)

def processAll (c : Collaborators σ) : List Transaction → Program Exn (Processor σ) (List (Result TransactionRecord))
  | [] => pure []
  | txn :: rest => do
    let result ← processOne c txn
    let results ← processAll c rest
    pure (result :: results)

def serveAll (c : Collaborators σ) :
    List (Transaction × TransactionId) → Program Exn (Processor σ) (List (Result TransactionRecord))
  | [] => pure []
  | (txn, id) :: rest => do
    let result ← processImpl c txn id
    let results ← serveAll c rest
    pure (result :: results)

def numbered (id : TransactionId) : List Transaction → List (Transaction × TransactionId)
  | [] => []
  | txn :: rest => (txn, id) :: numbered (id + 1) rest

theorem numbered_length (id : TransactionId) (txns : List Transaction) : (numbered id txns).length = txns.length := by
  induction txns generalizing id with
  | nil => rfl
  | cons txn rest ih => exact congrArg (· + 1) (ih (id + 1))

theorem numbered_fst (id : TransactionId) (txns : List Transaction) : (numbered id txns).map (·.1) = txns := by
  induction txns generalizing id with
  | nil => rfl
  | cons txn rest ih => exact congrArg (txn :: ·) (ih (id + 1))

def SameStores (p q : Processor σ) : Prop := p.stores = q.stores ∧ p.nextAuditId = q.nextAuditId

variable {c : Collaborators σ} {p q : Processor σ} {txn : Transaction} {id : TransactionId}

theorem onStores_agree {α : Type} (m : Program Exn σ α) : Agree SameStores (onStores m) (onStores m) := by
  apply Leads.zoom _ _ (Agree.refl m).leads
  · exact fun p q h => h.1
  · exact fun stores stores' p q hstores h => ⟨hstores, h.2⟩

section Respects

variable {τ β : Type} {R R' : Processor σ → Processor τ → Prop} {c' : Collaborators τ} {Owner : CustomerId → Prop}

structure Audits (R : Processor σ → Processor τ → Prop) (c : Collaborators σ) (c' : Collaborators τ) : Prop where
  fetchAuditId : Agree R fetchAuditId fetchAuditId
  now : Agree R (now c) (now c')
  appendAudit : ∀ entry, Agree R (onStores (c.appendAudit entry)) (onStores (c'.appendAudit entry))

/-- The collaborators do not tell the two processors apart, as long as no account is saved but for an `Owner`,
and no record appended but that of `id`, which takes `R` to `R'`; an account that is found is always an
`Owner`'s. -/
structure Respects (Owner : CustomerId → Prop) (id : TransactionId) (R R' : Processor σ → Processor τ → Prop)
    (c : Collaborators σ) (c' : Collaborators τ) : Prop where
  weaken : ∀ p q, R p q → R' p q
  now : Agree R (now c) (now c')
  findById : ∀ k, Agree R (onStores (c.findById k)) (onStores (c'.findById k))
  found : ∀ {k a p q p'}, R p q → onStores (c.findById k) p = .ok (some a) p' → Owner a.ownerId
  save : ∀ a, Owner a.ownerId → Agree R (onStores (c.save a)) (onStores (c'.save a))
  appendTransaction : ∀ record, record.id = id →
    Leads R R' (onStores (c.appendTransaction record)) (onStores (c'.appendTransaction record))
  appendWal : ∀ record, Agree R (onStores (c.appendWal record)) (onStores (c'.appendWal record))
  markCommitted : Agree R (onStores (c.markCommitted id)) (onStores (c'.markCommitted id))
  audits : Audits R' c c'

theorem appendAudit_agree (h : Audits R c c') (action details : String) :
    Agree R (appendAudit c action details) (appendAudit c' action details) := by
  apply Agree.bind h.fetchAuditId
  intro id
  apply Agree.bind h.now
  intro timestamp
  exact h.appendAudit _

theorem refuse_agree (h : Audits R c c') (message : String) : Agree R (refuse c message) (refuse c' message) :=
  Agree.bind (appendAudit_agree h _ _) fun _ => Agree.pure

theorem load_leads (h : Respects Owner id R R' c c') {g : List Account × String → Program Exn (Processor σ) β}
    {g' : List Account × String → Program Exn (Processor τ) β}
    (hg : ∀ loaded message, (∀ a ∈ loaded, Owner a.ownerId) → Leads R R' (g (loaded, message)) (g' (loaded, message)))
    (todo : List AccountId) {loaded : List Account} (hl : ∀ a ∈ loaded, Owner a.ownerId) :
    Leads R R' (load c todo loaded >>= g) (load c' todo loaded >>= g') := by
  induction todo generalizing loaded with
  | nil =>
    rw [load, load, pure_bind, pure_bind]
    exact hg loaded "" hl
  | cons k todo ih =>
    rw [load, load, bind_assoc, bind_assoc]
    apply Leads.bind h.weaken (h.findById k)
    rintro (_ | a) hanswer
    · dsimp only
      rw [pure_bind, pure_bind]
      exact hg loaded _ hl
    · obtain ⟨p, q, p', hr, hfound⟩ := hanswer
      apply ih
      intro b hb
      rcases List.mem_append.mp hb with hb | hb
      · exact hl b hb
      · rw [List.mem_singleton.mp hb]
        exact h.found hr hfound

theorem saveAll_agree (h : Respects Owner id R R' c c') {accounts : List Account}
    (ha : ∀ a ∈ accounts, Owner a.ownerId) : Agree R (saveAll c accounts) (saveAll c' accounts) := by
  induction accounts with
  | nil => exact Agree.pure
  | cons a rest ih =>
    obtain ⟨ha, hrest⟩ := List.forall_mem_cons.mp ha
    exact Agree.bind (h.save a ha) fun _ => ih hrest

theorem commit_leads (h : Respects Owner id R R' c c') (txn : Transaction) {loaded : List Account}
    (hl : ∀ a ∈ loaded, Owner a.ownerId) : Leads R R' (commit c txn id loaded) (commit c' txn id loaded) := by
  apply Leads.bind h.weaken h.now
  intro timestamp _
  apply Leads.bind h.weaken (h.appendWal _)
  intro _ _
  rcases happly : apply txn loaded with ⟨what | ⟨⟩, loaded'⟩
  · exact Leads.throw h.weaken
  · have howners : ∀ a ∈ loaded', Owner a.ownerId := by
      intro a ha
      have hmem : a.ownerId ∈ loaded.map Account.ownerId := apply_owners happly ▸ List.mem_map_of_mem ha
      obtain ⟨b, hb, hsame⟩ := List.mem_map.mp hmem
      exact hsame ▸ hl b hb
    apply Leads.bind h.weaken (saveAll_agree h howners)
    intro _ _
    apply Leads.bind h.weaken h.markCommitted
    intro _ _
    apply Leads.bind_agree (h.appendTransaction _ rfl)
    intro _
    exact Agree.bind (appendAudit_agree h.audits _ _) fun _ => Agree.pure

theorem processImpl_leads (h : Respects Owner id R R' c c') (txn : Transaction) :
    Leads R R' (processImpl c txn id) (processImpl c' txn id) := by
  rw [processImpl, processImpl, if_neg (involvedAccounts_ne_nil txn), if_neg (involvedAccounts_ne_nil txn)]
  apply Leads.tryCatch
  · unfold attempt
    apply load_leads h
    · intro loaded message hl
      dsimp only
      split_ifs
      · exact Leads.weaken h.weaken (refuse_agree h.audits _)
      · exact Leads.weaken h.weaken (refuse_agree h.audits _)
      · exact commit_leads h txn hl
    · exact fun _ hnone => absurd hnone List.not_mem_nil
  · intro what
    exact refuse_agree h.audits _

end Respects

theorem sameStores_respects (c : Collaborators σ) (id : TransactionId) :
    Respects (fun _ => True) id SameStores SameStores c c where
  weaken _ _ h := h
  now := onStores_agree _
  findById _ := onStores_agree _
  found _ _ := trivial
  save _ _ := onStores_agree _
  appendTransaction _ _ := onStores_agree _
  appendWal _ := onStores_agree _
  markCommitted := onStores_agree _
  audits.fetchAuditId _ _ h := ⟨h.2, h.1, congrArg (· + 1) h.2⟩
  audits.now := onStores_agree _
  audits.appendAudit _ := onStores_agree _

theorem submitAll_accepted (txns : List Transaction) (p : Processor σ) :
    submitAll true txns p = .ok ((numbered p.nextId txns).map fun x => .success x.2) { p with
      queue := p.queue ++ txns
      reserved := p.reserved ++ (numbered p.nextId txns).map (·.2)
      nextId := p.nextId + UInt64.ofNat txns.length } := by
  induction txns generalizing p with
  | nil =>
    rw [numbered, List.map_nil, List.map_nil, List.append_nil, List.append_nil, List.length_nil,
      show UInt64.ofNat 0 = 0 from rfl, UInt64.add_zero]
    rfl
  | cons txn rest ih =>
    let q : Processor σ := { p with
      queue := p.queue ++ [txn], reserved := p.reserved ++ [p.nextId], nextId := p.nextId + 1 }
    have hsubmit : submit true txn p = .ok (.success p.nextId) q := rfl
    have hnext : q.nextId + UInt64.ofNat rest.length = p.nextId + UInt64.ofNat (txn :: rest).length := by
      rw [List.length_cons, UInt64.ofNat_add, UInt64.add_comm (UInt64.ofNat rest.length)]
      exact UInt64.add_assoc p.nextId 1 _
    rw [submitAll, bind_ok hsubmit, bind_ok (ih q), hnext]
    dsimp only [q]
    rw [List.append_assoc, List.append_assoc]
    rfl

theorem processUntilEmpty_taken {turns : ℕ} (h : p.taken = some (txn, id, q)) :
    processUntilEmpty c (turns + 1) p = (processImpl c txn id >>= fun result => do
      let results ← processUntilEmpty c turns
      pure (result :: results)) q := by
  have hnext := processNext_some (c := c) h
  cases hcall : processImpl c txn id q with
  | ok result u =>
    rw [bind_ok hcall] at hnext ⊢
    exact bind_ok hnext
  | error what u =>
    rw [bind_error hcall] at hnext ⊢
    exact bind_error hnext

theorem processUntilEmpty_serves {pairs : List (Transaction × TransactionId)} {turns : ℕ} (hlt : pairs.length < turns)
    (hq : p.queue = pairs.map (·.1)) (hr : p.reserved = pairs.map (·.2)) (hs : SameStores p q) :
    SameEnd SameStores (processUntilEmpty c turns p) (serveAll c pairs q) ∧
      ∀ {results p'}, processUntilEmpty c turns p = .ok results p' → p'.members = ([], [], p.nextId) := by
  obtain ⟨turns, rfl⟩ := Nat.exists_eq_succ_of_ne_zero (Nat.ne_of_gt (Nat.lt_of_le_of_lt (Nat.zero_le _) hlt))
  induction pairs generalizing p q turns with
  | nil =>
    have hend : processUntilEmpty c (turns + 1) p = .ok [] p := bind_ok (processNext_none (taken_eq_none.mpr hq))
    rw [hend]
    refine ⟨⟨rfl, hs⟩, ?_⟩
    rintro _ _ ⟨⟩
    rw [members, hq, hr]
    rfl
  | cons pair rest ih =>
    obtain ⟨txn, id⟩ := pair
    rw [List.length_cons] at hlt
    let u : Processor σ := { p with queue := rest.map (·.1), reserved := rest.map (·.2) }
    have htaken : p.taken = some (txn, id, u) := by
      unfold taken
      rw [hq, hr]
      rfl
    rw [processUntilEmpty_taken htaken]
    have hrest {result : Result TransactionRecord} {v : Processor σ} (hcall : processImpl c txn id u = .ok result v) :
        v.members = (rest.map (·.1), rest.map (·.2), p.nextId) := (processImpl_keeps c txn id).ok hcall
    obtain ⟨turns, rfl⟩ := Nat.exists_eq_succ_of_ne_zero (show turns ≠ 0 by omega)
    constructor
    · apply SameEnd.bind (processImpl_leads (sameStores_respects c id) txn u q hs)
      intro result v w hcall _ hvw
      have hv := hrest hcall
      have hih := ih (congrArg (·.1) hv) (congrArg (·.2.1) hv) hvw turns (by omega)
      apply SameEnd.bind hih.1
      intro results _ _ _ _ hend
      exact ⟨rfl, hend⟩
    · intro results p' h
      obtain ⟨result, v, hcall, h⟩ := bind_eq_ok.mp h
      obtain ⟨tail, w, htail, h⟩ := bind_eq_ok.mp h
      obtain ⟨-, rfl⟩ := EStateM.Result.ok.inj h
      have hv := hrest hcall
      have hih := ih (congrArg (·.1) hv) (congrArg (·.2.1) hv) ⟨rfl, rfl⟩ turns (by omega)
      rw [hih.2 htail, show v.nextId = p.nextId from congrArg (·.2.2) hv]

theorem processAll_serves (txns : List Transaction) (hs : SameStores p q) :
    SameEnd SameStores (processAll c txns p) (serveAll c (numbered p.nextId txns) q) ∧
      ∀ {results p'}, processAll c txns p = .ok results p' →
        p'.members = (p.queue, p.reserved, p.nextId + UInt64.ofNat txns.length) := by
  induction txns generalizing p q with
  | nil =>
    refine ⟨⟨rfl, hs⟩, ?_⟩
    rintro _ _ ⟨⟩
    rw [members, List.length_nil, show UInt64.ofNat 0 = 0 from rfl, UInt64.add_zero]
  | cons txn rest ih =>
    let u : Processor σ := { p with nextId := p.nextId + 1 }
    have hone : processOne c txn p = processImpl c txn p.nextId u := processOne_eq c txn p
    have hrest {result : Result TransactionRecord} {v : Processor σ} (hcall : processOne c txn p = .ok result v) :
        v.members = (p.queue, p.reserved, p.nextId + 1) := (processImpl_keeps c txn p.nextId).ok (hone.symm.trans hcall)
    constructor
    · apply SameEnd.bind
      · rw [hone]
        exact processImpl_leads (sameStores_respects c p.nextId) txn u q hs
      · intro result v w hcall _ hvw
        have hv := hrest hcall
        have hih := (ih hvw).1
        rw [show v.nextId = p.nextId + 1 from congrArg (·.2.2) hv] at hih
        apply SameEnd.bind hih
        intro results _ _ _ _ hend
        exact ⟨rfl, hend⟩
    · intro results p' h
      obtain ⟨result, v, hcall, h⟩ := bind_eq_ok.mp h
      obtain ⟨tail, w, htail, h⟩ := bind_eq_ok.mp h
      obtain ⟨-, rfl⟩ := EStateM.Result.ok.inj h
      have hv := hrest hcall
      have hnext : p.nextId + 1 + UInt64.ofNat rest.length = p.nextId + UInt64.ofNat (txn :: rest).length := by
        rw [List.length_cons, UInt64.ofNat_add, UInt64.add_comm (UInt64.ofNat rest.length)]
        exact UInt64.add_assoc p.nextId 1 _
      rw [(ih ⟨rfl, rfl⟩ (q := v)).2 htail, show v.queue = p.queue from congrArg (·.1) hv,
        show v.reserved = p.reserved from congrArg (·.2.1) hv, show v.nextId = p.nextId + 1 from congrArg (·.2.2) hv, hnext]

def SameWork {α : Type} : EStateM.Result Exn (Processor σ) α → EStateM.Result Exn (Processor σ) α → Prop
  | .ok a p, .ok b q => a = b ∧ p = q
  | .error what p, .error what' q => what = what' ∧ SameStores p q
  | _, _ => False

theorem sameWork_of_sameEnd {α : Type} {x y : EStateM.Result Exn (Processor σ) α} (h : SameEnd SameStores x y)
    (hmembers : ∀ {a b p q}, x = .ok a p → y = .ok b q → p.members = q.members) : SameWork x y := by
  cases x with
  | ok a p =>
    cases y with
    | error => exact absurd h id
    | ok b q =>
      obtain ⟨rfl, hstores, haudit⟩ := h
      have hsame := hmembers rfl rfl
      obtain ⟨stores, queue, reserved, nextId, nextAuditId⟩ := p
      obtain ⟨hqueue, hsame⟩ := Prod.mk.inj hsame
      obtain ⟨hreserved, hnextId⟩ := Prod.mk.inj hsame
      subst hstores haudit hqueue hreserved hnextId
      exact ⟨rfl, rfl⟩
  | error what p =>
    cases y with
    | ok => exact absurd h id
    | error what' q => exact h

theorem consumerLoop_eq (c : Collaborators σ) (turns : ℕ) (p : Processor σ) :
    consumerLoop c turns p = (processUntilEmpty c turns >>= fun _ => pure ()) p := by
  induction turns generalizing p with
  | zero => rfl
  | succ turns ih =>
    cases htaken : p.taken with
    | none =>
      have hloop : consumerLoop c (turns + 1) p = .ok () p := bind_ok (consumerTurn_none htaken)
      have hend : processUntilEmpty c (turns + 1) p = .ok [] p := bind_ok (processNext_none htaken)
      rw [hloop, bind_ok hend]
      rfl
    | some next =>
      obtain ⟨txn, id, q⟩ := next
      have hturn := consumerTurn_some (c := c) htaken
      have hloop : processUntilEmpty c (turns + 1) p = _ := processUntilEmpty_taken htaken
      cases hcall : processImpl c txn id q with
      | ok result u =>
        rw [bind_ok hcall] at hturn hloop
        have hrest : consumerLoop c (turns + 1) p = consumerLoop c turns u := bind_ok hturn
        rw [hrest, ih]
        cases htail : processUntilEmpty c turns u with
        | ok results v =>
          rw [bind_ok htail] at hloop ⊢
          rw [bind_ok hloop]
        | error what v =>
          rw [bind_error htail] at hloop ⊢
          rw [bind_error hloop]
      | error what u =>
        rw [bind_error hcall] at hturn hloop
        have hrest : consumerLoop c (turns + 1) p = .error what u := bind_error hturn
        rw [hrest, bind_error hloop]

theorem SameWork.drop {α : Type} {m m' : Program Exn (Processor σ) α} (h : SameWork (m p) (m' q)) :
    SameWork ((m >>= fun _ => pure ()) p) ((m' >>= fun _ => pure ()) q) := by
  cases hm : m p with
  | ok a u =>
    cases hm' : m' q with
    | ok b v =>
      rw [hm, hm'] at h
      rw [bind_ok hm, bind_ok hm']
      exact ⟨rfl, h.2⟩
    | error what v =>
      rw [hm, hm'] at h
      exact absurd h id
  | error what u =>
    cases hm' : m' q with
    | ok b v =>
      rw [hm, hm'] at h
      exact absurd h id
    | error what' v =>
      rw [hm, hm'] at h
      rw [bind_error hm, bind_error hm']
      exact h

theorem SameStores.comp (p q r : Processor σ) (hpq : SameStores p q) (hrq : SameStores r q) : SameStores p r :=
  ⟨hpq.1.trans hrq.1.symm, hpq.2.trans hrq.2.symm⟩

/-- Over all collaborators: what is submitted and then processed, by `process_until_empty` or by a
consumer, is processed as by `process_one`, one after another. -/
theorem batch_agrees (c : Collaborators σ) (txns : List Transaction) {p : Processor σ} (hq : p.queue = [])
    (hr : p.reserved = []) {turns : ℕ} (hlt : txns.length < turns) :
    SameWork ((submitAll true txns >>= fun _ => processUntilEmpty c turns) p) (processAll c txns p) ∧
      SameWork ((submitAll true txns >>= fun _ => consumerLoop c turns) p)
        ((processAll c txns >>= fun _ => pure ()) p) := by
  have hsubmit := submitAll_accepted txns p
  rw [hq, hr, List.nil_append, List.nil_append] at hsubmit
  let q : Processor σ := { p with
    queue := txns
    reserved := (numbered p.nextId txns).map (·.2)
    nextId := p.nextId + UInt64.ofNat txns.length }
  have hlength : (numbered p.nextId txns).length < turns := by rwa [numbered_length]
  have hqueue : q.queue = (numbered p.nextId txns).map (·.1) := (numbered_fst p.nextId txns).symm
  have huntil := processUntilEmpty_serves (c := c) (q := p) hlength hqueue rfl ⟨rfl, rfl⟩
  have hall := processAll_serves (c := c) (p := p) (q := p) txns ⟨rfl, rfl⟩
  have hwork : SameWork (processUntilEmpty c turns q) (processAll c txns p) := by
    apply sameWork_of_sameEnd (SameEnd.comp SameStores.comp huntil.1 hall.1)
    intro results results' u v hu hv
    rw [huntil.2 hu, hall.2 hv, hq, hr]
  rw [bind_ok hsubmit, bind_ok hsubmit, consumerLoop_eq]
  exact ⟨hwork, hwork.drop⟩

def mixedBatch : List Transaction := [.deposit 7 5, .withdraw 8 9, .transfer 7 8 0]

theorem mixedBatch_agrees :
    SameWork ((submitAll true mixedBatch >>= fun _ => processUntilEmpty keyedAudit 4) ⟨[2], [], [], 1, 1⟩)
      (processAll keyedAudit mixedBatch ⟨[2], [], [], 1, 1⟩) := by
  have hqueue : (⟨[2], [], [], 1, 1⟩ : Processor (List UInt64)).queue = [] := rfl
  exact (batch_agrees keyedAudit mixedBatch hqueue rfl (by decide)).1

end Processor

end BankManagement
