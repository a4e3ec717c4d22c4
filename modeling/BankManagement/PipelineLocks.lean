import BankManagement.LockOrder
import BankManagement.Pipeline

namespace BankManagement

open LockOrder

theorem pushUnique_nodup {ids : List AccountId} (h : ids.Nodup) (k : Option AccountId) :
    (Transaction.pushUnique ids k).Nodup := by
  cases k with
  | none => exact h
  | some k =>
    simp only [Transaction.pushUnique]
    split_ifs with hk
    · exact h
    · refine List.nodup_append.mpr ⟨h, List.nodup_singleton k, ?_⟩
      intro a ha b hb hab
      rw [List.mem_singleton.mp hb] at hab
      exact hk (hab ▸ ha)

theorem involvedAccounts_nodup (t : Transaction) : t.involvedAccounts.Nodup :=
  pushUnique_nodup (pushUnique_nodup List.nodup_nil _) _

instance : Std.Total (α := AccountId) (· ≤ ·) := ⟨UInt64.le_total⟩

instance : IsTrans AccountId (· ≤ ·) := ⟨fun _ _ _ => UInt64.le_trans⟩

/-- The mutexes of a job come in ascending order, each once: a self transfer locks one. -/
theorem Job.order_sorted (job : Job) : job.order.Pairwise (· < ·) := by
  cases job with
  | processImpl c =>
    have hle := List.pairwise_insertionSort (· ≤ ·) c.txn.involvedAccounts
    have hne : (c.txn.involvedAccounts.insertionSort (· ≤ ·)).Nodup :=
      (List.perm_insertionSort _ _).nodup_iff.mpr (involvedAccounts_nodup c.txn)
    exact hle.imp₂ (fun a b hab hn => UInt64.lt_of_le_of_ne hab hn) hne
  | lockPair first second =>
    simp only [Job.order]
    by_cases hlt : second < first
    · have hne : first ≠ second := (UInt64.ne_of_lt hlt).symm
      simp [hlt, hne]
    · by_cases heq : second = first
      · simp [heq]
      · have hgt : first < second := UInt64.lt_of_le_of_ne (UInt64.not_lt.mp hlt) (Ne.symm heq)
        simpa [hlt, heq] using hgt

def Act.Placed (held : List AccountId) : Act → Prop
  | .mutexFor job k todo => held ++ k :: todo = job.order
  | .load c _ _ => held = (Job.processImpl c).order
  | .appendWal c _ _ => held = (Job.processImpl c).order
  | .save c _ _ _ _ => held = (Job.processImpl c).order
  | .markCommitted c _ _ => held = (Job.processImpl c).order
  | .appendTransaction c _ => held = (Job.processImpl c).order
  | .appendAudit _ note => held.Pairwise (· < ·) ∧ (note.outside = true → held = [])

namespace Pc

def Placed : Pc → Prop
  | .want held act => act.Placed held
  | .inside held act => act.Placed held
  | .lock job held k todo => held ++ k :: todo = job.order
  | .audit held note => held.Pairwise (· < ·) ∧ (note.outside = true → held = [])
  | .unlock _ held _ => held.Pairwise (· < ·)
  | .finished _ => True

def held : Pc → List AccountId
  | .want held _ => held
  | .inside held _ => held
  | .lock _ held _ _ => held
  | .audit held _ => held
  | .unlock _ held _ => held
  | .finished _ => []

def holding : Pc → List Mutex
  | .inside held act => act.mutex :: held.map .account
  | pc => pc.held.map .account

def wants : Pc → Option Mutex
  | .want _ act => some act.mutex
  | .lock _ _ k _ => some (.account k)
  | _ => none

end Pc

theorem Act.mutex_ne_account (act : Act) (k : AccountId) : act.mutex ≠ .account k := by
  cases act <;> simp [Act.mutex]

theorem Act.Placed.sorted {held : List AccountId} {act : Act} (h : act.Placed held) :
    held.Pairwise (· < ·) := by
  cases act with
  | mutexFor job k todo => exact (List.pairwise_append.mp (h ▸ job.order_sorted)).1
  | appendAudit entry note => exact h.1
  | load c _ _ => exact h ▸ Job.order_sorted _
  | appendWal c _ _ => exact h ▸ Job.order_sorted _
  | save c _ _ _ _ => exact h ▸ Job.order_sorted _
  | markCommitted c _ _ => exact h ▸ Job.order_sorted _
  | appendTransaction c _ => exact h ▸ Job.order_sorted _

def Pc.Outside (held : List AccountId) (pc : Pc) : Prop := pc.Placed ∧ pc.holding = held.map .account

theorem Job.lockNext_outside {job : Job} {held todo : List AccountId} (h : held ++ todo = job.order) :
    (job.lockNext held todo).Outside held := by
  cases todo with
  | nil =>
    rw [List.append_nil] at h
    cases job with
    | processImpl c => exact ⟨h, rfl⟩
    | lockPair first second => exact ⟨h ▸ Job.order_sorted _, rfl⟩
  | cons k todo => exact ⟨h, rfl⟩

theorem Job.entry_outside (job : Job) : job.entry.Outside [] := by
  cases job with
  | processImpl c =>
    simp only [Job.entry]
    split_ifs
    · exact ⟨⟨List.Pairwise.nil, fun _ => rfl⟩, rfl⟩
    · exact Job.lockNext_outside rfl
  | lockPair first second => exact Job.lockNext_outside rfl

theorem Act.thrown_outside {held : List AccountId} {act : Act} (h : act.Placed held) (what : Exn) :
    (act.thrown held what).Outside held := by
  have hs := h.sorted
  cases act with
  | appendAudit entry note =>
    simp only [Act.thrown]
    split_ifs with ho
    · rw [h.2 ho]
      exact ⟨trivial, rfl⟩
    · exact ⟨hs, rfl⟩
  | mutexFor job k todo => exact ⟨hs, rfl⟩
  | load c _ _ => exact ⟨hs, rfl⟩
  | appendWal c _ _ => exact ⟨hs, rfl⟩
  | save c _ _ _ _ => exact ⟨hs, rfl⟩
  | markCommitted c _ _ => exact ⟨hs, rfl⟩
  | appendTransaction c _ => exact ⟨hs, rfl⟩

theorem Exit.settle_outside (job : Job) (exit : Exit) : (exit.settle job).Outside [] := by
  cases job with
  | lockPair first second => exact ⟨trivial, rfl⟩
  | processImpl c =>
    cases exit with
    | thrown what => exact ⟨⟨List.Pairwise.nil, fun _ => rfl⟩, rfl⟩
    | returned result => exact ⟨trivial, rfl⟩
    | unlocked => exact ⟨trivial, rfl⟩

theorem validated_outside {c : Call} {held : List AccountId} (h : held = (Job.processImpl c).order)
    (now : TimePoint) (loaded : List Account) : (validated c held now loaded).Outside held := by
  unfold validated
  split_ifs
  · exact ⟨⟨h ▸ Job.order_sorted _, by simp [Note.failed]⟩, rfl⟩
  · exact ⟨h, rfl⟩

theorem Act.perform_placed {held : List AccountId} {act : Act} (h : act.Placed held) (now : TimePoint)
    (w : World) :
    (∀ act', (act.perform held now w).2 = .inl act' → act'.Placed held ∧ act'.mutex = act.mutex) ∧
      ∀ pc, (act.perform held now w).2 = .inr pc → pc.Outside held := by
  cases act with
  | mutexFor job k todo =>
    refine ⟨by simp [Act.perform], fun pc hp => ?_⟩
    obtain rfl := Sum.inr.inj hp
    exact ⟨h, rfl⟩
  | load c todo loaded =>
    cases todo with
    | nil =>
      refine ⟨by simp [Act.perform], fun pc hp => ?_⟩
      obtain rfl := Sum.inr.inj hp
      exact validated_outside h now loaded
    | cons k todo =>
      cases hf : w.accounts.findById k with
      | none =>
        simp only [Act.perform, hf]
        refine ⟨by simp, fun pc hp => ?_⟩
        obtain rfl := Sum.inr.inj hp
        exact ⟨⟨Act.Placed.sorted h, by simp [Note.failed]⟩, rfl⟩
      | some a =>
        simp only [Act.perform, hf]
        refine ⟨fun act' ha => ?_, by simp⟩
        obtain rfl := Sum.inl.inj ha
        exact ⟨h, rfl⟩
  | appendWal c record loaded =>
    simp only [Act.perform]
    split <;> refine ⟨by simp, fun pc hp => ?_⟩ <;> obtain rfl := Sum.inr.inj hp
    · exact ⟨h, rfl⟩
    · exact ⟨Act.Placed.sorted h, rfl⟩
  | save c lsn record saved todo =>
    cases todo with
    | nil =>
      refine ⟨by simp [Act.perform], fun pc hp => ?_⟩
      obtain rfl := Sum.inr.inj hp
      exact ⟨h, rfl⟩
    | cons a todo =>
      refine ⟨fun act' ha => ?_, by simp [Act.perform]⟩
      obtain rfl := Sum.inl.inj ha
      exact ⟨h, rfl⟩
  | markCommitted c lsn record =>
    simp only [Act.perform]
    split <;> refine ⟨by simp, fun pc hp => ?_⟩ <;> obtain rfl := Sum.inr.inj hp
    · exact ⟨h, rfl⟩
    · exact ⟨Act.Placed.sorted h, rfl⟩
  | appendTransaction c record =>
    refine ⟨by simp [Act.perform], fun pc hp => ?_⟩
    obtain rfl := Sum.inr.inj hp
    exact ⟨⟨Act.Placed.sorted h, by simp [Note.completed]⟩, rfl⟩
  | appendAudit entry note =>
    refine ⟨by simp [Act.perform], fun pc hp => ?_⟩
    obtain rfl := Sum.inr.inj hp
    exact ⟨h.1, rfl⟩

theorem Job.nextUnlock_none {job : Job} {held : List AccountId} (h : job.nextUnlock held = none) :
    held = [] := by
  cases job with
  | processImpl c => cases held <;> simp_all [Job.nextUnlock]
  | lockPair first second => simpa [Job.nextUnlock] using h

theorem Job.nextUnlock_some {job : Job} {held rest : List AccountId} {k : AccountId}
    (h : job.nextUnlock held = some (k, rest)) (hs : held.Pairwise (· < ·)) :
    k ∈ held ∧ rest.Pairwise (· < ·) ∧ ∀ x, x ∈ rest ↔ x ≠ k ∧ x ∈ held := by
  cases job with
  | processImpl c =>
    cases held with
    | nil => simp [Job.nextUnlock] at h
    | cons a held =>
      obtain ⟨rfl, rfl⟩ : a = k ∧ held = rest := by simpa [Job.nextUnlock] using h
      obtain ⟨ha, hr⟩ := List.pairwise_cons.mp hs
      refine ⟨List.mem_cons_self, hr, fun x => ⟨fun hx => ?_, fun ⟨hne, hx⟩ => ?_⟩⟩
      · exact ⟨(UInt64.ne_of_lt (ha x hx)).symm, List.mem_cons_of_mem _ hx⟩
      · rcases List.mem_cons.mp hx with rfl | hx
        · exact absurd rfl hne
        · exact hx
  | lockPair first second =>
    obtain ⟨last, hl, hp⟩ := Option.map_eq_some_iff.mp h
    obtain ⟨rfl, rfl⟩ := Prod.mk.inj hp
    have happ := List.dropLast_append_getLast? last hl
    rw [← happ] at hs
    obtain ⟨hr, _, hlast⟩ := List.pairwise_append.mp hs
    refine ⟨List.mem_of_getLast? hl, hr, fun x => ⟨fun hx => ?_, fun ⟨hne, hx⟩ => ?_⟩⟩
    · exact ⟨UInt64.ne_of_lt (hlast x hx last (by simp)), (List.dropLast_sublist held).subset hx⟩
    · rw [← happ] at hx
      rcases List.mem_append.mp hx with hx | hx
      · exact hx
      · exact absurd (List.mem_singleton.mp hx) hne

namespace State

variable {ι : Type} {s s' : State ι} {i : ι} {pc pc' : Pc}

def holds (s : State ι) (i : ι) (m : Mutex) : Prop := ∃ pc, s.threads i = some pc ∧ m ∈ pc.holding

def wants (s : State ι) (i : ι) : Option Mutex := (s.threads i).bind Pc.wants

structure Guarded (s : State ι) : Prop where
  owns : Owns s.owner s.holds
  placed : ∀ i pc, s.threads i = some pc → pc.Placed

theorem holds_iff (hi : s.threads i = some pc) (m : Mutex) : s.holds i m ↔ m ∈ pc.holding := by
  simp [holds, hi]

theorem guarded_init (world : World) : Guarded (init world : State ι) := by
  refine ⟨fun i m => ?_, fun i pc h => by simp [init] at h⟩
  simp [init, holds]

variable [DecidableEq ι]

def Moves (s s' : State ι) (i : ι) (pc' : Pc) : Prop := s'.threads = Function.update s.threads i (some pc')

theorem Moves.self (h : Moves s s' i pc') : s'.threads i = some pc' := by rw [h, Function.update_self]

theorem Moves.other (h : Moves s s' i pc') {j : ι} (hj : j ≠ i) : s'.threads j = s.threads j := by
  rw [h, Function.update_of_ne hj]

theorem Moves.holds_other (h : Moves s s' i pc') (j : ι) (hj : j ≠ i) (m : Mutex) :
    s'.holds j m ↔ s.holds j m := by
  simp only [holds, h.other hj]

theorem Guarded.moved (hg : Guarded s) (h : Moves s s' i pc') (hp : pc'.Placed)
    (howns : Owns s'.owner s'.holds) : Guarded s' := by
  refine ⟨howns, fun j pc hj => ?_⟩
  by_cases hji : j = i
  · subst hji
    rw [h.self] at hj
    exact Option.some.inj hj ▸ hp
  · rw [h.other hji] at hj
    exact hg.placed j pc hj

theorem Guarded.keep (hg : Guarded s) (h : Moves s s' i pc') (hp : pc'.Placed) (howner : s'.owner = s.owner)
    (hself : ∀ m, m ∈ pc'.holding ↔ s.holds i m) : Guarded s' := by
  apply hg.moved h hp
  rw [howner]
  apply hg.owns.congr
  intro j m
  by_cases hj : j = i
  · rw [hj, holds_iff h.self, hself]
  · exact h.holds_other j hj m

theorem Guarded.take (hg : Guarded s) (h : Moves s s' i pc') (hp : pc'.Placed) {m : Mutex}
    (hfree : s.owner m = none) (howner : s'.owner = Function.update s.owner m (some i))
    (hself : ∀ x, x ∈ pc'.holding ↔ x = m ∨ s.holds i x) : Guarded s' := by
  apply hg.moved h hp
  rw [howner]
  apply hg.owns.acquire hfree
  · intro x
    rw [holds_iff h.self, hself]
  · exact h.holds_other

theorem Guarded.drop (hg : Guarded s) (h : Moves s s' i pc') (hp : pc'.Placed) {m : Mutex}
    (hm : s.holds i m) (howner : s'.owner = Function.update s.owner m none)
    (hself : ∀ x, x ∈ pc'.holding ↔ x ≠ m ∧ s.holds i x) : Guarded s' := by
  apply hg.moved h hp
  rw [howner]
  apply hg.owns.release hm
  · intro x
    rw [holds_iff h.self, hself]
  · exact h.holds_other

theorem Guarded.leave (hg : Guarded s) {held : List AccountId} {act : Act}
    (hi : s.threads i = some (.inside held act)) (h : Moves s s' i pc') (hp : pc'.Outside held)
    (howner : s'.owner = Function.update s.owner act.mutex none) : Guarded s' := by
  refine hg.drop h hp.1 ((holds_iff hi _).mpr List.mem_cons_self) howner fun x => ?_
  rw [hp.2, holds_iff hi, Pc.holding, List.mem_cons]
  constructor
  · intro hx
    refine ⟨?_, .inr hx⟩
    rintro rfl
    obtain ⟨k, _, hk⟩ := List.mem_map.mp hx
    exact act.mutex_ne_account k hk.symm
  · rintro ⟨hne, rfl | hx⟩
    · exact absurd rfl hne
    · exact hx

theorem Guarded.step (hg : Guarded s) {now : TimePoint} {fault : Option Exn}
    (h : s.step i now fault = some s') : Guarded s' := by
  unfold State.step at h
  split at h
  · contradiction
  · rename_i held act hi
    split_ifs at h with hfree
    obtain rfl := Option.some.inj h
    have hp := hg.placed i _ hi
    exact hg.take rfl hp hfree rfl (by simp [holds_iff hi, Pc.holding, Pc.held])
  · rename_i held act hi
    have hp : act.Placed held := hg.placed i _ hi
    cases fault with
    | some what =>
      obtain rfl := Option.some.inj h
      exact hg.leave hi rfl (Act.thrown_outside hp what) rfl
    | none =>
      obtain ⟨hin, hout⟩ := Act.perform_placed hp now s.world
      cases hw : act.perform held now s.world with
      | mk world outcome =>
        rw [hw] at hin hout
        simp only [hw] at h
        cases outcome with
        | inl act' =>
          obtain rfl := Option.some.inj h
          obtain ⟨hp', hm⟩ := hin act' rfl
          exact hg.keep rfl hp' rfl (by simp [holds_iff hi, Pc.holding, hm])
        | inr pc =>
          obtain rfl := Option.some.inj h
          exact hg.leave hi rfl (hout pc rfl) rfl
  · rename_i job held k todo hi
    split_ifs at h with hfree
    obtain rfl := Option.some.inj h
    have hp : held ++ k :: todo = job.order := hg.placed i _ hi
    have hout : (job.lockNext (held ++ [k]) todo).Outside (held ++ [k]) :=
      Job.lockNext_outside (by rw [← hp, List.append_assoc]; rfl)
    refine hg.take rfl hout.1 hfree rfl fun x => ?_
    rw [hout.2, holds_iff hi]
    simp [Pc.holding, Pc.held, or_comm, eq_comm]
  · rename_i held note hi
    obtain rfl := Option.some.inj h
    have hp := hg.placed i _ hi
    exact hg.keep rfl hp rfl (by simp [holds_iff hi, Pc.holding, Pc.held])
  · rename_i job held exit hi
    have hs : held.Pairwise (· < ·) := hg.placed i _ hi
    split at h
    · rename_i hn
      obtain rfl := Option.some.inj h
      obtain ⟨hp, hh⟩ := Exit.settle_outside job exit
      refine hg.keep rfl hp rfl fun m => ?_
      rw [hh, holds_iff hi, Job.nextUnlock_none hn]
      rfl
    · rename_i k rest hn
      obtain rfl := Option.some.inj h
      obtain ⟨hk, hrest, hmem⟩ := Job.nextUnlock_some hn hs
      have hheld : s.holds i (.account k) := (holds_iff hi _).mpr (List.mem_map_of_mem hk)
      refine hg.drop rfl hrest hheld rfl fun x => ?_
      rw [holds_iff hi]
      simp only [Pc.holding, Pc.held, List.mem_map, hmem]
      constructor
      · rintro ⟨y, ⟨hne, hy⟩, rfl⟩
        exact ⟨fun he => hne (Mutex.account.inj he), y, hy, rfl⟩
      · rintro ⟨hne, y, hy, rfl⟩
        exact ⟨y, ⟨fun he => hne (congrArg _ he), hy⟩, rfl⟩
  · contradiction

theorem Guarded.next (hg : Guarded s) {label : Label ι} (h : s.next label = some s') : Guarded s' := by
  cases label with
  | act i now fault => exact hg.step h
  | begin i job =>
    obtain ⟨hp, hh⟩ := job.entry_outside
    obtain ⟨hidle, rfl⟩ := start_eq_some h
    refine hg.keep rfl hp rfl fun m => ?_
    rw [hh]
    rcases hidle with hi | ⟨exit, hi⟩ <;> simp [holds, hi, Pc.holding, Pc.held]

theorem guarded_run {labels : List (Label ι)} (hg : Guarded s) (h : s.run labels = some s') : Guarded s' :=
  Runs.run_invariant (fun hs hnext => Guarded.next hs hnext) hg h

end State

def Mutex.rank : Mutex → ℕ
  | .account k => k.toNat
  | _ => 2 ^ 64

theorem Mutex.rank_le (m : Mutex) : m.rank ≤ 2 ^ 64 := by
  cases m with
  | account k => exact Nat.le_of_lt k.toNat_lt
  | map => exact le_refl _
  | wal => exact le_refl _
  | repos => exact le_refl _

theorem Act.rank_mutex (act : Act) : act.mutex.rank = 2 ^ 64 := by
  cases act <;> rfl

theorem Pc.wants_above {pc : Pc} (h : pc.Placed) {m m' : Mutex} (hm : pc.wants = some m)
    (hm' : m' ∈ pc.holding) : m'.rank < m.rank := by
  cases pc with
  | want held act =>
    obtain rfl := Option.some.inj hm
    obtain ⟨k, _, rfl⟩ := List.mem_map.mp hm'
    rw [Act.rank_mutex]
    exact k.toNat_lt
  | lock job held k todo =>
    obtain rfl := Option.some.inj hm
    obtain ⟨x, hx, rfl⟩ := List.mem_map.mp hm'
    have hs := job.order_sorted
    rw [← h] at hs
    exact UInt64.lt_iff_toNat_lt.mp ((List.pairwise_append.mp hs).2.2 x hx k List.mem_cons_self)
  | inside held act => contradiction
  | audit held note => contradiction
  | unlock job held exit => contradiction
  | finished exit => contradiction

namespace State

variable {ι : Type} {s : State ι} {i : ι}

theorem Guarded.wants_above (hg : Guarded s) {m m' : Mutex} (hm : s.wants i = some m) (hm' : s.holds i m') :
    m'.rank < m.rank := by
  obtain ⟨pc, hi, hh⟩ := hm'
  rw [wants, hi] at hm
  exact Pc.wants_above (hg.placed i pc hi) hm hh

theorem holds_active {m : Mutex} (h : s.holds i m) : ¬ s.Idle i := by
  obtain ⟨pc, hi, hh⟩ := h
  rintro (hn | ⟨exit, hf⟩)
  · simp [hn] at hi
  · obtain rfl := Option.some.inj (hf.symm.trans hi)
    simp [Pc.holding, Pc.held] at hh

variable [DecidableEq ι]

theorem step_isSome (hi : ¬ s.Idle i) (hfree : ∀ m, s.wants i = some m → s.owner m = none) (now : TimePoint) :
    (s.step i now none).isSome := by
  cases ht : s.threads i with
  | none => exact absurd (.inl ht) hi
  | some pc =>
    have hfree : ∀ m, pc.wants = some m → s.owner m = none := by simpa [wants, ht] using hfree
    cases pc with
    | want held act => simp [step, ht, hfree _ rfl]
    | inside held act =>
      simp only [step, ht]
      split <;> rfl
    | lock job held k todo => simp [step, ht, hfree _ rfl]
    | audit held note => simp [step, ht]
    | unlock job held exit =>
      simp only [step, ht]
      split <;> rfl
    | finished exit => exact absurd (.inr ⟨exit, ht⟩) hi

/-- Mutual exclusion, no second lock of a held mutex, and progress, in every reachable state. -/
theorem run_locks {world : World} {labels : List (Label ι)} (h : (init world).run labels = some s) :
    (∀ i j k, s.holds i (.account k) → s.holds j (.account k) → i = j) ∧
      (∀ i m, s.wants i = some m → ¬ s.holds i m) ∧
      ((∃ i, ¬ s.Idle i) → ∃ i, ¬ s.Idle i ∧ ∀ now, (s.step i now none).isSome) := by
  have hg := guarded_run (guarded_init world) h
  refine ⟨fun i j k hi hj => hg.owns.exclusive hi hj, fun i m hw hh => ?_, ?_⟩
  · exact absurd (hg.wants_above hw hh) (Nat.lt_irrefl _)
  · rintro ⟨i, hi⟩
    obtain ⟨j, hj, hfree⟩ := hg.owns.exists_unblocked Mutex.rank_le (fun _ _ _ hm hm' => hg.wants_above hm hm') i
    have hactive : ¬ s.Idle j := by
      rcases hj with rfl | ⟨m, hm⟩
      · exact hi
      · exact holds_active hm
    exact ⟨j, hactive, step_isSome hactive hfree⟩

def emptyWorld : World where
  accounts := .ofAccounts []
  transactions := []
  audit := []
  wal := Wal.openFile []
  nextAuditId := 1
  mutexes := []

def openAccount (k : AccountId) : Account where
  id := k
  ownerId := 1
  balance := 100
  status := .active
  version := 0

def oneAccountWorld (k : AccountId) : World :=
  { emptyWorld with accounts := ⟨[openAccount k], List.pairwise_singleton _ _⟩ }

def oppositeTransfers : List (Label (Fin 3)) := [
  .begin 0 (.processImpl ⟨.transfer 1 2 5, 1⟩),
  .begin 1 (.processImpl ⟨.transfer 2 1 5, 2⟩), .begin 2 (.lockPair 2 1),
  .act 0 0 none, .act 0 0 none, .act 0 0 none, .act 1 0 none, .act 1 0 none]

theorem oppositeTransfers_locks : ∃ s, (init emptyWorld).run oppositeTransfers = some s ∧
    s.wants 1 = some (.account 1) ∧ s.holds 0 (.account 1) ∧
    ∃ i, ¬ s.Idle i ∧ ∀ now, (s.step i now none).isSome := by
  have h : (init emptyWorld).run oppositeTransfers = some _ := rfl
  refine ⟨_, h, rfl, ⟨_, rfl, by decide⟩, (run_locks h).2.2 ⟨0, ?_⟩⟩
  rintro (hn | ⟨exit, hf⟩)
  · cases hn
  · cases hf

end State

end BankManagement
