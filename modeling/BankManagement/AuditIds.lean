import BankManagement.BankingService
import BankManagement.PipelineTrail
import BankManagement.ProcessFaults

namespace BankManagement

/-- The processors constructed so far over one set of stores, numbered in order. The code does not
keep the last two: the processors that have written to the trail, and the processes whose services have. -/
structure Deployment (ι : Type) where
  stores : Stores
  processors : ℕ → Option (State ι)
  made : ℕ
  process : ℕ
  trail : ServiceTrail
  writers : List ℕ
  served : List ℕ

namespace Deployment

inductive Event (ι : Type)
  | construct
  | destroy (n : ℕ)
  | call (n : ℕ) (label : Label ι)
  | serve (fault : Option Exn) (actor : CustomerId) (action details : String) (now : TimePoint)
  | restart

end Deployment

namespace State

variable {ι : Type}

def attach (s : State ι) (stores : Stores) : State ι :=
  { s with world := { s.world with
      accounts := stores.accounts, transactions := stores.transactions, audit := stores.audit, wal := stores.wal } }

def stores (s : State ι) : Stores where
  accounts := s.world.accounts
  transactions := s.world.transactions
  audit := s.world.audit
  wal := s.world.wal

def constructed (stores : Stores) : State ι :=
  init
    { accounts := stores.accounts, transactions := stores.transactions, audit := stores.audit, wal := stores.wal,
      nextAuditId := 1, mutexes := [] }

def pendingOf (s : State ι) (i : ι) : Option AuditEntry := (s.threads i).bind Pc.pending

def writes (s : State ι) : Label ι → Bool
  | .act i _ none => ((s.threads i).bind Pc.writing).isSome
  | _ => false

end State

namespace Deployment

variable {ι : Type} [DecidableEq ι]

def start (stores : Stores) : Deployment ι where
  stores := { stores with audit := [] }
  processors := fun _ => none
  made := 0
  process := 0
  trail := .initial
  writers := []
  served := []

def next (d : Deployment ι) : Event ι → Option (Deployment ι)
  | .construct => some
    { d with processors := Function.update d.processors d.made (some (.constructed d.stores)), made := d.made + 1 }
  | .destroy n => some { d with processors := Function.update d.processors n none }
  | .call n label => match d.processors n with
    | none => none
    | some s => ((s.attach d.stores).next label).map fun s' =>
      { d with
        stores := s'.stores
        processors := Function.update d.processors n (some s')
        writers := if (s.attach d.stores).writes label then n :: d.writers else d.writers }
  | .serve fault actor action details now =>
    let (_, audit, trail) := d.trail.append fault actor action details now d.stores.audit
    some { d with
      stores := { d.stores with audit }
      trail
      served := if fault = none then d.process :: d.served else d.served }
  | .restart => some { d with processors := fun _ => none, process := d.process + 1, trail := .initial }

def run (d : Deployment ι) (events : List (Event ι)) : Option (Deployment ι) := Runs.run next d events

/-- A processor writes an entry only while all that processors have written is its own, and counts
less than the services start from; a service writes only while all that services have written
comes from its own process, and before their counter wraps. -/
def WritesAlone (d : Deployment ι) : Event ι → Prop
  | .call n label => ∀ s ∈ d.processors n, s.world.nextAuditId.toNat < ServiceTrail.base ∧
    (s.writes label = true → ∀ m ∈ d.writers, m = n)
  | .serve .. => ServiceTrail.base ≤ d.trail.nextAuditId.toNat ∧ ∀ m ∈ d.served, m = d.process
  | _ => True

end Deployment

namespace State

variable {ι : Type} [DecidableEq ι] {s s' : State ι} {i : ι}

theorem Moves.pendingOf {pc' : Pc} (h : Moves s s' i pc') :
    s'.pendingOf = Function.update s.pendingOf i pc'.pending := by
  funext j
  by_cases hj : j = i
  · rw [hj, Function.update_self, State.pendingOf, h.self]
    rfl
  · rw [Function.update_of_ne hj, State.pendingOf, h.other hj]
    rfl

inductive Numbering (s s' : State ι) (label : Label ι) : Prop
  | keep (hp : ∀ j e, s'.pendingOf j = some e → s.pendingOf j = some e) (hw : s.writes label = false)
    (ha : s'.world.audit = s.world.audit) (hn : s'.world.nextAuditId = s.world.nextAuditId)
  | fetch (i : ι) (e : AuditEntry) (he : e.id = s.world.nextAuditId)
    (hp : s'.pendingOf = Function.update s.pendingOf i (some e)) (hw : s.writes label = false)
    (ha : s'.world.audit = s.world.audit) (hn : s'.world.nextAuditId = s.world.nextAuditId + 1)
  | write (i : ι) (e : AuditEntry) (hi : s.pendingOf i = some e)
    (hp : s'.pendingOf = Function.update s.pendingOf i none) (hw : s.writes label = true)
    (ha : s'.world.audit = s.world.audit ++ [e]) (hn : s'.world.nextAuditId = s.world.nextAuditId)

theorem forget_pending {pc' : Pc} (h : Moves s s' i pc') (hp : pc'.pending = none ∨ pc'.pending = s.pendingOf i)
    (j : ι) (e : AuditEntry) (hj : s'.pendingOf j = some e) : s.pendingOf j = some e := by
  rw [h.pendingOf] at hj
  by_cases hji : j = i
  · subst hji
    rw [Function.update_self] at hj
    rcases hp with hp | hp
    · rw [hp] at hj
      cases hj
    · rw [← hp, hj]
  · rwa [Function.update_of_ne hji] at hj

theorem next_numbering {label : Label ι} (h : s.next label = some s') : Numbering s s' label := by
  cases label with
  | begin i job =>
    obtain ⟨-, rfl⟩ := start_eq_some h
    have hm : Moves s (s.goto i job.entry) i job.entry := rfl
    exact .keep (forget_pending hm (.inl job.entry_pending)) rfl rfl rfl
  | act i now fault =>
    have hnot {pc : Pc} (hi : s.threads i = some pc) (hw : pc.writing = none ∨ fault ≠ none) :
        s.writes (.act i now fault) = false := by
      cases fault with
      | some what => rfl
      | none =>
        rw [writes, hi, Option.bind_some, hw.resolve_right (fun hne => hne rfl)]
        rfl
    cases step_trail h with
    | keep hi hm hp hw ha hn =>
      refine .keep (forget_pending hm (.inr ?_)) (hnot hi (.inl hw)) ha hn
      rw [hp, pendingOf, hi, Option.bind_some]
    | fetch now' hi hm ha hn => exact .fetch i _ rfl hm.pendingOf (hnot hi (.inl rfl)) ha hn
    | @write held entry note hf hi hm ha hn =>
      refine .write i entry ?_ hm.pendingOf ?_ ha hn
      · rw [pendingOf, hi]
        rfl
      · rw [hf, writes, hi]
        rfl
    | lose what hf hi hm ha hn =>
      exact .keep (forget_pending hm (.inl (Act.thrown_pending _ _ _))) (hnot hi (.inr (by simp [hf]))) ha hn

end State

namespace Deployment

open ServiceTrail

variable {ι : Type} {d d' : Deployment ι} {n : ℕ} {s s' : State ι}

structure Counts (d : Deployment ι) (n : ℕ) (s : State ι) : Prop where
  older : n < d.made
  counter : s.world.nextAuditId.toNat ≤ base
  below : ∀ i e, s.pendingOf i = some e → e.id.toNat < s.world.nextAuditId.toNat
  apart : ∀ i j e e', s.pendingOf i = some e → s.pendingOf j = some e' → e.id = e'.id → i = j
  fresh : (∀ m ∈ d.writers, m = n) → ∀ x ∈ d.stores.audit, x.id.toNat < base →
    x.id.toNat < s.world.nextAuditId.toNat ∧ ∀ i e, s.pendingOf i = some e → e.id ≠ x.id

structure Distinct (d : Deployment ι) : Prop where
  nodup : (d.stores.audit.map (·.id)).Nodup
  counts : ∀ n s, d.processors n = some s → d.Counts n s
  writers : ∀ m ∈ d.writers, m < d.made
  small : ∀ x ∈ d.stores.audit, x.id.toNat < base → d.writers ≠ []
  served : ∀ m ∈ d.served, m ≤ d.process
  large : ∀ x ∈ d.stores.audit, base ≤ x.id.toNat → d.served ≠ [] ∧
    ((∀ m ∈ d.served, m = d.process) → base ≤ d.trail.nextAuditId.toNat → x.id.toNat < d.trail.nextAuditId.toNat)

theorem start_distinct (stores : Stores) : Distinct (start stores : Deployment ι) where
  nodup := List.nodup_nil
  counts := by rintro n s ⟨⟩
  writers := by rintro m ⟨⟩
  small := by rintro x ⟨⟩
  served := by rintro m ⟨⟩
  large := by rintro x ⟨⟩

theorem Counts.frame (h : d.Counts n s) (hm : d.made ≤ d'.made)
    (hf : (∀ m ∈ d'.writers, m = n) → (∀ m ∈ d.writers, m = n) ∧
      ∀ x ∈ d'.stores.audit, x.id.toNat < base → x ∈ d.stores.audit) : d'.Counts n s where
  older := h.older.trans_le hm
  counter := h.counter
  below := h.below
  apart := h.apart
  fresh hall x hx hlt := h.fresh (hf hall).1 x ((hf hall).2 x hx hlt) hlt

theorem Counts.moved (h : d.Counts n s) (hm : d'.made = d.made) (hw : d'.writers = d.writers)
    (ha : d'.stores.audit = d.stores.audit) : d'.Counts n s := by
  apply h.frame (Nat.le_of_eq hm.symm)
  rw [hw, ha]
  exact fun hall => ⟨hall, fun x hx _ => hx⟩

theorem constructed_counts (h : d.Distinct) (hn : n = d.made) (hmade : d'.made = n + 1)
    (hw : d'.writers = d.writers) (ha : d'.stores.audit = d.stores.audit) (stores : Stores) :
    d'.Counts n (.constructed stores) := by
  have hcounter : (State.constructed stores : State ι).world.nextAuditId = 1 := rfl
  refine ⟨by omega, ?_, ?_, ?_, ?_⟩
  · rw [hcounter]
    decide
  · rintro i e ⟨⟩
  · rintro i j e e' ⟨⟩
  · intro hall x hx hlt
    rw [hw] at hall
    rw [ha] at hx
    obtain ⟨m, hm⟩ := List.exists_mem_of_ne_nil _ (h.small x hx hlt)
    have hlt := h.writers m hm
    have heq := hall m hm
    omega

theorem Distinct.recount (h : d.Distinct) (ha : d'.stores.audit = d.stores.audit) (hw : d'.writers = d.writers)
    (hs : d'.served = d.served) (hp : d'.process = d.process) (ht : d'.trail = d.trail) (hm : d.made ≤ d'.made)
    (hc : ∀ n s, d'.processors n = some s → d.processors n = some s ∨ d'.Counts n s) : d'.Distinct where
  nodup := by
    rw [ha]
    exact h.nodup
  counts n s hn := by
    rcases hc n s hn with hn | hn
    · apply (h.counts n s hn).frame hm
      rw [hw, ha]
      exact fun hall => ⟨hall, fun x hx _ => hx⟩
    · exact hn
  writers m hmem := (h.writers m (hw ▸ hmem)).trans_le hm
  small x hx hlt := by
    rw [hw]
    exact h.small x (ha ▸ hx) hlt
  served m hmem := by
    rw [hp]
    exact h.served m (hs ▸ hmem)
  large x hx hle := by
    rw [hs, hp, ht]
    exact h.large x (ha ▸ hx) hle

theorem nodup_concat {audit : AuditRepository} {e : AuditEntry} (h : (audit.map (·.id)).Nodup)
    (he : ∀ x ∈ audit, x.id ≠ e.id) : ((audit ++ [e]).map (·.id)).Nodup := by
  rw [List.map_append, List.map_singleton]
  refine List.nodup_append.mpr ⟨h, List.pairwise_singleton _ _, ?_⟩
  rintro _ hx _ hy rfl
  obtain ⟨x, hx, hid⟩ := List.mem_map.mp hx
  exact he x hx (hid.trans (List.mem_singleton.mp hy))

theorem counter_succ {c : UInt64} (h : c.toNat < base) : (c + 1).toNat = c.toNat + 1 := by
  unfold base at h
  rw [UInt64.toNat_add, UInt64.toNat_one]
  omega

theorem Counts.keep (h : d.Counts n s) (hp : ∀ j e, s'.pendingOf j = some e → s.pendingOf j = some e)
    (hn : s'.world.nextAuditId = s.world.nextAuditId) : d.Counts n s' where
  older := h.older
  counter := hn ▸ h.counter
  below i e hi := hn ▸ h.below i e (hp i e hi)
  apart i j e e' hi hj := h.apart i j e e' (hp i e hi) (hp j e' hj)
  fresh hall x hx hlt := by
    obtain ⟨hbelow, hne⟩ := h.fresh hall x hx hlt
    exact ⟨hn ▸ hbelow, fun i e hi => hne i e (hp i e hi)⟩

variable [DecidableEq ι]

theorem Counts.fetch (h : d.Counts n s) (hlt : s.world.nextAuditId.toNat < base) {i : ι} {e : AuditEntry}
    (he : e.id = s.world.nextAuditId) (hp : s'.pendingOf = Function.update s.pendingOf i (some e))
    (hn : s'.world.nextAuditId = s.world.nextAuditId + 1) : d.Counts n s' := by
  have hcounter : s'.world.nextAuditId.toNat = s.world.nextAuditId.toNat + 1 := by rw [hn, counter_succ hlt]
  have hcases (j : ι) (x : AuditEntry) (hj : s'.pendingOf j = some x) :
      (j = i ∧ x = e) ∨ s.pendingOf j = some x := by
    rw [hp] at hj
    by_cases hji : j = i
    · rw [hji, Function.update_self] at hj
      exact .inl ⟨hji, (Option.some.inj hj).symm⟩
    · rw [Function.update_of_ne hji] at hj
      exact .inr hj
  have hnew : e.id.toNat = s.world.nextAuditId.toNat := by rw [he]
  refine ⟨h.older, by omega, ?_, ?_, ?_⟩
  · intro j x hj
    rcases hcases j x hj with ⟨-, rfl⟩ | hj
    · omega
    · have hbelow := h.below j x hj
      omega
  · intro j k x y hj hk hid
    rcases hcases j x hj with ⟨rfl, rfl⟩ | hj <;> rcases hcases k y hk with ⟨rfl, rfl⟩ | hk
    · rfl
    · have hbelow := h.below k y hk
      rw [← hid] at hbelow
      omega
    · have hbelow := h.below j x hj
      rw [hid] at hbelow
      omega
    · exact h.apart j k x y hj hk hid
  · intro hall x hx hlt'
    obtain ⟨hbelow, hne⟩ := h.fresh hall x hx hlt'
    refine ⟨by omega, fun j y hj => ?_⟩
    rcases hcases j y hj with ⟨-, rfl⟩ | hj
    · intro hid
      rw [← hid] at hbelow
      omega
    · exact hne j y hj

theorem Counts.write (h : d.Counts n s) {i : ι} {e : AuditEntry} (hi : s.pendingOf i = some e)
    (hp : s'.pendingOf = Function.update s.pendingOf i none) (hn : s'.world.nextAuditId = s.world.nextAuditId)
    (hm : d'.made = d.made) (hw : d'.writers = n :: d.writers) (ha : d'.stores.audit = d.stores.audit ++ [e]) :
    d'.Counts n s' := by
  have hcases (j : ι) (x : AuditEntry) (hj : s'.pendingOf j = some x) : j ≠ i ∧ s.pendingOf j = some x := by
    rw [hp] at hj
    by_cases hji : j = i
    · rw [hji, Function.update_self] at hj
      cases hj
    · rw [Function.update_of_ne hji] at hj
      exact ⟨hji, hj⟩
  refine ⟨hm ▸ h.older, hn ▸ h.counter, ?_, ?_, ?_⟩
  · intro j x hj
    rw [hn]
    exact h.below j x (hcases j x hj).2
  · intro j k x y hj hk hid
    exact h.apart j k x y (hcases j x hj).2 (hcases k y hk).2 hid
  · intro hall x hx hlt
    rw [hw] at hall
    rw [hn]
    rw [ha] at hx
    rcases List.mem_append.mp hx with hx | hx
    · obtain ⟨hbelow, hne⟩ := h.fresh (fun m hmem => hall m (List.mem_cons_of_mem _ hmem)) x hx hlt
      exact ⟨hbelow, fun j y hj => hne j y (hcases j y hj).2⟩
    · obtain rfl := List.mem_singleton.mp hx
      refine ⟨h.below i x hi, fun j y hj hid => ?_⟩
      exact (hcases j y hj).1 (h.apart j i y x (hcases j y hj).2 hi hid)

omit [DecidableEq ι] in
theorem update_cases {f : ℕ → Option (State ι)} {m : ℕ} {v : Option (State ι)}
    (h : Function.update f n v m = some s) : (m = n ∧ v = some s) ∨ m ≠ n ∧ f m = some s := by
  by_cases hm : m = n
  · rw [hm, Function.update_self] at h
    exact .inl ⟨hm, h⟩
  · rw [Function.update_of_ne hm] at h
    exact .inr ⟨hm, h⟩

theorem Distinct.call (h : d.Distinct) {label : Label ι} (ha : d.WritesAlone (.call n label))
    (hd' : d.next (.call n label) = some d') : d'.Distinct := by
  rw [next] at hd'
  split at hd'
  · cases hd'
  · rename_i s hs
    obtain ⟨s', hn, rfl⟩ := Option.map_eq_some_iff.mp hd'
    obtain ⟨hlt, halone⟩ := ha s hs
    have hc : d.Counts n (s.attach d.stores) := (h.counts n s hs).keep (fun _ _ hj => hj) rfl
    cases State.next_numbering hn with
    | keep hp hw haudit hnext =>
      rw [hw]
      refine h.recount haudit rfl rfl rfl rfl (Nat.le_refl _) fun m t ht => ?_
      rcases update_cases ht with ⟨rfl, ⟨⟩⟩ | ⟨-, ht⟩
      · exact .inr ((hc.keep hp hnext).moved rfl rfl haudit)
      · exact .inl ht
    | fetch i e he hp hw haudit hnext =>
      rw [hw]
      refine h.recount haudit rfl rfl rfl rfl (Nat.le_refl _) fun m t ht => ?_
      rcases update_cases ht with ⟨rfl, ⟨⟩⟩ | ⟨-, ht⟩
      · exact .inr ((hc.fetch hlt he hp hnext).moved rfl rfl haudit)
      · exact .inl ht
    | write i e hi hp hw haudit hnext =>
      have hsole := halone hw
      have hsmall : e.id.toNat < base := (hc.below i e hi).trans_le hc.counter
      rw [hw]
      have haudit' : s'.world.audit = d.stores.audit ++ [e] := haudit
      constructor
      · change (s'.world.audit.map (·.id)).Nodup
        rw [haudit']
        apply nodup_concat h.nodup
        intro x hx hid
        exact (hc.fresh hsole x hx (hid ▸ hsmall)).2 i e hi hid.symm
      · intro m t ht
        rcases update_cases ht with ⟨rfl, ⟨⟩⟩ | ⟨hm, ht⟩
        · exact hc.write hi hp hnext rfl rfl haudit'
        · refine (h.counts m t ht).frame (Nat.le_refl _) fun hall => ?_
          exact absurd (hall n List.mem_cons_self) (Ne.symm hm)
      · intro m hm
        rcases List.mem_cons.mp hm with rfl | hm
        · exact hc.older
        · exact h.writers m hm
      · rintro x - - ⟨⟩
      · exact h.served
      · intro x hx hle
        change x ∈ s'.world.audit at hx
        rw [haudit'] at hx
        rcases List.mem_append.mp hx with hx | hx
        · exact h.large x hx hle
        · rw [List.mem_singleton] at hx
          rw [hx] at hle
          omega

theorem Distinct.serve (h : d.Distinct) {fault : Option Exn} {actor : CustomerId} {action details : String}
    {now : TimePoint} (ha : d.WritesAlone (.serve fault actor action details now))
    (hd' : d.next (.serve fault actor action details now) = some d') : d'.Distinct := by
  obtain ⟨hle, hall⟩ := ha
  have hbelow (x : AuditEntry) (hx : x ∈ d.stores.audit) (hx' : base ≤ x.id.toNat) :
      x.id.toNat < d.trail.nextAuditId.toNat := (h.large x hx hx').2 hall hle
  have hnext (hge : base ≤ (d.trail.nextAuditId + 1).toNat) :
      (d.trail.nextAuditId + 1).toNat = d.trail.nextAuditId.toNat + 1 := by
    have hlt := d.trail.nextAuditId.toNat_lt
    unfold base at hge
    rw [UInt64.toNat_add, UInt64.toNat_one] at hge ⊢
    omega
  cases fault with
  | some what =>
    obtain rfl := Option.some.inj hd'
    refine ⟨h.nodup, fun n s hs => (h.counts n s hs).moved rfl rfl rfl, h.writers, h.small, h.served,
      fun x hx hx' => ⟨(h.large x hx hx').1, fun _ hge => ?_⟩⟩
    have hlt := hbelow x hx hx'
    have hsucc := hnext hge
    change x.id.toNat < (d.trail.nextAuditId + 1).toNat
    omega
  | none =>
    obtain rfl := Option.some.inj hd'
    refine ⟨?_, fun n s hs => ?_, h.writers, fun x hx hlt => ?_, fun m hm => ?_, fun x hx hx' => ?_⟩
    · refine nodup_concat h.nodup fun x hx (hsame : x.id = d.trail.nextAuditId) => ?_
      have hlt := hbelow x hx (hsame ▸ hle)
      rw [hsame] at hlt
      omega
    · refine (h.counts n s hs).frame (Nat.le_refl _) fun hw => ⟨hw, fun x hx hlt => ?_⟩
      rcases List.mem_append.mp hx with hx | hx
      · exact hx
      · rw [List.mem_singleton.mp hx] at hlt
        exact absurd hle (Nat.not_le.mpr hlt)
    · rcases List.mem_append.mp hx with hx | hx
      · exact h.small x hx hlt
      · rw [List.mem_singleton.mp hx] at hlt
        exact absurd hle (Nat.not_le.mpr hlt)
    · rcases List.mem_cons.mp hm with rfl | hm
      · exact Nat.le_refl _
      · exact h.served m hm
    · refine ⟨List.cons_ne_nil _ _, fun _ hge => ?_⟩
      have hsucc := hnext hge
      change x.id.toNat < (d.trail.nextAuditId + 1).toNat
      rcases List.mem_append.mp hx with hx | hx
      · have hlt := hbelow x hx hx'
        omega
      · rw [List.mem_singleton.mp hx]
        change d.trail.nextAuditId.toNat < _
        omega

theorem Distinct.next (h : d.Distinct) {event : Event ι} (ha : d.WritesAlone event)
    (hd' : d.next event = some d') : d'.Distinct := by
  cases event with
  | construct =>
    obtain rfl := Option.some.inj hd'
    refine h.recount rfl rfl rfl rfl rfl (Nat.le_succ _) fun n s hs => ?_
    rcases update_cases hs with ⟨hn, ⟨⟩⟩ | ⟨-, hs⟩
    · subst hn
      right
      apply constructed_counts h <;> rfl
    · exact .inl hs
  | destroy n =>
    obtain rfl := Option.some.inj hd'
    refine h.recount rfl rfl rfl rfl rfl (Nat.le_refl _) fun m s hs => ?_
    rcases update_cases hs with ⟨-, ⟨⟩⟩ | ⟨-, hs⟩
    exact .inl hs
  | call n label => exact h.call ha hd'
  | serve fault actor action details now => exact h.serve ha hd'
  | restart =>
    obtain rfl := Option.some.inj hd'
    refine ⟨h.nodup, ?_, h.writers, h.small, fun m hm => (h.served m hm).trans (Nat.le_succ _), fun x hx hle => ?_⟩
    · rintro n s ⟨⟩
    · obtain ⟨hserved, -⟩ := h.large x hx hle
      refine ⟨hserved, fun hall => ?_⟩
      obtain ⟨m, hm⟩ := List.exists_mem_of_ne_nil _ hserved
      have hold := h.served m hm
      have hnew : m = d.process + 1 := hall m hm
      omega

/-- No id of the trail is used twice in a run in which one processor object and one process write to it. -/
theorem run_auditIds (stores : Stores) {events : List (Event ι)} {d : Deployment ι}
    (ha : Runs.Along next WritesAlone (start stores) events) (h : run (start stores) events = some d) :
    (d.stores.audit.map (·.id)).Nodup :=
  (Runs.run_preserves (fun hs hp hn => Distinct.next hs hp hn) (start_distinct stores) ha h).nodup

instance (d : Deployment ι) : (event : Event ι) → Decidable (d.WritesAlone event)
  | .call n _ => inferInstanceAs (Decidable (∀ s ∈ d.processors n, _ ∧ (_ → ∀ m ∈ d.writers, m = n)))
  | .serve _ _ _ _ _ => inferInstanceAs (Decidable (_ ∧ ∀ m ∈ d.served, m = d.process))
  | .construct | .destroy _ | .restart => isTrue trivial

def emptyStores : Stores where
  accounts := .ofAccounts []
  transactions := []
  audit := []
  wal := Wal.openFile []

def refusedDeposit (n : ℕ) : List (Event Unit) :=
  .call n (.begin () (.processImpl ⟨.deposit 5 100, 1⟩)) :: List.replicate 8 (.call n (.act () 0 none))

def oneProcessor : List (Event Unit) :=
  .construct :: refusedDeposit 0 ++ [.serve none 3 "auth.login" "success" 0, .destroy 0]

theorem oneProcessor_auditIds : Runs.Along next WritesAlone (start emptyStores) oneProcessor ∧
    ∃ d, run (start emptyStores) oneProcessor = some d ∧ (d.stores.audit.map (·.id)).Nodup := by
  have ha : Runs.Along next WritesAlone (start emptyStores) oneProcessor := by decide +kernel
  have hsome : (run (start emptyStores) oneProcessor).isSome := by decide +kernel
  obtain ⟨d, hd⟩ := Option.isSome_iff_exists.mp hsome
  exact ⟨ha, d, hd, run_auditIds emptyStores ha hd⟩

def reopened : List (Event Unit) :=
  .construct :: refusedDeposit 0 ++ [.destroy 0, .construct] ++ refusedDeposit 1

theorem reopened_auditIds : ∃ d, run (start emptyStores) reopened = some d ∧ ¬ (d.stores.audit.map (·.id)).Nodup := by
  have hids : (run (start emptyStores) reopened).map (fun d => d.stores.audit.map (·.id)) = some [1, 1] := by
    decide +kernel
  obtain ⟨d, hd, hids⟩ := Option.map_eq_some_iff.mp hids
  refine ⟨d, hd, ?_⟩
  rw [hids]
  decide

end Deployment

end BankManagement
