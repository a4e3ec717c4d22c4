import BankManagement.Batching
import BankManagement.DatabaseRefinement

namespace BankManagement

open Throwing

variable {κ κ' ρ α : Type}

structure Backend (κ : Type) where
  findById : AccountId → Program Exn κ (Option Account)
  save : Account → Program Exn κ Unit
  append : TransactionRecord → Program Exn κ Unit

structure Beside (ρ : Type) where
  now : ρ → TimePoint × ρ
  appendAudit : AuditEntry → Program Exn ρ Unit
  appendWal : TransactionRecord → Program Exn ρ Unit
  markCommitted : TransactionId → Program Exn ρ Unit

def onDatabase (m : Program Exn κ α) : Program Exn (κ × ρ) α := zoom Prod.fst (fun k s => (k, s.2)) m

def onBeside (m : Program Exn ρ α) : Program Exn (κ × ρ) α := zoom Prod.snd (fun r s => (s.1, r)) m

def Backend.collaborators (d : Backend κ) (b : Beside ρ) : Collaborators (κ × ρ) where
  now s := ((b.now s.2).1, (s.1, (b.now s.2).2))
  findById k := onDatabase (d.findById k)
  save a := onDatabase (d.save a)
  appendTransaction record := onDatabase (d.append record)
  appendAudit entry := onBeside (b.appendAudit entry)
  appendWal record := onBeside (b.appendWal record)
  markCommitted id := onBeside (b.markCommitted id)

section Alike

variable {Q Q' : κ → κ' → Prop}

variable {c : Connection κ} {holds : κ → Contents} {limit : ℕ}

def Both (Q : κ → κ' → Prop) (s : κ × ρ) (t : κ' × ρ) : Prop := Q s.1 t.1 ∧ s.2 = t.2

end Alike

namespace Processor

structure SameBut (Q : κ → κ' → Prop) (p : Processor (κ × ρ)) (q : Processor (κ' × ρ)) : Prop where
  stores : Both Q p.stores q.stores
  queue : p.queue = q.queue
  reserved : p.reserved = q.reserved
  nextId : p.nextId = q.nextId
  nextAuditId : p.nextAuditId = q.nextAuditId

variable {Q Q' : κ → κ' → Prop} {d : Backend κ} {d' : Backend κ'} {Owner : CustomerId → Prop} {id : TransactionId}

theorem SameBut.mono {p : Processor (κ × ρ)} {q : Processor (κ' × ρ)} (hw : ∀ s t, Q s t → Q' s t) (h : SameBut Q p q) :
    SameBut Q' p q := { h with stores := ⟨hw _ _ h.stores.1, h.stores.2⟩ }

end Processor

inductive ProcessorCall
  | submit (accepting : Bool) (txn : Transaction)
  | processOne (txn : Transaction)
  | processNext
  deriving DecidableEq

inductive ProcessorAnswer
  | submitted (result : Result TransactionId)
  | processed (result : Result TransactionRecord)
  | popped (result : Option (Result TransactionRecord))
  deriving DecidableEq

structure FreshIds (used : Set TransactionId) (reserved : List TransactionId) (nextId : TransactionId) : Prop where
  below : ∀ id ∈ used, id.toNat < nextId.toNat
  fresh : ∀ id ∈ reserved, id ∉ used ∧ id.toNat < nextId.toNat
  nodup : reserved.Nodup

section FreshIds

variable {used : Set TransactionId} {reserved : List TransactionId} {nextId id : TransactionId}

theorem toNat_next (h : nextId.toNat + 1 < 2 ^ 64) : (nextId + 1).toNat = nextId.toNat + 1 := by
  rw [UInt64.toNat_add]
  exact Nat.mod_eq_of_lt h

theorem FreshIds.reserve (h : FreshIds used reserved nextId) (hlt : nextId.toNat + 1 < 2 ^ 64) :
    FreshIds used (reserved ++ [nextId]) (nextId + 1) := by
  have hnext := toNat_next hlt
  refine ⟨fun id hid => ?_, fun id hid => ?_, ?_⟩
  · have hbelow := h.below id hid
    omega
  · rcases List.mem_append.mp hid with hid | hid
    · obtain ⟨hnot, hbelow⟩ := h.fresh id hid
      exact ⟨hnot, by omega⟩
    · obtain rfl := List.mem_singleton.mp hid
      exact ⟨fun hmem => absurd (h.below id hmem) (Nat.lt_irrefl _), by omega⟩
  · apply List.nodup_append.mpr
    refine ⟨h.nodup, List.pairwise_singleton _ nextId, ?_⟩
    rintro id hid id' hid' rfl
    obtain rfl := List.mem_singleton.mp hid'
    exact Nat.lt_irrefl _ (h.fresh id hid).2

theorem FreshIds.fetch (h : FreshIds used reserved nextId) (hlt : nextId.toNat + 1 < 2 ^ 64) :
    nextId ∉ used ∧ FreshIds (insert nextId used) reserved (nextId + 1) := by
  have hnext := toNat_next hlt
  refine ⟨fun hmem => absurd (h.below nextId hmem) (Nat.lt_irrefl _), ?_, fun id hid => ?_, h.nodup⟩
  · rintro id (rfl | hid)
    · omega
    · have hbelow := h.below id hid
      omega
  · obtain ⟨hnot, hbelow⟩ := h.fresh id hid
    refine ⟨?_, by omega⟩
    rintro (rfl | hmem)
    · exact Nat.lt_irrefl _ hbelow
    · exact hnot hmem

theorem FreshIds.pop (h : FreshIds used (id :: reserved) nextId) :
    id ∉ used ∧ FreshIds (insert id used) reserved nextId := by
  obtain ⟨hnot, hbelow⟩ := h.fresh id List.mem_cons_self
  obtain ⟨hnew, hnodup⟩ := List.nodup_cons.mp h.nodup
  refine ⟨hnot, ?_, fun id' hid' => ?_, hnodup⟩
  · rintro id' (rfl | hid')
    · exact hbelow
    · exact h.below id' hid'
  · obtain ⟨hnot', hbelow'⟩ := h.fresh id' (List.mem_cons_of_mem id hid')
    refine ⟨?_, hbelow'⟩
    rintro (rfl | hmem)
    · exact hnew hid'
    · exact hnot' hmem

end FreshIds

namespace Processor

variable {σ τ : Type}

def calling (c : Collaborators σ) : ProcessorCall → Program Exn (Processor σ) ProcessorAnswer
  | .submit accepting txn => do return .submitted (← submit accepting txn)
  | .processOne txn => do return .processed (← processOne c txn)
  | .processNext => do return .popped (← processNext c)

def answer (c : Collaborators σ) (p : Processor σ) (call : ProcessorCall) : Except Exn ProcessorAnswer × Processor σ :=
  match calling c call p with
  | .ok a q => (.ok a, q)
  | .error what q => (.error what, q)

variable {c : Connection κ} {holds : κ → Contents} {limit : ℕ} {customers : CustomerRepository}
variable {used : Set TransactionId} {id : TransactionId} {txn : Transaction} {b : Beside ρ} {p u : Processor (κ × ρ)}
variable {q v : Processor (Repositories × ρ)}

def counter : List ProcessorCall :=
  [.submit true (.deposit 7 5), .processOne (.withdraw 7 1), .processNext, .processOne (.transfer 7 8 1)]

end Processor

end BankManagement
