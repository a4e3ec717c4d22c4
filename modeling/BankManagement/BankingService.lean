import BankManagement.Pipeline

namespace BankManagement

structure ServiceTrail where
  nextAuditId : UInt64

namespace ServiceTrail

def base : ℕ := 1000000000000000

def initial : ServiceTrail := ⟨1000000000000000⟩

end ServiceTrail

def ServiceTrail.append (fault : Option Exn) (actor : CustomerId) (action details : String) (now : TimePoint)
    (audit : AuditRepository) (trail : ServiceTrail) : Result Unit × AuditRepository × ServiceTrail :=
  let entry := { id := trail.nextAuditId, timestamp := now, actorId := actor, action, details }
  let trail := { trail with nextAuditId := trail.nextAuditId + 1 }
  match fault with
  | some what => (.failure ("audit append failed: " ++ what), audit, trail)
  | none => (.success (), audit ++ [entry], trail)

namespace BankingService

def changeStatus (status : AccountStatus) (verb refusal action : String) (saveFault auditFault : Option Exn)
    (k : AccountId) (now : TimePoint) (w : World) (trail : ServiceTrail) : Result Unit × World × ServiceTrail :=
  match w.accounts.findById k with
  | none => (.failure "account not found", w, trail)
  | some account =>
    if account.status = .closed then (.failure refusal, w, trail)
    else if account.status = status then (.success (), w, trail)
    else match saveFault with
      | some what => (.failure (verb ++ " failed: " ++ what), w, trail)
      | none =>
        let (_, audit, trail) := trail.append auditFault 0 action ("account " ++ toString k.toNat) now w.audit
        (.success (), { w with accounts := w.accounts.save (account.setStatus status), audit }, trail)

def freeze := changeStatus .frozen "freeze" "cannot freeze closed account" "account.frozen"

def unfreeze := changeStatus .active "unfreeze" "cannot unfreeze closed account" "account.unfrozen"

theorem changeStatus_findById {status : AccountStatus} {verb refusal action : String} {saveFault auditFault : Option Exn}
    {k : AccountId} {now : TimePoint} {w w' : World} {trail trail' : ServiceTrail} {result : Result Unit}
    (h : changeStatus status verb refusal action saveFault auditFault k now w trail = (result, w', trail')) :
    w'.wal = w.wal ∧ w'.transactions = w.transactions ∧
      (w'.accounts = w.accounts ∨ ∃ a version, w.accounts.findById k = some a ∧ a.status ≠ .closed ∧
        w'.accounts = w.accounts.save { a with status, version }) := by
  unfold changeStatus at h
  split at h
  · obtain ⟨_, rfl, _⟩ := h
    exact ⟨rfl, rfl, .inl rfl⟩
  · rename_i a ha
    split_ifs at h with hclosed hsame
    · obtain ⟨_, rfl, _⟩ := h
      exact ⟨rfl, rfl, .inl rfl⟩
    · obtain ⟨_, rfl, _⟩ := h
      exact ⟨rfl, rfl, .inl rfl⟩
    · split at h
      · obtain ⟨_, rfl, _⟩ := h
        exact ⟨rfl, rfl, .inl rfl⟩
      · obtain ⟨_, rfl, _⟩ := h
        refine ⟨rfl, rfl, .inr ⟨a, a.version + 1, ha, hclosed, ?_⟩⟩
        rw [Account.setStatus, if_neg hsame]

end BankingService

end BankManagement
