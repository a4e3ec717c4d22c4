import BankManagement.BankingService
import BankManagement.PipelineIds

/-!
`freeze` and `unfreeze` call by call, beside the workers of a processor. The service mutex keeps the calls
of the service apart; it does not keep them apart from the workers.
-/

namespace BankManagement

namespace BankingService

structure StatusChange where
  status : AccountStatus
  verb : String
  refusal : String
  action : String

namespace StatusChange

def freeze : StatusChange := ⟨.frozen, "freeze", "cannot freeze closed account", "account.frozen"⟩

def unfreeze : StatusChange := ⟨.active, "unfreeze", "cannot unfreeze closed account", "account.unfrozen"⟩

end StatusChange

inductive Stage
  | find (change : StatusChange) (k : AccountId)
  | save (change : StatusChange) (k : AccountId) (account : Account)
  | audit (change : StatusChange) (k : AccountId)

end BankingService

open BankingService

def Act.copies : Act → List AccountId
  | .load _ _ loaded => loaded.map (·.id)
  | .appendWal _ _ loaded => loaded.map (·.id)
  | .save _ _ _ _ todo => todo.map (·.id)
  | _ => []

def Act.saved : Act → Option (Call × List AccountId)
  | .save c _ _ saved _ => some (c, saved.map (·.id))
  | .markCommitted c _ _ => some (c, (Job.processImpl c).order)
  | .appendTransaction c _ => some (c, (Job.processImpl c).order)
  | _ => none

namespace State

variable {ι : Type}

def actOf (s : State ι) (i : ι) : Option Act := (s.threads i).bind Pc.act

def savedBy (s : State ι) (i : ι) : Option (Call × List AccountId) := (s.actOf i).bind Act.saved

def saving (s : State ι) (i : ι) : Option Account :=
  match s.threads i with
  | some (.inside _ (.save _ _ _ _ (a :: _))) => some a
  | _ => none

def abandonedBy (s s' : State ι) (i : ι) : List (Call × List AccountId) :=
  match s.savedBy i, s'.savedBy i with
  | some p, none => if s'.world.transactions.length = s.world.transactions.length then [p] else []
  | _, _ => []

end State

/-- A service and a processor over the same repositories; `inside` is the call that has the service
mutex. The code does not keep the last three: per thread the accounts that a status change has
overwritten since the call of the thread loaded them, the calls that threw after they had saved
accounts, and the statuses that were saved. -/
structure Branch (ι : Type) where
  pipeline : State ι
  trail : ServiceTrail
  inside : Option Stage
  returned : List (Except Exn (Result Unit))
  stale : ι → List AccountId
  abandoned : List (Call × List AccountId)
  statuses : List (AccountId × AccountStatus)

namespace Branch

inductive Event (ι : Type)
  | work (label : Label ι)
  | call (change : StatusChange) (k : AccountId)
  | serve (now : TimePoint) (fault : Option Exn)

variable {ι : Type}

def opened (world : World) (trail : ServiceTrail) : Branch ι where
  pipeline := .init world
  trail := trail
  inside := none
  returned := []
  stale := fun _ => []
  abandoned := []
  statuses := []

def world (b : Branch ι) : World := b.pipeline.world

def setWorld (b : Branch ι) (world : World) : Branch ι := { b with pipeline := { b.pipeline with world } }

def leave (b : Branch ι) (result : Except Exn (Result Unit)) : Branch ι :=
  { b with inside := none, returned := b.returned ++ [result] }

def outdate (b : Branch ι) (k : AccountId) (i : ι) : List AccountId :=
  if k ∈ ((b.pipeline.actOf i).map Act.copies).getD [] then k :: b.stale i else b.stale i

def serve (b : Branch ι) (now : TimePoint) (fault : Option Exn) : Option (Branch ι) :=
  match b.inside with
  | none => none
  | some (.find change k) => match fault with
    | some what => some (b.leave (.error what))
    | none => match b.world.accounts.findById k with
      | none => some (b.leave (.ok (.failure "account not found")))
      | some account =>
        if account.status = .closed then some (b.leave (.ok (.failure change.refusal)))
        else if account.status = change.status then some (b.leave (.ok (.success ())))
        else some { b with inside := some (.save change k account) }
  | some (.save change k account) => match fault with
    | some what => some (b.leave (.ok (.failure (change.verb ++ " failed: " ++ what))))
    | none => some
      { b.setWorld { b.world with accounts := b.world.accounts.save (account.setStatus change.status) } with
        inside := some (.audit change k)
        stale := b.outdate account.id
        statuses := b.statuses ++ [(account.id, change.status)] }
  | some (.audit change k) =>
    let (_, audit, trail) := b.trail.append fault 0 change.action ("account " ++ toString k.toNat) now b.world.audit
    some ({ b.setWorld { b.world with audit } with trail }.leave (.ok (.success ())))

variable [DecidableEq ι]

def next (b : Branch ι) : Event ι → Option (Branch ι)
  | .work label => (b.pipeline.next label).map fun pipeline =>
    { b with
      pipeline
      stale := match label with
        | .begin i _ => Function.update b.stale i []
        | .act _ _ _ => b.stale
      abandoned := b.abandoned ++ match label with
        | .begin _ _ => []
        | .act i _ _ => b.pipeline.abandonedBy pipeline i }
  | .call change k => match b.inside with
    | none => some { b with inside := some (.find change k) }
    | some _ => none
  | .serve now fault => b.serve now fault

def run (b : Branch ι) (events : List (Event ι)) : Option (Branch ι) := Runs.run next b events

theorem run_serve {b t : Branch ι} {now : TimePoint} {fault : Option Exn} (h : b.serve now fault = some t)
    (rest : List (Event ι)) : b.run (.serve now fault :: rest) = t.run rest := by
  simp only [run, Runs.run, List.foldlM_cons, next, h, Option.bind_eq_bind, Option.bind_some]

theorem run_call {b : Branch ι} (h : b.inside = none) (change : StatusChange) (k : AccountId) (rest : List (Event ι)) :
    b.run (.call change k :: rest) = run { b with inside := some (.find change k) } rest := by
  simp only [run, Runs.run, List.foldlM_cons, next, h, Option.bind_eq_bind, Option.bind_some]

theorem run_changeStatus {b : Branch ι} (h : b.inside = none) (change : StatusChange) (k : AccountId)
    (saveFault auditFault : Option Exn) (now : TimePoint) :
    ∃ events b', events <+: [.call change k, .serve now none, .serve now saveFault, .serve now auditFault] ∧
      b.run events = some b' ∧ b'.inside = none ∧
      ∃ result, b'.returned = b.returned ++ [.ok result] ∧
        changeStatus change.status change.verb change.refusal change.action saveFault auditFault k now b.world b.trail =
          (result, b'.world, b'.trail) := by
  have hfind : serve { b with inside := some (.find change k) } now none = match b.world.accounts.findById k with
      | none => some (b.leave (.ok (.failure "account not found")))
      | some account =>
        if account.status = .closed then some (b.leave (.ok (.failure change.refusal)))
        else if account.status = change.status then some (b.leave (.ok (.success ())))
        else some { b with inside := some (.save change k account) } := rfl
  have hend {t : Branch ι} (hs : serve { b with inside := some (.find change k) } now none = some t) :
      b.run [.call change k, .serve now none] = some t := by
    rw [run_call h, run_serve hs]
    rfl
  unfold changeStatus
  cases ha : b.world.accounts.findById k with
  | none =>
    simp only [ha] at hfind
    exact ⟨[.call change k, .serve now none], _, ⟨_, rfl⟩, hend hfind, rfl, _, rfl, rfl⟩
  | some account =>
    by_cases hclosed : account.status = .closed
    · simp only [ha, if_pos hclosed] at hfind ⊢
      exact ⟨[.call change k, .serve now none], _, ⟨_, rfl⟩, hend hfind, rfl, _, rfl, rfl⟩
    · by_cases hsame : account.status = change.status
      · simp only [ha, if_neg hclosed, if_pos hsame] at hfind ⊢
        exact ⟨[.call change k, .serve now none], _, ⟨_, rfl⟩, hend hfind, rfl, _, rfl, rfl⟩
      · simp only [ha, if_neg hclosed, if_neg hsame] at hfind ⊢
        have hrest (t : List (Event ι)) : b.run (.call change k :: .serve now none :: t) =
            run { b with inside := some (.save change k account) } t := by
          rw [run_call h, run_serve hfind]
        cases saveFault with
        | some what =>
          have hthrown := (hrest [.serve now (some what)]).trans (run_serve rfl [])
          exact ⟨[.call change k, .serve now none, .serve now (some what)], _, ⟨_, rfl⟩, hthrown, rfl, _, rfl, rfl⟩
        | none =>
          have hsaved := (hrest [.serve now none, .serve now auditFault]).trans
            ((run_serve rfl [.serve now auditFault]).trans (run_serve rfl []))
          exact ⟨_, _, List.prefix_rfl, hsaved, rfl, _, rfl, rfl⟩

end Branch

end BankManagement
