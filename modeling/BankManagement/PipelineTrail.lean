import BankManagement.PipelineOutcomes

namespace BankManagement

def Act.pending : Act → Option AuditEntry
  | .appendAudit entry _ => some entry
  | _ => none

namespace Pc

def pending (pc : Pc) : Option AuditEntry := pc.act.bind Act.pending

def writing : Pc → Option AuditEntry
  | .inside _ act => act.pending
  | _ => none

end Pc

theorem Job.lockNext_pending (job : Job) (held todo : List AccountId) : (job.lockNext held todo).pending = none := by
  cases todo <;> cases job <;> rfl

theorem Job.entry_pending (job : Job) : job.entry.pending = none := by
  cases job with
  | processImpl c =>
    rw [Job.entry]
    split_ifs
    · rfl
    · exact Job.lockNext_pending _ _ _
  | lockPair first second => exact Job.lockNext_pending _ _ _

theorem Exit.settle_pending (job : Job) (exit : Exit) : (exit.settle job).pending = none := by
  cases job <;> cases exit <;> rfl

theorem Act.thrown_pending (act : Act) (held : List AccountId) (what : Exn) : (act.thrown held what).pending = none := by
  cases act with
  | appendAudit entry note =>
    rw [Act.thrown]
    split_ifs <;> rfl
  | _ => rfl

theorem validated_pending (c : Call) (held : List AccountId) (now : TimePoint) (loaded : List Account) :
    (validated c held now loaded).pending = none := by
  unfold validated
  split_ifs <;> rfl

namespace State

variable {ι : Type} [DecidableEq ι] {s s' : State ι} {i : ι}

inductive TrailEffect (s s' : State ι) (i : ι) (fault : Option Exn) : Prop
  | keep {pc pc'} (hi : s.threads i = some pc) (hm : Moves s s' i pc') (hp : pc'.pending = pc.pending)
    (hw : pc.writing = none) (ha : s'.world.audit = s.world.audit)
    (hn : s'.world.nextAuditId = s.world.nextAuditId)
  | fetch {held note} (now : TimePoint) (hi : s.threads i = some (.audit held note))
    (hm : Moves s s' i (.want held (.appendAudit (note.entry s.world.nextAuditId now) note)))
    (ha : s'.world.audit = s.world.audit) (hn : s'.world.nextAuditId = s.world.nextAuditId + 1)
  | write {held entry note} (hf : fault = none) (hi : s.threads i = some (.inside held (.appendAudit entry note)))
    (hm : Moves s s' i (.unlock (.processImpl note.call) held (.returned note.result)))
    (ha : s'.world.audit = s.world.audit ++ [entry]) (hn : s'.world.nextAuditId = s.world.nextAuditId)
  | lose {held act} (what : Exn) (hf : fault = some what) (hi : s.threads i = some (.inside held act))
    (hm : Moves s s' i (act.thrown held what)) (ha : s'.world.audit = s.world.audit)
    (hn : s'.world.nextAuditId = s.world.nextAuditId)

theorem inside_trail {held : List AccountId} {act : Act} {now : TimePoint}
    (hi : s.threads i = some (.inside held act)) (h : s.step i now none = some s') : TrailEffect s s' i none := by
  simp only [step, hi] at h
  cases act with
  | mutexFor job k todo =>
    obtain rfl := Option.some.inj h
    exact .keep hi rfl rfl rfl rfl rfl
  | load c todo loaded =>
    cases todo with
    | nil =>
      obtain rfl := Option.some.inj h
      exact .keep hi rfl (validated_pending _ _ _ _) rfl rfl rfl
    | cons k todo =>
      cases hf : s.world.accounts.findById k with
      | none =>
        simp only [Act.perform, hf] at h
        obtain rfl := Option.some.inj h
        exact .keep hi rfl rfl rfl rfl rfl
      | some a =>
        simp only [Act.perform, hf] at h
        obtain rfl := Option.some.inj h
        exact .keep hi rfl rfl rfl rfl rfl
  | appendWal c record loaded =>
    cases ht : apply c.txn loaded with
    | mk outcome loaded' =>
      simp only [Act.perform, ht] at h
      cases outcome with
      | ok =>
        obtain rfl := Option.some.inj h
        exact .keep hi rfl rfl rfl rfl rfl
      | error what =>
        obtain rfl := Option.some.inj h
        exact .keep hi rfl rfl rfl rfl rfl
  | save c lsn record saved todo =>
    cases todo with
    | nil =>
      obtain rfl := Option.some.inj h
      exact .keep hi rfl rfl rfl rfl rfl
    | cons a todo =>
      obtain rfl := Option.some.inj h
      exact .keep hi rfl rfl rfl rfl rfl
  | markCommitted c lsn record =>
    cases hr : s.world.wal.markCommitted c.id with
    | mk outcome wal =>
      simp only [Act.perform, hr] at h
      cases outcome with
      | ok =>
        obtain rfl := Option.some.inj h
        exact .keep hi rfl rfl rfl rfl rfl
      | error what =>
        obtain rfl := Option.some.inj h
        exact .keep hi rfl rfl rfl rfl rfl
  | appendTransaction c record =>
    obtain rfl := Option.some.inj h
    exact .keep hi rfl rfl rfl rfl rfl
  | appendAudit entry note =>
    obtain rfl := Option.some.inj h
    exact .write rfl hi rfl rfl rfl

theorem step_trail {now : TimePoint} {fault : Option Exn} (h : s.step i now fault = some s') :
    TrailEffect s s' i fault := by
  cases hi : s.threads i with
  | none => simp [step, hi] at h
  | some pc =>
    cases pc with
    | want held act =>
      simp only [step, hi] at h
      split_ifs at h
      obtain rfl := Option.some.inj h
      exact .keep hi rfl rfl rfl rfl rfl
    | inside held act =>
      cases fault with
      | none => exact inside_trail hi h
      | some what =>
        simp only [step, hi] at h
        obtain rfl := Option.some.inj h
        exact .lose what rfl hi rfl rfl rfl
    | lock job held k todo =>
      simp only [step, hi] at h
      split_ifs at h
      obtain rfl := Option.some.inj h
      exact .keep hi rfl (Job.lockNext_pending _ _ _) rfl rfl rfl
    | audit held note =>
      simp only [step, hi] at h
      obtain rfl := Option.some.inj h
      exact .fetch now hi rfl rfl rfl
    | unlock job held exit =>
      simp only [step, hi] at h
      split at h
      · obtain rfl := Option.some.inj h
        exact .keep hi rfl (Exit.settle_pending _ _) rfl rfl rfl
      · obtain rfl := Option.some.inj h
        exact .keep hi rfl rfl rfl rfl rfl
    | finished exit => simp [step, hi] at h

end State

end BankManagement
