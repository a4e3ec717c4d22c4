import BankManagement.PipelineLocks

namespace BankManagement

inductive Pc.Quiet (w : World) : Pc → Pc → Prop
  | enter {held act} : Quiet w (.want held act) (.inside held act)
  | found {job held k todo} : Quiet w (.inside held (.mutexFor job k todo)) (.lock job held k todo)
  | locked {job held k todo} : Quiet w (.lock job held k todo) (job.lockNext (held ++ [k]) todo)
  | loaded {held c k todo loaded a} (h : w.accounts.findById k = some a) :
    Quiet w (.inside held (.load c (k :: todo) loaded)) (.inside held (.load c todo (loaded ++ [a])))
  | missing {held c k todo loaded} (h : w.accounts.findById k = none) :
    Quiet w (.inside held (.load c (k :: todo) loaded))
      (.audit held (.failed c ("account not found: " ++ toString k.toNat) false))
  | checked {held c loaded} (now : TimePoint) :
    Quiet w (.inside held (.load c [] loaded)) (validated c held now loaded)
  | saved {held c lsn record saved} :
    Quiet w (.inside held (.save c lsn record saved [])) (.want held (.markCommitted c lsn record))
  | noted {held note} (entry : AuditEntry) : Quiet w (.audit held note) (.want held (.appendAudit entry note))
  | audited {held entry note} : Quiet w (.inside held (.appendAudit entry note))
      (.unlock (.processImpl note.call) held (.returned note.result))
  | unlocked {job held k rest exit} (h : job.nextUnlock held = some (k, rest)) :
    Quiet w (.unlock job held exit) (.unlock job rest exit)
  | settled {job exit} : Quiet w (.unlock job [] exit) (exit.settle job)

namespace State

variable {ι : Type} [DecidableEq ι] {s s' : State ι} {i : ι}

inductive Effect (s s' : State ι) (i : ι) (fault : Option Exn) : Prop
  | quiet {pc pc'} (hi : s.threads i = some pc) (hm : Moves s s' i pc') (hq : pc.Quiet s.world pc')
    (ha : s'.world.accounts = s.world.accounts) (hw : s'.world.wal = s.world.wal)
    (ht : s'.world.transactions = s.world.transactions)
  | thrown {held act} (what : Exn) (hf : fault = some what) (hi : s.threads i = some (.inside held act))
    (hm : Moves s s' i (act.thrown held what)) (hw : s'.world = s.world)
  | append {held c record loaded} (hi : s.threads i = some (.inside held (.appendWal c record loaded)))
    {loaded'} (happ : apply c.txn loaded = (.ok (), loaded'))
    (hm : Moves s s' i (.want held (.save c s.world.wal.size record [] loaded')))
    (ha : s'.world.accounts = s.world.accounts) (hw : s'.world.wal = s.world.wal.append record)
    (ht : s'.world.transactions = s.world.transactions)
  | refused {held c record loaded} (hi : s.threads i = some (.inside held (.appendWal c record loaded)))
    {what loaded'} (happ : apply c.txn loaded = (.error what, loaded'))
    (hm : Moves s s' i (.unlock (.processImpl c) held (.thrown what)))
    (ha : s'.world.accounts = s.world.accounts) (hw : s'.world.wal = s.world.wal.append record)
    (ht : s'.world.transactions = s.world.transactions)
  | save {held c lsn record saved a todo}
    (hi : s.threads i = some (.inside held (.save c lsn record saved (a :: todo))))
    (hm : Moves s s' i (.inside held (.save c lsn record (saved ++ [a]) todo)))
    (ha : s'.world.accounts = s.world.accounts.save a) (hw : s'.world.wal = s.world.wal)
    (ht : s'.world.transactions = s.world.transactions)
  | commit {held c lsn record} (hi : s.threads i = some (.inside held (.markCommitted c lsn record)))
    (hr : (s.world.wal.markCommitted c.id).1 = .ok ())
    (hm : Moves s s' i (.want held (.appendTransaction c { record with state := .committed })))
    (ha : s'.world.accounts = s.world.accounts) (hw : s'.world.wal = (s.world.wal.markCommitted c.id).2)
    (ht : s'.world.transactions = s.world.transactions)
  | rejected {held c lsn record} (hi : s.threads i = some (.inside held (.markCommitted c lsn record)))
    {what} (hr : (s.world.wal.markCommitted c.id).1 = .error what)
    (hm : Moves s s' i (.unlock (.processImpl c) held (.thrown what)))
    (ha : s'.world.accounts = s.world.accounts) (hw : s'.world.wal = (s.world.wal.markCommitted c.id).2)
    (ht : s'.world.transactions = s.world.transactions)
  | record {held c record} (hi : s.threads i = some (.inside held (.appendTransaction c record)))
    (hm : Moves s s' i (.audit held (.completed c record)))
    (ha : s'.world.accounts = s.world.accounts) (hw : s'.world.wal = s.world.wal)
    (ht : s'.world.transactions = s.world.transactions ++ [record])

theorem inside_effect {held : List AccountId} {act : Act} {now : TimePoint}
    (hi : s.threads i = some (.inside held act)) (h : s.step i now none = some s') : Effect s s' i none := by
  simp only [step, hi] at h
  cases act with
  | mutexFor job k todo =>
    obtain rfl := Option.some.inj h
    exact .quiet hi rfl .found rfl rfl rfl
  | load c todo loaded =>
    cases todo with
    | nil =>
      obtain rfl := Option.some.inj h
      exact .quiet hi rfl (.checked now) rfl rfl rfl
    | cons k todo =>
      cases hf : s.world.accounts.findById k with
      | none =>
        simp only [Act.perform, hf] at h
        obtain rfl := Option.some.inj h
        exact .quiet hi rfl (.missing hf) rfl rfl rfl
      | some a =>
        simp only [Act.perform, hf] at h
        obtain rfl := Option.some.inj h
        exact .quiet hi rfl (.loaded hf) rfl rfl rfl
  | appendWal c record loaded =>
    cases ht : apply c.txn loaded with
    | mk outcome loaded' =>
      simp only [Act.perform, ht] at h
      cases outcome with
      | ok =>
        obtain rfl := Option.some.inj h
        exact .append hi ht rfl rfl rfl rfl
      | error what =>
        obtain rfl := Option.some.inj h
        exact .refused hi ht rfl rfl rfl rfl
  | save c lsn record saved todo =>
    cases todo with
    | nil =>
      obtain rfl := Option.some.inj h
      exact .quiet hi rfl .saved rfl rfl rfl
    | cons a todo =>
      obtain rfl := Option.some.inj h
      exact .save hi rfl rfl rfl rfl
  | markCommitted c lsn record =>
    cases hr : s.world.wal.markCommitted c.id with
    | mk outcome wal =>
      simp only [Act.perform, hr] at h
      cases outcome with
      | ok =>
        obtain rfl := Option.some.inj h
        exact .commit hi (by rw [hr]) rfl rfl (by rw [hr]; rfl) rfl
      | error what =>
        obtain rfl := Option.some.inj h
        exact .rejected hi (by rw [hr]) rfl rfl (by rw [hr]; rfl) rfl
  | appendTransaction c record =>
    obtain rfl := Option.some.inj h
    exact .record hi rfl rfl rfl rfl
  | appendAudit entry note =>
    obtain rfl := Option.some.inj h
    exact .quiet hi rfl .audited rfl rfl rfl

theorem step_effect {now : TimePoint} {fault : Option Exn} (h : s.step i now fault = some s') :
    Effect s s' i fault := by
  cases hi : s.threads i with
  | none => simp [step, hi] at h
  | some pc =>
    cases pc with
    | want held act =>
      simp only [step, hi] at h
      split_ifs at h
      obtain rfl := Option.some.inj h
      exact .quiet hi rfl .enter rfl rfl rfl
    | inside held act =>
      cases fault with
      | none => exact inside_effect hi h
      | some what =>
        simp only [step, hi] at h
        obtain rfl := Option.some.inj h
        exact .thrown what rfl hi rfl rfl
    | lock job held k todo =>
      simp only [step, hi] at h
      split_ifs at h
      obtain rfl := Option.some.inj h
      exact .quiet hi rfl .locked rfl rfl rfl
    | audit held note =>
      simp only [step, hi] at h
      obtain rfl := Option.some.inj h
      exact .quiet hi rfl (.noted _) rfl rfl rfl
    | unlock job held exit =>
      simp only [step, hi] at h
      split at h
      · rename_i hn
        obtain rfl := Option.some.inj h
        obtain rfl := Job.nextUnlock_none hn
        exact .quiet hi rfl .settled rfl rfl rfl
      · rename_i k rest hn
        obtain rfl := Option.some.inj h
        exact .quiet hi rfl (.unlocked hn) rfl rfl rfl
    | finished exit => simp [step, hi] at h

end State

end BankManagement
