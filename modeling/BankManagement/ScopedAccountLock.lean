import BankManagement.Domain
import BankManagement.LockOrder
import BankManagement.Runs

namespace BankManagement

structure ScopedAccountLock (μ : Type) where
  mutex : Option μ
  id : AccountId

namespace ScopedAccountLock

/-- The guards that are alive, and the mutexes; `misuses` counts the calls of `unlock` on a mutex that is
not locked. -/
structure State (γ μ : Type) where
  guards : γ → Option (ScopedAccountLock μ)
  locked : μ → Bool
  misuses : ℕ

inductive Event (γ μ : Type)
  | construct (guard : γ) (mutex : μ) (id : AccountId)
  | moveConstruct (guard other : γ)
  | moveAssign (guard other : γ)
  | destroy (guard : γ)

namespace State

variable {γ μ : Type}

def empty : State γ μ := ⟨fun _ => none, fun _ => false, 0⟩

def references (s : State γ μ) (guard : γ) : Option μ := (s.guards guard).bind (·.mutex)

def Holds (s : State γ μ) (guard : γ) (m : μ) : Prop := s.references guard = some m

structure Owned (s : State γ μ) : Prop where
  owns : ∃ owner, LockOrder.Owns owner s.Holds ∧ ∀ m, s.locked m = (owner m).isSome
  sound : s.misuses = 0

variable {s s' : State γ μ} {guard other : γ} {m : μ}

theorem references_eq {held : ScopedAccountLock μ} (h : s.guards guard = some held) :
    s.references guard = held.mutex := by
  rw [references, h, Option.bind_some]

theorem references_dead (h : s.guards guard = none) : s.references guard = none := by
  rw [references, h, Option.bind_none]

theorem references_self [DecidableEq γ] {value : Option (ScopedAccountLock μ)}
    (h : s'.guards = Function.update s.guards guard value) : s'.references guard = value.bind (·.mutex) := by
  rw [references, h, Function.update_self]

theorem references_other [DecidableEq γ] {value : Option (ScopedAccountLock μ)}
    (h : s'.guards = Function.update s.guards guard value) {g : γ} (hg : g ≠ guard) :
    s'.references g = s.references g := by
  rw [references, h, Function.update_of_ne hg, references]

theorem Owned.congr (h : s.Owned) (hrefs : ∀ guard, s'.references guard = s.references guard)
    (hlocked : s'.locked = s.locked) (hmisuses : s'.misuses = s.misuses) : s'.Owned := by
  obtain ⟨owner, howns, hsome⟩ := h.owns
  refine ⟨⟨owner, howns.congr fun guard m => ?_, fun m => ?_⟩, hmisuses.trans h.sound⟩
  · rw [Holds, Holds, hrefs]
  · rw [hlocked, hsome]

theorem Owned.locked_iff (h : s.Owned) (m : μ) : s.locked m = true ↔ ∃ guard, s.references guard = some m := by
  obtain ⟨owner, howns, hsome⟩ := h.owns
  rw [hsome, Option.isSome_iff_exists]
  exact exists_congr fun guard => howns guard m

theorem empty_owned : (empty : State γ μ).Owned := by
  refine ⟨⟨fun _ => none, fun guard m => ?_, fun m => rfl⟩, rfl⟩
  simp [Holds, references, empty]

section Unlock

variable [DecidableEq μ]

def unlock (s : State γ μ) (m : μ) : State γ μ :=
  if s.locked m then { s with locked := Function.update s.locked m false } else { s with misuses := s.misuses + 1 }

def release (s : State γ μ) (guard : ScopedAccountLock μ) : State γ μ :=
  match guard.mutex with
  | none => s
  | some m => s.unlock m

theorem locked_update {locked : μ → Bool} {owner : μ → Option γ} (hsome : ∀ m, locked m = (owner m).isSome) (m : μ)
    (guard : Option γ) (x : μ) :
    Function.update locked m guard.isSome x = (Function.update owner m guard x).isSome := by
  by_cases hx : x = m
  · subst hx
    rw [Function.update_self, Function.update_self]
  · rw [Function.update_of_ne hx, Function.update_of_ne hx, hsome]

theorem Owned.lock (h : s.Owned) (hm : s.locked m = false) (hguard : s.references guard = none)
    (hself : s'.references guard = some m) (hother : ∀ g ≠ guard, s'.references g = s.references g)
    (hlocked : s'.locked = Function.update s.locked m true) (hmisuses : s'.misuses = s.misuses) : s'.Owned := by
  obtain ⟨owner, howns, hsome⟩ := h.owns
  refine ⟨⟨Function.update owner m (some guard), ?_, fun x => ?_⟩, hmisuses.trans h.sound⟩
  · have hfree : owner m = none := by
      apply Option.not_isSome_iff_eq_none.mp
      rw [← hsome, hm]
      exact Bool.false_ne_true
    apply howns.acquire hfree
    · intro x
      rw [Holds, Holds, hself, hguard]
      simp [eq_comm]
    · intro g hg x
      rw [Holds, Holds, hother g hg]
  · rw [hlocked]
    exact locked_update hsome m (some guard) x

theorem Owned.release (h : s.Owned) {held : ScopedAccountLock μ} (hguard : s.guards guard = some held)
    (hself : s'.references guard = none) (hother : ∀ g ≠ guard, s'.references g = s.references g)
    (hlocked : s'.locked = (s.release held).locked) (hmisuses : s'.misuses = (s.release held).misuses) : s'.Owned := by
  have hrefs := references_eq hguard
  cases hmutex : held.mutex with
  | none =>
    rw [State.release, hmutex] at hlocked hmisuses
    apply h.congr _ hlocked hmisuses
    intro g
    by_cases hg : g = guard
    · rw [hg, hself, hrefs, hmutex]
    · exact hother g hg
  | some m =>
    have hholds : s.Holds guard m := hrefs.trans hmutex
    have hm : s.locked m = true := (h.locked_iff m).mpr ⟨guard, hholds⟩
    obtain ⟨owner, howns, hsome⟩ := h.owns
    rw [State.release, hmutex] at hlocked hmisuses
    simp only [unlock, hm, if_true] at hlocked hmisuses
    refine ⟨⟨Function.update owner m none, ?_, fun x => ?_⟩, hmisuses.trans h.sound⟩
    · apply howns.release hholds
      · intro x
        rw [Holds, Holds, hself, hrefs, hmutex]
        simp [eq_comm]
      · intro g hg x
        rw [Holds, Holds, hother g hg]
    · rw [hlocked]
      exact locked_update hsome m none x

theorem release_guards (s : State γ μ) (held : ScopedAccountLock μ) : (s.release held).guards = s.guards := by
  unfold State.release
  cases held.mutex with
  | none => rfl
  | some m =>
    change (s.unlock m).guards = s.guards
    unfold unlock
    split_ifs
    · rfl
    · rfl

end Unlock

variable [DecidableEq γ] [DecidableEq μ]

def take (s : State γ μ) (guard other : γ) (value : ScopedAccountLock μ) : State γ μ :=
  let guards := Function.update s.guards guard (some value)
  { s with guards := Function.update guards other (some { value with mutex := none }) }

/-- The constructor has to wait for a mutex that is locked. -/
def next (s : State γ μ) : Event γ μ → Option (State γ μ)
  | .construct guard m id => match s.guards guard with
    | some _ => none
    | none =>
      if s.locked m then none
      else some { s with
        guards := Function.update s.guards guard (some ⟨some m, id⟩), locked := Function.update s.locked m true }
  | .moveConstruct guard other => match s.guards guard, s.guards other with
    | none, some value => some (s.take guard other value)
    | _, _ => none
  | .moveAssign guard other => match s.guards guard, s.guards other with
    | some held, some value => if guard = other then some s else some ((s.release held).take guard other value)
    | _, _ => none
  | .destroy guard => match s.guards guard with
    | some held => some { s.release held with guards := Function.update s.guards guard none }
    | none => none

def run (s : State γ μ) (events : List (Event γ μ)) : Option (State γ μ) := Runs.run next s events

theorem Owned.take (h : s.Owned) (hne : guard ≠ other) (hguard : s.references guard = none)
    {value : ScopedAccountLock μ} (hother : s.guards other = some value) : (s.take guard other value).Owned := by
  let moved : State γ μ := { s with guards := Function.update s.guards guard (some value) }
  have hmoved : moved.guards = Function.update s.guards guard (some value) := rfl
  have htake : (s.take guard other value).guards =
      Function.update moved.guards other (some { value with mutex := none }) := rfl
  have hto : (s.take guard other value).references guard = value.mutex :=
    (references_other htake hne).trans (references_self hmoved)
  have hfrom : (s.take guard other value).references other = none := references_self htake
  have hrest (g : γ) (hg : g ≠ guard) (hg' : g ≠ other) : (s.take guard other value).references g = s.references g :=
    (references_other htake hg').trans (references_other hmoved hg)
  have hrefs := references_eq hother
  cases hmutex : value.mutex with
  | none =>
    refine h.congr ?_ rfl rfl
    intro g
    by_cases hg : g = guard
    · rw [hg, hto, hguard, hmutex]
    · by_cases hg' : g = other
      · rw [hg', hfrom, hrefs, hmutex]
      · exact hrest g hg hg'
  | some m =>
    obtain ⟨owner, howns, hsome⟩ := h.owns
    have hholds : s.Holds other m := hrefs.trans hmutex
    refine ⟨⟨Function.update owner m (some guard), ?_, fun x => ?_⟩, h.sound⟩
    · apply howns.transfer hne hholds
      · intro x
        rw [Holds, Holds, hto, hguard, hmutex]
        simp [eq_comm]
      · intro x
        rw [Holds, Holds, hfrom, hrefs, hmutex]
        simp [eq_comm]
      · intro g hg hg' x
        rw [Holds, Holds, hrest g hg hg']
    · have hlocked : s.locked m = true := (h.locked_iff m).mpr ⟨other, hholds⟩
      change s.locked x = _
      rw [← locked_update hsome m (some guard) x, Option.isSome_some, ← hlocked, Function.update_eq_self]

theorem Owned.next (h : s.Owned) {event : Event γ μ} (hnext : s.next event = some s') : s'.Owned := by
  cases event with
  | construct guard m id =>
    simp only [State.next] at hnext
    split at hnext
    · cases hnext
    · rename_i hguard
      split_ifs at hnext with hm
      have hs := Option.some.inj hnext
      have hguards : s'.guards = Function.update s.guards guard (some ⟨some m, id⟩) := by rw [← hs]
      apply h.lock (by simpa using hm) (references_dead hguard) (references_self hguards)
      · exact fun g hg => references_other hguards hg
      · rw [← hs]
      · rw [← hs]
  | moveConstruct guard other =>
    simp only [State.next] at hnext
    split at hnext
    · rename_i value hguard hother
      obtain rfl := Option.some.inj hnext
      apply h.take _ (references_dead hguard) hother
      rintro rfl
      cases hguard.symm.trans hother
    · cases hnext
  | moveAssign guard other =>
    simp only [State.next] at hnext
    split at hnext
    · rename_i held value hguard hother
      split_ifs at hnext with heq
      · obtain rfl := Option.some.inj hnext
        exact h
      · obtain rfl := Option.some.inj hnext
        -- first the release, with the pointer at null until it is overwritten
        let between : State γ μ :=
          { s.release held with guards := Function.update s.guards guard (some { held with mutex := none }) }
        have hguards : between.guards = Function.update s.guards guard (some { held with mutex := none }) := rfl
        have hnull : between.references guard = none := references_self hguards
        have hbetween : between.Owned := h.release hguard hnull (fun g hg => references_other hguards hg) rfl rfl
        have htake : (s.release held).take guard other value = between.take guard other value := by
          simp only [State.take, between, release_guards, Function.update_idem]
        rw [htake]
        exact hbetween.take heq hnull ((Function.update_of_ne (Ne.symm heq) _ _).trans hother)
    · cases hnext
  | destroy guard =>
    simp only [State.next] at hnext
    split at hnext
    · rename_i held hguard
      have hs := Option.some.inj hnext
      have hguards : s'.guards = Function.update s.guards guard none := by rw [← hs]
      apply h.release hguard (references_self hguards)
      · exact fun g hg => references_other hguards hg
      · rw [← hs]
      · rw [← hs]
    · cases hnext

theorem run_pushBack {slot temporary : γ} (hslot : s.guards slot = none) (htemporary : s.guards temporary = none)
    (hne : slot ≠ temporary) (hm : s.locked m = false) (id : AccountId) :
    s.run [.construct temporary m id, .moveConstruct slot temporary, .destroy temporary] = some { s with
      guards := Function.update s.guards slot (some ⟨some m, id⟩), locked := Function.update s.locked m true } := by
  have hself : Function.update s.guards temporary none = s.guards := by
    rw [← htemporary]
    exact Function.update_eq_self _ _
  have hguards (x y : Option (ScopedAccountLock μ)) : Function.update (Function.update (Function.update
      (Function.update s.guards temporary x) slot (some ⟨some m, id⟩)) temporary y) temporary none =
        Function.update s.guards slot (some ⟨some m, id⟩) := by
    rw [Function.update_idem, Function.update_comm (Ne.symm hne), Function.update_idem, Function.update_comm hne, hself]
  simp [run, Runs.run, State.next, State.take, State.release, hslot, htemporary, hm, hne, hguards]

/-- Of every run of constructions, moves and destructions: the locked mutexes are those that a guard points
to, each has one guard, no mutex is unlocked that is not locked, and without guards all are free. -/
theorem guards_own {events : List (Event γ μ)} (h : (empty : State γ μ).run events = some s) :
    (∀ m, s.locked m = true ↔ ∃ guard, s.references guard = some m) ∧
    (∀ guard guard' m, s.references guard = some m → s.references guard' = some m → guard = guard') ∧
    s.misuses = 0 ∧
    ((∀ guard, s.guards guard = none) → ∀ m, s.locked m = false) := by
  have howned : s.Owned := Runs.run_invariant (fun hinv hnext => hinv.next hnext) empty_owned h
  have hlocked := howned.locked_iff
  obtain ⟨owner, howns, -⟩ := howned.owns
  refine ⟨hlocked, fun guard guard' m => howns.exclusive, howned.sound, fun hnone m => ?_⟩
  apply Bool.eq_false_iff.mpr
  intro hm
  obtain ⟨guard, hguard⟩ := (hlocked m).mp hm
  cases (references_dead (hnone guard)).symm.trans hguard

def handover : List (Event Bool Bool) :=
  [.construct false false 7, .construct true true 9, .moveAssign false false, .moveAssign true false,
    .destroy false, .destroy true]

theorem handover_frees : ∃ s, (empty : State Bool Bool).run handover = some s ∧ s.misuses = 0 ∧
    ∀ m, s.locked m = false := by
  have hrun : ((empty : State Bool Bool).run handover).map (fun s => ((s.guards false).isNone, (s.guards true).isNone)) =
      some (true, true) := by decide +kernel
  obtain ⟨s, h, hs⟩ := Option.map_eq_some_iff.mp hrun
  obtain ⟨hfalse, htrue⟩ := Prod.mk.inj hs
  obtain ⟨-, -, hmisuses, hfree⟩ := guards_own h
  refine ⟨s, h, hmisuses, hfree fun guard => ?_⟩
  cases guard with
  | false => exact Option.isNone_iff_eq_none.mp hfalse
  | true => exact Option.isNone_iff_eq_none.mp htrue

end State

end ScopedAccountLock

end BankManagement
