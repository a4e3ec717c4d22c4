import BankManagement.Runs
import Mathlib.Data.List.Infix
import Mathlib.Logic.Function.Basic

/-!
Clients of one object call its operations and get their answers later. A history of calls and
answers is linearisable when some sequence of single effects explains it, each effect between the
call and the answer of its operation. A system that an atomic object simulates has only such
histories.
-/

namespace AtomicObject

variable {ι Op Res σ : Type*}

inductive Event (ι Op Res : Type*)
  | call (i : ι) (op : Op)
  | answer (i : ι) (res : Res)
  deriving DecidableEq

structure Effect (ι Op Res : Type*) where
  client : ι
  op : Op
  res : Res

inductive Legal (spec : Op → σ → Res → σ → Prop) : σ → List (Effect ι Op Res) → σ → Prop
  | nil {v} : Legal spec v [] v
  | cons {v w u e effects} (h : spec e.op v e.res w) (hrest : Legal spec w effects u) :
    Legal spec v (e :: effects) u

section Clients

variable [DecidableEq ι]

def Event.calledBy (i : ι) : Event ι Op Res → Option Op
  | .call j op => if j = i then some op else none
  | .answer _ _ => none

def Event.answeredTo (i : ι) : Event ι Op Res → Option Res
  | .call _ _ => none
  | .answer j res => if j = i then some res else none

def calls (i : ι) (history : List (Event ι Op Res)) : List Op := history.filterMap (Event.calledBy i)

def answers (i : ι) (history : List (Event ι Op Res)) : List Res := history.filterMap (Event.answeredTo i)

def ops (i : ι) (effects : List (Effect ι Op Res)) : List Op :=
  effects.filterMap fun e => if e.client = i then some e.op else none

def results (i : ι) (effects : List (Effect ι Op Res)) : List Res :=
  effects.filterMap fun e => if e.client = i then some e.res else none

@[simp] theorem calls_call (i j : ι) (op : Op) (history : List (Event ι Op Res)) :
    calls i (.call j op :: history) = (if j = i then [op] else []) ++ calls i history := by
  by_cases h : j = i <;> simp [calls, Event.calledBy, h]

@[simp] theorem calls_answer (i j : ι) (res : Res) (history : List (Event ι Op Res)) :
    calls i (.answer j res :: history) = calls i history := rfl

@[simp] theorem answers_call (i j : ι) (op : Op) (history : List (Event ι Op Res)) :
    answers i (.call j op :: history) = answers i history := rfl

@[simp] theorem answers_answer (i j : ι) (res : Res) (history : List (Event ι Op Res)) :
    answers i (.answer j res :: history) = (if j = i then [res] else []) ++ answers i history := by
  by_cases h : j = i <;> simp [answers, Event.answeredTo, h]

@[simp] theorem ops_cons (i : ι) (e : Effect ι Op Res) (effects : List (Effect ι Op Res)) :
    ops i (e :: effects) = (if e.client = i then [e.op] else []) ++ ops i effects := by
  by_cases h : e.client = i <;> simp [ops, h]

@[simp] theorem results_cons (i : ι) (e : Effect ι Op Res) (effects : List (Effect ι Op Res)) :
    results i (e :: effects) = (if e.client = i then [e.res] else []) ++ results i effects := by
  by_cases h : e.client = i <;> simp [results, h]

/-- At every point of the history some of the effects are done: all that were answered by then, and
only such as were called by then. So what was answered before a call took effect before it. -/
structure Explains (effects : List (Effect ι Op Res)) (history : List (Event ι Op Res)) : Prop where
  called : ∀ i, ops i effects <+: calls i history
  timely : ∀ past, past <+: history → ∃ done, done <+: effects ∧
    ∀ i, answers i past <+: results i done ∧ ops i done <+: calls i past

def Linearisable (spec : Op → σ → Res → σ → Prop) (v : σ) (history : List (Event ι Op Res)) (w : σ) : Prop :=
  ∃ effects, Legal spec v effects w ∧ Explains effects history

theorem length_results (i : ι) (effects : List (Effect ι Op Res)) :
    (results i effects).length = (ops i effects).length := by
  induction effects with
  | nil => rfl
  | cons e effects ih =>
    rw [results_cons, ops_cons, List.length_append, List.length_append, ih]
    split_ifs <;> rfl

theorem Explains.complete {effects : List (Effect ι Op Res)} {history : List (Event ι Op Res)}
    (h : Explains effects history) {i : ι} (hi : (answers i history).length = (calls i history).length) :
    ops i effects = calls i history ∧ results i effects = answers i history := by
  obtain ⟨done, ⟨rest, rfl⟩, hall⟩ := h.timely history List.prefix_rfl
  have hcalled := h.called i
  have hanswers : answers i history <+: results i (done ++ rest) := by
    apply (hall i).1.trans
    rw [results, results, List.filterMap_append]
    exact List.prefix_append _ _
  have hlength := length_results i (done ++ rest)
  have hshort := hcalled.length_le
  have hlong := hanswers.length_le
  exact ⟨hcalled.eq_of_length (by omega), (hanswers.eq_of_length (by omega)).symm⟩

def Event.result : Event ι Op Res → Option (ι × Res)
  | .call _ _ => none
  | .answer i res => some (i, res)

def answered (history : List (Event ι Op Res)) : List Res := (history.filterMap Event.result).map Prod.snd

theorem count_answered [DecidableEq Res] (i : ι) (res : Res) (history : List (Event ι Op Res)) :
    (history.filterMap Event.result).count (i, res) = (answers i history).count res := by
  induction history with
  | nil => rfl
  | cons event history ih =>
    cases event with
    | call j op => exact ih
    | answer j res' =>
      change ((j, res') :: history.filterMap Event.result).count (i, res) = _
      rw [answers_answer, List.count_cons, ih]
      by_cases hj : j = i
      · by_cases hres : res' = res <;> simp [hj, hres]
      · simp [hj]

theorem count_effects [DecidableEq Res] (i : ι) (res : Res) (effects : List (Effect ι Op Res)) :
    (effects.map fun e => (e.client, e.res)).count (i, res) = (results i effects).count res := by
  induction effects with
  | nil => rfl
  | cons e effects ih =>
    rw [results_cons, List.map_cons, List.count_cons, ih]
    by_cases hj : e.client = i
    · by_cases hres : e.res = res <;> simp [hj, hres]
    · simp [hj]

theorem Explains.answered_perm [DecidableEq Res] {effects : List (Effect ι Op Res)} {history : List (Event ι Op Res)}
    (h : Explains effects history) (hall : ∀ i, (answers i history).length = (calls i history).length) :
    (answered history).Perm (effects.map (·.res)) := by
  have hperm : (history.filterMap Event.result).Perm (effects.map fun e => (e.client, e.res)) := by
    apply List.perm_iff_count.mpr
    rintro ⟨i, res⟩
    rw [count_answered, count_effects, (h.complete (hall i)).2]
  have hres := hperm.map Prod.snd
  rwa [List.map_map] at hres

end Clients

inductive Client (Op Res : Type*)
  | idle
  | called (op : Op)
  | answered (res : Res)

namespace Client

@[simp] def pending : Client Op Res → List Op
  | .called op => [op]
  | .idle => []
  | .answered _ => []

@[simp] def held : Client Op Res → List Res
  | .answered res => [res]
  | .idle => []
  | .called _ => []

end Client

structure Object (ι Op Res σ : Type*) where
  value : σ
  clients : ι → Client Op Res

variable [DecidableEq ι] {spec : Op → σ → Res → σ → Prop}

inductive Step (spec : Op → σ → Res → σ → Prop) (o : Object ι Op Res σ) :
    Option (Event ι Op Res) → Object ι Op Res σ → Prop
  | stutter : Step spec o none o
  | call {i op} (h : o.clients i = .idle) :
    Step spec o (some (.call i op)) ⟨o.value, Function.update o.clients i (.called op)⟩
  | effect {i op res w} (h : o.clients i = .called op) (hs : spec op o.value res w) :
    Step spec o none ⟨w, Function.update o.clients i (.answered res)⟩
  | answer {i res} (h : o.clients i = .answered res) :
    Step spec o (some (.answer i res)) ⟨o.value, Function.update o.clients i .idle⟩

inductive Execution (spec : Op → σ → Res → σ → Prop) :
    Object ι Op Res σ → List (Event ι Op Res) → Object ι Op Res σ → Prop
  | nil {o} : Execution spec o [] o
  | cons {o event o' history o''} (h : Step spec o event o') (hrest : Execution spec o' history o'') :
    Execution spec o (event.toList ++ history) o''

structure Continues (clients : ι → Client Op Res) (effects : List (Effect ι Op Res))
    (history : List (Event ι Op Res)) : Prop where
  called : ∀ i, ops i effects <+: (clients i).pending ++ calls i history
  timely : ∀ past, past <+: history → ∃ done, done <+: effects ∧
    ∀ i, answers i past <+: (clients i).held ++ results i done ∧ ops i done <+: (clients i).pending ++ calls i past

theorem Continues.empty {clients : ι → Client Op Res} : Continues clients ([] : List (Effect ι Op Res)) [] := by
  constructor
  · intro i
    exact List.nil_prefix
  · intro past hpast
    obtain rfl := List.prefix_nil.mp hpast
    exact ⟨[], List.nil_prefix, fun i => ⟨List.nil_prefix, List.nil_prefix⟩⟩

theorem Continues.calling {clients : ι → Client Op Res} {effects : List (Effect ι Op Res)}
    {history : List (Event ι Op Res)} {i : ι} {op : Op} (hi : clients i = .idle)
    (h : Continues (Function.update clients i (.called op)) effects history) :
    Continues clients effects (.call i op :: history) := by
  have hpending : ∀ (past : List (Event ι Op Res)) j,
      (Function.update clients i (.called op) j).pending ++ calls j past =
        (clients j).pending ++ calls j (.call i op :: past) := by
    intro past j
    by_cases hj : j = i
    · subst hj
      simp [hi]
    · simp [hj, Ne.symm hj]
  have hheld : ∀ j, (Function.update clients i (.called op) j).held = (clients j).held := by
    intro j
    by_cases hj : j = i
    · subst hj
      simp [hi]
    · rw [Function.update_of_ne hj]
  constructor
  · intro j
    rw [← hpending]
    exact h.called j
  · intro past hpast
    rcases List.prefix_cons_iff.mp hpast with rfl | ⟨past, rfl, hrest⟩
    · exact ⟨[], List.nil_prefix, fun j => ⟨List.nil_prefix, List.nil_prefix⟩⟩
    · obtain ⟨done, hdone, hall⟩ := h.timely past hrest
      refine ⟨done, hdone, fun j => ?_⟩
      rw [← hpending, ← hheld]
      exact hall j

theorem Continues.taking {clients : ι → Client Op Res} {effects : List (Effect ι Op Res)}
    {history : List (Event ι Op Res)} {i : ι} {op : Op} {res : Res} (hi : clients i = .called op)
    (h : Continues (Function.update clients i (.answered res)) effects history) :
    Continues clients (⟨i, op, res⟩ :: effects) history := by
  have hops : ∀ {done : List (Effect ι Op Res)} {past : List (Event ι Op Res)} {j},
      ops j done <+: (Function.update clients i (.answered res) j).pending ++ calls j past →
        ops j (⟨i, op, res⟩ :: done) <+: (clients j).pending ++ calls j past := by
    intro done past j hj
    by_cases hji : j = i
    · subst hji
      simpa [hi] using hj
    · simpa [hji, Ne.symm hji] using hj
  have hresults : ∀ (done : List (Effect ι Op Res)) j,
      (Function.update clients i (.answered res) j).held ++ results j done =
        (clients j).held ++ results j (⟨i, op, res⟩ :: done) := by
    intro done j
    by_cases hji : j = i
    · subst hji
      simp [hi]
    · simp [hji, Ne.symm hji]
  constructor
  · intro j
    exact hops (h.called j)
  · intro past hpast
    obtain ⟨done, hdone, hall⟩ := h.timely past hpast
    refine ⟨⟨i, op, res⟩ :: done, (List.prefix_cons_inj _).mpr hdone, fun j => ⟨?_, hops (hall j).2⟩⟩
    rw [← hresults]
    exact (hall j).1

theorem Continues.answering {clients : ι → Client Op Res} {effects : List (Effect ι Op Res)}
    {history : List (Event ι Op Res)} {i : ι} {res : Res} (hi : clients i = .answered res)
    (h : Continues (Function.update clients i .idle) effects history) :
    Continues clients effects (.answer i res :: history) := by
  have hpending : ∀ j, (Function.update clients i .idle j).pending = (clients j).pending := by
    intro j
    by_cases hj : j = i
    · subst hj
      simp [hi]
    · rw [Function.update_of_ne hj]
  have hanswers : ∀ {done : List (Effect ι Op Res)} {past : List (Event ι Op Res)} {j},
      answers j past <+: (Function.update clients i .idle j).held ++ results j done →
        answers j (.answer i res :: past) <+: (clients j).held ++ results j done := by
    intro done past j hj
    by_cases hji : j = i
    · subst hji
      simpa [hi] using hj
    · simpa [hji, Ne.symm hji] using hj
  constructor
  · intro j
    rw [← hpending, calls_answer]
    exact h.called j
  · intro past hpast
    rcases List.prefix_cons_iff.mp hpast with rfl | ⟨past, rfl, hrest⟩
    · exact ⟨[], List.nil_prefix, fun j => ⟨List.nil_prefix, List.nil_prefix⟩⟩
    · obtain ⟨done, hdone, hall⟩ := h.timely past hrest
      refine ⟨done, hdone, fun j => ⟨hanswers (hall j).1, ?_⟩⟩
      rw [← hpending, calls_answer]
      exact (hall j).2

theorem Execution.explained {o o' : Object ι Op Res σ} {history : List (Event ι Op Res)}
    (h : Execution spec o history o') :
    ∃ effects, Legal spec o.value effects o'.value ∧ Continues o.clients effects history := by
  induction h with
  | nil => exact ⟨[], .nil, .empty⟩
  | cons hstep _ ih =>
    obtain ⟨effects, hlegal, hcontinues⟩ := ih
    cases hstep with
    | stutter => exact ⟨effects, hlegal, hcontinues⟩
    | call hi => exact ⟨effects, hlegal, hcontinues.calling hi⟩
    | @effect i op res w hi hs => exact ⟨⟨i, op, res⟩ :: effects, .cons hs hlegal, hcontinues.taking hi⟩
    | answer hi => exact ⟨effects, hlegal, hcontinues.answering hi⟩

theorem Execution.linearisable {v : σ} {o : Object ι Op Res σ} {history : List (Event ι Op Res)}
    (h : Execution spec ⟨v, fun _ => .idle⟩ history o) : Linearisable spec v history o.value := by
  obtain ⟨effects, hlegal, hcontinues⟩ := h.explained
  exact ⟨effects, hlegal, hcontinues.called, hcontinues.timely⟩

theorem Execution.balance {o o' : Object ι Op Res σ} {history : List (Event ι Op Res)}
    (h : Execution spec o history o') (i : ι) :
    (answers i history).length + ((o'.clients i).pending.length + (o'.clients i).held.length) =
      (calls i history).length + ((o.clients i).pending.length + (o.clients i).held.length) := by
  induction h with
  | nil => rfl
  | @cons o event o' history o'' hstep _ ih =>
    cases hstep with
    | stutter => exact ih
    | @call j op hj =>
      by_cases hji : j = i
      · subst hji
        simp [hj] at ih ⊢
        omega
      · simpa [hji, Ne.symm hji] using ih
    | @effect j op res w hj hs =>
      by_cases hji : j = i
      · subst hji
        simpa [hj] using ih
      · simpa [Ne.symm hji] using ih
    | @answer j res hj =>
      by_cases hji : j = i
      · subst hji
        simp [hj] at ih ⊢
        omega
      · simpa [hji, Ne.symm hji] using ih

section Renaming

variable {κ : Type*} [DecidableEq κ] {f : ι → κ}

def Event.rename (f : ι → κ) : Event ι Op Res → Event κ Op Res
  | .call i op => .call (f i) op
  | .answer i res => .answer (f i) res

theorem Step.among (hf : f.Injective) {o : Object κ Op Res σ} {event : Option (Event ι Op Res)}
    {o' : Object ι Op Res σ} (h : Step spec ⟨o.value, o.clients ∘ f⟩ event o') :
    ∃ o'' : Object κ Op Res σ, Step spec o (event.map (Event.rename f)) o'' ∧ o''.value = o'.value ∧
      o''.clients ∘ f = o'.clients ∧ ∀ k, (∀ i, k ≠ f i) → o''.clients k = o.clients k := by
  have hother {i : ι} {client : Client Op Res} {k : κ} (hk : ∀ i, k ≠ f i) :
      Function.update o.clients (f i) client k = o.clients k := Function.update_of_ne (hk i) _ _
  cases h with
  | stutter => exact ⟨o, .stutter, rfl, rfl, fun _ _ => rfl⟩
  | call hi => exact ⟨_, .call hi, rfl, Function.update_comp_eq_of_injective _ hf _ _, fun _ => hother⟩
  | effect hi hs => exact ⟨_, .effect hi hs, rfl, Function.update_comp_eq_of_injective _ hf _ _, fun _ => hother⟩
  | answer hi => exact ⟨_, .answer hi, rfl, Function.update_comp_eq_of_injective _ hf _ _, fun _ => hother⟩

end Renaming

section Simulation

variable {τ ℓ : Type*} {next : τ → ℓ → Option τ} {event : τ → ℓ → τ → Option (Event ι Op Res)}

def trace (next : τ → ℓ → Option τ) (event : τ → ℓ → τ → Option (Event ι Op Res)) (t : τ) :
    List ℓ → List (Event ι Op Res)
  | [] => []
  | label :: labels => match next t label with
    | none => []
    | some t' => (event t label t').toList ++ trace next event t' labels

theorem run_simulated {R : τ → Object ι Op Res σ → Prop} {P : τ → ℓ → Prop}
    (hstep : ∀ {t label t' o}, R t o → P t label → next t label = some t' →
      ∃ o', Step spec o (event t label t') o' ∧ R t' o')
    {labels : List ℓ} {t t' : τ} {o : Object ι Op Res σ} (hr : R t o) (hp : Runs.Along next P t labels)
    (h : Runs.run next t labels = some t') :
    ∃ o', Execution spec o (trace next event t labels) o' ∧ R t' o' := by
  induction labels generalizing t o with
  | nil =>
    obtain rfl := Option.some.inj h
    exact ⟨o, .nil, hr⟩
  | cons label labels ih =>
    obtain ⟨u, hu, h⟩ := Runs.run_cons h
    obtain ⟨o₁, hs, hr₁⟩ := hstep hr hp.1 hu
    obtain ⟨o', he, hr'⟩ := ih hr₁ (hp.2 u hu) h
    refine ⟨o', ?_, hr'⟩
    rw [trace, hu]
    exact .cons hs he

end Simulation

end AtomicObject
