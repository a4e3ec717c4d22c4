import Mathlib.Data.List.Count
import Mathlib.Data.List.Induction
import Mathlib.Data.Option.Basic

namespace Runs

variable {σ ℓ : Type*} (next : σ → ℓ → Option σ)

def run (s : σ) (labels : List ℓ) : Option σ := labels.foldlM next s

def Along (P : σ → ℓ → Prop) (s : σ) : List ℓ → Prop
  | [] => True
  | label :: labels => P s label ∧ ∀ s' ∈ next s label, Along P s' labels

instance decidableAlong {P : σ → ℓ → Prop} [∀ s label, Decidable (P s label)] :
    (labels : List ℓ) → (s : σ) → Decidable (Along next P s labels)
  | [], _ => isTrue trivial
  | label :: labels, s =>
    let _rest (s' : σ) : Decidable (Along next P s' labels) := decidableAlong labels s'
    inferInstanceAs (Decidable (P s label ∧ ∀ s' ∈ next s label, Along next P s' labels))

variable {next} {s s' : σ}

theorem run_cons {label : ℓ} {labels : List ℓ} (h : run next s (label :: labels) = some s') :
    ∃ t, next s label = some t ∧ run next t labels = some s' := Option.bind_eq_some_iff.mp h

theorem Along.of_forall {Q : ℓ → Prop} {labels : List ℓ} (h : ∀ label ∈ labels, Q label) :
    Along next (fun _ label => Q label) s labels := by
  induction labels generalizing s with
  | nil => trivial
  | cons label labels ih =>
    exact ⟨h label List.mem_cons_self, fun t _ => ih fun l hl => h l (List.mem_cons_of_mem _ hl)⟩

theorem Along.also {P : σ → ℓ → Prop} {Q : ℓ → Prop} {labels : List ℓ} (h : Along next P s labels)
    (hq : ∀ label ∈ labels, Q label) : Along next (fun s label => Q label ∧ P s label) s labels := by
  induction labels generalizing s with
  | nil => trivial
  | cons label labels ih =>
    exact ⟨⟨hq label List.mem_cons_self, h.1⟩,
      fun t ht => ih (h.2 t ht) fun l hl => hq l (List.mem_cons_of_mem _ hl)⟩

theorem run_preserves {Inv : σ → Prop} {P : σ → ℓ → Prop}
    (hstep : ∀ {s label s'}, Inv s → P s label → next s label = some s' → Inv s') {labels : List ℓ}
    (hs : Inv s) (hp : Along next P s labels) (h : run next s labels = some s') : Inv s' := by
  induction labels generalizing s with
  | nil =>
    obtain rfl := Option.some.inj h
    exact hs
  | cons label labels ih =>
    obtain ⟨t, ht, h⟩ := run_cons h
    exact ih (hstep hs hp.1 ht) (hp.2 t ht) h

theorem run_invariant {Inv : σ → Prop} (hstep : ∀ {s label s'}, Inv s → next s label = some s' → Inv s')
    {labels : List ℓ} (hs : Inv s) (h : run next s labels = some s') : Inv s' := by
  induction labels generalizing s with
  | nil =>
    obtain rfl := Option.some.inj h
    exact hs
  | cons label labels ih =>
    obtain ⟨t, ht, h⟩ := run_cons h
    exact ih (hstep hs ht) h

theorem run_append (s : σ) (labels labels' : List ℓ) :
    run next s (labels ++ labels') = (run next s labels).bind fun t => run next t labels' :=
  List.foldlM_append

theorem run_concat {labels : List ℓ} {label : ℓ} :
    run next s (labels ++ [label]) = some s' ↔ ∃ t, run next s labels = some t ∧ next t label = some s' := by
  have hone (t : σ) : run next t [label] = next t label := by
    change (next t label).bind some = _
    exact Option.bind_fun_some _
  rw [run_append, Option.bind_eq_some_iff]
  simp only [hone]

theorem Along.concat {P : σ → ℓ → Prop} {labels : List ℓ} {label : ℓ} (h : Along next P s labels)
    (hlast : ∀ t, run next s labels = some t → P t label) : Along next P s (labels ++ [label]) := by
  induction labels generalizing s with
  | nil => exact ⟨hlast s rfl, fun _ _ => trivial⟩
  | cons first labels ih =>
    refine ⟨h.1, fun t ht => ih (h.2 t ht) fun u hu => hlast u ?_⟩
    exact Option.bind_eq_some_iff.mpr ⟨t, ht, hu⟩

theorem run_history {Inv : List ℓ → σ → Prop} (hnil : Inv [] s)
    (hstep : ∀ {labels t label t'}, run next s labels = some t → Inv labels t → next t label = some t' →
      Inv (labels ++ [label]) t')
    {labels : List ℓ} (h : run next s labels = some s') : Inv labels s' := by
  induction labels using List.reverseRecOn generalizing s' with
  | nil =>
    obtain rfl := Option.some.inj h
    exact hnil
  | append_singleton labels label ih =>
    obtain ⟨t, ht, hlast⟩ := run_concat.mp h
    exact hstep ht (ih ht) hlast

section Collected

variable {α : Type*} (f : σ → ℓ → List α)

def collected (next : σ → ℓ → Option σ) (s : σ) : List ℓ → List α
  | [] => []
  | label :: labels => f s label ++ match next s label with
    | none => []
    | some t => collected next t labels

theorem collected_concat {labels : List ℓ} {label : ℓ} (h : run next s labels = some s') :
    collected f next s (labels ++ [label]) = collected f next s labels ++ f s' label := by
  induction labels generalizing s with
  | nil =>
    obtain rfl := Option.some.inj h
    change f s label ++ (match next s label with | none => [] | some t => []) = [] ++ f s label
    cases next s label <;> simp
  | cons first labels ih =>
    obtain ⟨t, ht, h⟩ := run_cons h
    rw [List.cons_append, collected, collected, ht]
    dsimp only
    rw [ih h, List.append_assoc]

end Collected

theorem run_budget {Inv : σ → Prop} {P : σ → ℓ → Prop} {budget : σ → ℕ} {spends free : ℓ → Bool} {c : ℕ}
    (hkeep : ∀ {s label s'}, Inv s → P s label → next s label = some s' → Inv s')
    (hspend : ∀ {s label s'}, Inv s → P s label → next s label = some s' →
      budget s' + (spends label).toNat ≤ budget s + c * (free label).toNat)
    {labels : List ℓ} (hs : Inv s) (hp : Along next P s labels) (h : run next s labels = some s') :
    labels.countP spends + budget s' ≤ budget s + c * labels.countP free := by
  induction labels generalizing s with
  | nil =>
    obtain rfl := Option.some.inj h
    simp
  | cons label labels ih =>
    obtain ⟨t, ht, h⟩ := run_cons h
    have hstep := hspend hs hp.1 ht
    have hrest := ih (hkeep hs hp.1 ht) (hp.2 t ht) h
    have hcount (f : ℓ → Bool) : (label :: labels).countP f = labels.countP f + (f label).toNat := by
      rw [List.countP_cons]
      cases f label <;> rfl
    rw [hcount, hcount, Nat.mul_add]
    omega

theorem run_spent {Inv : σ → Prop} {P : σ → ℓ → Prop} {budget : σ → ℕ} {free : ℓ → Bool} {c : ℕ}
    (hkeep : ∀ {s label s'}, Inv s → P s label → next s label = some s' → Inv s')
    (hspend : ∀ {s label s'}, Inv s → P s label → next s label = some s' →
      budget s' + 1 ≤ budget s + c * (free label).toNat)
    {labels : List ℓ} (hs : Inv s) (hp : Along next P s labels) (h : run next s labels = some s') :
    labels.length + budget s' ≤ budget s + c * labels.countP free := by
  have hbudget : labels.countP (fun _ => true) + budget s' ≤ budget s + c * labels.countP free :=
    run_budget hkeep hspend hs hp h
  rwa [List.countP_true] at hbudget

theorem run_distinct {κ : Type*} {key : ℓ → Option κ} {Inv : σ → Prop} {Unused : σ → κ → Prop} {P : σ → ℓ → Prop}
    (hstep : ∀ {s label s'}, Inv s → (∀ x, key label = some x → Unused s x) → P s label →
      next s label = some s' → Inv s')
    (hkeep : ∀ {s label s' x}, Inv s → Unused s x → key label ≠ some x → P s label →
      next s label = some s' → Unused s' x)
    {labels : List ℓ} (hs : Inv s) (hu : ∀ x ∈ labels.filterMap key, Unused s x)
    (hn : (labels.filterMap key).Nodup) (hp : Along next P s labels) (h : run next s labels = some s') : Inv s' := by
  induction labels generalizing s with
  | nil =>
    obtain rfl := Option.some.inj h
    exact hs
  | cons label labels ih =>
    obtain ⟨t, ht, h⟩ := run_cons h
    obtain ⟨hlabel, hp⟩ := hp
    cases hk : key label with
    | none =>
      rw [List.filterMap_cons_none hk] at hu hn
      apply ih (hstep hs (by simp [hk]) hlabel ht) _ hn (hp t ht) h
      intro x hx
      exact hkeep hs (hu x hx) (by simp [hk]) hlabel ht
    | some k =>
      rw [List.filterMap_cons_some hk] at hu hn
      obtain ⟨hnot, hn⟩ := List.nodup_cons.mp hn
      have hinv : Inv t := by
        refine hstep hs (fun x hx => ?_) hlabel ht
        obtain rfl := Option.some.inj (hk.symm.trans hx)
        exact hu k List.mem_cons_self
      apply ih hinv _ hn (hp t ht) h
      intro x hx
      refine hkeep hs (hu x (List.mem_cons_of_mem _ hx)) ?_ hlabel ht
      rw [hk]
      rintro ⟨⟩
      exact hnot hx

section Outcomes

variable {τ α : Type*}

def outcomes (serve : σ → ℓ → α × σ) (s : σ) : List ℓ → List α × σ
  | [] => ([], s)
  | label :: labels =>
    let (a, s') := serve s label
    let (answers, s'') := outcomes serve s' labels
    (a :: answers, s'')

end Outcomes

section Map

variable {τ : Type*} {next' : τ → ℓ → Option τ} {f : σ → τ}

theorem run_map (hf : ∀ s label, (next s label).map f = next' (f s) label) (s : σ) (labels : List ℓ) :
    (run next s labels).map f = run next' (f s) labels := by
  induction labels generalizing s with
  | nil => rfl
  | cons label labels ih =>
    change ((next s label).bind fun t => run next t labels).map f = (next' (f s) label).bind fun t => run next' t labels
    rw [← hf]
    cases next s label with
    | none => rfl
    | some t => exact ih t

theorem Along.of_map (hf : ∀ s label, (next s label).map f = next' (f s) label) {P : τ → ℓ → Prop} {labels : List ℓ}
    (h : Along next' P (f s) labels) : Along next (fun s label => P (f s) label) s labels := by
  induction labels generalizing s with
  | nil => trivial
  | cons label labels ih =>
    refine ⟨h.1, fun t ht => ih (h.2 (f t) ?_)⟩
    rw [← hf, Option.mem_def.mp ht]
    rfl

end Map

end Runs
