import Mathlib.Data.Set.Disjoint
import Mathlib.Data.Set.Lattice
import Mathlib.Order.CompletePartialOrder

namespace LocalActions

variable {K V A : Type*}

structure LocalOn (S : Set K) (f : (K → V) → Option (K → V)) : Prop where
  frame : ∀ {m n}, f m = some n → ∀ k ∉ S, n k = m k
  reads : ∀ {m m' n}, (∀ k ∈ S, m k = m' k) → f m = some n → ∃ n', f m' = some n' ∧ ∀ k ∈ S, n k = n' k

theorem LocalOn.isSome_congr {S : Set K} {f : (K → V) → Option (K → V)} (h : LocalOn S f)
    {m m' : K → V} (he : ∀ k ∈ S, m k = m' k) : (f m).isSome = (f m').isSome := by
  apply Bool.eq_iff_iff.mpr
  simp only [Option.isSome_iff_exists]
  constructor
  · rintro ⟨n, hn⟩
    obtain ⟨n', hn', _⟩ := h.reads he hn
    exact ⟨n', hn'⟩
  · rintro ⟨n, hn⟩
    obtain ⟨n', hn', _⟩ := h.reads (fun k hk => (he k hk).symm) hn
    exact ⟨n', hn'⟩

theorem LocalOn.bind_isSome {S T : Set K} {f g : (K → V) → Option (K → V)}
    (hf : LocalOn S f) (hg : LocalOn T g) (hd : Disjoint S T) {m n n' : K → V}
    (h : f m = some n) (h' : g n = some n') :
    ∃ p, g m = some p ∧ f p = some n' := by
  have hagree : ∀ k ∈ T, n k = m k := fun k hk => hf.frame h k (Set.disjoint_right.mp hd hk)
  obtain ⟨p, hp, hpn⟩ := hg.reads hagree h'
  have hback : ∀ k ∈ S, m k = p k := fun k hk => (hg.frame hp k (Set.disjoint_left.mp hd hk)).symm
  obtain ⟨q, hq, hqn⟩ := hf.reads hback h
  refine ⟨p, hp, ?_⟩
  rw [hq]
  congr 1
  funext k
  by_cases hS : k ∈ S
  · rw [← hqn k hS, hg.frame h' k (Set.disjoint_left.mp hd hS)]
  · rw [hf.frame hq k hS]
    by_cases hT : k ∈ T
    · rw [hpn k hT]
    · rw [hg.frame hp k hT, hg.frame h' k hT, hf.frame h k hS]

theorem LocalOn.commute {S T : Set K} {f g : (K → V) → Option (K → V)}
    (hf : LocalOn S f) (hg : LocalOn T g) (hd : Disjoint S T) (m : K → V) :
    (f m).bind g = (g m).bind f := by
  apply Option.ext
  intro n
  simp only [Option.bind_eq_some_iff]
  constructor
  · rintro ⟨p, hp, hn⟩
    exact hf.bind_isSome hg hd hp hn
  · rintro ⟨p, hp, hn⟩
    exact hg.bind_isSome hf hd.symm hp hn

theorem LocalOn.bind {S : Set K} {f g : (K → V) → Option (K → V)} (hf : LocalOn S f)
    (hg : LocalOn S g) : LocalOn S (fun m => (f m).bind g) := by
  constructor
  · intro m n h k hk
    obtain ⟨p, hp, hn⟩ := Option.bind_eq_some_iff.mp h
    rw [hg.frame hn k hk, hf.frame hp k hk]
  · intro m m' n he h
    obtain ⟨p, hp, hn⟩ := Option.bind_eq_some_iff.mp h
    obtain ⟨p', hp', hag⟩ := hf.reads he hp
    obtain ⟨n', hn', hag'⟩ := hg.reads hag hn
    exact ⟨n', Option.bind_eq_some_iff.mpr ⟨p', hp', hn'⟩, hag'⟩

theorem LocalOn.guard {S : Set K} {f : (K → V) → Option (K → V)} (hf : LocalOn S f)
    {c : (K → V) → Prop} [DecidablePred c] (hc : ∀ {m m'}, (∀ k ∈ S, m k = m' k) → (c m ↔ c m')) :
    LocalOn S (fun m => if c m then f m else none) := by
  constructor
  · intro m n h k hk
    split_ifs at h
    exact hf.frame h k hk
  · intro m m' n he h
    split_ifs at h with hcm
    obtain ⟨n', hn', hag⟩ := hf.reads he h
    exact ⟨n', by rw [if_pos ((hc he).mp hcm), hn'], hag⟩

def attempt (f : (K → V) → Option (K → V)) (m : K → V) : K → V := (f m).getD m

theorem LocalOn.attempt_frame {S : Set K} {f : (K → V) → Option (K → V)} (hf : LocalOn S f) (m : K → V) {k : K}
    (hk : k ∉ S) : attempt f m k = m k := by
  unfold attempt
  cases hn : f m with
  | none => rfl
  | some n => exact hf.frame hn k hk

theorem LocalOn.attempt_reads {S : Set K} {f : (K → V) → Option (K → V)} (hf : LocalOn S f) {m m' : K → V}
    (he : ∀ k ∈ S, m k = m' k) {k : K} (hk : k ∈ S) : attempt f m k = attempt f m' k := by
  unfold attempt
  cases hn : f m with
  | none =>
    have hnone : f m' = none := by
      apply Option.not_isSome_iff_eq_none.mp
      rw [← hf.isSome_congr he, hn]
      exact Bool.false_ne_true
    rw [hnone]
    exact he k hk
  | some n =>
    obtain ⟨n', hn', hag⟩ := hf.reads he hn
    rw [hn']
    exact hag k hk

section Disjoint

variable {S T : Set K} {f g : (K → V) → Option (K → V)} (hf : LocalOn S f) (hg : LocalOn T g) (hd : Disjoint S T)

include hg hd

theorem attempt_agrees (m : K → V) : ∀ k ∈ S, attempt g m k = m k :=
  fun _ hk => hg.attempt_frame m (Set.disjoint_left.mp hd hk)

include hf

theorem attempt_isSome (m : K → V) : (f (attempt g m)).isSome = (f m).isSome :=
  hf.isSome_congr (attempt_agrees hg hd m)

theorem attempt_comm (m : K → V) : attempt f (attempt g m) = attempt g (attempt f m) := by
  funext k
  by_cases hS : k ∈ S
  · have hT : k ∉ T := Set.disjoint_left.mp hd hS
    rw [hg.attempt_frame _ hT, hf.attempt_reads (attempt_agrees hg hd m) hS]
  · rw [hf.attempt_frame _ hS]
    by_cases hT : k ∈ T
    · rw [hg.attempt_reads (attempt_agrees hf hd.symm m) hT]
    · rw [hg.attempt_frame _ hT, hg.attempt_frame _ hT, hf.attempt_frame _ hS]

end Disjoint

def run (act : A → (K → V) → Option (K → V)) (as : List A) (m : K → V) : Option (K → V) :=
  as.foldlM (fun m a => act a m) m

variable {act : A → (K → V) → Option (K → V)} {footprint : A → Set K}

@[simp] theorem run_nil : run act [] = some := rfl

@[simp] theorem run_cons (a : A) (as : List A) :
    run act (a :: as) = fun m => (act a m).bind (run act as) := rfl

theorem run_append (as bs : List A) (m : K → V) :
    run act (as ++ bs) m = (run act as m).bind (run act bs) := by
  simp only [run, List.foldlM_append]
  rfl

theorem run_concat (as : List A) (a : A) (m : K → V) :
    run act (as ++ [a]) m = (run act as m).bind (act a) := by
  rw [run_append]
  congr 1
  funext n
  simp [Option.bind_fun_some]

theorem run_commute (hl : ∀ a, LocalOn (footprint a) (act a)) (a : A) (bs : List A)
    (hd : ∀ b ∈ bs, Disjoint (footprint a) (footprint b)) (m : K → V) :
    (act a m).bind (run act bs) = (run act bs m).bind (act a) := by
  induction bs generalizing m with
  | nil => simp [Option.bind_fun_some]
  | cons b bs ih =>
    have hb := (hl a).commute (hl b) (hd b List.mem_cons_self)
    have hbs := ih (fun c hc => hd c (List.mem_cons_of_mem _ hc))
    calc (act a m).bind (run act (b :: bs))
        = ((act a m).bind (act b)).bind (run act bs) := by simp only [run_cons, Option.bind_assoc]
      _ = (act b m).bind (fun n => (act a n).bind (run act bs)) := by rw [hb, Option.bind_assoc]
      _ = (act b m).bind (fun n => (run act bs n).bind (act a)) := by simp only [hbs]
      _ = (run act (b :: bs) m).bind (act a) := by simp only [run_cons, Option.bind_assoc]

theorem run_insert (hl : ∀ a, LocalOn (footprint a) (act a)) (as : List A) (a : A) (bs : List A)
    (hd : ∀ b ∈ bs, Disjoint (footprint a) (footprint b)) (m : K → V) :
    run act (as ++ a :: bs) m = (run act (as ++ bs) m).bind (act a) := by
  rw [run_append, run_append, Option.bind_assoc]
  congr 1
  funext n
  exact run_commute hl a bs hd n

theorem run_simulates {P : A → Prop} {R : (K → V) → (K → V) → Prop}
    (hstep : ∀ {a m m' n}, P a → R m m' → act a m = some n → ∃ n', act a m' = some n' ∧ R n n') {as : List A}
    {m m' n : K → V} (hp : ∀ a ∈ as, P a) (hr : R m m') (h : run act as m = some n) :
    ∃ n', run act as m' = some n' ∧ R n n' := by
  induction as generalizing m m' with
  | nil =>
    obtain rfl := Option.some.inj h
    exact ⟨m', rfl, hr⟩
  | cons a as ih =>
    obtain ⟨p, hap, h⟩ := Option.bind_eq_some_iff.mp h
    obtain ⟨p', hap', hr'⟩ := hstep (hp a List.mem_cons_self) hr hap
    obtain ⟨n', hn', hrn⟩ := ih (fun b hb => hp b (List.mem_cons_of_mem _ hb)) hr' h
    exact ⟨n', Option.bind_eq_some_iff.mpr ⟨p', hap', hn'⟩, hrn⟩

end LocalActions
