import Mathlib.Data.Nat.Notation
import Mathlib.Logic.Basic

namespace Throwing

abbrev Program (ε σ α : Type) := EStateM ε σ α

variable {ε σ τ α β : Type} {m : Program ε σ α} {f : α → Program ε σ β} {handler : ε → Program ε σ α}
variable {a : α} {b : β} {e : ε} {s s' : σ}

theorem bind_ok (h : m s = .ok a s') : (m >>= f) s = f a s' := by
  change EStateM.bind m f s = _
  rw [EStateM.bind, h]

theorem bind_error (h : m s = .error e s') : (m >>= f) s = .error e s' := by
  change EStateM.bind m f s = _
  rw [EStateM.bind, h]

theorem bind_eq_ok : (m >>= f) s = .ok b s' ↔ ∃ a t, m s = .ok a t ∧ f a t = .ok b s' := by
  cases h : m s with
  | ok a t =>
    rw [bind_ok h]
    constructor
    · exact fun hf => ⟨a, t, rfl, hf⟩
    · rintro ⟨_, _, ⟨⟩, hf⟩
      exact hf
  | error e t => simp [bind_error h]

theorem bind_eq_error :
    (m >>= f) s = .error e s' ↔ m s = .error e s' ∨ ∃ a t, m s = .ok a t ∧ f a t = .error e s' := by
  cases h : m s with
  | ok a t =>
    rw [bind_ok h]
    constructor
    · exact fun hf => .inr ⟨a, t, rfl, hf⟩
    · rintro (⟨⟨⟩⟩ | ⟨_, _, ⟨⟩, hf⟩)
      exact hf
  | error e t => simp [bind_error h]

theorem tryCatch_ok (h : m s = .ok a s') : tryCatch m handler s = .ok a s' := by
  change EStateM.tryCatch m handler s = _
  delta EStateM.tryCatch
  dsimp only
  rw [h]

theorem tryCatch_error (h : m s = .error e s') : tryCatch m handler s = handler e s' := by
  change EStateM.tryCatch m handler s = _
  delta EStateM.tryCatch
  dsimp only
  rw [h]
  rfl

theorem tryCatch_eq_error :
    tryCatch m handler s = .error e s' ↔ ∃ e₁ t, m s = .error e₁ t ∧ handler e₁ t = .error e s' := by
  cases h : m s with
  | ok a t => simp [tryCatch_ok h]
  | error e t =>
    rw [tryCatch_error h]
    constructor
    · exact fun hh => ⟨e, t, rfl, hh⟩
    · rintro ⟨_, _, ⟨⟩, hh⟩
      exact hh

theorem tryCatch_eq_ok : tryCatch m handler s = .ok a s' ↔
    m s = .ok a s' ∨ ∃ e t, m s = .error e t ∧ handler e t = .ok a s' := by
  cases h : m s with
  | ok a t => simp [tryCatch_ok h]
  | error e t =>
    rw [tryCatch_error h]
    constructor
    · exact fun hh => .inr ⟨e, t, rfl, hh⟩
    · rintro (⟨⟨⟩⟩ | ⟨_, _, ⟨⟩, hh⟩)
      exact hh

def zoom (get : σ → τ) (put : τ → σ → σ) (m : Program ε τ α) : Program ε σ α := fun s =>
  match m (get s) with
  | .ok a t => .ok a (put t s)
  | .error e t => .error e (put t s)

theorem zoom_ok {get : σ → τ} {put : τ → σ → σ} {m : Program ε τ α} {t : τ} (h : m (get s) = .ok a t) :
    zoom get put m s = .ok a (put t s) := by
  rw [zoom, h]

theorem zoom_error {get : σ → τ} {put : τ → σ → σ} {m : Program ε τ α} {t : τ} (h : m (get s) = .error e t) :
    zoom get put m s = .error e (put t s) := by
  rw [zoom, h]

def runAll : List (Program ε σ Unit) → Program ε σ Unit
  | [] => pure ()
  | m :: rest => do
    m
    runAll rest

def ThrowsIn : List (Program ε σ Unit) → σ → ε → σ → Prop
  | [], _, _, _ => False
  | m :: rest, s, e, s' => m s = .error e s' ∨ ∃ t, m s = .ok () t ∧ ThrowsIn rest t e s'

theorem runAll_eq_error {ms : List (Program ε σ Unit)} : runAll ms s = .error e s' ↔ ThrowsIn ms s e s' := by
  induction ms generalizing s with
  | nil =>
    constructor
    · rintro ⟨⟩
    · rintro ⟨⟩
  | cons m rest ih =>
    rw [runAll, bind_eq_error, ThrowsIn]
    apply or_congr Iff.rfl
    constructor
    · rintro ⟨⟨⟩, t, hm, hrest⟩
      exact ⟨t, hm, ih.mp hrest⟩
    · rintro ⟨t, hm, hrest⟩
      exact ⟨(), t, hm, ih.mpr hrest⟩

theorem runAll_append (ms ms' : List (Program ε σ Unit)) :
    runAll (ms ++ ms') = (runAll ms >>= fun _ => runAll ms') := by
  induction ms with
  | nil => rfl
  | cons m rest ih =>
    rw [List.cons_append, runAll, runAll, ih]
    funext s
    cases h : m s with
    | ok a t => rw [bind_ok h, bind_assoc, bind_ok h]
    | error e t => rw [bind_error h, bind_assoc, bind_error h]

def repeatWhile (turn : Program ε σ Bool) : ℕ → Program ε σ Unit
  | 0 => pure ()
  | n + 1 => do
    if ← turn then repeatWhile turn n else pure ()

structure Keeps (view : σ → τ) (m : Program ε σ α) : Prop where
  ok : ∀ {s a s'}, m s = .ok a s' → view s' = view s
  error : ∀ {s e s'}, m s = .error e s' → view s' = view s

theorem Keeps.pure {view : σ → τ} : Keeps view (pure a : Program ε σ α) where
  ok h := by cases h; rfl
  error h := by cases h

theorem Keeps.throw {view : σ → τ} : Keeps view (throw e : Program ε σ α) where
  ok h := by cases h
  error h := by cases h; rfl

theorem Keeps.bind {view : σ → τ} (hm : Keeps view m) (hf : ∀ a, Keeps view (f a)) : Keeps view (m >>= f) where
  ok h := by
    obtain ⟨a, t, ha, hb⟩ := bind_eq_ok.mp h
    rw [(hf a).ok hb, hm.ok ha]
  error h := by
    rcases bind_eq_error.mp h with ha | ⟨a, t, ha, hb⟩
    · exact hm.error ha
    · rw [(hf a).error hb, hm.ok ha]

theorem Keeps.tryCatch {view : σ → τ} (hm : Keeps view m) (hh : ∀ e, Keeps view (handler e)) :
    Keeps view (tryCatch m handler) where
  ok h := by
    rcases tryCatch_eq_ok.mp h with ha | ⟨e, t, ha, hb⟩
    · exact hm.ok ha
    · rw [(hh e).ok hb, hm.error ha]
  error h := by
    obtain ⟨e, t, ha, hb⟩ := tryCatch_eq_error.mp h
    rw [(hh e).error hb, hm.error ha]

theorem Keeps.zoom {υ : Type} {view : σ → υ} {get : σ → τ} {put : τ → σ → σ} (hput : ∀ t s, view (put t s) = view s)
    (m : Program ε τ α) : Keeps view (zoom get put m) where
  ok {s a s'} h := by
    unfold Throwing.zoom at h
    split at h <;> cases h
    exact hput _ s
  error {s e s'} h := by
    unfold Throwing.zoom at h
    split at h <;> cases h
    exact hput _ s

def Returns (P : α → Prop) (m : Program ε σ α) (s : σ) : Prop := ∃ a s', m s = .ok a s' ∧ P a

def Yields (P : α → Prop) (m : Program ε σ α) : Prop := ∀ s a s', m s = .ok a s' → P a

theorem Yields.returns_iff {P : α → Prop} (h : Yields P m) :
    Returns P m s ↔ ∀ e s', m s ≠ .error e s' := by
  constructor
  · rintro ⟨a, s', hok, _⟩ e t herr
    cases hok.symm.trans herr
  · intro hne
    cases hm : m s with
    | ok a s' => exact ⟨a, s', hm, h s a s' hm⟩
    | error e s' => exact absurd hm (hne e s')

def Turns (turn : Program ε σ Bool) : ℕ → σ → σ → Prop
  | 0, s, t => t = s
  | n + 1, s, t => ∃ u, turn s = .ok true u ∧ Turns turn n u t

theorem repeatWhile_returns {turn : Program ε σ Bool} {n : ℕ} : Returns (fun _ => True) (repeatWhile turn n) s ↔
    ∀ k < n, ∀ t, Turns turn k s t → Returns (fun _ => True) turn t := by
  induction n generalizing s with
  | zero => exact ⟨fun _ k hk => absurd hk (Nat.not_lt_zero k), fun _ => ⟨(), s, rfl, trivial⟩⟩
  | succ n ih =>
    cases h : turn s with
    | error e u =>
      constructor
      · rintro ⟨a, s', hok, _⟩
        cases (bind_error h).symm.trans hok
      · intro hturns
        obtain ⟨a, s', hok, _⟩ := hturns 0 (Nat.succ_pos n) s rfl
        cases h.symm.trans hok
    | ok more u =>
      have hsucc : repeatWhile turn (n + 1) s = (if more then repeatWhile turn n else pure ()) u := bind_ok h
      have hfirst : Returns (fun _ => True) turn s := ⟨more, u, h, trivial⟩
      rw [Returns, hsucc]
      cases more with
      | false =>
        constructor
        · rintro - (_ | k) hk t hturns
          · exact hturns ▸ hfirst
          · obtain ⟨v, hv, _⟩ := hturns
            cases h.symm.trans hv
        · exact fun _ => ⟨(), u, rfl, trivial⟩
      | true =>
        apply Iff.trans ih
        constructor
        · rintro hrest (_ | k) hk t hturns
          · exact hturns ▸ hfirst
          · obtain ⟨v, hv, hturns⟩ := hturns
            cases h.symm.trans hv
            exact hrest k (Nat.lt_of_succ_lt_succ hk) t hturns
        · intro hall k hk t hturns
          exact hall (k + 1) (Nat.succ_lt_succ hk) t ⟨u, h, hturns⟩

theorem Yields.pure {P : α → Prop} (h : P a) : Yields P (pure a : Program ε σ α) := by
  intro s a' s' heq
  cases heq
  exact h

theorem Yields.bind {P : β → Prop} (h : ∀ a, Yields P (f a)) : Yields P (m >>= f) := by
  intro s b s' heq
  obtain ⟨a, t, _, hb⟩ := bind_eq_ok.mp heq
  exact h a t b s' hb

theorem Yields.tryCatch {P : α → Prop} (h : Yields P m) (hh : ∀ e, Yields P (handler e)) :
    Yields P (tryCatch m handler) := by
  intro s a s' heq
  rcases tryCatch_eq_ok.mp heq with heq | ⟨e, t, _, heq⟩
  · exact h s a s' heq
  · exact hh e t a s' heq

def query (m : σ → Except ε α) : Program ε σ α := fun s => match m s with
  | .ok a => .ok a s
  | .error e => .error e s

def Ends (Q : α → σ → Prop) (m : Program ε σ α) (s : σ) : Prop := ∃ a s', m s = .ok a s' ∧ Q a s'

theorem Ends.mono {Q R : α → σ → Prop} (h : Ends Q m s) (hQ : ∀ a s', Q a s' → R a s') : Ends R m s := by
  obtain ⟨a, s', hok, ha⟩ := h
  exact ⟨a, s', hok, hQ a s' ha⟩

theorem ends_pure {Q : α → σ → Prop} : Ends Q (pure a : Program ε σ α) s ↔ Q a s := by
  constructor
  · rintro ⟨_, _, ⟨⟩, h⟩
    exact h
  · exact fun h => ⟨a, s, rfl, h⟩

theorem ends_bind {Q : β → σ → Prop} : Ends Q (m >>= f) s ↔ Ends (fun a t => Ends Q (f a) t) m s := by
  constructor
  · rintro ⟨b, s', hok, hb⟩
    obtain ⟨a, t, ha, hf⟩ := bind_eq_ok.mp hok
    exact ⟨a, t, ha, b, s', hf, hb⟩
  · rintro ⟨a, t, ha, b, s', hf, hb⟩
    exact ⟨b, s', bind_eq_ok.mpr ⟨a, t, ha, hf⟩, hb⟩

theorem ends_query {Q : α → σ → Prop} {m : σ → Except ε α} :
    Ends Q (query m) s ↔ ∃ a, m s = .ok a ∧ Q a s := by
  unfold Ends query
  cases m s with
  | ok a =>
    constructor
    · rintro ⟨_, _, ⟨⟩, h⟩
      exact ⟨a, rfl, h⟩
    · rintro ⟨_, ⟨⟩, h⟩
      exact ⟨a, s, rfl, h⟩
  | error e =>
    constructor
    · rintro ⟨_, _, ⟨⟩, _⟩
    · rintro ⟨_, ⟨⟩, _⟩

theorem ends_tryCatch {Q : α → σ → Prop} : Ends Q (tryCatch m handler) s ↔
    (∀ a t, m s = .ok a t → Q a t) ∧ ∀ e t, m s = .error e t → Ends Q (handler e) t := by
  unfold Ends
  cases h : m s with
  | ok a t =>
    rw [tryCatch_ok h]
    constructor
    · rintro ⟨_, _, ⟨⟩, ha⟩
      exact ⟨by rintro _ _ ⟨⟩; exact ha, by rintro _ _ ⟨⟩⟩
    · exact fun hQ => ⟨a, t, rfl, hQ.1 a t rfl⟩
  | error e t =>
    rw [tryCatch_error h]
    constructor
    · exact fun hh => ⟨by rintro _ _ ⟨⟩, by rintro _ _ ⟨⟩; exact hh⟩
    · exact fun hQ => hQ.2 e t rfl

section Agree

variable {R : σ → τ → Prop} {m' : Program ε τ α} {f' : α → Program ε τ β} {handler' : ε → Program ε τ α}

def SameEnd (R : σ → τ → Prop) : EStateM.Result ε σ α → EStateM.Result ε τ α → Prop
  | .ok a s, .ok b t => a = b ∧ R s t
  | .error e s, .error e' t => e = e' ∧ R s t
  | _, _ => False

def Agree (R : σ → τ → Prop) (m : Program ε σ α) (m' : Program ε τ α) : Prop := ∀ s t, R s t → SameEnd R (m s) (m' t)

theorem SameEnd.comp {R : σ → σ → Prop} (hcomp : ∀ s t u, R s t → R u t → R s u) {x y z : EStateM.Result ε σ α}
    (hxy : SameEnd R x y) (hzy : SameEnd R z y) : SameEnd R x z := by
  cases y with
  | ok b t =>
    cases x with
    | error => exact absurd hxy id
    | ok a s =>
      cases z with
      | error => exact absurd hzy id
      | ok a' u => exact ⟨hxy.1.trans hzy.1.symm, hcomp s t u hxy.2 hzy.2⟩
  | error e t =>
    cases x with
    | ok => exact absurd hxy id
    | error e' s =>
      cases z with
      | ok => exact absurd hzy id
      | error e'' u => exact ⟨hxy.1.trans hzy.1.symm, hcomp s t u hxy.2 hzy.2⟩

theorem SameEnd.bind_weaken {R' : σ → τ → Prop} {f : α → Program ε σ β} {f' : α → Program ε τ β} {m : Program ε σ α}
    {m' : Program ε τ α} {t : τ} (hw : ∀ s t, R s t → R' s t) (hm : SameEnd R (m s) (m' t))
    (hf : ∀ {a u v}, m s = .ok a u → m' t = .ok a v → R u v → SameEnd R' (f a u) (f' a v)) :
    SameEnd R' ((m >>= f) s) ((m' >>= f') t) := by
  cases h : m s with
  | ok a u =>
    cases h' : m' t with
    | ok b v =>
      rw [h, h'] at hm
      obtain ⟨rfl, huv⟩ := hm
      rw [bind_ok h, bind_ok h']
      exact hf h h' huv
    | error e v =>
      rw [h, h'] at hm
      exact absurd hm id
  | error e u =>
    cases h' : m' t with
    | ok b v =>
      rw [h, h'] at hm
      exact absurd hm id
    | error e' v =>
      rw [h, h'] at hm
      rw [bind_error h, bind_error h']
      exact ⟨hm.1, hw u v hm.2⟩

theorem SameEnd.bind {f : α → Program ε σ β} {f' : α → Program ε τ β} {m : Program ε σ α} {m' : Program ε τ α} {t : τ}
    (hm : SameEnd R (m s) (m' t))
    (hf : ∀ {a u v}, m s = .ok a u → m' t = .ok a v → R u v → SameEnd R (f a u) (f' a v)) :
    SameEnd R ((m >>= f) s) ((m' >>= f') t) :=
  SameEnd.bind_weaken (fun _ _ hr => hr) hm hf

theorem SameEnd.mono {R' : σ → τ → Prop} (hw : ∀ s t, R s t → R' s t) {x : EStateM.Result ε σ α}
    {y : EStateM.Result ε τ α} (h : SameEnd R x y) : SameEnd R' x y := by
  cases x with
  | ok a s =>
    cases y with
    | ok b t => exact ⟨h.1, hw s t h.2⟩
    | error => exact absurd h id
  | error e s =>
    cases y with
    | ok => exact absurd h id
    | error e' t => exact ⟨h.1, hw s t h.2⟩

theorem SameEnd.keeps {υ : Type} {view : τ → υ} {t : τ} {x : EStateM.Result ε σ α} (hk : Keeps view m')
    (h : SameEnd R x (m' t)) : SameEnd (fun s t' => R s t' ∧ view t' = view t) x (m' t) := by
  cases hy : m' t with
  | ok b t' =>
    rw [hy] at h
    cases x with
    | ok a s => exact ⟨h.1, h.2, hk.ok hy⟩
    | error => exact absurd h id
  | error e t' =>
    rw [hy] at h
    cases x with
    | ok => exact absurd h id
    | error e' s => exact ⟨h.1, h.2, hk.error hy⟩

def Leads (R R' : σ → τ → Prop) (m : Program ε σ α) (m' : Program ε τ α) : Prop :=
  ∀ s t, R s t → SameEnd R' (m s) (m' t)

theorem Agree.leads (h : Agree R m m') : Leads R R m m' := h

section Leads

variable {R' : σ → τ → Prop}

theorem Leads.weaken (hw : ∀ s t, R s t → R' s t) (h : Agree R' m m') : Leads R R' m m' :=
  fun s t hr => h s t (hw s t hr)

theorem Leads.throw (hw : ∀ s t, R s t → R' s t) : Leads R R' (throw e : Program ε σ α) (throw e) :=
  fun s t hr => ⟨rfl, hw s t hr⟩

theorem Leads.bind (hw : ∀ s t, R s t → R' s t) (hm : Agree R m m')
    (hf : ∀ a, (∃ s t u, R s t ∧ m s = .ok a u) → Leads R R' (f a) (f' a)) : Leads R R' (m >>= f) (m' >>= f') := by
  intro s t hr
  apply SameEnd.bind_weaken hw (hm s t hr)
  intro a u v hu _ huv
  exact hf a ⟨s, t, u, hr, hu⟩ u v huv

theorem Leads.bind_agree (hm : Leads R R' m m') (hf : ∀ a, Agree R' (f a) (f' a)) :
    Leads R R' (m >>= f) (m' >>= f') := by
  intro s t hr
  apply SameEnd.bind (hm s t hr)
  intro a u v _ _ huv
  exact hf a u v huv

theorem Leads.tryCatch (hm : Leads R R' m m') (hh : ∀ e, Agree R' (handler e) (handler' e)) :
    Leads R R' (tryCatch m handler) (tryCatch m' handler') := by
  intro s t hr
  have hfirst := hm s t hr
  cases h : m s with
  | ok a u =>
    cases h' : m' t with
    | ok b v =>
      rw [h, h'] at hfirst
      rw [tryCatch_ok h, tryCatch_ok h']
      exact hfirst
    | error e v =>
      rw [h, h'] at hfirst
      exact absurd hfirst id
  | error e u =>
    cases h' : m' t with
    | ok b v =>
      rw [h, h'] at hfirst
      exact absurd hfirst id
    | error e' v =>
      rw [h, h'] at hfirst
      obtain ⟨rfl, huv⟩ := hfirst
      rw [tryCatch_error h, tryCatch_error h']
      exact hh e u v huv

theorem Leads.zoom {υ υ' : Type} {Q Q' : υ → υ' → Prop} {get : σ → υ} {put : υ → σ → σ} {get' : τ → υ'}
    {put' : υ' → τ → τ} {m : Program ε υ α} {m' : Program ε υ' α} (hget : ∀ s t, R s t → Q (get s) (get' t))
    (hput : ∀ u u' s t, Q' u u' → R s t → R' (put u s) (put' u' t)) (hm : Leads Q Q' m m') :
    Leads R R' (zoom get put m) (zoom get' put' m') := by
  intro s t hr
  have hparts := hm _ _ (hget s t hr)
  cases h : m (get s) with
  | ok a u =>
    cases h' : m' (get' t) with
    | ok b u' =>
      rw [h, h'] at hparts
      rw [zoom_ok h, zoom_ok h']
      exact ⟨hparts.1, hput u u' s t hparts.2 hr⟩
    | error e u' =>
      rw [h, h'] at hparts
      exact absurd hparts id
  | error e u =>
    cases h' : m' (get' t) with
    | ok b u' =>
      rw [h, h'] at hparts
      exact absurd hparts id
    | error e' u' =>
      rw [h, h'] at hparts
      rw [zoom_error h, zoom_error h']
      exact ⟨hparts.1, hput u u' s t hparts.2 hr⟩

end Leads

theorem Agree.pure : Agree R (pure a : Program ε σ α) (pure a) := fun _ _ hr => ⟨rfl, hr⟩

theorem Agree.bind (hm : Agree R m m') (hf : ∀ a, Agree R (f a) (f' a)) : Agree R (m >>= f) (m' >>= f') := by
  intro s t hr
  apply SameEnd.bind (hm s t hr)
  intro a u v _ _ huv
  exact hf a u v huv

theorem Agree.refl (m : Program ε σ α) : Agree Eq m m := by
  rintro s _ rfl
  cases m s with
  | ok a u => exact ⟨rfl, rfl⟩
  | error e u => exact ⟨rfl, rfl⟩

end Agree

end Throwing
