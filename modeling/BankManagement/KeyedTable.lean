import Mathlib.Data.List.Nodup

namespace KeyedTable

variable {α κ : Type*} [DecidableEq κ] {key : α → κ}

def find (key : α → κ) (k : κ) (l : List α) : Option α := l.find? fun a => decide (key a = k)

/-- The member of the same key is replaced where it stands; a new key comes last. -/
def upsert (key : α → κ) (a : α) (l : List α) : List α :=
  if key a ∈ l.map key then l.map fun b => if key b = key a then a else b else l ++ [a]

def erase (key : α → κ) (k : κ) (l : List α) : List α := l.filter fun a => decide (key a ≠ k)

theorem find_eq_none {k : κ} {l : List α} : find key k l = none ↔ k ∉ l.map key := by
  simp [find]

theorem find_mem {k : κ} {l : List α} {a : α} (h : find key k l = some a) : a ∈ l := List.mem_of_find?_eq_some h

theorem find_append {k : κ} {l l' : List α} : find key k (l ++ l') = (find key k l).or (find key k l') :=
  List.find?_append

theorem find_of_mem {l : List α} (h : (l.map key).Nodup) {a : α} (ha : a ∈ l) : find key (key a) l = some a := by
  induction l with
  | nil => cases ha
  | cons b l ih =>
    obtain ⟨hb, hl⟩ := List.nodup_cons.mp h
    rcases List.mem_cons.mp ha with rfl | ha
    · simp [find]
    · have hne : key b ≠ key a := fun he => hb (he ▸ List.mem_map_of_mem ha)
      rw [find, List.find?_cons_of_neg (by simpa using hne)]
      exact ih hl ha

theorem find_key {k : κ} {l : List α} {a : α} (h : find key k l = some a) : key a = k := by
  simpa using List.find?_some h

theorem find_eq_some {l : List α} (h : (l.map key).Nodup) {k : κ} {a : α} : find key k l = some a ↔ a ∈ l ∧ key a = k := by
  constructor
  · exact fun ha => ⟨find_mem ha, find_key ha⟩
  · rintro ⟨ha, rfl⟩
    exact find_of_mem h ha

theorem filter_key {l : List α} (h : (l.map key).Nodup) (k : κ) :
    l.filter (fun a => decide (key a = k)) = (find key k l).toList := by
  induction l with
  | nil => rfl
  | cons b l ih =>
    obtain ⟨hb, hl⟩ := List.nodup_cons.mp h
    by_cases hk : key b = k
    · have hrest : l.filter (fun a => decide (key a = k)) = [] := by
        apply List.filter_eq_nil_iff.mpr
        intro a ha
        have hne : key a ≠ k := fun he => hb (hk.trans he.symm ▸ List.mem_map_of_mem ha)
        simpa using hne
      rw [find, List.filter_cons_of_pos (by simpa using hk), List.find?_cons_of_pos (by simpa using hk), hrest]
      rfl
    · rw [find, List.filter_cons_of_neg (by simpa using hk), List.find?_cons_of_neg (by simpa using hk)]
      exact ih hl

theorem mem_upsert {a b : α} {l : List α} (h : b ∈ upsert key a l) : b = a ∨ b ∈ l := by
  unfold upsert at h
  split_ifs at h
  · obtain ⟨c, hc, rfl⟩ := List.mem_map.mp h
    by_cases hk : key c = key a
    · exact .inl (if_pos hk)
    · rw [if_neg hk]
      exact .inr hc
  · rcases List.mem_append.mp h with h | h
    · exact .inr h
    · exact .inl (List.mem_singleton.mp h)

theorem upsert_nodup {l : List α} (h : (l.map key).Nodup) (a : α) : ((upsert key a l).map key).Nodup := by
  unfold upsert
  split_ifs with hmem
  · have hsame : (l.map fun b => if key b = key a then a else b).map key = l.map key := by
      rw [List.map_map]
      apply List.map_congr_left
      intro b _
      rw [Function.comp_apply]
      split_ifs with hb
      · exact hb.symm
      · rfl
    rwa [hsame]
  · rw [List.map_append, List.map_singleton]
    exact List.Nodup.append h (List.nodup_singleton _) (by simpa using hmem)

theorem find_upsert (a : α) (l : List α) (k : κ) :
    find key k (upsert key a l) = if k = key a then some a else find key k l := by
  unfold upsert
  split_ifs with hmem hk hk
  · subst hk
    induction l with
    | nil => cases hmem
    | cons b l ih =>
      by_cases hb : key b = key a
      · simp [find, hb]
      · rw [List.map_cons, if_neg hb, find, List.find?_cons_of_neg (by simpa using hb)]
        apply ih
        simpa [Ne.symm hb] using hmem
  · have hsame (b : α) : (if key b = key a then a else b) = b ∨ key b ≠ k ∧ key a ≠ k := by
      by_cases hb : key b = key a
      · exact .inr ⟨fun he => hk (he ▸ hb), fun he => hk he.symm⟩
      · exact .inl (if_neg hb)
    clear hmem
    induction l with
    | nil => rfl
    | cons b l ih =>
      rw [List.map_cons, find, find, List.find?_cons, List.find?_cons]
      rcases hsame b with hb | ⟨hb, ha⟩
      · rw [hb]
        split
        · rfl
        · exact ih
      · have hnew : key (if key b = key a then a else b) ≠ k := by
          split_ifs
          · exact ha
          · exact hb
        simp only [hnew, hb, decide_false]
        exact ih
  · subst hk
    rw [find_append, find_eq_none.mpr hmem]
    simp [find]
  · rw [find_append]
    simp [find, Ne.symm hk]

theorem find_erase (l : List α) (k k' : κ) :
    find key k' (erase key k l) = if k' = k then none else find key k' l := by
  induction l with
  | nil =>
    split_ifs <;> rfl
  | cons b l ih =>
    by_cases hb : key b = k
    · rw [erase, List.filter_cons_of_neg (by simpa using hb)]
      refine Eq.trans ih ?_
      split_ifs with hk
      · rfl
      · have hne : key b ≠ k' := fun he => hk (he.symm.trans hb)
        simp [find, hne]
    · rw [erase, List.filter_cons_of_pos (by simpa using hb), find, find, List.find?_cons, List.find?_cons]
      by_cases hk' : key b = k'
      · rw [if_neg (fun he => hb (hk'.trans he))]
        simp [hk']
      · simp only [hk', decide_false]
        exact ih

theorem erase_nodup {l : List α} (h : (l.map key).Nodup) (k : κ) : ((erase key k l).map key).Nodup :=
  h.sublist (List.filter_sublist.map key)

theorem countP_erase {l : List α} (h : (l.map key).Nodup) {k : κ} {a : α} (ha : find key k l = some a) (p : α → Bool) :
    (erase key k l).countP p + (p a).toNat = l.countP p := by
  have hsplit := List.countP_eq_countP_filter_add l p fun b => decide (key b = k)
  rw [filter_key h, ha] at hsplit
  have hrest : l.filter (fun b => !decide (key b = k)) = erase key k l := by
    unfold erase
    apply congrArg (List.filter · l)
    funext b
    exact (decide_not).symm
  rw [hrest, Option.toList_some, List.countP_singleton] at hsplit
  rw [hsplit]
  cases p a <;> simp [Nat.add_comm]

end KeyedTable
