import BankManagement.JsonParser

namespace BankManagement.Json

theorem split_unique {α : Type*} {p : α → Bool} {a a' x x' : List α} (ha : ∀ c ∈ a, p c = true)
    (ha' : ∀ c ∈ a', p c = true) (hx : ∀ c ∈ x.head?, p c = false) (hx' : ∀ c ∈ x'.head?, p c = false)
    (h : a ++ x = a' ++ x') : a = a' ∧ x = x' := by
  have htake (l r : List α) (hl : ∀ c ∈ l, p c = true) (hr : ∀ c ∈ r.head?, p c = false) :
      (l ++ r).takeWhile p = l := by
    rw [List.takeWhile_append_of_pos hl]
    cases r with
    | nil => rw [List.takeWhile_nil, List.append_nil]
    | cons c r => rw [List.takeWhile_cons_of_neg (by rw [hr c rfl]; decide), List.append_nil]
  have he : a = a' := by rw [← htake a x ha hx, h, htake a' x' ha' hx']
  exact ⟨he, List.append_cancel_left (he ▸ h)⟩

theorem gap_unique {gap gap' : Gap} {c c' : UInt8} {x x' : Bytes} (hc : isSpace c = false) (hc' : isSpace c' = false)
    (h : gap.1 ++ c :: x = gap'.1 ++ c' :: x') : gap = gap' ∧ c = c' ∧ x = x' := by
  obtain ⟨hgap, hx⟩ := split_unique (p := isSpace) gap.isSpace gap'.isSpace (by rintro _ ⟨⟩; exact hc)
    (by rintro _ ⟨⟩; exact hc') h
  exact ⟨Subtype.ext hgap, List.cons.inj hx⟩

theorem gap_tree {gap gap' : Gap} {t t' : Tree} {x x' : Bytes} (h : gap.1 ++ (t.text ++ x) = gap'.1 ++ (t'.text ++ x')) :
    gap = gap' ∧ t.text ++ x = t'.text ++ x' := by
  obtain ⟨c, text, ht, hc, -⟩ := t.text_head
  obtain ⟨c', text', ht', hc', -⟩ := t'.text_head
  rw [ht, ht'] at h ⊢
  obtain ⟨hgap, rfl, hx⟩ := gap_unique hc hc' h
  exact ⟨hgap, congrArg _ hx⟩

theorem digits_unique {digits digits' : List Digit} {x x' : Bytes} (hx : NoDigit x) (hx' : NoDigit x')
    (h : digits.map (·.1) ++ x = digits'.map (·.1) ++ x') : digits = digits' ∧ x = x' := by
  have hdigits (digits : List Digit) : ∀ c ∈ digits.map (·.1), isDigit c = true := by
    intro c hc
    obtain ⟨d, -, rfl⟩ := List.mem_map.mp hc
    exact d.isDigit
  obtain ⟨hd, he⟩ := split_unique (hdigits digits) (hdigits digits') hx hx' h
  exact ⟨List.map_injective_iff.mpr Subtype.val_injective hd, he⟩

theorem numeral_unique {n n' : Numeral} {x x' : Bytes} (hx : NoDigit x) (hx' : NoDigit x')
    (h : n.text ++ x = n'.text ++ x') : n = n' ∧ x = x' := by
  have hminus (d : Digit) : d.1 ≠ 0x2d := by
    intro hd
    have hdigit := d.isDigit
    rw [hd] at hdigit
    revert hdigit
    decide
  obtain ⟨negative, first, digits⟩ := n
  obtain ⟨negative', first', digits'⟩ := n'
  have hsame : negative = negative' := by
    cases negative <;> cases negative'
    · rfl
    · exact absurd (List.cons.inj h).1 (hminus first)
    · exact absurd (List.cons.inj h).1.symm (hminus first')
    · rfl
  subst hsame
  have htail : (first :: digits).map (·.1) ++ x = (first' :: digits').map (·.1) ++ x' := by
    unfold Numeral.text at h
    rw [List.append_assoc, List.append_assoc] at h
    exact List.append_cancel_left h
  obtain ⟨hd, he⟩ := digits_unique hx hx' htail
  obtain ⟨rfl, rfl⟩ := List.cons.inj hd
  exact ⟨rfl, he⟩

theorem Escape.letter_injective {e e' : Escape} (h : e.letter = e'.letter) : e = e' := by
  cases e <;> cases e' <;> first | rfl | exact absurd h (by decide)

theorem piece_unique {p p' : Piece} {x x' : Bytes} (h : p.text ++ x = p'.text ++ x') : p = p' ∧ x = x' := by
  cases p with
  | plain c hc =>
    cases p' with
    | plain c' hc' =>
      obtain ⟨rfl, hx⟩ := List.cons.inj h
      exact ⟨rfl, hx⟩
    | letter e' => exact absurd (List.cons.inj h).1 hc.2
    | code => exact absurd (List.cons.inj h).1 hc.2
  | letter e =>
    cases p' with
    | plain c' hc' => exact absurd (List.cons.inj h).1.symm hc'.2
    | letter e' =>
      obtain ⟨he, hx⟩ := List.cons.inj (List.cons.inj h).2
      rw [Escape.letter_injective he]
      exact ⟨rfl, hx⟩
    | code => exact absurd (List.cons.inj (List.cons.inj h).2).1 e.unescape.2
  | code a b c d hv =>
    cases p' with
    | plain c' hc' => exact absurd (List.cons.inj h).1.symm hc'.2
    | letter e' => exact absurd (List.cons.inj (List.cons.inj h).2).1.symm e'.unescape.2
    | code a' b' c' d' hv' =>
      simp only [Piece.text, List.cons_append, List.nil_append, List.cons.injEq, true_and] at h
      obtain ⟨ha, hb, hc, hd, hx⟩ := h
      obtain rfl := Subtype.ext ha
      obtain rfl := Subtype.ext hb
      obtain rfl := Subtype.ext hc
      obtain rfl := Subtype.ext hd
      exact ⟨rfl, hx⟩

theorem Piece.text_head (p : Piece) : ∃ c text, p.text = c :: text ∧ c ≠ 0x22 := by
  cases p with
  | plain c h => exact ⟨c, _, rfl, h.1⟩
  | letter e => exact ⟨0x5c, _, rfl, by decide⟩
  | code => exact ⟨0x5c, _, rfl, by decide⟩

theorem pieces_unique {pieces pieces' : List Piece} {x x' : Bytes}
    (h : pieces.flatMap Piece.text ++ 0x22 :: x = pieces'.flatMap Piece.text ++ 0x22 :: x') :
    pieces = pieces' ∧ x = x' := by
  have hquote (p : Piece) (y z : Bytes) : 0x22 :: y ≠ p.text ++ z := by
    obtain ⟨c, text, ht, hc⟩ := p.text_head
    rw [ht]
    intro he
    exact hc (List.cons.inj he).1.symm
  induction pieces generalizing pieces' with
  | nil =>
    cases pieces' with
    | nil => exact ⟨rfl, (List.cons.inj h).2⟩
    | cons p' pieces' =>
      rw [List.flatMap_cons, List.append_assoc] at h
      exact absurd h (hquote p' x _)
  | cons p pieces ih =>
    cases pieces' with
    | nil =>
      rw [List.flatMap_cons, List.append_assoc] at h
      exact absurd h.symm (hquote p x' _)
    | cons p' pieces' =>
      rw [List.flatMap_cons, List.append_assoc, List.flatMap_cons, List.append_assoc] at h
      obtain ⟨rfl, hrest⟩ := piece_unique h
      obtain ⟨rfl, hx⟩ := ih hrest
      exact ⟨rfl, hx⟩

theorem items_not_empty {gap : Gap} {items : Items} {x x' : Bytes} : gap.1 ++ 0x5d :: x ≠ items.text ++ x' := by
  obtain ⟨gap', c, text, ht, hc, hne⟩ := items.text_head
  intro h
  rw [ht, List.append_assoc] at h
  exact hne (gap_unique (by decide) hc h).2.1.symm

theorem members_not_empty {gap : Gap} {members : Members} {x x' : Bytes} :
    gap.1 ++ 0x7d :: x ≠ members.text ++ x' := by
  obtain ⟨gap', text, ht⟩ := members.text_head
  intro h
  rw [ht, List.append_assoc] at h
  exact absurd (gap_unique (by decide) (by decide) h).2.1 (by decide)

theorem start_unique {t t' : Tree} {x x' : Bytes} (h : t.text ++ x = t'.text ++ x') : t.start = t'.start := by
  obtain ⟨text, ht⟩ := t.text_start
  obtain ⟨text', ht'⟩ := t'.text_start
  rw [ht, ht'] at h
  exact (List.cons.inj h).1

theorem integer_start {n : Numeral} {t : Tree} (h : t.start = (Tree.integer n).start) : ∃ n', t = .integer n' := by
  obtain ⟨_, hobject, harray, hstring, hnull, _⟩ := digit_or_minus n.start_digit
  rw [← h] at hobject harray hstring hnull
  cases t with
  | integer n' => exact ⟨n', rfl⟩
  | null => exact absurd rfl hnull
  | string => exact absurd rfl hstring
  | emptyArray => exact absurd rfl harray
  | array => exact absurd rfl harray
  | emptyObject => exact absurd rfl hobject
  | object => exact absurd rfl hobject

theorem string_start {t : Tree} (h : t.start = 0x22) : ∃ pieces, t = .string pieces := by
  cases t with
  | string pieces => exact ⟨pieces, rfl⟩
  | integer n => exact absurd h (digit_or_minus n.start_digit).2.2.2.1
  | _ => simp [Tree.start] at h

theorem null_start {t : Tree} (h : t.start = 0x6e) : t = .null := by
  cases t with
  | null => rfl
  | integer n => exact absurd h (digit_or_minus n.start_digit).2.2.2.2.1
  | _ => simp [Tree.start] at h

theorem array_start {t : Tree} (h : t.start = 0x5b) : (∃ gap, t = .emptyArray gap) ∨ ∃ items, t = .array items := by
  cases t with
  | emptyArray gap => exact .inl ⟨gap, rfl⟩
  | array items => exact .inr ⟨items, rfl⟩
  | integer n => exact absurd h (digit_or_minus n.start_digit).2.2.1
  | _ => simp [Tree.start] at h

theorem object_start {t : Tree} (h : t.start = 0x7b) :
    (∃ gap, t = .emptyObject gap) ∨ ∃ members, t = .object members := by
  cases t with
  | emptyObject gap => exact .inl ⟨gap, rfl⟩
  | object members => exact .inr ⟨members, rfl⟩
  | integer n => exact absurd h (digit_or_minus n.start_digit).2.1
  | _ => simp [Tree.start] at h

def Tree.Unique (t : Tree) : Prop :=
  ∀ {t' : Tree} {x x' : Bytes}, NoDigit x → NoDigit x' → t.text ++ x = t'.text ++ x' → t = t' ∧ x = x'

theorem item_unique {b a b' a' : Gap} {t t' : Tree} {c c' : UInt8} {x x' : Bytes} (ht : t.Unique)
    (hc : isSpace c = false ∧ isDigit c = false) (hc' : isSpace c' = false ∧ isDigit c' = false)
    (h : b.1 ++ (t.text ++ (a.1 ++ c :: x)) = b'.1 ++ (t'.text ++ (a'.1 ++ c' :: x'))) :
    b = b' ∧ t = t' ∧ a = a' ∧ c = c' ∧ x = x' := by
  obtain ⟨rfl, htree⟩ := gap_tree h
  obtain ⟨rfl, hafter⟩ := ht (noDigit_gap a (noDigit_cons hc.2 x)) (noDigit_gap a' (noDigit_cons hc'.2 x')) htree
  obtain ⟨rfl, rfl, rfl⟩ := gap_unique hc.1 hc'.1 hafter
  exact ⟨rfl, rfl, rfl, rfl, rfl⟩

theorem key_unique {b colon after b' colon' after' : Gap} {key key' : List Piece} {x x' : Bytes}
    (h : b.1 ++ (quoted key ++ (colon.1 ++ 0x3a :: (after.1 ++ x))) =
      b'.1 ++ (quoted key' ++ (colon'.1 ++ 0x3a :: (after'.1 ++ x')))) :
    b = b' ∧ key = key' ∧ colon = colon' ∧ after.1 ++ x = after'.1 ++ x' := by
  simp only [quoted, List.cons_append, List.append_assoc, List.nil_append] at h
  obtain ⟨rfl, -, hkey⟩ := gap_unique (by decide) (by decide) h
  obtain ⟨rfl, hcolon⟩ := pieces_unique hkey
  obtain ⟨rfl, -, hafter⟩ := gap_unique (by decide) (by decide) hcolon
  exact ⟨rfl, rfl, rfl, hafter⟩

mutual

theorem tree_unique {t t' : Tree} {x x' : Bytes} (hx : NoDigit x) (hx' : NoDigit x')
    (h : t.text ++ x = t'.text ++ x') : t = t' ∧ x = x' := by
  have hstart := (start_unique h).symm
  cases t with
  | null =>
    obtain rfl := null_start hstart
    exact ⟨rfl, List.append_cancel_left h⟩
  | integer n =>
    obtain ⟨n', rfl⟩ := integer_start hstart
    obtain ⟨rfl, he⟩ := numeral_unique hx hx' h
    exact ⟨rfl, he⟩
  | string pieces =>
    obtain ⟨pieces', rfl⟩ := string_start hstart
    simp only [Tree.text, quoted, List.cons_append, List.append_assoc, List.nil_append, List.cons.injEq,
      true_and] at h
    obtain ⟨rfl, he⟩ := pieces_unique h
    exact ⟨rfl, he⟩
  | emptyArray gap =>
    obtain ⟨gap', rfl⟩ | ⟨items', rfl⟩ := array_start hstart
    · simp only [Tree.text, List.cons_append, List.append_assoc, List.nil_append, List.cons.injEq, true_and] at h
      obtain ⟨rfl, -, he⟩ := gap_unique (by decide) (by decide) h
      exact ⟨rfl, he⟩
    · simp only [Tree.text, List.cons_append, List.append_assoc, List.nil_append, List.cons.injEq, true_and] at h
      exact absurd h items_not_empty
  | array items =>
    obtain ⟨gap', rfl⟩ | ⟨items', rfl⟩ := array_start hstart
    · simp only [Tree.text, List.cons_append, List.append_assoc, List.nil_append, List.cons.injEq, true_and] at h
      exact absurd h.symm items_not_empty
    · obtain ⟨rfl, he⟩ := items_unique (List.cons.inj h).2
      exact ⟨rfl, he⟩
  | emptyObject gap =>
    obtain ⟨gap', rfl⟩ | ⟨members', rfl⟩ := object_start hstart
    · simp only [Tree.text, List.cons_append, List.append_assoc, List.nil_append, List.cons.injEq, true_and] at h
      obtain ⟨rfl, -, he⟩ := gap_unique (by decide) (by decide) h
      exact ⟨rfl, he⟩
    · simp only [Tree.text, List.cons_append, List.append_assoc, List.nil_append, List.cons.injEq, true_and] at h
      exact absurd h members_not_empty
  | object members =>
    obtain ⟨gap', rfl⟩ | ⟨members', rfl⟩ := object_start hstart
    · simp only [Tree.text, List.cons_append, List.append_assoc, List.nil_append, List.cons.injEq, true_and] at h
      exact absurd h.symm members_not_empty
    · obtain ⟨rfl, he⟩ := members_unique (List.cons.inj h).2
      exact ⟨rfl, he⟩
termination_by sizeOf t

theorem items_unique {items items' : Items} {x x' : Bytes} (h : items.text ++ x = items'.text ++ x') :
    items = items' ∧ x = x' := by
  cases items with
  | last b item a =>
    have hitem : item.Unique := fun hx hx' he => tree_unique hx hx' he
    cases items' with
    | last b' item' a' =>
      simp only [Items.text, List.append_assoc, List.cons_append, List.nil_append] at h
      obtain ⟨rfl, rfl, rfl, -, rfl⟩ := item_unique hitem (by decide) (by decide) h
      exact ⟨rfl, rfl⟩
    | more b' item' a' rest' =>
      simp only [Items.text, List.append_assoc, List.cons_append, List.nil_append] at h
      exact absurd (item_unique hitem (by decide) (by decide) h).2.2.2.1 (by decide)
  | more b item a rest =>
    have hitem : item.Unique := fun hx hx' he => tree_unique hx hx' he
    cases items' with
    | last b' item' a' =>
      simp only [Items.text, List.append_assoc, List.cons_append, List.nil_append] at h
      exact absurd (item_unique hitem (by decide) (by decide) h).2.2.2.1 (by decide)
    | more b' item' a' rest' =>
      simp only [Items.text, List.append_assoc, List.cons_append] at h
      obtain ⟨rfl, rfl, rfl, -, hrest⟩ := item_unique hitem (by decide) (by decide) h
      obtain ⟨rfl, rfl⟩ := items_unique hrest
      exact ⟨rfl, rfl⟩
termination_by sizeOf items

theorem members_unique {members members' : Members} {x x' : Bytes} (h : members.text ++ x = members'.text ++ x') :
    members = members' ∧ x = x' := by
  cases members with
  | last b key colon after member a =>
    have hmember : member.Unique := fun hx hx' he => tree_unique hx hx' he
    cases members' with
    | last b' key' colon' after' member' a' =>
      simp only [Members.text, List.append_assoc, List.cons_append, List.nil_append] at h
      obtain ⟨rfl, rfl, rfl, hm⟩ := key_unique h
      obtain ⟨rfl, rfl, rfl, -, rfl⟩ := item_unique hmember (by decide) (by decide) hm
      exact ⟨rfl, rfl⟩
    | more b' key' colon' after' member' a' rest' =>
      simp only [Members.text, List.append_assoc, List.cons_append, List.nil_append] at h
      obtain ⟨rfl, rfl, rfl, hm⟩ := key_unique h
      exact absurd (item_unique hmember (by decide) (by decide) hm).2.2.2.1 (by decide)
  | more b key colon after member a rest =>
    have hmember : member.Unique := fun hx hx' he => tree_unique hx hx' he
    cases members' with
    | last b' key' colon' after' member' a' =>
      simp only [Members.text, List.append_assoc, List.cons_append, List.nil_append] at h
      obtain ⟨rfl, rfl, rfl, hm⟩ := key_unique h
      exact absurd (item_unique hmember (by decide) (by decide) hm).2.2.2.1 (by decide)
    | more b' key' colon' after' member' a' rest' =>
      simp only [Members.text, List.append_assoc, List.cons_append] at h
      obtain ⟨rfl, rfl, rfl, hm⟩ := key_unique h
      obtain ⟨rfl, rfl, rfl, -, hrest⟩ := item_unique hmember (by decide) (by decide) hm
      obtain ⟨rfl, rfl⟩ := members_unique hrest
      exact ⟨rfl, rfl⟩
termination_by sizeOf members

end

theorem spells_unique {t t' : Tree} {text : Bytes} (h : Spells t text) (h' : Spells t' text) : t = t' := by
  obtain ⟨before, after, rfl⟩ := h
  obtain ⟨before', after', he⟩ := h'
  obtain ⟨-, he⟩ := gap_tree he
  exact (tree_unique (noDigit_of_gap after) (noDigit_of_gap after') he).1

/-- The parser and the standard agree on a text if and only if its tree, when it has one, is readable
exactly if it is standard. They differ on numbers with leading zeros, on raw control bytes and on the
least `int64_t`. -/
theorem parse_denotes_iff (text : Bytes) : (∀ v, parse text = some v ↔ Denotes text v) ↔
    ∀ t, Spells t text → (t.readable = true ↔ t.standard = true) := by
  constructor
  · intro h t ht
    have hparse := parse_spelled ht
    constructor
    · intro hr
      rw [if_pos hr] at hparse
      obtain ⟨t', hs, ht', -⟩ := (h t.value).mp hparse
      rwa [spells_unique ht ht']
    · intro hs
      rw [(h t.value).mpr ⟨t, hs, ht, rfl⟩] at hparse
      by_contra hr
      rw [if_neg hr] at hparse
      cases hparse
  · intro h v
    rw [parse_iff]
    constructor
    · rintro ⟨t, hr, ht, hv⟩
      exact ⟨t, (h t ht).mp hr, ht, hv⟩
    · rintro ⟨t, hs, ht, hv⟩
      exact ⟨t, (h t ht).mpr hs, ht, hv⟩

theorem not_denotes {t : Tree} {text : Bytes} (ht : Spells t text) (hs : t.standard = false) (v : Value) :
    ¬ Denotes text v := by
  rintro ⟨t', hs', ht', -⟩
  rw [← spells_unique ht ht', hs] at hs'
  cases hs'

def rawTab : Tree := .string [.plain 0x09 (by decide)]

def leadingZero : Tree := .integer ⟨false, ⟨0x30, by decide⟩, [⟨0x37, by decide⟩]⟩

def leastInteger : Tree :=
  .integer ⟨true, ⟨0x39, by decide⟩, [⟨0x32, by decide⟩, ⟨0x32, by decide⟩, ⟨0x33, by decide⟩, ⟨0x33, by decide⟩,
    ⟨0x37, by decide⟩, ⟨0x32, by decide⟩, ⟨0x30, by decide⟩, ⟨0x33, by decide⟩, ⟨0x36, by decide⟩,
    ⟨0x38, by decide⟩, ⟨0x35, by decide⟩, ⟨0x34, by decide⟩, ⟨0x37, by decide⟩, ⟨0x37, by decide⟩,
    ⟨0x35, by decide⟩, ⟨0x38, by decide⟩, ⟨0x30, by decide⟩, ⟨0x38, by decide⟩]⟩

theorem Tree.spells_text (t : Tree) : Spells t t.text :=
  ⟨⟨[], by rintro c ⟨⟩⟩, ⟨[], by rintro c ⟨⟩⟩, by rw [List.nil_append, List.append_nil]⟩

theorem parse_not_denotes :
    (parse [0x22, 0x09, 0x22] = some (.string [0x09]) ∧ ¬ Denotes [0x22, 0x09, 0x22] (.string [0x09])) ∧
      (parse (ascii "07") = some (.integer 7) ∧ ¬ Denotes (ascii "07") (.integer 7)) ∧
        parse (ascii "-9223372036854775808") = none ∧
          Denotes (ascii "-9223372036854775808") (.integer Int64.minValue) := by
  have htab : Spells rawTab [0x22, 0x09, 0x22] := rawTab.spells_text
  have hzero : Spells leadingZero (ascii "07") := leadingZero.spells_text
  have hleast : Spells leastInteger (ascii "-9223372036854775808") := leastInteger.spells_text
  refine ⟨⟨?_, not_denotes htab rfl _⟩, ⟨?_, not_denotes hzero rfl _⟩, ?_, leastInteger, rfl, hleast, rfl⟩
  · exact parse_spelled htab
  · exact parse_spelled hzero
  · exact parse_spelled hleast

end BankManagement.Json
