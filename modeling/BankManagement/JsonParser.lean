import BankManagement.JsonRoundTrip
import BankManagement.JsonSyntax

namespace BankManagement.Json

theorem Gap.isSpace (gap : Gap) : ∀ c ∈ gap.1, isSpace c = true := by
  intro c hc
  rcases gap.2 c hc with rfl | rfl | rfl | rfl <;> rfl

theorem skipWhitespace_gap (gap : Gap) (text : Bytes) : skipWhitespace (gap.1 ++ text) = skipWhitespace text := by
  unfold skipWhitespace
  rw [List.dropWhile_append_of_pos gap.isSpace]

theorem skipWhitespace_all (gap : Gap) : skipWhitespace gap.1 = [] := by
  have h := skipWhitespace_gap gap []
  rwa [List.append_nil] at h

theorem skipWhitespace_split (text : Bytes) :
    ∃ gap : Gap, text = gap.1 ++ skipWhitespace text ∧ ∀ c rest, skipWhitespace text = c :: rest → isSpace c = false := by
  refine ⟨⟨text.takeWhile Json.isSpace, fun c hc => ?_⟩, List.takeWhile_append_dropWhile.symm, fun c rest hc => ?_⟩
  · have hs := List.all_eq_true.mp List.all_takeWhile c hc
    simpa [Json.isSpace, or_assoc] using hs
  · have hnot := List.head?_dropWhile_not Json.isSpace text
    rw [show text.dropWhile Json.isSpace = c :: rest from hc] at hnot
    exact hnot

theorem Digit.isDigit (d : Digit) : isDigit d.1 = true := by
  simp [Json.isDigit, d.2.1, d.2.2]

theorem magnitude_mono (m : ℕ) (digits : List Digit) : m ≤ digits.foldl (fun m d => m * 10 + d.value) m := by
  induction digits generalizing m with
  | nil => exact Nat.le_refl m
  | cons d digits ih => exact Nat.le_trans (by omega) (ih (m * 10 + d.value))

theorem parseDigits_fold {rest : Bytes} (h : NoDigit rest) (digits : List Digit) (m : ℕ) (hm : m < 2 ^ 63) :
    parseDigits m (digits.map (·.1) ++ rest) =
      if digits.foldl (fun m d => m * 10 + d.value) m < 2 ^ 63 then
        some (digits.foldl (fun m d => m * 10 + d.value) m, rest)
      else none := by
  induction digits generalizing m with
  | nil => rw [List.map_nil, List.nil_append, parseDigits_stop h, List.foldl_nil, if_pos hm]
  | cons d digits ih =>
    have hvalue : d.value ≤ 9 := by
      have hle := UInt8.le_iff_toNat_le.mp d.2.2
      unfold Digit.value
      simp only [UInt8.reduceToNat] at hle
      omega
    have hmono := magnitude_mono (m * 10 + d.value) digits
    rw [List.map_cons, List.cons_append, parseDigits, if_pos d.isDigit, List.foldl_cons]
    change (if m > (2 ^ 63 - 1 - d.value) / 10 then none else parseDigits (m * 10 + d.value) _) = _
    split_ifs with hgt hlt hlt
    · omega
    · rfl
    · rw [ih _ (by omega), if_pos hlt]
    · rw [ih _ (by omega), if_neg hlt]

theorem Digit.value_lt (d : Digit) : d.value < 2 ^ 63 := by
  have hle := UInt8.le_iff_toNat_le.mp d.2.2
  unfold Digit.value
  simp only [UInt8.reduceToNat] at hle
  omega

theorem parseDigits_first (d : Digit) (text : Bytes) : parseDigits 0 (d.1 :: text) = parseDigits d.value text := by
  have hlt := d.value_lt
  have hle : ¬ 0 > (2 ^ 63 - 1 - (d.1.toNat - 0x30)) / 10 := Nat.not_lt_zero _
  rw [parseDigits, if_pos d.isDigit]
  simp only [hle, ↓reduceIte, Nat.zero_mul, Nat.zero_add]
  rfl

theorem parseInteger_numeral (n : Numeral) {rest : Bytes} (h : NoDigit rest) :
    parseInteger (n.text ++ rest) =
      if n.magnitude < 2 ^ 63 then some (.integer (Int64.ofInt n.value), rest) else none := by
  have hdigits : parseDigits 0 (n.first.1 :: n.rest.map (·.1) ++ rest) =
      if n.magnitude < 2 ^ 63 then some (n.magnitude, rest) else none := by
    rw [List.cons_append, parseDigits_first]
    exact parseDigits_fold h n.rest n.first.value n.first.value_lt
  have hdigit := n.first.isDigit
  obtain ⟨negative, first, digits⟩ := n
  rw [List.cons_append] at hdigits
  cases negative with
  | true =>
    simp only [Numeral.text, ↓reduceIte, List.cons_append, List.nil_append, parseInteger, List.head?_cons,
      beq_self_eq_true, List.tail_cons, Option.map_some, hdigit, Option.getD_some, hdigits]
    split_ifs
    · rw [Option.map_some, Int64.neg_ofNat]
      rfl
    · rfl
  | false =>
    have hminus : (some first.1 == some (0x2d : UInt8)) = false := by
      apply beq_eq_false_iff_ne.mpr
      rintro hc
      rw [Option.some.injEq] at hc
      rw [hc] at hdigit
      revert hdigit
      decide
    simp only [Numeral.text, Bool.false_eq_true, ↓reduceIte, List.nil_append, List.cons_append, parseInteger,
      List.head?_cons, hminus, Option.map_some, hdigit, Option.getD_some, hdigits]
    split_ifs <;> rfl

theorem HexDigit.hexValue (d : HexDigit) : hexValue d.1 = some d.value := by
  obtain ⟨c, h⟩ := d
  simp only [Json.hexValue, HexDigit.value, UInt8.le_iff_toNat_le, UInt8.reduceToNat] at h ⊢
  split_ifs <;> first | rfl | omega

theorem HexDigit.of_hexValue {c : UInt8} {n : ℕ} (h : Json.hexValue c = some n) :
    ∃ d : HexDigit, d.1 = c ∧ d.value = n := by
  have hc : (0x30 ≤ c ∧ c ≤ 0x39) ∨ (0x41 ≤ c ∧ c ≤ 0x46) ∨ (0x61 ≤ c ∧ c ≤ 0x66) := by
    unfold Json.hexValue at h
    split_ifs at h with h1 h2 h3
    · exact .inl h1
    · exact .inr (.inr h2)
    · exact .inr (.inl h3)
  have hd := HexDigit.hexValue ⟨c, hc⟩
  exact ⟨⟨c, hc⟩, rfl, Option.some.inj (hd.symm.trans h)⟩

theorem HexDigit.value_lt (d : HexDigit) : d.value < 16 := by
  obtain ⟨c, h⟩ := d
  simp only [HexDigit.value, UInt8.le_iff_toNat_le, UInt8.reduceToNat] at h ⊢
  split_ifs <;> omega

theorem parseHex4_codePoint (a b c d : HexDigit) : parseHex4 a.1 b.1 c.1 d.1 = some (codePoint a b c d) := by
  simp [parseHex4, HexDigit.hexValue, codePoint]

theorem codePoint_lt (a b c d : HexDigit) : codePoint a b c d < 0x10000 := by
  have ha := a.value_lt
  have hb := b.value_lt
  have hc := c.value_lt
  have hd := d.value_lt
  unfold codePoint
  omega

theorem Escape.unescape (e : Escape) : unescape e.letter = some e.byte ∧ e.letter ≠ 0x75 := by
  cases e <;> decide

theorem Escape.of_unescape {c b : UInt8} (h : Json.unescape c = some b) : ∃ e : Escape, e.letter = c ∧ e.byte = b := by
  unfold Json.unescape at h
  split_ifs at h with h1 h2 h3 h4 h5 h6 h7 h8
  · exact ⟨.quote, h1.symm, Option.some.inj h⟩
  · exact ⟨.backslash, h2.symm, Option.some.inj h⟩
  · exact ⟨.slash, h3.symm, Option.some.inj h⟩
  · exact ⟨.backspace, h4.symm, Option.some.inj h⟩
  · exact ⟨.formFeed, h5.symm, Option.some.inj h⟩
  · exact ⟨.lineFeed, h6.symm, Option.some.inj h⟩
  · exact ⟨.carriageReturn, h7.symm, Option.some.inj h⟩
  · exact ⟨.tab, h8.symm, Option.some.inj h⟩

theorem appendUtf8_char {cp : ℕ} (hlt : cp < 0x10000) (h : cp.isValidChar) :
    appendUtf8 cp = String.utf8EncodeChar (Char.ofNat cp) := by
  have hval : (Char.ofNat cp).val.toNat = cp := by
    rw [Char.ofNat, dif_pos h]
    rfl
  have h1 : cp / 64 % 32 = cp / 64 ∨ 0x7ff < cp := by omega
  have h2 : cp / 4096 % 16 = cp / 4096 := by omega
  unfold appendUtf8 String.utf8EncodeChar
  simp only [hval]
  split_ifs with ha hb hc
  · rfl
  · rw [h1.resolve_right (by omega), Nat.add_comm 0xc0, Nat.add_comm 0x80]
  · rw [h2, Nat.add_comm 0xe0, Nat.add_comm 0x80, Nat.add_comm 0x80]
  · omega

theorem not_surrogate {cp : ℕ} (h : cp.isValidChar) : ¬ (0xd800 ≤ cp ∧ cp ≤ 0xdfff) := by
  unfold Nat.isValidChar at h
  omega

theorem parseString_piece (out : Bytes) (p : Piece) (rest : Bytes) :
    parseString out (p.text ++ rest) = parseString (out ++ p.bytes) rest := by
  cases p with
  | plain c h => exact parseString_plain h.1 h.2 out rest
  | letter e => exact parseString_letter e.unescape.2 e.unescape.1 out rest
  | code a b c d h =>
    rw [Piece.bytes, ← appendUtf8_char (codePoint_lt a b c d) h]
    exact parseString_hex (parseHex4_codePoint a b c d) (not_surrogate h) out rest

theorem parseString_pieces (out : Bytes) (pieces : List Piece) (rest : Bytes) :
    parseString out (pieces.flatMap Piece.text ++ 0x22 :: rest) = some (out ++ pieces.flatMap Piece.bytes, rest) := by
  induction pieces generalizing out with
  | nil => simp [parseString_quote]
  | cons p pieces ih => rw [List.flatMap_cons, List.append_assoc, parseString_piece, ih, List.append_assoc,
      List.flatMap_cons]

theorem parseHex4_some {a b c d : UInt8} {cp : ℕ} (h : parseHex4 a b c d = some cp) :
    ∃ a' b' c' d' : HexDigit, a'.1 = a ∧ b'.1 = b ∧ c'.1 = c ∧ d'.1 = d ∧ codePoint a' b' c' d' = cp := by
  simp only [parseHex4, Option.bind_eq_bind, Option.bind_eq_some_iff, Option.pure_def, Option.some.injEq] at h
  obtain ⟨m, ha, n, hb, o, hc, p, hd, rfl⟩ := h
  obtain ⟨a', rfl, rfl⟩ := HexDigit.of_hexValue ha
  obtain ⟨b', rfl, rfl⟩ := HexDigit.of_hexValue hb
  obtain ⟨c', rfl, rfl⟩ := HexDigit.of_hexValue hc
  obtain ⟨d', rfl, rfl⟩ := HexDigit.of_hexValue hd
  exact ⟨a', b', c', d', rfl, rfl, rfl, rfl, rfl⟩

theorem pieces_cons {p : Piece} {out v text rest : Bytes}
    (h : ∃ pieces : List Piece, text = pieces.flatMap Piece.text ++ 0x22 :: rest ∧
      v = out ++ p.bytes ++ pieces.flatMap Piece.bytes) :
    ∃ pieces : List Piece, p.text ++ text = pieces.flatMap Piece.text ++ 0x22 :: rest ∧
      v = out ++ pieces.flatMap Piece.bytes := by
  obtain ⟨pieces, rfl, rfl⟩ := h
  exact ⟨p :: pieces, by rw [List.flatMap_cons, List.append_assoc], by rw [List.flatMap_cons, List.append_assoc]⟩

theorem parseString_sound {out text v rest : Bytes} (h : parseString out text = some (v, rest)) :
    ∃ pieces : List Piece, text = pieces.flatMap Piece.text ++ 0x22 :: rest ∧ v = out ++ pieces.flatMap Piece.bytes := by
  fun_induction parseString out text with
  | case1 => cases h
  | case2 out rest' =>
    cases h
    exact ⟨[], rfl, (List.append_nil _).symm⟩
  | case3 out c rest' hq hb ih => exact pieces_cons (p := .plain c ⟨hq, hb⟩) (ih h)
  | case7 out c hq hb x y z w rest' cp hx hs ih =>
    obtain ⟨x', y', z', w', rfl, rfl, rfl, rfl, rfl⟩ := parseHex4_some hx
    have hlt := codePoint_lt x' y' z' w'
    have hvalid : (codePoint x' y' z' w').isValidChar := by
      unfold Nat.isValidChar
      omega
    rw [not_not.mp hb]
    rw [appendUtf8_char hlt hvalid] at h ih
    exact pieces_cons (p := .code x' y' z' w' hvalid) (ih h)
  | case10 out c hq hb e rest' hu b he ih =>
    obtain ⟨escape, rfl, rfl⟩ := Escape.of_unescape he
    rw [not_not.mp hb]
    exact pieces_cons (p := .letter escape) (ih h)
  | _ => cases h

def Tree.start : Tree → UInt8
  | .null => 0x6e
  | .integer n => if n.negative then 0x2d else n.first.1
  | .string _ => 0x22
  | .emptyArray _ => 0x5b
  | .array _ => 0x5b
  | .emptyObject _ => 0x7b
  | .object _ => 0x7b

theorem Tree.text_start (t : Tree) : ∃ text, t.text = t.start :: text := by
  cases t with
  | integer n =>
    obtain ⟨negative, first, digits⟩ := n
    cases negative <;> exact ⟨_, rfl⟩
  | null => exact ⟨_, rfl⟩
  | string => exact ⟨_, rfl⟩
  | emptyArray => exact ⟨_, rfl⟩
  | array => exact ⟨_, rfl⟩
  | emptyObject => exact ⟨_, rfl⟩
  | object => exact ⟨_, rfl⟩

theorem Numeral.start_digit (n : Numeral) :
    (isDigit (Tree.integer n).start || (Tree.integer n).start == 0x2d) = true := by
  obtain ⟨negative, first, digits⟩ := n
  cases negative with
  | true => rfl
  | false =>
    change (isDigit first.1 || _) = true
    rw [first.isDigit]
    rfl

theorem Tree.start_token (t : Tree) : isSpace t.start = false ∧ t.start ≠ 0x5d := by
  cases t with
  | integer n =>
    have hn := digit_or_minus n.start_digit
    exact ⟨hn.1, hn.2.2.2.2.2⟩
  | null => exact ⟨rfl, by simp [Tree.start]⟩
  | string => exact ⟨rfl, by simp [Tree.start]⟩
  | emptyArray => exact ⟨rfl, by simp [Tree.start]⟩
  | array => exact ⟨rfl, by simp [Tree.start]⟩
  | emptyObject => exact ⟨rfl, by simp [Tree.start]⟩
  | object => exact ⟨rfl, by simp [Tree.start]⟩

theorem Tree.text_head (t : Tree) : ∃ c text, t.text = c :: text ∧ isSpace c = false ∧ c ≠ 0x5d := by
  obtain ⟨text, ht⟩ := t.text_start
  exact ⟨t.start, text, ht, t.start_token⟩

theorem skipWhitespace_tree (gap : Gap) (t : Tree) (rest : Bytes) :
    skipWhitespace (gap.1 ++ (t.text ++ rest)) = t.text ++ rest := by
  obtain ⟨c, text, ht, hc, _⟩ := t.text_head
  rw [skipWhitespace_gap, ht, List.cons_append, skipWhitespace_cons hc]

theorem skipWhitespace_token (gap : Gap) {c : UInt8} (hc : isSpace c = false) (rest : Bytes) :
    skipWhitespace (gap.1 ++ c :: rest) = c :: rest := by
  rw [skipWhitespace_gap, skipWhitespace_cons hc]

theorem noDigit_gap (gap : Gap) {rest : Bytes} (h : NoDigit rest) : NoDigit (gap.1 ++ rest) := by
  obtain ⟨gap, hgap⟩ := gap
  cases gap with
  | nil => exact h
  | cons c gap =>
    apply noDigit_cons
    rcases hgap c List.mem_cons_self with rfl | rfl | rfl | rfl <;> rfl

def Items.readable (items : Items) : Bool := items.all (fun n => decide (n.magnitude < 2 ^ 63)) (fun _ => true)

def Members.readable (members : Members) : Bool :=
  members.all (fun n => decide (n.magnitude < 2 ^ 63)) (fun _ => true)

@[simp]
theorem Items.readable_last (before : Gap) (item : Tree) (after : Gap) :
    (Items.last before item after).readable = item.readable := rfl

@[simp]
theorem Items.readable_more (before : Gap) (item : Tree) (after : Gap) (rest : Items) :
    (Items.more before item after rest).readable = (item.readable && rest.readable) := rfl

@[simp]
theorem Members.readable_last (before : Gap) (key : List Piece) (colonBefore colonAfter : Gap) (member : Tree)
    (after : Gap) : (Members.last before key colonBefore colonAfter member after).readable = member.readable := by
  simp [Members.readable, Members.all, Tree.readable]

@[simp]
theorem Members.readable_more (before : Gap) (key : List Piece) (colonBefore colonAfter : Gap) (member : Tree)
    (after : Gap) (rest : Members) :
    (Members.more before key colonBefore colonAfter member after rest).readable =
      (member.readable && rest.readable) := by
  have hkey : (key.all fun _ => true) = true := List.all_eq_true.mpr fun _ _ => rfl
  rw [Members.readable, Members.all, hkey, Bool.true_and]
  rfl

theorem Items.text_head (items : Items) :
    ∃ (gap : Gap) (c : UInt8) (text : Bytes), items.text = gap.1 ++ c :: text ∧ isSpace c = false ∧ c ≠ 0x5d := by
  cases items with
  | last before item after =>
    obtain ⟨c, text, ht, hc⟩ := item.text_head
    exact ⟨before, c, _, by rw [Items.text, ht, List.cons_append], hc⟩
  | more before item after rest =>
    obtain ⟨c, text, ht, hc⟩ := item.text_head
    exact ⟨before, c, _, by rw [Items.text, ht, List.cons_append], hc⟩

theorem Members.text_head (members : Members) :
    ∃ (gap : Gap) (text : Bytes), members.text = gap.1 ++ 0x22 :: text := by
  cases members with
  | last before => exact ⟨before, _, rfl⟩
  | more before => exact ⟨before, _, rfl⟩

theorem skipWhitespace_twice (text : Bytes) : skipWhitespace (skipWhitespace text) = skipWhitespace text := by
  obtain ⟨gap, htext, _⟩ := skipWhitespace_split text
  have h := skipWhitespace_gap gap (skipWhitespace text)
  rw [← htext] at h
  exact h.symm

theorem parseItems_skip (fuel : ℕ) (out : List Value) (text : Bytes) :
    parseItems fuel out (skipWhitespace text) = parseItems fuel out text := by
  cases fuel with
  | zero => rfl
  | succ fuel => rw [parseItems, parseItems, skipWhitespace_twice]

theorem parseMembers_skip (fuel : ℕ) (out : List (Bytes × Value)) (text : Bytes) :
    parseMembers fuel out (skipWhitespace text) = parseMembers fuel out text := by
  cases fuel with
  | zero => rfl
  | succ fuel => rw [parseMembers, parseMembers, skipWhitespace_twice]

mutual

theorem parseValue_tree (t : Tree) (fuel : ℕ) (hf : 2 * t.text.length ≤ fuel) (rest : Bytes) (hr : NoDigit rest) :
    parseValue fuel (t.text ++ rest) = if t.readable then some (t.value, rest) else none := by
  obtain ⟨c, text, ht, hc, _⟩ := t.text_head
  obtain ⟨fuel, rfl⟩ : ∃ n, fuel = n + 1 := ⟨fuel - 1, by rw [ht, List.length_cons] at hf; omega⟩
  cases t with
  | null => exact parseKeyword_null rest
  | integer n =>
    have hn := parseInteger_numeral n hr
    have hstart : (isDigit c || c == 0x2d) = true := by
      obtain ⟨text', ht'⟩ := (Tree.integer n).text_start
      obtain ⟨rfl, -⟩ := List.cons.inj (ht.symm.trans ht')
      exact n.start_digit
    obtain ⟨_, h1, h2, h3, h4, _⟩ := digit_or_minus hstart
    change parseValue (fuel + 1) (n.text ++ rest) = _
    rw [show n.text = c :: text from ht, List.cons_append] at hn ⊢
    rw [parseValue, if_neg h1, if_neg h2, if_neg h3, if_neg h4, if_pos hstart, hn]
    simp [Tree.readable, Tree.all, Tree.value]
  | string pieces =>
    have hs := parseString_pieces [] pieces rest
    have hp : (pieces.all fun _ => true) = true := List.all_eq_true.mpr fun _ _ => rfl
    simp [Tree.text, quoted, parseValue, hs, Tree.readable, Tree.all, Tree.value, hp]
  | emptyArray gap =>
    simp [Tree.text, parseValue, skipWhitespace_token gap (show isSpace 0x5d = false by decide), Tree.readable,
      Tree.all, Tree.value]
  | array items =>
    rw [Tree.text, List.length_cons] at hf
    have hitems := parseItems_text items fuel (by omega) [] rest
    obtain ⟨gap, c, text, htext, hspace, hclose⟩ := items.text_head
    have hskip : skipWhitespace (items.text ++ rest) = c :: (text ++ rest) := by
      rw [htext, List.append_assoc]
      exact skipWhitespace_token gap hspace (text ++ rest)
    rw [← parseItems_skip, hskip] at hitems
    rw [Tree.text, List.cons_append, parseValue, if_neg (by decide), if_pos rfl]
    simp only [hskip, List.head?_cons, Option.some.injEq, if_neg hclose, hitems]
    rfl
  | emptyObject gap =>
    simp [Tree.text, parseValue, skipWhitespace_token gap (show isSpace 0x7d = false by decide), Tree.readable,
      Tree.all, Tree.value]
  | object members =>
    rw [Tree.text, List.length_cons] at hf
    have hmembers := parseMembers_text members fuel (by omega) [] rest
    obtain ⟨gap, text, htext⟩ := members.text_head
    have hskip : skipWhitespace (members.text ++ rest) = 0x22 :: (text ++ rest) := by
      rw [htext, List.append_assoc]
      exact skipWhitespace_token gap (by decide) (text ++ rest)
    rw [← parseMembers_skip, hskip] at hmembers
    rw [Tree.text, List.cons_append, parseValue, if_pos rfl]
    simp only [hskip, List.head?_cons, Option.some.injEq, if_neg (show (0x22 : UInt8) ≠ 0x7d by decide), hmembers]
    rfl
termination_by sizeOf t

theorem parseItems_text (items : Items) (fuel : ℕ) (hf : 2 * items.text.length + 1 ≤ fuel) (out : List Value)
    (rest : Bytes) : parseItems fuel out (items.text ++ rest) =
      if items.readable then some (.array (out ++ items.values), rest) else none := by
  obtain ⟨fuel, rfl⟩ : ∃ n, fuel = n + 1 := ⟨fuel - 1, by omega⟩
  cases items with
  | last before item after =>
    simp only [Items.text, List.length_append] at hf
    have hr : NoDigit (after.1 ++ 0x5d :: rest) := noDigit_gap after (noDigit_cons (by decide) rest)
    have hitem := parseValue_tree item fuel (by omega) _ hr
    simp only [Items.text, List.append_assoc, List.singleton_append, parseItems, skipWhitespace_tree, hitem,
      Items.readable_last]
    by_cases hi : item.readable = true
    · simp [hi, skipWhitespace_token after (show isSpace 0x5d = false by decide), Items.values]
    · simp [hi]
  | more before item after items =>
    simp only [Items.text, List.length_append, List.length_cons] at hf
    have hr : NoDigit (after.1 ++ 0x2c :: (items.text ++ rest)) := noDigit_gap after (noDigit_cons (by decide) _)
    have hitem := parseValue_tree item fuel (by omega) _ hr
    have hitems := parseItems_text items fuel (by omega) (out ++ [item.value]) rest
    simp only [Items.text, List.append_assoc, List.cons_append, parseItems, skipWhitespace_tree, hitem,
      Items.readable_more, Bool.and_eq_true]
    by_cases hi : item.readable = true
    · simp [hi, skipWhitespace_token after (show isSpace 0x2c = false by decide), hitems, Items.values]
    · simp [hi]
termination_by sizeOf items

theorem parseMembers_text (members : Members) (fuel : ℕ) (hf : 2 * members.text.length + 1 ≤ fuel)
    (out : List (Bytes × Value)) (rest : Bytes) : parseMembers fuel out (members.text ++ rest) =
      if members.readable then some (.object (members.values out), rest) else none := by
  obtain ⟨fuel, rfl⟩ : ∃ n, fuel = n + 1 := ⟨fuel - 1, by omega⟩
  cases members with
  | last before key colonBefore colonAfter member after =>
    simp only [Members.text, List.length_append, List.length_cons] at hf
    have hr : NoDigit (after.1 ++ 0x7d :: rest) := noDigit_gap after (noDigit_cons (by decide) rest)
    have hmember := parseValue_tree member fuel (by omega) _ hr
    simp only [Members.text, quoted, List.append_assoc, List.cons_append, List.nil_append, parseMembers,
      skipWhitespace_token before (show isSpace 0x22 = false by decide), parseString_pieces,
      skipWhitespace_token colonBefore (show isSpace 0x3a = false by decide), skipWhitespace_tree, hmember,
      Members.readable_last]
    by_cases hi : member.readable = true
    · simp [hi, skipWhitespace_token after (show isSpace 0x7d = false by decide), Members.values]
    · simp [hi]
  | more before key colonBefore colonAfter member after members =>
    simp only [Members.text, List.length_append, List.length_cons] at hf
    have hr : NoDigit (after.1 ++ 0x2c :: (members.text ++ rest)) := noDigit_gap after (noDigit_cons (by decide) _)
    have hmember := parseValue_tree member fuel (by omega) _ hr
    have hmembers := parseMembers_text members fuel (by omega)
      (setMember out (key.flatMap Piece.bytes) member.value) rest
    simp only [Members.text, quoted, List.append_assoc, List.cons_append, List.nil_append, parseMembers,
      skipWhitespace_token before (show isSpace 0x22 = false by decide), parseString_pieces,
      skipWhitespace_token colonBefore (show isSpace 0x3a = false by decide), skipWhitespace_tree, hmember,
      Members.readable_more, Bool.and_eq_true]
    by_cases hi : member.readable = true
    · simp [hi, skipWhitespace_token after (show isSpace 0x2c = false by decide), hmembers, Members.values]
    · simp [hi]
termination_by sizeOf members

end

theorem digits_split (text : Bytes) :
    ∃ (digits : List Digit) (rest : Bytes), text = digits.map (·.1) ++ rest ∧ NoDigit rest := by
  induction text with
  | nil => exact ⟨[], [], rfl, by rintro c ⟨⟩⟩
  | cons c text ih =>
    by_cases hc : isDigit c = true
    · obtain ⟨digits, rest, ht, hr⟩ := ih
      have hd : 0x30 ≤ c ∧ c ≤ 0x39 := by simpa [isDigit] using hc
      exact ⟨⟨c, hd⟩ :: digits, rest, congrArg (c :: ·) ht, hr⟩
    · exact ⟨[], c :: text, rfl, noDigit_cons (Bool.eq_false_iff.mpr hc) text⟩

theorem parseInteger_sound {text rest : Bytes} {v : Value} (h : parseInteger text = some (v, rest)) :
    ∃ n : Numeral, n.magnitude < 2 ^ 63 ∧ text = n.text ++ rest ∧ v = .integer (Int64.ofInt n.value) := by
  have hread (n : Numeral) (rest' : Bytes) (ht : text = n.text ++ rest') (hr : NoDigit rest') :
      ∃ n : Numeral, n.magnitude < 2 ^ 63 ∧ text = n.text ++ rest ∧ v = .integer (Int64.ofInt n.value) := by
    rw [ht, parseInteger_numeral n hr] at h
    split_ifs at h with hm
    cases h
    exact ⟨n, hm, ht, rfl⟩
  obtain ⟨negative, text', htext, hhead⟩ : ∃ (negative : Bool) (text' : Bytes),
      text = (if negative then [0x2d] else []) ++ text' ∧ (text'.head?.map isDigit).getD false = true := by
    unfold parseInteger at h
    by_cases hminus : text.head? = some 0x2d
    · obtain ⟨text', rfl⟩ := List.head?_eq_some_iff.mp hminus
      refine ⟨true, text', rfl, ?_⟩
      by_contra hd
      simp [hd] at h
    · refine ⟨false, text, rfl, ?_⟩
      by_contra hd
      simp [hminus, hd] at h
  obtain ⟨digits, rest', hdigits, hr⟩ := digits_split text'
  cases digits with
  | nil =>
    rw [List.map_nil, List.nil_append] at hdigits
    rw [hdigits] at hhead
    cases rest' with
    | nil => cases hhead
    | cons c rest' =>
      have hc := hr c rfl
      rw [List.head?_cons, Option.map_some, Option.getD_some, hc] at hhead
      cases hhead
  | cons first digits =>
    refine hread ⟨negative, first, digits⟩ rest' ?_ hr
    rw [htext, hdigits, Numeral.text, List.append_assoc]
    rfl

theorem parseKeyword_sound {keyword text rest : Bytes} {value v : Value}
    (h : parseKeyword keyword value text = some (v, rest)) : text = keyword ++ rest ∧ v = value := by
  unfold parseKeyword at h
  split_ifs at h with hp
  obtain ⟨rest', rfl⟩ := hp
  cases h
  exact ⟨by rw [List.drop_left], rfl⟩

theorem parseItems_cases {fuel : ℕ} {out : List Value} {text rest : Bytes} {v : Value}
    (h : parseItems (fuel + 1) out text = some (v, rest)) :
    ∃ item rest', parseValue fuel (skipWhitespace text) = some (item, rest') ∧
      ((∃ more, skipWhitespace rest' = 0x2c :: more ∧ parseItems fuel (out ++ [item]) more = some (v, rest)) ∨
        skipWhitespace rest' = 0x5d :: rest ∧ v = .array (out ++ [item])) := by
  rw [parseItems] at h
  split at h
  · cases h
  · rename_i item rest' hitem
    refine ⟨item, rest', hitem, ?_⟩
    split at h
    · rename_i c more hmore
      split_ifs at h with hcomma hclose
      · exact .inl ⟨more, by rw [hmore, hcomma], h⟩
      · cases h
        exact .inr ⟨by rw [hmore, hclose], rfl⟩
    · cases h

theorem parseMembers_cases {fuel : ℕ} {out : List (Bytes × Value)} {text rest : Bytes} {v : Value}
    (h : parseMembers (fuel + 1) out text = some (v, rest)) :
    ∃ quote key colon afterColon member rest', skipWhitespace text = 0x22 :: quote ∧
      parseString [] quote = some (key, colon) ∧ skipWhitespace colon = 0x3a :: afterColon ∧
      parseValue fuel (skipWhitespace afterColon) = some (member, rest') ∧
      ((∃ more, skipWhitespace rest' = 0x2c :: more ∧
          parseMembers fuel (setMember out key member) more = some (v, rest)) ∨
        skipWhitespace rest' = 0x7d :: rest ∧ v = .object (setMember out key member)) := by
  rw [parseMembers] at h
  split at h
  · cases h
  · rename_i q quote hquote
    split_ifs at h with hq
    rw [not_not.mp hq] at hquote
    split at h
    · cases h
    · rename_i key colon hkey
      split at h
      · cases h
      · rename_i c afterColon hcolon
        split_ifs at h with hc
        rw [not_not.mp hc] at hcolon
        split at h
        · cases h
        · rename_i member rest' hmember
          refine ⟨quote, key, colon, afterColon, member, rest', hquote, hkey, hcolon, hmember, ?_⟩
          split at h
          · rename_i c more hmore
            split_ifs at h with hcomma hclose
            · exact .inl ⟨more, by rw [hmore, hcomma], h⟩
            · cases h
              exact .inr ⟨by rw [hmore, hclose], rfl⟩
          · cases h

mutual

theorem parseValue_sound (fuel : ℕ) {text rest : Bytes} {v : Value} (h : parseValue fuel text = some (v, rest)) :
    ∃ t : Tree, t.readable = true ∧ text = t.text ++ rest ∧ v = t.value := by
  cases fuel with
  | zero => cases h
  | succ fuel =>
    cases text with
    | nil => cases h
    | cons c text =>
      obtain ⟨gap, hgap, -⟩ := skipWhitespace_split text
      rw [parseValue] at h
      simp only at h
      split_ifs at h with hobject hempty harray hempty hstring hnull hnumber
      · obtain ⟨rest', hrest⟩ := List.head?_eq_some_iff.mp hempty
        rw [hrest] at h hgap
        cases h
        exact ⟨.emptyObject gap, rfl, by simp [hobject, hgap, Tree.text], rfl⟩
      · rw [parseMembers_skip] at h
        obtain ⟨members, hr, rfl, rfl⟩ := parseMembers_sound fuel h
        exact ⟨.object members, hr, by rw [hobject, Tree.text, List.cons_append], rfl⟩
      · obtain ⟨rest', hrest⟩ := List.head?_eq_some_iff.mp hempty
        rw [hrest] at h hgap
        cases h
        exact ⟨.emptyArray gap, rfl, by simp [harray, hgap, Tree.text], rfl⟩
      · rw [parseItems_skip] at h
        obtain ⟨items, hr, rfl, rfl⟩ := parseItems_sound fuel h
        exact ⟨.array items, hr, by rw [harray, Tree.text, List.cons_append], rfl⟩
      · obtain ⟨⟨out, rest'⟩, hs, he⟩ := Option.map_eq_some_iff.mp h
        cases he
        obtain ⟨pieces, rfl, rfl⟩ := parseString_sound hs
        refine ⟨.string pieces, List.all_eq_true.mpr fun _ _ => rfl, ?_, rfl⟩
        rw [hstring, Tree.text, quoted, List.cons_append, List.append_assoc]
        rfl
      · obtain ⟨ht, rfl⟩ := parseKeyword_sound h
        exact ⟨.null, rfl, ht, rfl⟩
      · obtain ⟨n, hm, ht, rfl⟩ := parseInteger_sound h
        exact ⟨.integer n, decide_eq_true hm, ht, rfl⟩
termination_by fuel

theorem parseItems_sound (fuel : ℕ) {out : List Value} {text rest : Bytes} {v : Value}
    (h : parseItems fuel out text = some (v, rest)) :
    ∃ items : Items, items.readable = true ∧ text = items.text ++ rest ∧ v = .array (out ++ items.values) := by
  cases fuel with
  | zero => cases h
  | succ fuel =>
    obtain ⟨item, rest', hitem, hnext⟩ := parseItems_cases h
    obtain ⟨before, hbefore, -⟩ := skipWhitespace_split text
    obtain ⟨after, hafter, -⟩ := skipWhitespace_split rest'
    obtain ⟨t, ht, htext, rfl⟩ := parseValue_sound fuel hitem
    rcases hnext with ⟨more, hmore, h⟩ | ⟨hclose, rfl⟩
    · obtain ⟨items, hr, rfl, rfl⟩ := parseItems_sound fuel h
      refine ⟨.more before t after items, by rw [Items.readable_more, ht, hr]; rfl, ?_, ?_⟩
      · rw [hbefore, htext, hafter, hmore]
        simp [Items.text]
      · simp [Items.values]
    · refine ⟨.last before t after, ht, ?_, rfl⟩
      rw [hbefore, htext, hafter, hclose]
      simp [Items.text]
termination_by fuel

theorem parseMembers_sound (fuel : ℕ) {out : List (Bytes × Value)} {text rest : Bytes} {v : Value}
    (h : parseMembers fuel out text = some (v, rest)) :
    ∃ members : Members, members.readable = true ∧ text = members.text ++ rest ∧ v = .object (members.values out) := by
  cases fuel with
  | zero => cases h
  | succ fuel =>
    obtain ⟨quote, key, colon, afterColon, member, rest', hquote, hkey, hcolon, hmember, hnext⟩ := parseMembers_cases h
    obtain ⟨before, hbefore, -⟩ := skipWhitespace_split text
    obtain ⟨colonBefore, hcb, -⟩ := skipWhitespace_split colon
    obtain ⟨colonAfter, hca, -⟩ := skipWhitespace_split afterColon
    obtain ⟨after, hafter, -⟩ := skipWhitespace_split rest'
    obtain ⟨pieces, rfl, rfl⟩ := parseString_sound hkey
    obtain ⟨t, ht, htext, rfl⟩ := parseValue_sound fuel hmember
    rcases hnext with ⟨more, hmore, h⟩ | ⟨hclose, rfl⟩
    · obtain ⟨members, hr, rfl, rfl⟩ := parseMembers_sound fuel h
      refine ⟨.more before pieces colonBefore colonAfter t after members, by rw [Members.readable_more, ht, hr]; rfl,
        ?_, rfl⟩
      rw [hbefore, hquote, hcb, hcolon, hca, htext, hafter, hmore]
      simp [Members.text, quoted]
    · refine ⟨.last before pieces colonBefore colonAfter t after, by rw [Members.readable_last, ht], ?_, rfl⟩
      rw [hbefore, hquote, hcb, hcolon, hca, htext, hafter, hclose]
      simp [Members.text, quoted]
termination_by fuel

end

theorem noDigit_of_gap (gap : Gap) : NoDigit gap.1 := by
  have hnil : NoDigit [] := by rintro c ⟨⟩
  have h := noDigit_gap gap hnil
  rwa [List.append_nil] at h

theorem run_spelled {t : Tree} {text : Bytes} (h : Spells t text) {fuel : ℕ} (hf : 2 * text.length ≤ fuel) :
    (parseValue fuel (skipWhitespace text)).bind (fun r => if skipWhitespace r.2 = [] then some r.1 else none) =
      if t.readable then some t.value else none := by
  obtain ⟨before, after, rfl⟩ := h
  rw [List.length_append, List.length_append] at hf
  rw [skipWhitespace_tree, parseValue_tree t fuel (by omega) after.1 (noDigit_of_gap after)]
  split_ifs
  · rw [Option.bind_some, if_pos (skipWhitespace_all after)]
  · rfl

theorem run_sound {fuel : ℕ} {text : Bytes} {v : Value}
    (h : (parseValue fuel (skipWhitespace text)).bind
      (fun r => if skipWhitespace r.2 = [] then some r.1 else none) = some v) :
    ∃ t : Tree, t.readable = true ∧ Spells t text ∧ t.value = v := by
  obtain ⟨⟨value, rest⟩, hvalue, h⟩ := Option.bind_eq_some_iff.mp h
  split_ifs at h with hrest
  cases h
  obtain ⟨before, hbefore, -⟩ := skipWhitespace_split text
  obtain ⟨after, hafter, -⟩ := skipWhitespace_split rest
  obtain ⟨t, ht, htext, rfl⟩ := parseValue_sound fuel hvalue
  refine ⟨t, ht, ⟨before, after, ?_⟩, rfl⟩
  rw [hbefore, htext, hafter, hrest, List.append_nil]

theorem parse_run (text : Bytes) : parse text = (parseValue (2 * text.length + 2) (skipWhitespace text)).bind
    (fun r => if skipWhitespace r.2 = [] then some r.1 else none) := by
  rw [parse]
  cases parseValue (2 * text.length + 2) (skipWhitespace text) <;> rfl

theorem parse_spelled {t : Tree} {text : Bytes} (h : Spells t text) :
    parse text = if t.readable then some t.value else none := by
  rw [parse_run, run_spelled h (by omega)]

theorem parse_iff (text : Bytes) (v : Value) :
    parse text = some v ↔ ∃ t : Tree, t.readable = true ∧ Spells t text ∧ t.value = v := by
  constructor
  · intro h
    rw [parse_run] at h
    exact run_sound h
  · rintro ⟨t, ht, hs, rfl⟩
    rw [parse_spelled hs, if_pos ht]

theorem parse_fuel (text : Bytes) {fuel : ℕ} (hf : 2 * text.length ≤ fuel) :
    (parseValue fuel (skipWhitespace text)).bind (fun r => if skipWhitespace r.2 = [] then some r.1 else none) =
      parse text := by
  apply Option.ext
  intro v
  constructor
  · intro h
    obtain ⟨t, ht, hs, rfl⟩ := run_sound h
    exact (parse_iff text _).mpr ⟨t, ht, hs, rfl⟩
  · intro h
    obtain ⟨t, ht, hs, rfl⟩ := (parse_iff text v).mp h
    rw [run_spelled hs hf, if_pos ht]

end BankManagement.Json
