import BankManagement.Json
import Mathlib.Data.Int.Basic

namespace BankManagement.Json

theorem skipWhitespace_cons {c : UInt8} {text : Bytes} (h : isSpace c = false) :
    skipWhitespace (c :: text) = c :: text := by
  simp [skipWhitespace, h]

theorem digit_byte {d : ℕ} (h : d < 10) : d.digitChar.toUInt8 = (0x30 + d).toUInt8 := by
  revert d
  decide

theorem digit_value {d : ℕ} (h : d < 10) :
    isDigit (0x30 + d).toUInt8 = true ∧ (0x30 + d).toUInt8.toNat - 0x30 = d := by
  revert d
  decide

theorem digits_small {n : ℕ} (h : n < 10) : digits n = [(0x30 + n).toUInt8] := by
  simp [digits, Nat.toDigits_of_lt_base h, digit_byte h]

theorem digits_large {n : ℕ} (h : 10 ≤ n) : digits n = digits (n / 10) ++ [(0x30 + n % 10).toUInt8] := by
  have hd : n % 10 < 10 := Nat.mod_lt _ (by omega)
  simp [digits, Nat.toDigits_of_base_le (by omega : 1 < 10) h, digit_byte hd]

theorem digits_isDigit (n : ℕ) : ∀ c ∈ digits n, isDigit c = true := by
  induction n using Nat.strongRecOn with
  | ind n ih =>
    intro c hc
    by_cases h : n < 10
    · rw [digits_small h, List.mem_singleton] at hc
      rw [hc]
      exact (digit_value h).1
    · rw [digits_large (by omega), List.mem_append, List.mem_singleton] at hc
      rcases hc with hc | rfl
      · exact ih (n / 10) (by omega) c hc
      · exact (digit_value (Nat.mod_lt _ (by omega))).1

theorem digits_ne_nil (n : ℕ) : digits n ≠ [] := by
  simp [digits, Nat.toDigits_ne_nil]

theorem parseDigits_digit {d : ℕ} (h : d < 10) (value : ℕ) (rest : Bytes) :
    parseDigits value ((0x30 + d).toUInt8 :: rest) =
      if value * 10 + d < 2 ^ 63 then parseDigits (value * 10 + d) rest else none := by
  obtain ⟨hdig, hval⟩ := digit_value h
  simp only [parseDigits, hdig, ↓reduceIte, hval]
  by_cases hv : value * 10 + d < 2 ^ 63
  · rw [if_neg (by omega), if_pos hv]
  · rw [if_pos (by omega), if_neg hv]

theorem parseDigits_digits (n : ℕ) (rest : Bytes) :
    parseDigits 0 (digits n ++ rest) = if n < 2 ^ 63 then parseDigits n rest else none := by
  induction n using Nat.strongRecOn generalizing rest with
  | ind n ih =>
    by_cases h : n < 10
    · rw [digits_small h, List.singleton_append, parseDigits_digit h]
      simp
    · have hq : n / 10 * 10 + n % 10 = n := by omega
      rw [digits_large (by omega), List.append_assoc, ih (n / 10) (by omega), List.singleton_append,
        parseDigits_digit (Nat.mod_lt _ (by omega)), hq]
      split_ifs <;> first | rfl | omega

def NoDigit (rest : Bytes) : Prop := ∀ c ∈ rest.head?, isDigit c = false

theorem parseDigits_stop {rest : Bytes} (h : NoDigit rest) (n : ℕ) :
    parseDigits n rest = some (n, rest) := by
  cases rest with
  | nil => rfl
  | cons c rest => simp [parseDigits, h c rfl]

theorem natAbs_lt {n : Int64} : n.toInt.natAbs < 2 ^ 63 ↔ n ≠ Int64.minValue := by
  have hlt := n.toInt_lt
  have hle := n.le_toInt
  rw [Ne, ← Int64.toInt_inj, Int64.toInt_minValue]
  omega

theorem natAbs_neg {n : Int64} (h : n < 0) : -Int64.ofNat n.toInt.natAbs = n := by
  have hneg : n.toInt < 0 := by simpa using Int64.lt_iff_toInt_lt.mp h
  rw [Int64.neg_ofNat, show -(n.toInt.natAbs : ℤ) = n.toInt by omega, Int64.ofInt_toInt]

theorem natAbs_nonneg {n : Int64} (h : ¬ n < 0) : Int64.ofNat n.toInt.natAbs = n := by
  have hnn : 0 ≤ n.toInt := by
    by_contra hlt
    exact h (Int64.lt_iff_toInt_lt.mpr (by simpa using hlt))
  rw [← Int64.ofInt_eq_ofNat, show (n.toInt.natAbs : ℤ) = n.toInt by omega, Int64.ofInt_toInt]

theorem parseInteger_decimal (n : Int64) {rest : Bytes} (h : NoDigit rest) :
    parseInteger (decimal n ++ rest) = if n = Int64.minValue then none else some (.integer n, rest) := by
  obtain ⟨d, ds, hd⟩ := List.exists_cons_of_ne_nil (digits_ne_nil n.toInt.natAbs)
  have hdig : isDigit d = true := digits_isDigit n.toInt.natAbs d (by simp [hd])
  have hminus : d ≠ 0x2d := by rintro rfl; revert hdig; decide
  have hhead : (((digits n.toInt.natAbs ++ rest).head?).map isDigit).getD false = true := by simp [hd, hdig]
  have hparse : parseDigits 0 (digits n.toInt.natAbs ++ rest) =
      if n = Int64.minValue then none else some (n.toInt.natAbs, rest) := by
    rw [parseDigits_digits, parseDigits_stop h]
    by_cases hm : n = Int64.minValue
    · rw [if_pos hm, if_neg (fun hlt => natAbs_lt.mp hlt hm)]
    · rw [if_neg hm, if_pos (natAbs_lt.mpr hm)]
  by_cases hneg : n < 0
  · simp only [decimal, hneg, ↓reduceIte, parseInteger, List.cons_append, List.head?_cons, beq_self_eq_true,
      List.tail_cons, hhead, hparse]
    split_ifs
    · rfl
    · simp [natAbs_neg hneg]
  · have hne : ((digits n.toInt.natAbs ++ rest).head? == some 0x2d) = false := by simp [hd, hminus]
    simp only [decimal, hneg, ↓reduceIte, parseInteger, hne, Bool.false_eq_true, hhead, hparse]
    split_ifs
    · rfl
    · simp [natAbs_nonneg hneg]

theorem parseHex4_control {c : UInt8} (h : c < 0x20) :
    parseHex4 0x30 0x30 (hexDigit (c / 16)) (hexDigit (c % 16)) = some c.toNat ∧
      appendUtf8 c.toNat = [c] := by
  have hall : ∀ n < 32, parseHex4 0x30 0x30 (hexDigit (n.toUInt8 / 16)) (hexDigit (n.toUInt8 % 16)) =
      some n.toUInt8.toNat ∧ appendUtf8 n.toUInt8.toNat = [n.toUInt8] := by decide
  have hc : c.toNat.toUInt8 = c := by simp
  have hlt : c.toNat < 32 := by simpa [UInt8.lt_iff_toNat_lt] using h
  simpa only [hc] using hall c.toNat hlt

theorem parseString_quote (out rest : Bytes) : parseString out (0x22 :: rest) = some (out, rest) := by
  rw [parseString.eq_def]
  simp

theorem parseString_plain {c : UInt8} (hq : c ≠ 0x22) (hb : c ≠ 0x5c) (out rest : Bytes) :
    parseString out (c :: rest) = parseString (out ++ [c]) rest := by
  rw [parseString.eq_def]
  simp [hq, hb]

theorem parseString_letter {e b : UInt8} (hu : e ≠ 0x75) (he : unescape e = some b) (out rest : Bytes) :
    parseString out (0x5c :: e :: rest) = parseString (out ++ [b]) rest := by
  rw [parseString.eq_def]
  simp [hu, he]

theorem parseString_hex {a b c d : UInt8} {cp : ℕ} (hx : parseHex4 a b c d = some cp)
    (hs : ¬ (0xd800 ≤ cp ∧ cp ≤ 0xdfff)) (out rest : Bytes) :
    parseString out (0x5c :: 0x75 :: a :: b :: c :: d :: rest) = parseString (out ++ appendUtf8 cp) rest := by
  rw [parseString.eq_def]
  simp [hx, hs]

theorem parseString_escapeByte (out : Bytes) (c : UInt8) (rest : Bytes) :
    parseString out (escapeByte c ++ rest) = parseString (out ++ [c]) rest := by
  unfold escapeByte
  split_ifs with h1 h2 h3 h4 h5 h6 h7 h8
  · subst h1; exact parseString_letter (by decide) rfl out rest
  · subst h2; exact parseString_letter (by decide) rfl out rest
  · subst h3; exact parseString_letter (by decide) rfl out rest
  · subst h4; exact parseString_letter (by decide) rfl out rest
  · subst h5; exact parseString_letter (by decide) rfl out rest
  · subst h6; exact parseString_letter (by decide) rfl out rest
  · subst h7; exact parseString_letter (by decide) rfl out rest
  · obtain ⟨hhex, hutf⟩ := parseHex4_control h8
    have hlt : c.toNat < 32 := by simpa [UInt8.lt_iff_toNat_lt] using h8
    have hread := parseString_hex hhex (by omega) out rest
    rwa [hutf] at hread
  · exact parseString_plain h1 h2 out rest

theorem parseString_escaped (out text rest : Bytes) :
    parseString out (text.flatMap escapeByte ++ 0x22 :: rest) = some (out ++ text, rest) := by
  induction text generalizing out with
  | nil => simp [parseString_quote]
  | cons c text ih =>
    rw [List.flatMap_cons, List.append_assoc, parseString_escapeByte, ih, List.append_assoc]
    rfl

mutual

/-- No integer inside is the one `int64_t` that `parse_integer` cannot read. -/
def parseable : Value → Bool
  | .null => true
  | .integer n => decide (n ≠ Int64.minValue)
  | .string _ => true
  | .array items => parseableItems items
  | .object members => parseableMembers members

def parseableItems : List Value → Bool
  | [] => true
  | item :: rest => parseable item && parseableItems rest

def parseableMembers : List (Bytes × Value) → Bool
  | [] => true
  | (_, member) :: rest => parseable member && parseableMembers rest

end

mutual

def DistinctKeys : Value → Prop
  | .null => True
  | .integer _ => True
  | .string _ => True
  | .array items => DistinctKeysItems items
  | .object members => (members.map (·.1)).Nodup ∧ DistinctKeysMembers members

def DistinctKeysItems : List Value → Prop
  | [] => True
  | item :: rest => DistinctKeys item ∧ DistinctKeysItems rest

def DistinctKeysMembers : List (Bytes × Value) → Prop
  | [] => True
  | (_, member) :: rest => DistinctKeys member ∧ DistinctKeysMembers rest

end

theorem setMember_new {members : List (Bytes × Value)} {key : Bytes} (h : key ∉ members.map (·.1))
    (child : Value) : setMember members key child = members ++ [(key, child)] := by
  induction members with
  | nil => rfl
  | cons m members ih =>
    simp only [List.map_cons, List.mem_cons, not_or] at h
    simp [setMember, Ne.symm h.1, ih h.2]

theorem decimal_head (n : Int64) : ∃ c text, decimal n = c :: text ∧ (isDigit c || c == 0x2d) = true := by
  obtain ⟨d, ds, hd⟩ := List.exists_cons_of_ne_nil (digits_ne_nil n.toInt.natAbs)
  unfold decimal
  split_ifs
  · exact ⟨0x2d, _, rfl, by decide⟩
  · exact ⟨d, ds, hd, by simp [digits_isDigit n.toInt.natAbs d (by simp [hd])]⟩

theorem digit_or_minus {c : UInt8} (h : (isDigit c || c == 0x2d) = true) :
    isSpace c = false ∧ c ≠ 0x7b ∧ c ≠ 0x5b ∧ c ≠ 0x22 ∧ c ≠ 0x6e ∧ c ≠ 0x5d := by
  refine ⟨?_, ?_, ?_, ?_, ?_, ?_⟩
  · by_contra hs
    simp only [isSpace, Bool.not_eq_false, Bool.or_eq_true, beq_iff_eq, or_assoc] at hs
    rcases hs with rfl | rfl | rfl | rfl <;> revert h <;> decide
  all_goals
    rintro rfl
    revert h
    decide

theorem dump_head (v : Value) : ∃ c text, dump v = c :: text ∧ isSpace c = false ∧ c ≠ 0x5d := by
  cases v with
  | null => exact ⟨0x6e, [0x75, 0x6c, 0x6c], rfl, by decide, by decide⟩
  | integer n =>
    obtain ⟨c, text, hd, hc⟩ := decimal_head n
    exact ⟨c, text, hd, (digit_or_minus hc).1, (digit_or_minus hc).2.2.2.2.2⟩
  | string text => exact ⟨0x22, _, rfl, by decide, by decide⟩
  | array items => exact ⟨0x5b, _, rfl, by decide, by decide⟩
  | object members => exact ⟨0x7b, _, rfl, by decide, by decide⟩

theorem skipWhitespace_dump (v : Value) (rest : Bytes) : skipWhitespace (dump v ++ rest) = dump v ++ rest := by
  obtain ⟨c, text, hd, hc, _⟩ := dump_head v
  rw [hd, List.cons_append, skipWhitespace_cons hc]

theorem noDigit_cons {c : UInt8} (h : isDigit c = false) (rest : Bytes) : NoDigit (c :: rest) := by
  simpa [NoDigit] using h

theorem parseKeyword_null (rest : Bytes) :
    parseKeyword (ascii "null") .null (ascii "null" ++ rest) = some (.null, rest) := by
  simp [parseKeyword]

theorem dumpMembers_cons (first : Bool) (m : Bytes × Value) (members : List (Bytes × Value)) :
    dumpMembers first (m :: members) = (if first then [] else [0x2c]) ++ escaped m.1 ++
      0x3a :: (dump m.2 ++ dumpMembers false members) := rfl

theorem parseableMembers_cons (m : Bytes × Value) (members : List (Bytes × Value)) :
    parseableMembers (m :: members) = (parseable m.2 && parseableMembers members) := rfl

theorem dumpItems_noDigit (items : List Value) (rest : Bytes) :
    NoDigit (dumpItems false items ++ 0x5d :: rest) := by
  cases items <;> exact noDigit_cons (by decide) _

theorem dumpMembers_noDigit (members : List (Bytes × Value)) (rest : Bytes) :
    NoDigit (dumpMembers false members ++ 0x7d :: rest) := by
  cases members with
  | nil => exact noDigit_cons (by decide) _
  | cons m members => exact noDigit_cons (by decide) _

mutual

theorem parseValue_dump (v : Value) (hk : DistinctKeys v) (fuel : ℕ) (hf : 2 * (dump v).length ≤ fuel)
    (rest : Bytes) (hr : NoDigit rest) :
    parseValue fuel (dump v ++ rest) = if parseable v then some (v, rest) else none := by
  cases v with
  | null =>
    obtain ⟨fuel, rfl⟩ : ∃ n, fuel = n + 1 := ⟨fuel - 1, by simp [dump, ascii] at hf; omega⟩
    exact parseKeyword_null rest
  | integer n =>
    obtain ⟨c, text, hd, hc⟩ := decimal_head n
    obtain ⟨_, h1, h2, h3, h4, _⟩ := digit_or_minus hc
    have hp := parseInteger_decimal n hr
    simp only [dump, hd, List.length_cons] at hf
    obtain ⟨fuel, rfl⟩ : ∃ n, fuel = n + 1 := ⟨fuel - 1, by omega⟩
    change parseValue (fuel + 1) (decimal n ++ rest) = _
    rw [hd, List.cons_append] at hp ⊢
    rw [parseValue, if_neg h1, if_neg h2, if_neg h3, if_neg h4, if_pos hc, hp]
    by_cases hm : n = Int64.minValue <;> simp [hm, parseable]
  | string text =>
    simp only [dump, escaped, List.length_cons] at hf
    obtain ⟨fuel, rfl⟩ : ∃ n, fuel = n + 1 := ⟨fuel - 1, by omega⟩
    simp [dump, escaped, parseValue, parseString_escaped, parseable]
  | array items =>
    simp only [dump, List.length_cons, List.length_append, List.length_nil] at hf
    obtain ⟨fuel, rfl⟩ : ∃ n, fuel = n + 1 := ⟨fuel - 1, by omega⟩
    cases items with
    | nil => simp [dump, dumpItems, parseValue, skipWhitespace_cons, isSpace, parseable, parseableItems]
    | cons item items =>
      simp only [dumpItems, ↓reduceIte, List.nil_append] at hf
      have hitems := parseItems_dump item items hk fuel (by omega) [] rest
      obtain ⟨c, text, hd, hc, hne⟩ := dump_head item
      have hws : skipWhitespace (dump item ++ (dumpItems false items ++ 0x5d :: rest)) = _ :=
        skipWhitespace_dump item _
      have hhead : (dump item ++ (dumpItems false items ++ 0x5d :: rest)).head? ≠ some 0x5d := by
        simpa [hd] using hne
      simp only [List.append_assoc] at hitems
      simp only [dump, dumpItems, ↓reduceIte, List.nil_append, List.cons_append, List.append_assoc, parseValue,
        show (0x5b : UInt8) ≠ 0x7b by decide, hws, hhead, hitems]
      rfl
  | object members =>
    simp only [dump, List.length_cons, List.length_append, List.length_nil] at hf
    obtain ⟨fuel, rfl⟩ : ∃ n, fuel = n + 1 := ⟨fuel - 1, by omega⟩
    cases members with
    | nil => simp [dump, dumpMembers, parseValue, skipWhitespace_cons, isSpace, parseable, parseableMembers]
    | cons m members =>
      simp only [dumpMembers_cons, ↓reduceIte, List.nil_append] at hf
      have hmembers := parseMembers_dump m members hk.2 fuel (by omega) [] hk.1 rest
      simp only [List.append_assoc, escaped, List.cons_append] at hmembers
      simp only [List.nil_append] at hmembers
      simp only [dump, dumpMembers_cons, ↓reduceIte, List.nil_append, List.cons_append, List.append_assoc, parseValue,
        escaped, skipWhitespace_cons (show isSpace 0x22 = false by decide), List.head?_cons, Option.some.injEq,
        show (0x22 : UInt8) ≠ 0x7d by decide, hmembers]
      rfl
termination_by sizeOf v

theorem parseItems_dump (item : Value) (items : List Value) (hk : DistinctKeysItems (item :: items)) (fuel : ℕ)
    (hf : 2 * (dump item ++ dumpItems false items).length + 1 ≤ fuel) (out : List Value) (rest : Bytes) :
    parseItems fuel out (dump item ++ dumpItems false items ++ 0x5d :: rest) =
      if parseableItems (item :: items) then some (.array (out ++ item :: items), rest) else none := by
  obtain ⟨fuel, rfl⟩ : ∃ n, fuel = n + 1 := ⟨fuel - 1, by omega⟩
  simp only [List.length_append] at hf
  have hitem := parseValue_dump item hk.1 fuel (by omega) _ (dumpItems_noDigit items rest)
  rw [List.append_assoc]
  simp only [parseItems, skipWhitespace_dump, hitem, parseableItems, Bool.and_eq_true]
  by_cases hp : parseable item
  · cases items with
    | nil => simp [hp, dumpItems, skipWhitespace_cons, isSpace, parseableItems]
    | cons next items =>
      simp only [dumpItems, Bool.false_eq_true, ↓reduceIte, List.length_append, List.length_cons,
        List.length_nil] at hf
      have hrest := parseItems_dump next items hk.2 fuel (by simp only [List.length_append]; omega)
        (out ++ [item]) rest
      simp only [hp, ↓reduceIte, dumpItems, Bool.false_eq_true, List.cons_append, List.nil_append,
        skipWhitespace_cons (show isSpace 0x2c = false by decide), List.append_assoc, true_and]
      simpa only [List.append_assoc, List.singleton_append] using hrest
  · simp [hp]
termination_by sizeOf (item :: items)

theorem parseMembers_dump (m : Bytes × Value) (members : List (Bytes × Value))
    (hk : DistinctKeysMembers (m :: members)) (fuel : ℕ)
    (hf : 2 * (escaped m.1 ++ 0x3a :: (dump m.2 ++ dumpMembers false members)).length + 1 ≤ fuel)
    (out : List (Bytes × Value)) (hn : ((out ++ m :: members).map (·.1)).Nodup) (rest : Bytes) :
    parseMembers fuel out (escaped m.1 ++ 0x3a :: (dump m.2 ++ dumpMembers false members) ++ 0x7d :: rest) =
      if parseableMembers (m :: members) then some (.object (out ++ m :: members), rest) else none := by
  obtain ⟨fuel, rfl⟩ : ∃ n, fuel = n + 1 := ⟨fuel - 1, by omega⟩
  simp only [List.length_append, List.length_cons] at hf
  have hsize : sizeOf m.2 < sizeOf m := by
    cases m
    simp only [Prod.mk.sizeOf_spec]
    omega
  have hmember := parseValue_dump m.2 hk.1 fuel (by omega) _ (dumpMembers_noDigit members rest)
  have hnew : m.1 ∉ out.map (·.1) := by
    intro hin
    simp only [List.map_append, List.map_cons, List.nodup_append] at hn
    exact hn.2.2 m.1 hin m.1 List.mem_cons_self rfl
  simp only [escaped, List.cons_append, List.append_assoc, List.nil_append, parseMembers,
    skipWhitespace_cons (show isSpace 0x22 = false by decide), ne_eq, not_true_eq_false, ↓reduceIte,
    parseString_escaped, skipWhitespace_cons (show isSpace 0x3a = false by decide), skipWhitespace_dump, hmember,
    parseableMembers_cons, Bool.and_eq_true]
  by_cases hp : parseable m.2
  · cases members with
    | nil => simp [hp, dumpMembers, skipWhitespace_cons, isSpace, parseableMembers, setMember_new hnew]
    | cons next members =>
      simp only [dumpMembers_cons, Bool.false_eq_true, ↓reduceIte, List.length_append, List.length_cons,
        List.length_nil] at hf
      have hrest := parseMembers_dump next members hk.2 fuel
        (by simp only [List.length_append, List.length_cons]; omega) (out ++ [m])
        (by simpa only [List.append_assoc, List.singleton_append] using hn) rest
      simp only [escaped, List.cons_append, List.append_assoc, List.nil_append] at hrest
      simp only [hp, ↓reduceIte, dumpMembers_cons, Bool.false_eq_true, List.cons_append, List.nil_append, escaped,
        List.append_assoc, skipWhitespace_cons (show isSpace 0x2c = false by decide), setMember_new hnew,
        hrest, true_and]
  · simp [hp]
termination_by sizeOf (m :: members)

end

theorem parse_dump_space (v : Value) (hk : DistinctKeys v) {rest : Bytes} (hr : NoDigit rest)
    (hs : skipWhitespace rest = []) : parse (dump v ++ rest) = if parseable v then some v else none := by
  have hws := skipWhitespace_dump v rest
  have hv := parseValue_dump v hk (2 * (dump v ++ rest).length + 2) (by rw [List.length_append]; omega) rest hr
  simp only [parse, hws, hv]
  by_cases hp : parseable v <;> simp [hp, hs]

theorem parse_dump (v : Value) (hk : DistinctKeys v) :
    parse (dump v) = if parseable v then some v else none := by
  have h := parse_dump_space v hk (show NoDigit [] by simp [NoDigit]) rfl
  rwa [List.append_nil] at h

theorem hexDigit_printable {n : UInt8} (h : n < 16) : 0x20 ≤ hexDigit n := by
  have hall : ∀ m < 16, 0x20 ≤ hexDigit m.toUInt8 := by decide
  have hn : n.toNat.toUInt8 = n := by simp
  simpa only [hn] using hall n.toNat (by simpa [UInt8.lt_iff_toNat_lt] using h)

theorem escapeByte_printable (c : UInt8) : ∀ b ∈ escapeByte c, 0x20 ≤ b := by
  unfold escapeByte
  split_ifs with h1 h2 h3 h4 h5 h6 h7 h8
  iterate 7 decide +kernel
  · intro b hb
    simp only [List.mem_cons, List.not_mem_nil, or_false] at hb
    rcases hb with rfl | rfl | rfl | rfl | rfl | rfl
    iterate 4 decide +kernel
    · exact hexDigit_printable (UInt8.lt_iff_toNat_lt.mpr (by
        have := UInt8.lt_iff_toNat_lt.mp h8
        simp only [UInt8.toNat_div, UInt8.reduceToNat] at *
        omega))
    · exact hexDigit_printable (UInt8.mod_lt c (by decide))
  · intro b hb
    rw [List.mem_singleton] at hb
    rw [hb]
    exact UInt8.not_lt.mp h8

theorem escaped_printable (text : Bytes) : ∀ b ∈ escaped text, 0x20 ≤ b := by
  intro b hb
  simp only [escaped, List.mem_cons, List.mem_append, List.mem_flatMap, List.not_mem_nil, or_false] at hb
  rcases hb with rfl | ⟨c, _, hb⟩ | rfl
  · decide
  · exact escapeByte_printable c b hb
  · decide

theorem isDigit_printable {c : UInt8} (h : isDigit c = true) : 0x20 ≤ c := by
  simp only [isDigit, Bool.and_eq_true, decide_eq_true_eq] at h
  exact UInt8.le_trans (by decide) h.1

theorem decimal_printable (n : Int64) : ∀ b ∈ decimal n, 0x20 ≤ b := by
  intro b hb
  unfold decimal at hb
  split_ifs at hb
  · rcases List.mem_cons.mp hb with rfl | hb
    · decide
    · exact isDigit_printable (digits_isDigit _ b hb)
  · exact isDigit_printable (digits_isDigit _ b hb)

mutual

theorem dump_printable (v : Value) : ∀ b ∈ dump v, 0x20 ≤ b := by
  intro b hb
  cases v with
  | null => revert b; decide +kernel
  | integer n => exact decimal_printable n b hb
  | string text => exact escaped_printable text b hb
  | array items =>
    simp only [dump, List.mem_cons, List.mem_append, List.not_mem_nil, or_false] at hb
    rcases hb with rfl | hb | rfl
    · decide
    · exact dumpItems_printable true items b hb
    · decide
  | object members =>
    simp only [dump, List.mem_cons, List.mem_append, List.not_mem_nil, or_false] at hb
    rcases hb with rfl | hb | rfl
    · decide
    · exact dumpMembers_printable true members b hb
    · decide
termination_by sizeOf v

theorem dumpItems_printable (first : Bool) (items : List Value) : ∀ b ∈ dumpItems first items, 0x20 ≤ b := by
  intro b hb
  cases items with
  | nil => simp [dumpItems] at hb
  | cons item items =>
    simp only [dumpItems, List.mem_append] at hb
    rcases hb with (hb | hb) | hb
    · revert b; cases first <;> decide +kernel
    · exact dump_printable item b hb
    · exact dumpItems_printable false items b hb
termination_by sizeOf items

theorem dumpMembers_printable (first : Bool) (members : List (Bytes × Value)) :
    ∀ b ∈ dumpMembers first members, 0x20 ≤ b := by
  intro b hb
  cases members with
  | nil => simp [dumpMembers] at hb
  | cons m members =>
    have hsize : sizeOf m.2 < sizeOf m := by
      cases m
      simp only [Prod.mk.sizeOf_spec]
      omega
    simp only [dumpMembers_cons, List.mem_append, List.mem_cons] at hb
    rcases hb with (hb | hb) | rfl | hb | hb
    · revert b; cases first <;> decide +kernel
    · exact escaped_printable m.1 b hb
    · decide
    · exact dump_printable m.2 b hb
    · exact dumpMembers_printable false members b hb
termination_by sizeOf members
decreasing_by
  all_goals
    subst_vars
    simp only [List.cons.sizeOf_spec]
    omega

end

theorem setMember_keys (members : List (Bytes × Value)) (key : Bytes) (child : Value) :
    (setMember members key child).map (·.1) =
      if key ∈ members.map (·.1) then members.map (·.1) else members.map (·.1) ++ [key] := by
  induction members with
  | nil => rfl
  | cons m members ih =>
    obtain ⟨k, v⟩ := m
    by_cases hk : k = key
    · subst hk
      simp [setMember]
    · rw [setMember, if_neg hk, List.map_cons, ih, List.map_cons]
      have hmem : key ∈ k :: members.map (·.1) ↔ key ∈ members.map (·.1) := by
        rw [List.mem_cons]
        exact or_iff_right (Ne.symm hk)
      simp only [hmem]
      split_ifs <;> rfl

theorem setMember_distinct {members : List (Bytes × Value)} {child : Value} (hm : DistinctKeysMembers members)
    (hc : DistinctKeys child) (key : Bytes) : DistinctKeysMembers (setMember members key child) := by
  induction members with
  | nil => exact ⟨hc, trivial⟩
  | cons m members ih =>
    obtain ⟨k, v⟩ := m
    rw [setMember]
    split_ifs
    · exact ⟨hc, hm.2⟩
    · exact ⟨hm.1, ih hm.2⟩

theorem distinctKeysItems_append {items : List Value} {child : Value} (hi : DistinctKeysItems items)
    (hc : DistinctKeys child) : DistinctKeysItems (items ++ [child]) := by
  induction items with
  | nil => exact ⟨hc, trivial⟩
  | cons item items ih => exact ⟨hi.1, ih hi.2⟩

theorem Value.Built.distinctKeys {v : Value} (h : v.Built) : DistinctKeys v := by
  induction h with
  | null => trivial
  | integer n => trivial
  | string text => trivial
  | array => trivial
  | object => exact ⟨List.nodup_nil, trivial⟩
  | set hv hc h ihv ihc =>
    unfold Value.set at h
    split at h <;> cases h
    refine ⟨?_, setMember_distinct ihv.2 ihc _⟩
    rw [setMember_keys]
    split_ifs with hmem
    · exact ihv.1
    · exact List.nodup_append.mpr ⟨ihv.1, List.pairwise_singleton _ _, by
        rintro k hk k' hk' rfl
        rw [List.mem_singleton.mp hk'] at hk
        exact hmem hk⟩
  | push hv hc h ihv ihc =>
    unfold Value.push at h
    split at h <;> cases h
    exact distinctKeysItems_append ihv ihc

/-- A value made through the interface is read back as it is, member order included, from a text
that fits on one line. -/
theorem built_roundTrip {v : Value} (h : v.Built) (hi : parseable v = true) :
    parse (dump v) = some v ∧ ∀ b ∈ dump v, 0x20 ≤ b := by
  rw [parse_dump v h.distinctKeys, if_pos hi]
  exact ⟨rfl, dump_printable v⟩

def quotedMember : Value := .object [([0x00, 0x22], .array [.integer (-5), .null])]

theorem quotedMember_roundTrip : quotedMember.Built ∧ parseable quotedMember = true ∧
    parse (dump quotedMember) = some quotedMember ∧ ∀ b ∈ dump quotedMember, 0x20 ≤ b := by
  have hbuilt : quotedMember.Built := by
    refine .set .object ?_ (rfl : Value.set (.object []) [0x00, 0x22] _ = _)
    exact .push (.push .array (.integer (-5)) rfl) .null rfl
  exact ⟨hbuilt, rfl, built_roundTrip hbuilt rfl⟩

end BankManagement.Json
