import BankManagement.JsonParser
import BankManagement.Serializer

namespace BankManagement

namespace Json

theorem setMember_parseable {members : List (Bytes × Value)} {key : Bytes} {child : Value}
    (h : parseableMembers members = true) (hc : parseable child = true) :
    parseableMembers (setMember members key child) = true := by
  induction members with
  | nil => simp [setMember, parseableMembers, hc]
  | cons m members ih =>
    rw [parseableMembers_cons, Bool.and_eq_true] at h
    unfold setMember
    split_ifs
    · rw [parseableMembers_cons, Bool.and_eq_true]
      exact ⟨hc, h.2⟩
    · rw [parseableMembers_cons, Bool.and_eq_true]
      exact ⟨h.1, ih h.2⟩

theorem numeral_ne_min {n : Numeral} (h : n.magnitude < 2 ^ 63) : Int64.ofInt n.value ≠ Int64.minValue := by
  intro hmin
  have hvalue : -2 ^ 63 < n.value ∧ n.value < 2 ^ 63 := by
    unfold Numeral.value
    split_ifs <;> omega
  have hint := congrArg Int64.toInt hmin
  rw [Int64.toInt_ofInt_of_le (by omega) hvalue.2, Int64.toInt_minValue] at hint
  omega

mutual

theorem Tree.value_parseable (t : Tree) (h : t.readable = true) : parseable t.value = true := by
  cases t with
  | null | string | emptyArray | emptyObject => rfl
  | integer n =>
    have hm : n.magnitude < 2 ^ 63 := of_decide_eq_true h
    exact decide_eq_true (numeral_ne_min hm)
  | array items => exact items.values_parseable h
  | object members => exact members.values_parseable h rfl

theorem Items.values_parseable (items : Items) (h : items.readable = true) : parseableItems items.values = true := by
  cases items with
  | last before item after =>
    rw [Items.readable_last] at h
    simp [Items.values, parseableItems, item.value_parseable h]
  | more before item after rest =>
    rw [Items.readable_more, Bool.and_eq_true] at h
    simp [Items.values, parseableItems, item.value_parseable h.1, rest.values_parseable h.2]

theorem Members.values_parseable (members : Members) {out : List (Bytes × Value)} (h : members.readable = true)
    (ho : parseableMembers out = true) : parseableMembers (members.values out) = true := by
  cases members with
  | last before key colonBefore colonAfter member after =>
    rw [Members.readable_last] at h
    exact setMember_parseable ho (member.value_parseable h)
  | more before key colonBefore colonAfter member after rest =>
    rw [Members.readable_more, Bool.and_eq_true] at h
    exact rest.values_parseable h.2 (setMember_parseable ho (member.value_parseable h.1))

end

theorem parse_parseable {text : Bytes} {v : Value} (h : parse text = some v) : parseable v = true := by
  obtain ⟨t, ht, _, rfl⟩ := (parse_iff text v).mp h
  exact t.value_parseable ht

theorem setMember_nodup {members : List (Bytes × Value)} (h : (members.map (·.1)).Nodup) (key : Bytes) (child : Value) :
    ((setMember members key child).map (·.1)).Nodup := by
  rw [setMember_keys]
  split_ifs with hmem
  · exact h
  · apply List.nodup_append.mpr
    refine ⟨h, List.pairwise_singleton _ key, ?_⟩
    rintro k hk k' hk' rfl
    exact hmem (List.mem_singleton.mp hk' ▸ hk)

mutual

theorem Tree.value_distinct (t : Tree) : DistinctKeys t.value := by
  cases t with
  | null | integer | string | emptyArray => trivial
  | emptyObject => exact ⟨List.nodup_nil, trivial⟩
  | array items => exact items.values_distinct
  | object members => exact members.values_distinct List.nodup_nil trivial

theorem Items.values_distinct (items : Items) : DistinctKeysItems items.values := by
  cases items with
  | last before item after => exact ⟨item.value_distinct, trivial⟩
  | more before item after rest => exact ⟨item.value_distinct, rest.values_distinct⟩

theorem Members.values_distinct (members : Members) {out : List (Bytes × Value)} (hkeys : (out.map (·.1)).Nodup)
    (ho : DistinctKeysMembers out) :
    ((members.values out).map (·.1)).Nodup ∧ DistinctKeysMembers (members.values out) := by
  cases members with
  | last before key colonBefore colonAfter member after =>
    exact ⟨setMember_nodup hkeys _ _, setMember_distinct ho member.value_distinct _⟩
  | more before key colonBefore colonAfter member after rest =>
    apply rest.values_distinct
    · exact setMember_nodup hkeys _ _
    · exact setMember_distinct ho member.value_distinct _

end

theorem parse_distinct {text : Bytes} {v : Value} (h : parse text = some v) : DistinctKeys v := by
  obtain ⟨t, _, _, rfl⟩ := (parse_iff text v).mp h
  exact t.value_distinct

theorem parse_dump_parsed {text : Bytes} {v : Value} (h : parse text = some v) : parse (dump v) = some v := by
  rw [parse_dump v (parse_distinct h), if_pos (parse_parseable h)]

/-- What has been read is written in one way: on one line, which is read as the same value, and two
texts are written alike exactly if they say the same. -/
theorem parse_rewritten {text text' : Bytes} {v v' : Value} (h : parse text = some v) (h' : parse text' = some v') :
    parse (dump v) = some v ∧ (∀ b ∈ dump v, 0x20 ≤ b) ∧ (dump v = dump v' ↔ v = v') := by
  refine ⟨parse_dump_parsed h, dump_printable v, ?_, congrArg dump⟩
  intro hdump
  have hv : parse (dump v') = some v := hdump ▸ parse_dump_parsed h
  exact Option.some.inj (hv.symm.trans (parse_dump_parsed h'))

def looseText : Bytes := ascii "[\x7b\"a\": 5,\t\"\\u0061\" : -0\x7d ]"

theorem looseText_rewritten : ∃ v v', parse looseText = some v ∧ parse (ascii "[\x7b\"a\":0\x7d]") = some v' ∧
    parse (dump v) = some v ∧ v = v' := by
  have hloose : (parse looseText).map dump = some (ascii "[\x7b\"a\":0\x7d]") := by decide +kernel
  have htight : (parse (ascii "[\x7b\"a\":0\x7d]")).map dump = some (ascii "[\x7b\"a\":0\x7d]") := by decide +kernel
  obtain ⟨v, hv, hdump⟩ := Option.map_eq_some_iff.mp hloose
  obtain ⟨v', hv', hdump'⟩ := Option.map_eq_some_iff.mp htight
  obtain ⟨hagain, -, halike⟩ := parse_rewritten hv hv'
  exact ⟨v, v', hv, hv', hagain, halike.mp (hdump.trans hdump'.symm)⟩

theorem find_parseable {v w : Value} {key : Bytes} (h : parseable v = true) (hf : v.find key = some w) :
    parseable w = true := by
  obtain ⟨m, hm, rfl⟩ := Option.map_eq_some_iff.mp hf
  cases v with
  | null | integer | string | array => cases hm
  | object members =>
    replace h : parseableMembers members = true := h
    have hmem : m ∈ members := List.mem_of_find?_eq_some hm
    clear hm hf
    induction members with
    | nil => cases hmem
    | cons head members ih =>
      rw [parseableMembers_cons, Bool.and_eq_true] at h
      obtain rfl | hmem := List.mem_cons.mp hmem
      · exact h.1
      · exact ih h.2 hmem

end Json

namespace Codec

open Json

variable {doc : Value} {r : TransactionRecord} {line : Bytes} {key : Bytes}

theorem intOf_eq_some {n : Int64} : intOf doc key = some n ↔ doc.find key = some (.integer n) := by
  unfold intOf
  cases h : doc.find key with
  | none => simp
  | some v => cases v <;> simp [Value.asInteger]

theorem strOf_eq_some {text : Bytes} : strOf doc key = some text ↔ doc.find key = some (.string text) := by
  unfold strOf
  cases h : doc.find key with
  | none => simp
  | some v => cases v <;> simp [Value.asString]

theorem optIdOf_eq_some {k : Option AccountId} (h : optIdOf doc key = some k) :
    doc.find key = some (accountId k) ∧ Small k := by
  unfold optIdOf at h
  cases hf : doc.find key with
  | none => simp [hf] at h
  | some v =>
    rw [hf] at h
    cases v with
    | null =>
      obtain rfl := Option.some.inj h
      exact ⟨rfl, by rintro i ⟨⟩⟩
    | integer n =>
      simp only [Value.asInteger] at h
      split_ifs at h with hneg
      obtain rfl := Option.some.inj h
      refine ⟨by simp [accountId], ?_⟩
      rintro i ⟨⟩
      exact toUInt64_lt hneg
    | string | array | object => cases h

theorem TransactionType_toString {text : Bytes} {type : TransactionType}
    (h : TransactionType.fromString text = some type) : type.toString = text := by
  unfold TransactionType.fromString at h
  split_ifs at h with h1 h2 h3
  · obtain rfl := Option.some.inj h
    exact h1.symm
  · obtain rfl := Option.some.inj h
    exact h2.symm
  · obtain rfl := Option.some.inj h
    exact h3.symm

theorem TransactionState_toString {text : Bytes} {state : TransactionState}
    (h : TransactionState.fromString text = some state) : state.toString = text := by
  unfold TransactionState.fromString at h
  split_ifs at h with h1 h2 h3 h4 h5 h6 h7
  all_goals
    obtain rfl := Option.some.inj h
    exact (by assumption : text = _).symm

structure Says (doc : Value) (ts : Int64) (r : TransactionRecord) : Prop where
  id : doc.find kId = some (.integer r.id.toInt64)
  time : doc.find kTs = some (.integer ts)
  timestamp : r.timestamp = fromUnixMs ts
  type : doc.find kType = some (.string r.type.toString)
  state : doc.find kState = some (.string r.state.toString)
  fromId : doc.find kFrom = some (accountId r.fromId) ∧ Small r.fromId
  toId : doc.find kTo = some (accountId r.toId) ∧ Small r.toId
  amount : doc.find kAmount = some (.integer (Int64.ofNat r.amount.cents))

theorem transactionFromJson_says (h : transactionFromJson doc = some r) : ∃ ts, Says doc ts r := by
  unfold transactionFromJson at h
  split_ifs at h
  simp only [Option.bind_eq_bind, Option.bind_eq_some_iff] at h
  obtain ⟨id, hid, ts, hts, type, htype, state, hstate, fromId, hfrom, toId, hto, amount, hamount, h⟩ := h
  split_ifs at h with hneg
  simp only [Option.bind_eq_some_iff] at h
  obtain ⟨type', htype', state', hstate', h⟩ := h
  obtain rfl := Option.some.inj h
  refine ⟨ts, intOf_eq_some.mp hid, intOf_eq_some.mp hts, rfl, ?_, ?_, optIdOf_eq_some hfrom, optIdOf_eq_some hto, ?_⟩
  · dsimp only
    rw [TransactionType_toString htype']
    exact strOf_eq_some.mp htype
  · dsimp only
    rw [TransactionState_toString hstate']
    exact strOf_eq_some.mp hstate
  · have hcents : Int64.ofNat (Money.ofCents amount hneg).cents = amount := by
      apply Int64.toInt_inj.mp
      rw [Int64.toInt_ofNat_of_lt (Money.ofCents amount hneg).lt]
      change (amount.toInt.toNat : Int) = amount.toInt
      rw [Int64.lt_iff_toInt_lt] at hneg
      have h0 : (0 : Int64).toInt = 0 := rfl
      omega
    rw [hcents]
    exact intOf_eq_some.mp hamount

theorem toUnixMs_fromUnixMs {ts : Int64} :
    toUnixMs (fromUnixMs ts) = ts ↔ -9223372036854 ≤ ts.toInt ∧ ts.toInt ≤ 9223372036854 := by
  have hint : (toUnixMs (fromUnixMs ts)).toInt = ((ts.toInt * 1000000).bmod (2 ^ 64)).tdiv 1000000 := by
    rw [toUnixMs_toInt, fromUnixMs, Int64.toInt_mul]
    rfl
  constructor
  · intro h
    rw [h] at hint
    have hlow : -(2 ^ 64 : Int) / 2 ≤ (ts.toInt * 1000000).bmod (2 ^ 64) := Int.le_bmod (by decide)
    have hhigh : (ts.toInt * 1000000).bmod (2 ^ 64) < ((2 ^ 64 : Int) + 1) / 2 := Int.bmod_lt (by decide)
    rw [Int.tdiv_eq_ediv] at hint
    split_ifs at hint
    · omega
    · have hs : Int.sign 1000000 = 1 := rfl
      omega
  · rintro ⟨hlow, hhigh⟩
    apply Int64.toInt_inj.mp
    rw [hint, Int.bmod_eq_of_le (by omega) (by omega), Int.mul_tdiv_cancel _ (by decide)]

def transactionKeys : List Bytes := [kId, kTs, kType, kState, kFrom, kTo, kAmount]

structure Faithful (doc : Value) (ts : Int64) (r : TransactionRecord) : Prop where
  inRange : -2 ^ 63 ≤ ts.toInt * 1000000 ∧ ts.toInt * 1000000 < 2 ^ 63
  rewritten : ∃ doc', parse (serialize r) = some doc' ∧ ∀ key ∈ transactionKeys, doc'.find key = doc.find key

variable {ts : Int64}

theorem Says.parse_serialize (h : Says doc ts r) (hp : parseable doc = true) :
    parse (serialize r) = some (transactionToJson r) := by
  have hid : r.id.toNat ≠ 2 ^ 63 := by
    have hmin : r.id.toInt64 ≠ Int64.minValue := of_decide_eq_true (find_parseable hp h.id)
    rwa [Ne, toInt64_min] at hmin
  have hsmall {k : Option AccountId} (hk : Small k) : ∀ i ∈ k, i.toNat ≠ 2 ^ 63 :=
    fun i hi => Nat.ne_of_lt (hk i hi)
  unfold serialize
  rw [parse_dump _ (transactionToJson_keys r), if_pos]
  exact (transactionToJson_parseable r).mpr ⟨hid, hsmall h.fromId.2, hsmall h.toId.2⟩

theorem Says.find (h : Says doc ts r) (hts : toUnixMs r.timestamp = ts ∨ key ≠ kTs) (hkey : key ∈ transactionKeys) :
    (transactionToJson r).find key = doc.find key := by
  have hts' : (transactionToJson r).find kTs = some (.integer (toUnixMs r.timestamp)) := rfl
  unfold transactionKeys at hkey
  simp only [List.mem_cons, List.not_mem_nil, or_false] at hkey
  obtain rfl | rfl | rfl | rfl | rfl | rfl | rfl := hkey
  · exact h.id.symm
  · rw [hts', hts.resolve_right (fun hne => hne rfl)]
    exact h.time.symm
  · exact h.type.symm
  · exact h.state.symm
  · exact h.fromId.1.symm
  · exact h.toId.1.symm
  · exact h.amount.symm

/-- A line that is accepted is read for what it says exactly where its time is in the range of the clock. -/
theorem deserialize_faithful_iff (h : deserializeTransaction line = some r) : ∃ doc ts, parse line = some doc ∧
    doc.find kTs = some (.integer ts) ∧
      (Faithful doc ts r ↔ -9223372036854 ≤ ts.toInt ∧ ts.toInt ≤ 9223372036854) ∧
        ∀ key ∈ transactionKeys, key ≠ kTs → (transactionToJson r).find key = doc.find key := by
  obtain ⟨doc, hdoc, h⟩ := Option.bind_eq_some_iff.mp h
  obtain ⟨ts, hread⟩ := transactionFromJson_says h
  have hwritten := hread.parse_serialize (parse_parseable hdoc)
  refine ⟨doc, ts, hdoc, hread.time, ?_, fun key hkey hne => hread.find (.inr hne) hkey⟩
  constructor
  · intro hf
    obtain ⟨doc', hdoc', hfields⟩ := hf.rewritten
    obtain rfl := Option.some.inj (hwritten.symm.trans hdoc')
    have hts : some (Value.integer (toUnixMs r.timestamp)) = some (.integer ts) :=
      (hfields kTs (by decide)).trans hread.time
    rw [hread.timestamp] at hts
    exact toUnixMs_fromUnixMs.mp (Value.integer.inj (Option.some.inj hts))
  · intro hbounds
    refine ⟨by omega, _, hwritten, fun key hkey => hread.find (.inl ?_) hkey⟩
    rw [hread.timestamp]
    exact toUnixMs_fromUnixMs.mpr hbounds

def depositLine (ts : String) : Bytes :=
  ascii ("\x7b\"id\":1,\"ts\":" ++ ts ++ ",\"type\":\"deposit\",\"state\":\"pending\",\"from\":null,\"to\":7,\"amount\":5\x7d")

theorem depositLine_faithful : deserializeTransaction (depositLine "1700000000000") =
      some ⟨1, 1700000000000000000, .deposit, .pending, none, some 7, 5⟩ ∧
    ∃ doc ts, parse (depositLine "1700000000000") = some doc ∧ doc.find kTs = some (.integer ts) ∧
      (Faithful doc ts ⟨1, 1700000000000000000, .deposit, .pending, none, some 7, 5⟩ ↔
        -9223372036854 ≤ ts.toInt ∧ ts.toInt ≤ 9223372036854) ∧
      ∀ key ∈ transactionKeys, key ≠ kTs →
        (transactionToJson ⟨1, 1700000000000000000, .deposit, .pending, none, some 7, 5⟩).find key = doc.find key := by
  have h : deserializeTransaction (depositLine "1700000000000") =
      some ⟨1, 1700000000000000000, .deposit, .pending, none, some 7, 5⟩ := by decide +kernel
  exact ⟨h, deserialize_faithful_iff h⟩

theorem depositLine_not_faithful :
    deserializeTransaction (depositLine "9223372036855") =
      some ⟨1, -9223372036854551616, .deposit, .pending, none, some 7, 5⟩ ∧
    toUnixMs (-9223372036854551616) = -9223372036854 ∧
    ¬ ∀ line r, deserializeTransaction line = some r →
      ∃ doc ts, parse line = some doc ∧ doc.find kTs = some (.integer ts) ∧ Faithful doc ts r := by
  have hline : deserializeTransaction (depositLine "9223372036855") =
      some ⟨1, -9223372036854551616, .deposit, .pending, none, some 7, 5⟩ := by decide +kernel
  refine ⟨hline, by decide, ?_⟩
  intro h
  obtain ⟨doc, ts, hdoc, hts, hf⟩ := h _ _ hline
  have hfind : (parse (depositLine "9223372036855")).bind (fun doc => intOf doc kTs) = some 9223372036855 := by
    decide +kernel
  rw [hdoc, Option.bind_some, intOf_eq_some, hts] at hfind
  obtain rfl := Value.integer.inj (Option.some.inj hfind)
  exact absurd hf.inRange.2 (by decide)

end Codec

end BankManagement
