import BankManagement.JsonRoundTrip

namespace BankManagement.Codec

open Json

def kId : Bytes := ascii "id"
def kTs : Bytes := ascii "ts"
def kType : Bytes := ascii "type"
def kState : Bytes := ascii "state"
def kFrom : Bytes := ascii "from"
def kTo : Bytes := ascii "to"
def kAmount : Bytes := ascii "amount"
def kOwner : Bytes := ascii "owner"
def kBalance : Bytes := ascii "balance"
def kStatus : Bytes := ascii "status"
def kVersion : Bytes := ascii "version"

def objectOf (members : List (Bytes × Value)) : Value :=
  .object (members.foldl (fun obj m => setMember obj m.1 m.2) [])

def accountId : Option AccountId → Value
  | some k => .integer k.toInt64
  | none => .null

def transactionToJson (r : TransactionRecord) : Value :=
  objectOf [
    (kId, .integer r.id.toInt64),
    (kTs, .integer (toUnixMs r.timestamp)),
    (kType, .string r.type.toString),
    (kState, .string r.state.toString),
    (kFrom, accountId r.fromId),
    (kTo, accountId r.toId),
    (kAmount, .integer (Int64.ofNat r.amount.cents))]

def accountToJson (a : Account) : Value :=
  objectOf [
    (kId, .integer a.id.toInt64),
    (kOwner, .integer a.ownerId.toInt64),
    (kBalance, .integer (Int64.ofNat a.balance.cents)),
    (kStatus, .string a.status.toString),
    (kVersion, .integer a.version.toInt64)]

def intOf (value : Value) (key : Bytes) : Option Int64 := (value.find key).bind (·.asInteger)

def strOf (value : Value) (key : Bytes) : Option Bytes := (value.find key).bind (·.asString)

/-- `none` for a missing or unreadable member, `some none` for an explicit null. -/
def optIdOf (value : Value) (key : Bytes) : Option (Option AccountId) :=
  match value.find key with
  | none => none
  | some .null => some none
  | some v => match v.asInteger with
    | none => none
    | some i => if i < 0 then none else some (some i.toUInt64)

def isObject : Value → Bool
  | .object _ => true
  | _ => false

def transactionFromJson (value : Value) : Option TransactionRecord :=
  if !isObject value then none
  else do
    let id ← intOf value kId
    let ts ← intOf value kTs
    let type ← strOf value kType
    let state ← strOf value kState
    let fromId ← optIdOf value kFrom
    let toId ← optIdOf value kTo
    let amount ← intOf value kAmount
    if h : amount < 0 then none
    else do
      let type ← TransactionType.fromString type
      let state ← TransactionState.fromString state
      return { id := id.toUInt64, timestamp := fromUnixMs ts, type, state, fromId, toId,
               amount := Money.ofCents amount h }

def accountFromJson (value : Value) : Option Account :=
  if !isObject value then none
  else do
    let id ← intOf value kId
    let owner ← intOf value kOwner
    let balance ← intOf value kBalance
    let status ← strOf value kStatus
    let version ← intOf value kVersion
    if h : balance < 0 then none
    else if id < 0 ∨ owner < 0 ∨ version < 0 then none
    else do
      let status ← AccountStatus.fromString status
      return { id := id.toUInt64, ownerId := owner.toUInt64, balance := Money.ofCents balance h, status,
               version := version.toUInt64 }

def serialize (r : TransactionRecord) : Bytes := dump (transactionToJson r)

def deserializeTransaction (line : Bytes) : Option TransactionRecord :=
  (parse line).bind transactionFromJson

def serializeAccount (a : Account) : Bytes := dump (accountToJson a)

def deserializeAccount (line : Bytes) : Option Account := (parse line).bind accountFromJson

theorem toInt64_min {x : UInt64} : x.toInt64 = Int64.minValue ↔ x.toNat = 2 ^ 63 := by
  constructor
  · intro h
    have hx : x = Int64.minValue.toUInt64 := by rw [← h]; rfl
    rw [hx]
    rfl
  · intro h
    have hx : x = Int64.minValue.toUInt64 := UInt64.toNat_inj.mp (by rw [h]; rfl)
    rw [hx]
    rfl

theorem toInt64_neg {x : UInt64} : x.toInt64 < 0 ↔ 2 ^ 63 ≤ x.toNat := by
  rw [Int64.lt_iff_toInt_lt]
  have hx : x.toInt64.toInt = x.toBitVec.toInt := rfl
  rw [hx, BitVec.toInt_eq_toNat_cond]
  have hn : x.toBitVec.toNat = x.toNat := rfl
  have hlt := x.toNat_lt
  have h0 : (0 : Int64).toInt = 0 := rfl
  rw [hn, h0]
  split_ifs <;> omega

theorem toUInt64_lt {i : Int64} (h : ¬ i < 0) : i.toUInt64.toNat < 2 ^ 63 := by
  apply Nat.lt_of_not_le
  intro hle
  exact h (by simpa using toInt64_neg.mpr hle)

theorem ofNat_cents (m : Money) : ¬ Int64.ofNat m.cents < 0 ∧ Int64.ofNat m.cents ≠ Int64.minValue ∧
    (Int64.ofNat m.cents).toNatClampNeg = m.cents := by
  have ht := Int64.toInt_ofNat_of_lt m.lt
  refine ⟨?_, ?_, Int64.toNatClampNeg_ofNat_of_lt m.lt⟩
  · rw [Int64.lt_iff_toInt_lt, ht]
    have h0 : (0 : Int64).toInt = 0 := rfl
    omega
  · intro h
    rw [h, Int64.toInt_minValue] at ht
    omega

theorem ofCents_cents (m : Money) (h : ¬ Int64.ofNat m.cents < 0) :
    Money.ofCents (Int64.ofNat m.cents) h = m := by
  simp only [Money.ofCents, (ofNat_cents m).2.2]

theorem toUnixMs_ne_min (t : TimePoint) : toUnixMs t ≠ Int64.minValue := by
  intro h
  have hd := toUnixMs_toInt t
  have hle := t.le_toInt
  rw [h, Int64.toInt_minValue, Int.tdiv_eq_ediv] at hd
  split_ifs at hd
  · omega
  · have hs : Int.sign 1000000 = 1 := rfl
    omega

@[simp] theorem AccountStatus_fromString_toString (s : AccountStatus) :
    AccountStatus.fromString s.toString = some s := by
  cases s <;> decide

@[simp] theorem TransactionType_fromString_toString (t : TransactionType) :
    TransactionType.fromString t.toString = some t := by
  cases t <;> decide

@[simp] theorem TransactionState_fromString_toString (s : TransactionState) :
    TransactionState.fromString s.toString = some s := by
  cases s <;> decide

def Small (k : Option AccountId) : Prop := ∀ i ∈ k, i.toNat < 2 ^ 63

-- Named, since ids are finite and their own instance would go through all of them.
instance (k : Option AccountId) : Decidable (Small k) := Option.decidableForallMem k

def Decodable (r : TransactionRecord) : Prop := r.id.toNat ≠ 2 ^ 63 ∧ Small r.fromId ∧ Small r.toId

instance (r : TransactionRecord) : Decidable (Decodable r) :=
  inferInstanceAs (Decidable (_ ∧ _ ∧ _))

/-- The record that a journal line gives back: the time stamp is kept to the millisecond. -/
def stored (r : TransactionRecord) : TransactionRecord :=
  { r with timestamp := fromUnixMs (toUnixMs r.timestamp) }

-- By cases, so that no two time stamps are ever compared.
theorem stored_id (r : TransactionRecord) : (stored r).id = r.id := by
  cases r
  rfl

theorem transactionToJson_members (r : TransactionRecord) :
    transactionToJson r = .object [
      (kId, .integer r.id.toInt64), (kTs, .integer (toUnixMs r.timestamp)), (kType, .string r.type.toString),
      (kState, .string r.state.toString), (kFrom, accountId r.fromId), (kTo, accountId r.toId),
      (kAmount, .integer (Int64.ofNat r.amount.cents))] := rfl

theorem accountId_keys (k : Option AccountId) : DistinctKeys (accountId k) := by
  cases k <;> trivial

theorem transactionToJson_keys (r : TransactionRecord) : DistinctKeys (transactionToJson r) := by
  have hkeys : [kId, kTs, kType, kState, kFrom, kTo, kAmount].Nodup := by decide
  exact ⟨hkeys, trivial, trivial, trivial, trivial, accountId_keys _, accountId_keys _, trivial, trivial⟩

theorem accountId_parseable (k : Option AccountId) :
    parseable (accountId k) = true ↔ ∀ i ∈ k, i.toNat ≠ 2 ^ 63 := by
  cases k <;> simp [accountId, parseable, toInt64_min]

theorem transactionToJson_parseable (r : TransactionRecord) :
    parseable (transactionToJson r) = true ↔
      r.id.toNat ≠ 2 ^ 63 ∧ (∀ k ∈ r.fromId, k.toNat ≠ 2 ^ 63) ∧ ∀ k ∈ r.toId, k.toNat ≠ 2 ^ 63 := by
  rw [transactionToJson_members]
  simp only [parseable, parseableMembers, Bool.and_eq_true, decide_eq_true_eq, accountId_parseable, ne_eq,
    toInt64_min, toUnixMs_ne_min, not_false_eq_true, (ofNat_cents r.amount).2.1, true_and, and_true]

theorem optIdOf_accountId {v : Value} {key : Bytes} {k : Option AccountId}
    (h : v.find key = some (accountId k)) : optIdOf v key = if Small k then some k else none := by
  cases k with
  | none => simp [optIdOf, Small, h, accountId]
  | some k =>
    have hsmall : Small (some k) ↔ ¬ k.toInt64 < 0 := by
      rw [toInt64_neg, Nat.not_le]
      refine ⟨fun hs => hs k rfl, fun hk i hi => ?_⟩
      rwa [← Option.mem_some_iff.mp hi]
    by_cases hk : k.toInt64 < 0
    · rw [if_neg (fun hs => hsmall.mp hs hk)]
      simp [optIdOf, h, accountId, Value.asInteger, hk]
    · rw [if_pos (hsmall.mpr hk)]
      simp [optIdOf, h, accountId, Value.asInteger, hk]

theorem transactionFromJson_toJson (r : TransactionRecord) :
    transactionFromJson (transactionToJson r) =
      if Small r.fromId ∧ Small r.toId then some (stored r) else none := by
  have hfrom : optIdOf (transactionToJson r) kFrom = if Small r.fromId then some r.fromId else none :=
    optIdOf_accountId rfl
  have hto : optIdOf (transactionToJson r) kTo = if Small r.toId then some r.toId else none :=
    optIdOf_accountId rfl
  have hid : intOf (transactionToJson r) kId = some r.id.toInt64 := rfl
  have hts : intOf (transactionToJson r) kTs = some (toUnixMs r.timestamp) := rfl
  have htype : strOf (transactionToJson r) kType = some r.type.toString := rfl
  have hstate : strOf (transactionToJson r) kState = some r.state.toString := rfl
  have hamount : intOf (transactionToJson r) kAmount = some (Int64.ofNat r.amount.cents) := rfl
  have hobj : isObject (transactionToJson r) = true := rfl
  unfold transactionFromJson
  simp only [hobj, hid, hts, htype, hstate, hamount, hfrom, hto]
  by_cases hf : Small r.fromId <;> by_cases ht : Small r.toId <;>
    simp [hf, ht, (ofNat_cents r.amount).1, ofCents_cents, stored]

theorem deserialize_serialize (r : TransactionRecord) :
    deserializeTransaction (serialize r) = if Decodable r then some (stored r) else none := by
  unfold deserializeTransaction serialize
  rw [parse_dump _ (transactionToJson_keys r)]
  have himp : ∀ {k : Option AccountId}, Small k → ∀ i ∈ k, i.toNat ≠ 2 ^ 63 :=
    fun h i hi => by have := h i hi; omega
  by_cases hd : Decodable r
  · have hp := (transactionToJson_parseable r).mpr ⟨hd.1, himp hd.2.1, himp hd.2.2⟩
    rw [if_pos hp, if_pos hd, Option.bind_some, transactionFromJson_toJson, if_pos hd.2]
  · rw [if_neg hd]
    split_ifs with hp
    · have hid := ((transactionToJson_parseable r).mp hp).1
      rw [Option.bind_some, transactionFromJson_toJson, if_neg (fun h => hd ⟨hid, h⟩)]
    · rfl

theorem serialize_printable (r : TransactionRecord) : ∀ b ∈ serialize r, 0x20 ≤ b := dump_printable _

end BankManagement.Codec
