import Slience.Lib.Buckets
import Slience.Lib.Run

/-!
# The hash table of the client library

`dict.cpp`: a table of chains that doubles its size when it is full.  A key stands for its bytes,
and an entry for its address.  Memory that cannot be had is not modelled; a chain outside of the
table, an address that was freed and the `assert` of `dictExpand` have no result.
-/

namespace Slience

namespace Redis

/-- `dictEntry`, with its address; the next entry of the chain is the next one of the list. -/
structure DictEntry (K V : Type) where
  id : ℕ
  key : K
  val : V
  deriving DecidableEq

/-- `dict`, with the number of entries that were allocated. -/
structure Dict (K V : Type) where
  table : List (List (DictEntry K V))
  size : ℕ
  sizemask : ℕ
  used : ℕ
  fresh : ℕ
  deriving DecidableEq

namespace Dict

variable {K V : Type}

/-- `DICT_HT_INITIAL_SIZE` -/
def initialSize : ℕ := 4

/-- `LONG_MAX` -/
def longMax : ℕ := 2 ^ 63 - 1

/-- `dictCreate` -/
def create : Dict K V := ⟨[], 0, 0, 0, 0⟩

/-- The loop of `_dictNextPower`; it ends before the doubling overflows. -/
def nextPowerLoop (size : ℕ) : ℕ → ℕ → Option ℕ
  | 0, _ => none
  | fuel + 1, i => if size ≤ i then some i else nextPowerLoop size fuel (i * 2 % 2 ^ 64)

/-- `_dictNextPower` -/
def dictNextPower (size : ℕ) : Option ℕ :=
  if longMax ≤ size then some longMax else nextPowerLoop size 64 initialSize

/-- `used--` -/
def decrement (used : ℕ) : ℕ := (used + (2 ^ 64 - 1)) % 2 ^ 64

variable (hashFunction : K → UInt32)

/-- `dictHashKey(ht, key) & sizemask` -/
def slot (sizemask : ℕ) (key : K) : ℕ := (hashFunction key).toNat &&& sizemask

/-- The inner loop of `dictExpand`: the entries of a chain go to the new table. -/
def moveChain (sizemask : ℕ) : List (DictEntry K V) → List (List (DictEntry K V)) × ℕ →
    Option (List (List (DictEntry K V)) × ℕ)
  | [], n => some n
  | he :: chain, (table, used) => do
      let h := slot hashFunction sizemask he.key
      let old ← table[h]?
      moveChain sizemask chain (table.set h (he :: old), decrement used)

/-- The outer loop of `dictExpand`. -/
def moveTable (sizemask : ℕ) : List (List (DictEntry K V)) →
    List (List (DictEntry K V)) × ℕ → Option (List (List (DictEntry K V)) × ℕ)
  | [], n => some n
  | chain :: old, n =>
      if n.2 = 0 then some n
      else (moveChain hashFunction sizemask chain n).bind (moveTable sizemask old)

/-- `dictExpand`, with whether it returns `DICT_OK`. -/
def dictExpand (ht : Dict K V) (size : ℕ) : Option (Dict K V × Bool) := do
  let realsize ← dictNextPower size
  if size < ht.used then some (ht, false)
  else
    let (table, used) ← moveTable hashFunction (realsize - 1) ht.table
      (List.replicate realsize [], ht.used)
    if used = 0 then some ({ ht with table, size := realsize, sizemask := realsize - 1 }, true)
    else none

/-- `_dictExpandIfNeeded` -/
def dictExpandIfNeeded (ht : Dict K V) : Option (Dict K V × Bool) :=
  if ht.size = 0 then ht.dictExpand hashFunction initialSize
  else if ht.used = ht.size then ht.dictExpand hashFunction (ht.size * 2 % 2 ^ 64)
  else some (ht, true)

/-- The chain of a key. -/
def chainOf (ht : Dict K V) (key : K) : Option (List (DictEntry K V)) :=
  ht.table[slot hashFunction ht.sizemask key]?

variable [DecidableEq K]

/-- `_dictKeyIndex`, an `int`. -/
def dictKeyIndex (ht : Dict K V) (key : K) : Option (Dict K V × ℤ) := do
  let (ht, ok) ← ht.dictExpandIfNeeded hashFunction
  if ok then
    let chain ← ht.chainOf hashFunction key
    if chain.any fun he ↦ he.key = key then some (ht, -1)
    else some (ht, (Int32.ofNat (slot hashFunction ht.sizemask key)).toInt)
  else some (ht, -1)

/-- `dictAdd` -/
def dictAdd (ht : Dict K V) (key : K) (val : V) : Option (Dict K V × Bool) := do
  let (ht, index) ← ht.dictKeyIndex hashFunction key
  if index = -1 then some (ht, false)
  else if index < 0 then none
  else
    let chain ← ht.table[index.toNat]?
    some ({ ht with
      table := ht.table.set index.toNat (⟨ht.fresh, key, val⟩ :: chain)
      used := (ht.used + 1) % 2 ^ 64
      fresh := ht.fresh + 1 }, true)

/-- `dictFind` -/
def dictFind (ht : Dict K V) (key : K) : Option (Option (DictEntry K V)) :=
  if ht.size = 0 then some none
  else (ht.chainOf hashFunction key).map fun chain ↦ chain.find? fun he ↦ he.key = key

/-- `dictSetHashVal` through the address of an entry. -/
def setVal (ht : Dict K V) (id : ℕ) (val : V) : Dict K V :=
  { ht with table := ht.table.map fun chain ↦
      chain.map fun he ↦ if he.id = id then { he with val } else he }

/-- `dictReplace`, with whether it returns 1. -/
def dictReplace (ht : Dict K V) (key : K) (val : V) : Option (Dict K V × Bool) := do
  let (ht, ok) ← ht.dictAdd hashFunction key val
  if ok then some (ht, true)
  else
    let found ← ht.dictFind hashFunction key
    let entry ← found
    some (ht.setVal entry.id val, false)

/-- The loop of `dictDelete`: the chain without the first entry that has the key. -/
def unlink (key : K) : List (DictEntry K V) → Option (List (DictEntry K V))
  | [] => none
  | de :: chain => if de.key = key then some chain else (unlink key chain).map (de :: ·)

/-- `dictDelete` -/
def dictDelete (ht : Dict K V) (key : K) : Option (Dict K V × Bool) :=
  if ht.size = 0 then some (ht, false)
  else do
    let chain ← ht.chainOf hashFunction key
    match unlink key chain with
    | none => some (ht, false)
    | some chain =>
        some ({ ht with
          table := ht.table.set (slot hashFunction ht.sizemask key) chain
          used := decrement ht.used }, true)

/-- `_dictClear` -/
def dictClear (ht : Dict K V) : Dict K V := { create with fresh := ht.fresh }

/-! ## Iterators -/

/-- `dictIterator` -/
structure Iterator where
  index : ℤ
  entry : Option ℕ
  nextEntry : Option ℕ

/-- `dictGetIterator` -/
def getIterator : Iterator := ⟨-1, none, none⟩

/-- The entry at an address of this chain and the rest of the chain. -/
def fromAddress (id : ℕ) : List (DictEntry K V) → Option (DictEntry K V × List (DictEntry K V))
  | [] => none
  | he :: chain => if he.id = id then some (he, chain) else fromAddress id chain

/-- What an address points to. -/
def deref (ht : Dict K V) (id : ℕ) : Option (DictEntry K V × List (DictEntry K V)) :=
  ht.table.findSome? (fromAddress id)

/-- The loop of `dictNext`; `(signed)ht->size` is a size below `2 ^ 31`. -/
def nextLoop (ht : Dict K V) : ℕ → Iterator → Option (Option (DictEntry K V) × Iterator)
  | 0, _ => none
  | fuel + 1, it =>
      match it.entry with
      | none =>
          if (Int32.ofNat ht.size).toInt ≤ it.index + 1 then
            some (none, { it with index := it.index + 1 })
          else do
            let chain ← ht.table[(it.index + 1).toNat]?
            match chain with
            | he :: rest =>
                some (some he, ⟨it.index + 1, some he.id, rest.head?.map (·.id)⟩)
            | [] => nextLoop ht fuel { it with index := it.index + 1 }
      | some _ =>
          match it.nextEntry with
          | some id => do
              let (he, rest) ← ht.deref id
              some (some he, ⟨it.index, some id, rest.head?.map (·.id)⟩)
          | none => nextLoop ht fuel { it with entry := none }

/-- `dictNext` -/
def dictNext (ht : Dict K V) (it : Iterator) : Option (Option (DictEntry K V) × Iterator) :=
  nextLoop ht (ht.size + 2) it

end Dict

end Redis

end Slience
