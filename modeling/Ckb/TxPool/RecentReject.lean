import Ckb.Types.Core

/-!
`RecentReject` (`tx-pool/component/recent_reject.rs`): the rejected transactions the pool remembers,
in a database split into shards by the low 32 bits of the hash. When the count of keys passes
`count_limit`, `shrink` drops a random shard and counts the keys again.

Each shard's column family is the list of its entries; `put` replaces the key's entry. The key count
`estimate_num_keys_cf` is taken as exact, the random shard is the draw `draw % shard_num`, and the
low 32 bits of a hash are a parameter. Database errors and the TTL are left out.
-/

namespace Ckb.TxPool

def defaultShards : Nat := 5

structure RecentReject (K V : Type) where
  shardNum : Nat
  countLimit : Nat
  totalKeysNum : Nat
  db : Nat → List (K × V)

namespace RecentReject

variable {K V : Type} [DecidableEq K]

/-- `DBWithTTL::put` in one shard. -/
def shardPut (entries : List (K × V)) (key : K) (value : V) : List (K × V) :=
  (key, value) :: entries.filter (·.1 ≠ key)

/-- The keys of every shard, as `shrink` sums them. -/
def keysNum (shardNum : Nat) (db : Nat → List (K × V)) : Nat :=
  ((List.range shardNum).map fun shard => (db shard).length).sum

def getShard (lowU32 : K → Nat) (reject : RecentReject K V) (hash : K) : Nat := lowU32 hash % reject.shardNum

def shrink (reject : RecentReject K V) (draw : Nat) : RecentReject K V :=
  let db := Function.update reject.db (draw % reject.shardNum) []
  { reject with db := db, totalKeysNum := keysNum reject.shardNum db }

/-- `put`, with `draw` the shard a `shrink` would drop. -/
def put (lowU32 : K → Nat) (reject : RecentReject K V) (hash : K) (value : V) (draw : Nat) : RecentReject K V :=
  let shard := reject.getShard lowU32 hash
  let stored := { reject with db := Function.update reject.db shard (shardPut (reject.db shard) hash value) }
  match checkedAdd reject.totalKeysNum 1 with
  | some totalKeysNum => if totalKeysNum > reject.countLimit then stored.shrink draw else stored
  -- an overflowing count shrinks too
  | none => stored.shrink draw

def get (lowU32 : K → Nat) (reject : RecentReject K V) (hash : K) : Option V :=
  ((reject.db (reject.getShard lowU32 hash)).find? (·.1 = hash)).map (·.2)

end RecentReject

end Ckb.TxPool
