import Ckb.TxPool.RecentReject

namespace Ckb.TxPool.RecentReject

variable {K V : Type} [DecidableEq K] (lowU32 : K → Nat)

/-- A call of `put`, with the shard a `shrink` would drop. -/
structure Put (K V : Type) where
  hash : K
  value : V
  draw : Nat

/-- The calls of `put` one after the other. -/
def putAll (reject : RecentReject K V) (puts : List (Put K V)) : RecentReject K V :=
  puts.foldl (fun current call => current.put lowU32 call.hash call.value call.draw) reject

theorem putAll_cons (reject : RecentReject K V) (call : Put K V) (rest : List (Put K V)) :
    putAll lowU32 reject (call :: rest) = putAll lowU32 (reject.put lowU32 call.hash call.value call.draw) rest := rfl

variable {reject : RecentReject K V}

theorem put_of_below (limit : reject.countLimit ≤ u64Max) (below : reject.totalKeysNum < reject.countLimit)
    (hash : K) (value : V) (draw : Nat) :
    reject.put lowU32 hash value draw =
      { reject with
        db := (Function.update reject.db (reject.getShard lowU32 hash)
          (shardPut (reject.db (reject.getShard lowU32 hash)) hash value)) } := by
  have fits : checkedAdd reject.totalKeysNum 1 = some (reject.totalKeysNum + 1) :=
    checkedAdd_eq_some.mpr ⟨by omega, rfl⟩
  unfold put
  rw [fits]
  dsimp only
  rw [if_neg (by omega)]

theorem find?_shardPut (entries : List (K × V)) (hash key : K) (value : V) :
    (shardPut entries hash value).find? (·.1 = key) =
      if hash = key then some (hash, value) else entries.find? (·.1 = key) := by
  unfold shardPut
  by_cases same : hash = key
  · simp [same]
  · rw [List.find?_cons_of_neg (by simpa using same), if_neg same, List.find?_filter]
    congr 1
    funext entry
    by_cases found : entry.1 = key
    · simp [found, Ne.symm same]
    · simp [found]

theorem get_put_of_below (limit : reject.countLimit ≤ u64Max) (below : reject.totalKeysNum < reject.countLimit)
    (hash key : K) (value : V) (draw : Nat) :
    (reject.put lowU32 hash value draw).get lowU32 key = if hash = key then some value else reject.get lowU32 key := by
  rw [put_of_below lowU32 limit below]
  unfold get getShard
  dsimp only
  by_cases sameShard : lowU32 key % reject.shardNum = lowU32 hash % reject.shardNum
  · rw [sameShard, Function.update_self, find?_shardPut]
    by_cases same : hash = key
    · simp [same]
    · simp [same]
  · rw [Function.update_of_ne sameShard]
    -- a key of another shard is not the one put
    have other : hash ≠ key := fun same => sameShard (by rw [same])
    simp [other]

/-- From a count below the limit, a run of `put`s never shrinks: by induction on the calls, with
the count and the limit unchanged at every step. -/
theorem putAll_of_below : ∀ (puts : List (Put K V)) {reject : RecentReject K V},
    reject.countLimit ≤ u64Max → reject.totalKeysNum < reject.countLimit →
      (putAll lowU32 reject puts).countLimit = reject.countLimit ∧
        (putAll lowU32 reject puts).totalKeysNum = reject.totalKeysNum ∧
        (∀ key, (reject.get lowU32 key).isSome → ((putAll lowU32 reject puts).get lowU32 key).isSome) ∧
        ∀ call ∈ puts, ((putAll lowU32 reject puts).get lowU32 call.hash).isSome
  | [], _, _, _ => ⟨rfl, rfl, fun _ kept => kept, fun _ absent => absurd absent List.not_mem_nil⟩
  | call :: rest, reject, limit, below => by
    have stored := put_of_below lowU32 limit below call.hash call.value call.draw
    have limitAfter : (reject.put lowU32 call.hash call.value call.draw).countLimit ≤ u64Max := by
      rw [stored]
      exact limit
    have belowAfter : (reject.put lowU32 call.hash call.value call.draw).totalKeysNum <
        (reject.put lowU32 call.hash call.value call.draw).countLimit := by
      rw [stored]
      exact below
    obtain ⟨sameLimit, sameCount, keeps, putsRest⟩ := putAll_of_below rest limitAfter belowAfter
    have putNow : ∀ key, (reject.get lowU32 key).isSome ∨ call.hash = key →
        ((reject.put lowU32 call.hash call.value call.draw).get lowU32 key).isSome := by
      intro key found
      rw [get_put_of_below lowU32 limit below]
      by_cases same : call.hash = key
      · simp [same]
      · simpa [same] using found
    refine ⟨?_, ?_, fun key kept => keeps key (putNow key (.inl kept)), ?_⟩
    · rw [putAll_cons, sameLimit, stored]
    · rw [putAll_cons, sameCount, stored]
    · intro other mem
      rcases List.mem_cons.mp mem with rfl | later
      · exact keeps other.hash (putNow other.hash (.inr rfl))
      · exact putsRest other later

section Samples

/-- An empty store of five shards that allows one key. -/
def sampleReject : RecentReject Nat String := ⟨defaultShards, 1, 0, fun _ => []⟩

/-- Three rejects of different transactions. -/
def samplePuts : List (Put Nat String) := [⟨7, "a", 0⟩, ⟨12, "b", 3⟩, ⟨9, "c", 1⟩]

end Samples

end Ckb.TxPool.RecentReject
