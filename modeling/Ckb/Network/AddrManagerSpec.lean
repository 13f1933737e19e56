import Ckb.Network.AddrManager

namespace Ckb.Network

namespace AddrInfo

/-- The record with its position cleared: what a shuffle of `random_ids` leaves unchanged. -/
def erasePos (info : AddrInfo) : AddrInfo := { info with randomIdPos := 0 }

@[simp] theorem erasePos_addr (info : AddrInfo) : info.erasePos.addr = info.addr := rfl

@[simp] theorem erasePos_withPos (info : AddrInfo) (p : Nat) :
    ({ info with randomIdPos := p } : AddrInfo).erasePos = info.erasePos := rfl

theorem eq_of_erasePos_eq {a b : AddrInfo} (same : a.erasePos = b.erasePos) (pos : a.randomIdPos = b.randomIdPos) :
    a = b := by
  cases a
  cases b
  simp only [erasePos, mk.injEq] at same pos
  simp [same, pos]

theorem map_addr_eq {o o' : Option AddrInfo} (same : o.map erasePos = o'.map erasePos) :
    o.map (·.addr) = o'.map (·.addr) := by
  have addrs := congrArg (Option.map (·.addr)) same
  simpa [Option.map_map, Function.comp_def] using addrs

end AddrInfo

namespace AddrManager

/-- The position each record keeps, `random_id_pos`. -/
def posOf (m : AddrManager) (id : Nat) : Option Nat := (m.idToInfo.lookup id).map (·.randomIdPos)

theorem posOf_eq_some {m : AddrManager} {id p : Nat} :
    m.posOf id = some p ↔ ∃ info, m.idToInfo.lookup id = some info ∧ info.randomIdPos = p :=
  Option.map_eq_some_iff

/-- The representation invariant. -/
structure Consistent (m : AddrManager) : Prop where
  inverse : ∀ {addr id}, m.addrToId.lookup addr = some id ↔ (m.idToInfo.lookup id).map (·.addr) = some addr
  places : List.Places m.posOf m.randomIds
  fresh : ∀ {id}, id ∈ m.idToInfo → id < m.nextId

theorem consistent_default : AddrManager.default.Consistent where
  inverse := by simp [AddrManager.default]
  places := ⟨by simp [AddrManager.default, posOf], by simp [AddrManager.default]⟩
  fresh := by
    intro id member
    exact absurd member Finmap.notMem_empty

/-- `m'` has the ids, addresses and records of `m`, with the positions moved. -/
structure Reshuffled (m m' : AddrManager) : Prop where
  addrToId : m'.addrToId = m.addrToId
  nextId : m'.nextId = m.nextId
  records : ∀ id, (m'.idToInfo.lookup id).map AddrInfo.erasePos = (m.idToInfo.lookup id).map AddrInfo.erasePos
  length : m'.randomIds.length = m.randomIds.length

theorem Reshuffled.refl (m : AddrManager) : Reshuffled m m := ⟨rfl, rfl, fun _ => rfl, rfl⟩

theorem Reshuffled.trans {m₁ m₂ m₃ : AddrManager} (first : Reshuffled m₁ m₂) (second : Reshuffled m₂ m₃) :
    Reshuffled m₁ m₃ :=
  ⟨second.addrToId.trans first.addrToId, second.nextId.trans first.nextId,
    fun id => (second.records id).trans (first.records id), second.length.trans first.length⟩

theorem Reshuffled.mem_iff {m m' : AddrManager} (shuffled : Reshuffled m m') {id : Nat} :
    id ∈ m'.idToInfo ↔ id ∈ m.idToInfo := by
  have known := congrArg Option.isSome (shuffled.records id)
  simp only [Option.isSome_map] at known
  rw [← Finmap.lookup_isSome, ← Finmap.lookup_isSome, known]

theorem Reshuffled.lookup_eq {m m' : AddrManager} (shuffled : Reshuffled m m') (places : List.Places m.posOf m.randomIds)
    (places' : List.Places m'.posOf m'.randomIds) {k id : Nat} (at₁ : m.randomIds[k]? = some id)
    (at₂ : m'.randomIds[k]? = some id) : m'.idToInfo.lookup id = m.idToInfo.lookup id := by
  obtain ⟨info, found, pos⟩ := posOf_eq_some.mp (places.pos_getElem? at₁)
  obtain ⟨info', found', pos'⟩ := posOf_eq_some.mp (places'.pos_getElem? at₂)
  have same := shuffled.records id
  rw [found, found', Option.map_some, Option.map_some, Option.some.injEq] at same
  rw [found, found', AddrInfo.eq_of_erasePos_eq same (pos'.trans pos.symm)]

theorem Consistent.reshuffled {m m' : AddrManager} (consistent : m.Consistent) (shuffled : Reshuffled m m')
    (places : List.Places m'.posOf m'.randomIds) : m'.Consistent where
  inverse := by
    intro addr id
    rw [shuffled.addrToId, AddrInfo.map_addr_eq (shuffled.records id)]
    exact consistent.inverse
  places := places
  fresh := by
    intro id member
    rw [shuffled.nextId]
    exact consistent.fresh (shuffled.mem_iff.mp member)

theorem swapRandomId_spec {m : AddrManager} (places : List.Places m.posOf m.randomIds) {i j : Nat}
    (hi : i < m.randomIds.length) (hj : j < m.randomIds.length) :
    ∃ m', m.swapRandomId i j = some m' ∧ m'.randomIds = m.randomIds.swapIdx i j ∧
      List.Places m'.posOf m'.randomIds ∧ Reshuffled m m' := by
  by_cases same : i = j
  · subst same
    exact ⟨m, if_pos rfl, (List.swapIdx_self _ _).symm, places, Reshuffled.refl m⟩
  · have atI : m.randomIds[i]? = some m.randomIds[i] := List.getElem?_eq_getElem hi
    have atJ : m.randomIds[j]? = some m.randomIds[j] := List.getElem?_eq_getElem hj
    generalize m.randomIds[i] = a at atI
    generalize m.randomIds[j] = b at atJ
    obtain ⟨infoA, foundA, -⟩ := posOf_eq_some.mp (places.pos_getElem? atI)
    obtain ⟨infoB, foundB, -⟩ := posOf_eq_some.mp (places.pos_getElem? atJ)
    have apart : b ≠ a := fun eq => same (places.pos_injective atI (eq ▸ atJ))
    let swapped : AddrManager :=
      { m with
        idToInfo := (m.idToInfo.insert a { infoA with randomIdPos := j }).insert b { infoB with randomIdPos := i }
        randomIds := m.randomIds.swapIdx i j }
    -- the positions after the swap are the two updates of `List.Places.swapIdx`
    have moved : swapped.posOf = Function.update (Function.update m.posOf a (some j)) b (some i) := by
      funext c
      by_cases isB : c = b
      · subst isB
        simp [swapped, posOf]
      · by_cases isA : c = a
        · subst isA
          simp [swapped, posOf, Finmap.lookup_insert_of_ne _ isB, Function.update_of_ne isB]
        · simp [swapped, posOf, Finmap.lookup_insert_of_ne _ isB, Finmap.lookup_insert_of_ne _ isA, isA, isB]
    refine ⟨swapped, ?_, rfl, moved ▸ places.swapIdx atI atJ, ?_⟩
    · simp [swapRandomId, same, atI, atJ, foundA, foundB, Finmap.lookup_insert_of_ne _ apart, swapped]
    · refine ⟨rfl, rfl, ?_, List.length_swapIdx _ _ _⟩
      intro c
      by_cases isB : c = b
      · subst isB
        simp [swapped, foundB]
      · by_cases isA : c = a
        · subst isA
          simp [swapped, Finmap.lookup_insert_of_ne _ isB, foundA]
        · simp [swapped, Finmap.lookup_insert_of_ne _ isB, Finmap.lookup_insert_of_ne _ isA]

theorem Consistent.replace {m : AddrManager} (consistent : m.Consistent) {id : Nat} {old new : AddrInfo}
    (found : m.idToInfo.lookup id = some old) (addr : new.addr = old.addr) (pos : new.randomIdPos = old.randomIdPos) :
    ({ m with idToInfo := m.idToInfo.insert id new } : AddrManager).Consistent := by
  have lookups : ∀ c, (m.idToInfo.insert id new).lookup c = if c = id then some new else m.idToInfo.lookup c := by
    intro c
    by_cases same : c = id
    · subst same
      simp
    · simp [same, Finmap.lookup_insert_of_ne _ same]
  have positions : posOf { m with idToInfo := m.idToInfo.insert id new } = m.posOf := by
    funext c
    by_cases same : c = id
    · subst same
      simp [posOf, found, pos]
    · simp [posOf, lookups, same]
  constructor
  · intro a c
    rw [lookups]
    split
    · rename_i same
      subst same
      rw [Option.map_some, addr, ← Option.map_some, ← found]
      exact consistent.inverse
    · exact consistent.inverse
  · rw [positions]
    exact consistent.places
  · intro c member
    apply consistent.fresh
    rw [Finmap.mem_insert] at member
    rcases member with rfl | member
    · exact Finmap.mem_of_lookup_eq_some found
    · exact member

theorem Consistent.push {m : AddrManager} (consistent : m.Consistent) {info : AddrInfo}
    (absent : m.addrToId.lookup info.addr = none) :
    ({ nextId := m.nextId + 1
       addrToId := m.addrToId.insert info.addr m.nextId
       idToInfo := m.idToInfo.insert m.nextId { info with randomIdPos := m.randomIds.length }
       randomIds := m.randomIds ++ [m.nextId] } : AddrManager).Consistent := by
  have unused : m.nextId ∉ m.idToInfo := fun member => Nat.lt_irrefl _ (consistent.fresh member)
  have unusedPos : m.posOf m.nextId = none := by
    simp [posOf, Finmap.lookup_eq_none.mpr unused]
  constructor
  · intro addr id
    by_cases isNew : id = m.nextId
    · subst isNew
      by_cases isAddr : addr = info.addr
      · subst isAddr
        simp
      · simp [Finmap.lookup_insert_of_ne _ isAddr, Ne.symm isAddr]
        -- no old address maps to the unused id
        intro found
        exact unused (Finmap.mem_of_lookup_eq_some
          (Option.map_eq_some_iff.mp (consistent.inverse.mp found)).choose_spec.1)
    · rw [Finmap.lookup_insert_of_ne _ isNew]
      by_cases isAddr : addr = info.addr
      · subst isAddr
        simp only [Finmap.lookup_insert, Option.some.injEq, Ne.symm isNew, false_iff]
        intro named
        rw [consistent.inverse.mpr named] at absent
        cases absent
      · rw [Finmap.lookup_insert_of_ne _ isAddr]
        exact consistent.inverse
  · -- the new id takes the old length as its position
    convert consistent.places.push unusedPos using 1
    funext c
    by_cases isNew : c = m.nextId
    · subst isNew
      simp [posOf]
    · simp [posOf, isNew, Finmap.lookup_insert_of_ne _ isNew]
  · intro id member
    rw [Finmap.mem_insert] at member
    rcases member with rfl | member
    · exact Nat.lt_succ_self _
    · exact Nat.lt_succ_of_lt (consistent.fresh member)

theorem Consistent.add {m m' : AddrManager} (consistent : m.Consistent) {addrInfo : AddrInfo}
    (added : m.add addrInfo = some m') : m'.Consistent := by
  unfold AddrManager.add at added
  split at added
  · rename_i id named
    obtain ⟨exist, found, rfl⟩ := Option.map_eq_some_iff.mp added
    split
    · apply consistent.replace found
      · exact (Option.some.inj ((Option.map_some _ _).symm.trans (found ▸ consistent.inverse.mp named))).symm
      · rfl
    · exact consistent
  · rename_i absent
    obtain ⟨nextId, bumped, rfl⟩ := Option.map_eq_some_iff.mp added
    obtain ⟨-, rfl⟩ := checkedAdd_eq_some.mp bumped
    exact consistent.push absent

theorem add_isSome {m : AddrManager} (consistent : m.Consistent) {addrInfo : AddrInfo}
    (room : (m.addrToId.lookup addrInfo.addr).isSome ∨ m.nextId < u64Max) : (m.add addrInfo).isSome := by
  unfold AddrManager.add
  split
  · rename_i id named
    obtain ⟨exist, found, -⟩ := Option.map_eq_some_iff.mp (consistent.inverse.mp named)
    simp [found]
  · rename_i absent
    rcases room with known | below
    · rw [absent] at known
      cases known
    · simp [checkedAdd, show m.nextId + 1 ≤ u64Max by omega]

theorem add_eq_none {m : AddrManager} {addrInfo : AddrInfo} (absent : m.addrToId.lookup addrInfo.addr = none)
    (full : m.nextId = u64Max) : m.add addrInfo = none := by
  simp [AddrManager.add, absent, checkedAdd, full]

/-- The manager `remove` leaves once its record is swapped to the end: the last entry popped and
the record of `id` erased. -/
theorem Consistent.pop {m m₂ : AddrManager} (consistent : m.Consistent) {base : Multiaddr} {id : Nat}
    (named : m.addrToId.lookup base = some id) (shuffled : Reshuffled { m with addrToId := m.addrToId.erase base } m₂)
    (places : List.Places m₂.posOf m₂.randomIds) (atLast : m₂.randomIds[m₂.randomIds.length - 1]? = some id) :
    ({ m₂ with randomIds := m₂.randomIds.dropLast, idToInfo := m₂.idToInfo.erase id } : AddrManager).Consistent := by
  have addrs : ∀ c, (m₂.idToInfo.lookup c).map (·.addr) = (m.idToInfo.lookup c).map (·.addr) :=
    fun c => AddrInfo.map_addr_eq (shuffled.records c)
  constructor
  · intro x c
    change (m₂.addrToId.lookup x = some c) ↔ ((m₂.idToInfo.erase id).lookup c).map (·.addr) = some x
    rw [shuffled.addrToId]
    dsimp only
    by_cases isId : c = id
    · subst isId
      simp only [Finmap.lookup_erase, Option.map_none, reduceCtorEq, iff_false]
      -- only `base` names the erased id
      intro renamed
      by_cases isBase : x = base
      · subst isBase
        simp at renamed
      · rw [Finmap.lookup_erase_ne isBase] at renamed
        have one := consistent.inverse.mp renamed
        rw [consistent.inverse.mp named, Option.some.injEq] at one
        exact isBase one.symm
    · rw [Finmap.lookup_erase_ne isId, addrs]
      by_cases isBase : x = base
      · subst isBase
        simp only [Finmap.lookup_erase, reduceCtorEq, false_iff]
        intro renamed
        rw [consistent.inverse.mpr renamed, Option.some.injEq] at named
        exact isId named
      · rw [Finmap.lookup_erase_ne isBase]
        exact consistent.inverse
  · -- the popped id has no position left
    convert places.pop atLast using 1
    funext c
    by_cases isId : c = id
    · subst isId
      simp [posOf]
    · simp [posOf, isId, Finmap.lookup_erase_ne isId]
  · intro c member
    have kept : c ∈ m₂.idToInfo := (Finmap.mem_erase.mp member).2
    change c < m₂.nextId
    rw [shuffled.nextId]
    exact consistent.fresh (shuffled.mem_iff.mp kept)

/-- `remove` never panics on a consistent manager, keeps it consistent, and returns the record
of the address, moved to the last position. -/
theorem remove_spec {m : AddrManager} (consistent : m.Consistent) (addr : Multiaddr) :
    ∃ m' removed, m.remove addr = some (m', removed) ∧ m'.Consistent ∧
      removed.map AddrInfo.erasePos = (m.get addr).map AddrInfo.erasePos := by
  cases named : m.addrToId.lookup (baseAddr addr) with
  | none =>
    have kept : m.addrToId.erase (baseAddr addr) = m.addrToId :=
      FiniteMap.erase_of_notMem (Finmap.lookup_eq_none.mp named)
    refine ⟨{ m with addrToId := m.addrToId.erase (baseAddr addr) }, none, by simp [remove, named], ?_,
      by simp [get, named]⟩
    rw [kept]
    exact consistent
  | some id =>
    obtain ⟨info, found, -⟩ := Option.map_eq_some_iff.mp (consistent.inverse.mp named)
    have placed : m.posOf id = some info.randomIdPos := posOf_eq_some.mpr ⟨info, found, rfl⟩
    have atPos := consistent.places.getElem?_pos placed
    have inside := consistent.places.pos_lt placed
    have lastIn : m.randomIds.length - 1 < m.randomIds.length := by omega
    -- the swap runs on the manager with the address already erased, whose positions are those of `m`
    obtain ⟨m₂, swapped, order, places₂, shuffled⟩ :=
      swapRandomId_spec (m := { m with addrToId := m.addrToId.erase (baseAddr addr) }) consistent.places inside lastIn
    have atLast : m₂.randomIds[m₂.randomIds.length - 1]? = some id := by
      rw [order, List.length_swapIdx]
      rw [List.getElem?_swapIdx atPos (List.getElem?_eq_getElem lastIn), if_pos rfl]
    have removed : (m₂.idToInfo.lookup id).map AddrInfo.erasePos = some info.erasePos := by
      rw [shuffled.records id]
      simp [found]
    refine ⟨{ m₂ with randomIds := m₂.randomIds.dropLast, idToInfo := m₂.idToInfo.erase id },
      m₂.idToInfo.lookup id, ?_, consistent.pop named shuffled places₂ atLast, ?_⟩
    · have lastIndex : checkedSub m.randomIds.length 1 = some (m.randomIds.length - 1) :=
        checkedSub_eq_some.mpr ⟨by omega, rfl⟩
      simp only [remove, named, found, Option.bind_eq_bind, Option.bind_some]
      simp [lastIndex, swapped]
    · rw [removed]
      simp [get, named, found]

theorem Consistent.update {m : AddrManager} (consistent : m.Consistent) (addr : Multiaddr) {f : AddrInfo → AddrInfo}
    (keeps : ∀ info, (f info).addr = info.addr ∧ (f info).randomIdPos = info.randomIdPos) :
    (m.update addr f).Consistent := by
  unfold AddrManager.update
  split
  · rename_i id _
    cases found : m.idToInfo.lookup id with
    | none => rwa [FiniteMap.modify_of_lookup_eq_none found]
    | some info =>
      rw [FiniteMap.modify_of_lookup found]
      exact consistent.replace found (keeps info).1 (keeps info).2
  · exact consistent

section Fetch

variable (multiaddrToSocketaddr : Multiaddr → Option SocketAddr) (nowMs count : Nat) (filter : AddrInfo → Bool)

/-- The IP of a record's socket address. -/
def socketIp (info : AddrInfo) : Option IpAddr := (multiaddrToSocketaddr info.addr).map (·.ip)

/-- A record `fetch_random` may return: connectable now and accepted by the filter. -/
def Eligible (info : AddrInfo) : Prop := info.isConnectable nowMs = true ∧ filter info = true

/-- Two records do not share an IP, unless it is a test IP. -/
def IpsApart (a b : AddrInfo) : Prop :=
  ∀ ip, socketIp multiaddrToSocketaddr a = some ip → socketIp multiaddrToSocketaddr b = some ip → ip.isTestIp = true

/-- What `fetch_random` takes from the records in the order it visits them: its loop with the
shuffle taken out. -/
def collect : List AddrInfo → Finset IpAddr → List AddrInfo → List AddrInfo
  | [], _, addrInfos => addrInfos
  | addrInfo :: rest, duplicateIps, addrInfos =>
    let (duplicateIps, addrInfos) := accept multiaddrToSocketaddr nowMs filter duplicateIps addrInfos addrInfo
    if addrInfos.length = count then addrInfos else collect rest duplicateIps addrInfos

/-- The taken records and the IPs recorded for them. -/
structure Taken (duplicateIps : Finset IpAddr) (addrInfos : List AddrInfo) : Prop where
  eligible : ∀ r ∈ addrInfos, Eligible nowMs filter r
  recorded : ∀ r ∈ addrInfos, ∀ ip, socketIp multiaddrToSocketaddr r = some ip → ip ∈ duplicateIps
  owned : ∀ ip ∈ duplicateIps, ∃ r ∈ addrInfos, socketIp multiaddrToSocketaddr r = some ip
  apart : addrInfos.Pairwise (IpsApart multiaddrToSocketaddr)

/-- What `collect` returns from a start: the start followed by some of the visited records, all
eligible, with distinct non-test IPs, at most `count` of them once `count` is above the start,
and, when it stops short of `count`, each eligible record it passed over shares a non-test IP
with a returned one. -/
structure Collected (visits start result : List AddrInfo) : Prop where
  picked : ∃ picked, picked.Sublist visits ∧ result = start ++ picked
  eligible : ∀ r ∈ result, Eligible nowMs filter r
  apart : result.Pairwise (IpsApart multiaddrToSocketaddr)
  atMost : start.length < count → result.length ≤ count
  short : result.length < count → ∀ x ∈ visits, Eligible nowMs filter x → x ∉ result →
    ∃ r ∈ result, ∃ ip, socketIp multiaddrToSocketaddr x = some ip ∧ socketIp multiaddrToSocketaddr r = some ip ∧
      ip.isTestIp = false

theorem taken_empty : Taken multiaddrToSocketaddr nowMs filter ∅ [] :=
  ⟨by simp, by simp, by simp, List.Pairwise.nil⟩

/-- A record's turn: it is appended, eligible and with a free or test IP, which is recorded; or
nothing changes, and an eligible record was passed over for a taken IP. -/
theorem accept_cases (duplicateIps : Finset IpAddr) (addrInfos : List AddrInfo) (addrInfo : AddrInfo) :
    let taken := accept multiaddrToSocketaddr nowMs filter duplicateIps addrInfos addrInfo
    (taken.2 = addrInfos ++ [addrInfo] ∧ Eligible nowMs filter addrInfo ∧
      (∀ ip, socketIp multiaddrToSocketaddr addrInfo = some ip → ip.isTestIp = true ∨ ip ∉ duplicateIps) ∧
      ∀ ip, ip ∈ taken.1 ↔ ip ∈ duplicateIps ∨ socketIp multiaddrToSocketaddr addrInfo = some ip) ∨
    (taken = (duplicateIps, addrInfos) ∧ (Eligible nowMs filter addrInfo →
      ∃ ip, socketIp multiaddrToSocketaddr addrInfo = some ip ∧ ip.isTestIp = false ∧ ip ∈ duplicateIps)) := by
  intro taken
  cases found : multiaddrToSocketaddr addrInfo.addr with
  | none =>
    by_cases chosen : (addrInfo.isConnectable nowMs && filter addrInfo) = true
    · have result : taken = (duplicateIps, addrInfos ++ [addrInfo]) := by
        simp only [taken, accept, found, chosen, if_true]
      rw [result]
      left
      simp only [Bool.and_eq_true] at chosen
      refine ⟨rfl, chosen, by simp [socketIp, found], ?_⟩
      simp [socketIp, found]
    · have result : taken = (duplicateIps, addrInfos) := by
        simp only [taken, accept, found, chosen, if_false, Bool.false_eq_true]
      rw [result]
      right
      refine ⟨rfl, fun eligible => absurd ?_ chosen⟩
      simpa [Eligible] using eligible
  | some socketAddr =>
    by_cases chosen : ((socketAddr.ip.isTestIp || decide (socketAddr.ip ∉ duplicateIps)) &&
        addrInfo.isConnectable nowMs && filter addrInfo) = true
    · have result : taken = (insert socketAddr.ip duplicateIps, addrInfos ++ [addrInfo]) := by
        simp only [taken, accept, found, chosen, if_true]
      rw [result]
      left
      simp only [Bool.and_eq_true, Bool.or_eq_true, decide_eq_true_eq] at chosen
      refine ⟨rfl, ⟨chosen.1.2, chosen.2⟩, ?_, ?_⟩
      · simp only [socketIp, found, Option.map_some, Option.some.injEq]
        rintro ip rfl
        exact chosen.1.1
      · intro ip
        simp [socketIp, found, eq_comm, or_comm]
    · have result : taken = (duplicateIps, addrInfos) := by
        simp only [taken, accept, found, chosen, if_false, Bool.false_eq_true]
      rw [result]
      right
      refine ⟨rfl, fun eligible => ⟨socketAddr.ip, by simp [socketIp, found], ?_⟩⟩
      -- only a recorded non-test IP refuses an eligible record
      simp only [Eligible] at eligible
      simp only [Bool.and_eq_true, Bool.or_eq_true, decide_eq_true_eq, eligible, and_true, not_or,
        not_not] at chosen
      exact ⟨by simpa using chosen.1, chosen.2⟩

variable {multiaddrToSocketaddr nowMs filter}

theorem Taken.accept {duplicateIps : Finset IpAddr} {addrInfos : List AddrInfo}
    (taken : Taken multiaddrToSocketaddr nowMs filter duplicateIps addrInfos) (addrInfo : AddrInfo) :
    let next := AddrManager.accept multiaddrToSocketaddr nowMs filter duplicateIps addrInfos addrInfo
    Taken multiaddrToSocketaddr nowMs filter next.1 next.2 := by
  intro next
  rcases accept_cases multiaddrToSocketaddr nowMs filter duplicateIps addrInfos addrInfo with
    ⟨appended, eligible, free, ips⟩ | ⟨same, -⟩
  · constructor
    · rw [appended]
      intro r member
      rcases List.mem_append.mp member with old | new
      · exact taken.eligible r old
      · rw [List.mem_singleton.mp new]
        exact eligible
    · rw [appended]
      intro r member ip has
      rw [ips]
      rcases List.mem_append.mp member with old | new
      · exact .inl (taken.recorded r old ip has)
      · rw [List.mem_singleton.mp new] at has
        exact .inr has
    · intro ip member
      rw [appended]
      rcases (ips ip).mp member with old | new
      · obtain ⟨r, kept, has⟩ := taken.owned ip old
        exact ⟨r, List.mem_append_left _ kept, has⟩
      · exact ⟨addrInfo, List.mem_append_right _ (List.mem_singleton_self _), new⟩
    · rw [appended, List.pairwise_append]
      refine ⟨taken.apart, List.pairwise_singleton _ _, ?_⟩
      -- a non-test IP of the new record is not among the recorded ones
      intro r member b single ip hasR hasB
      rw [List.mem_singleton.mp single] at hasB
      rcases free ip hasB with test | fresh
      · exact test
      · exact absurd (taken.recorded r member ip hasR) fresh
  · rw [show next = (duplicateIps, addrInfos) from same]
    exact taken

theorem collect_spec : ∀ (visits : List AddrInfo) {duplicateIps : Finset IpAddr} {addrInfos : List AddrInfo},
    Taken multiaddrToSocketaddr nowMs filter duplicateIps addrInfos →
    Collected multiaddrToSocketaddr nowMs count filter visits addrInfos
      (collect multiaddrToSocketaddr nowMs count filter visits duplicateIps addrInfos)
  | [], duplicateIps, addrInfos, taken => by
    simp only [collect]
    refine ⟨⟨[], List.Sublist.slnil, by simp⟩, taken.eligible, taken.apart, le_of_lt, ?_⟩
    intro _ x member
    cases member
  | addrInfo :: rest, duplicateIps, addrInfos, taken => by
    have next := taken.accept addrInfo
    unfold collect
    rcases stepped : accept multiaddrToSocketaddr nowMs filter duplicateIps addrInfos addrInfo with
      ⟨duplicateIps', addrInfos'⟩
    rw [stepped] at next
    dsimp only at next ⊢
    -- the record is appended or passed over
    have grows : (addrInfos' = addrInfos ++ [addrInfo] ∧ ∀ ip, ip ∈ duplicateIps' ↔ ip ∈ duplicateIps ∨
          socketIp multiaddrToSocketaddr addrInfo = some ip) ∨
        (addrInfos' = addrInfos ∧ duplicateIps' = duplicateIps ∧ (Eligible nowMs filter addrInfo →
          ∃ ip, socketIp multiaddrToSocketaddr addrInfo = some ip ∧ ip.isTestIp = false ∧ ip ∈ duplicateIps)) := by
      rcases accept_cases multiaddrToSocketaddr nowMs filter duplicateIps addrInfos addrInfo with
        ⟨appended, -, -, ips⟩ | ⟨same, passed⟩
      · rw [stepped] at appended ips
        exact .inl ⟨appended, ips⟩
      · rw [stepped, Prod.mk.injEq] at same
        exact .inr ⟨same.2, same.1, passed⟩
    have lengthStep : addrInfos'.length ≤ addrInfos.length + 1 := by
      rcases grows with ⟨rfl, -⟩ | ⟨rfl, -, -⟩ <;> simp
    split
    · -- the loop breaks with `count` records
      rename_i full
      refine ⟨?_, next.eligible, next.apart, fun _ => full.le, fun short => absurd full (by omega)⟩
      rcases grows with ⟨rfl, -⟩ | ⟨rfl, -, -⟩
      · exact ⟨[addrInfo], by simp, rfl⟩
      · exact ⟨[], List.nil_sublist _, by simp⟩
    · rename_i notFull
      have later := collect_spec rest next
      refine ⟨?_, later.eligible, later.apart, fun below => later.atMost (by omega), ?_⟩
      · obtain ⟨picked, sub, eq⟩ := later.picked
        rcases grows with ⟨rfl, -⟩ | ⟨rfl, -, -⟩
        · exact ⟨addrInfo :: picked, sub.cons_cons _, by simp [eq]⟩
        · exact ⟨picked, sub.cons _, eq⟩
      · intro short x member eligible missing
        obtain ⟨picked, -, eq⟩ := later.picked
        rcases List.mem_cons.mp member with rfl | inRest
        · -- the record itself was passed over for an IP a kept record owns
          rcases grows with ⟨rfl, -⟩ | ⟨rfl, rfl, passed⟩
          · exact absurd (eq ▸ List.mem_append_left _ (List.mem_append_right _ (List.mem_singleton_self _)))
              missing
          · obtain ⟨ip, has, test, recorded⟩ := passed eligible
            obtain ⟨r, kept, owns⟩ := taken.owned ip recorded
            exact ⟨r, eq ▸ List.mem_append_left _ kept, ip, has, owns, test⟩
        · exact later.short short x inRest eligible missing

variable (multiaddrToSocketaddr nowMs filter)

theorem filterMap_drop_eq_cons {m : AddrManager} {i id : Nat} {info : AddrInfo} (at₁ : m.randomIds[i]? = some id)
    (found : m.idToInfo.lookup id = some info) :
    (m.randomIds.drop i).filterMap m.idToInfo.lookup = info :: (m.randomIds.drop (i + 1)).filterMap m.idToInfo.lookup := by
  obtain ⟨inside, eq⟩ := List.getElem?_eq_some_iff.mp at₁
  rw [List.drop_eq_getElem_cons inside, eq, List.filterMap_cons_some (f := fun a => m.idToInfo.lookup a) found]

/-- The loop of `fetch_random` from index `i`: it never panics, only moves positions at `i` and
after, and returns what `collect` takes from the records from `i` on in the order it leaves. The
induction is on the number of indices left; each round swaps a drawn index into `i`, which no
later round moves. -/
theorem fetchLoop_spec (roll : Nat → Nat) {len : Nat} (n : Nat) :
    ∀ {i : Nat} {m : AddrManager}, m.Consistent → m.randomIds.length = len → i + n = len →
    ∀ duplicateIps addrInfos, ∃ m',
      fetchLoop multiaddrToSocketaddr nowMs count filter roll len (List.range' i n) m duplicateIps addrInfos =
        some (m', collect multiaddrToSocketaddr nowMs count filter
          ((m'.randomIds.drop i).filterMap m'.idToInfo.lookup) duplicateIps addrInfos) ∧
      m'.Consistent ∧ Reshuffled m m' ∧ ∀ k < i, m'.randomIds[k]? = m.randomIds[k]? := by
  induction n with
  | zero =>
    intro i m consistent length sum duplicateIps addrInfos
    refine ⟨m, ?_, consistent, Reshuffled.refl m, fun _ _ => rfl⟩
    have done : m.randomIds.drop i = [] := List.drop_eq_nil_of_le (by omega)
    simp [fetchLoop, collect, done]
  | succ n ih =>
    intro i m consistent length sum duplicateIps addrInfos
    have inside : i < m.randomIds.length := by omega
    -- the draw `j` lies in `[i, len)`
    have drawn : i + roll i % (len - i) < m.randomIds.length := by
      have := Nat.mod_lt (roll i) (show 0 < len - i by omega)
      omega
    obtain ⟨m₁, swapped, order, places₁, shuffled₁⟩ := swapRandomId_spec consistent.places drawn inside
    have consistent₁ := consistent.reshuffled shuffled₁ places₁
    have length₁ : m₁.randomIds.length = len := shuffled₁.length.trans length
    -- the indices before `i` are not touched by the swap
    have frozen₁ : ∀ k < i, m₁.randomIds[k]? = m.randomIds[k]? := by
      intro k below
      rw [order, List.getElem?_swapIdx (List.getElem?_eq_getElem drawn) (List.getElem?_eq_getElem inside),
        if_neg (by omega), if_neg (by omega)]
    have atI : m₁.randomIds[i]? = some m₁.randomIds[i] := List.getElem?_eq_getElem (by omega)
    generalize m₁.randomIds[i] = id at atI
    obtain ⟨info, found, -⟩ := posOf_eq_some.mp (places₁.pos_getElem? atI)
    rcases stepped : accept multiaddrToSocketaddr nowMs filter duplicateIps addrInfos info with
      ⟨duplicateIps', addrInfos'⟩
    have round : fetchLoop multiaddrToSocketaddr nowMs count filter roll len (List.range' i (n + 1)) m
        duplicateIps addrInfos = if addrInfos'.length = count then some (m₁, addrInfos')
          else fetchLoop multiaddrToSocketaddr nowMs count filter roll len (List.range' (i + 1) n) m₁
            duplicateIps' addrInfos' := by
      rw [List.range'_succ]
      simp only [fetchLoop, Option.bind_eq_bind]
      rw [swapped]
      simp only [Option.bind_some, atI, found, stepped]
    by_cases full : addrInfos'.length = count
    · refine ⟨m₁, ?_, consistent₁, shuffled₁, frozen₁⟩
      rw [round, if_pos full, filterMap_drop_eq_cons atI found]
      simp [collect, stepped, full]
    · obtain ⟨m', loop, consistent', shuffled', frozen'⟩ :=
        ih (i := i + 1) consistent₁ length₁ (by omega) duplicateIps' addrInfos'
      have at' : m'.randomIds[i]? = some id := (frozen' i (by omega)).trans atI
      have found' : m'.idToInfo.lookup id = some info :=
        (shuffled'.lookup_eq places₁ consistent'.places atI at').trans found
      refine ⟨m', ?_, consistent', shuffled₁.trans shuffled', ?_⟩
      · rw [round, if_neg full, loop, filterMap_drop_eq_cons at' found']
        simp [collect, stepped, full]
      · intro k below
        rw [frozen' k (by omega), frozen₁ k below]

/-- `fetch_random` never panics on a consistent manager, keeps it consistent, and returns what
`collect` takes from its records in the order it leaves them in. -/
theorem fetchRandom_spec {m : AddrManager} (consistent : m.Consistent) (roll : Nat → Nat) :
    ∃ m', m.fetchRandom multiaddrToSocketaddr nowMs count filter roll =
        some (m', collect multiaddrToSocketaddr nowMs count filter (m'.randomIds.filterMap m'.idToInfo.lookup) ∅ []) ∧
      m'.Consistent ∧ Reshuffled m m' := by
  obtain ⟨m', loop, consistent', shuffled', -⟩ :=
    fetchLoop_spec multiaddrToSocketaddr nowMs count filter roll m.randomIds.length (i := 0) consistent rfl
      (Nat.zero_add _) ∅ []
  refine ⟨m', ?_, consistent', shuffled'⟩
  rw [fetchRandom, List.range_eq_range', loop, List.drop_zero]

/-- What `fetch_random` promises of the records it returns, against the manager it leaves. -/
structure Fetched (m : AddrManager) (addrInfos : List AddrInfo) : Prop where
  atMost : 0 < count → addrInfos.length ≤ count
  distinct : (addrInfos.map (·.addr)).Nodup
  stored : ∀ info ∈ addrInfos, ∃ id, m.idToInfo.lookup id = some info
  eligible : ∀ info ∈ addrInfos, Eligible nowMs filter info
  apart : addrInfos.Pairwise (IpsApart multiaddrToSocketaddr)
  short : addrInfos.length < count → ∀ id info, m.idToInfo.lookup id = some info → Eligible nowMs filter info →
    info ∉ addrInfos → ∃ r ∈ addrInfos, ∃ ip, socketIp multiaddrToSocketaddr info = some ip ∧
      socketIp multiaddrToSocketaddr r = some ip ∧ ip.isTestIp = false

theorem Consistent.visits {m : AddrManager} (consistent : m.Consistent) :
    (∀ info, info ∈ m.randomIds.filterMap m.idToInfo.lookup ↔ ∃ id, m.idToInfo.lookup id = some info) ∧
    ((m.randomIds.filterMap m.idToInfo.lookup).map (·.addr)).Nodup := by
  constructor
  · intro info
    rw [List.mem_filterMap]
    constructor
    · rintro ⟨id, -, found⟩
      exact ⟨id, found⟩
    · rintro ⟨id, found⟩
      refine ⟨id, ?_, found⟩
      rw [consistent.places.mem_iff]
      simp [posOf, found]
  · rw [List.map_filterMap]
    apply consistent.places.nodup.filterMap
    -- two ids with one address are one id
    intro a a' addr named named'
    have toA := consistent.inverse.mpr (Option.mem_def.mp named)
    rw [consistent.inverse.mpr (Option.mem_def.mp named'), Option.some.injEq] at toA
    exact toA.symm

theorem fetchRandom_fetched {m : AddrManager} (consistent : m.Consistent) (roll : Nat → Nat) :
    ∃ m' addrInfos, m.fetchRandom multiaddrToSocketaddr nowMs count filter roll = some (m', addrInfos) ∧
      m'.Consistent ∧ Fetched multiaddrToSocketaddr nowMs count filter m' addrInfos := by
  obtain ⟨m', fetched, consistent', -⟩ := fetchRandom_spec multiaddrToSocketaddr nowMs count filter consistent roll
  obtain ⟨visited, distinct⟩ := consistent'.visits
  have collected := collect_spec count (m'.randomIds.filterMap m'.idToInfo.lookup)
    (taken_empty multiaddrToSocketaddr nowMs filter)
  obtain ⟨picked, sub, taken⟩ := collected.picked
  rw [List.nil_append] at taken
  refine ⟨m', _, fetched, consistent', ⟨fun positive => collected.atMost positive, ?_, ?_, collected.eligible,
    collected.apart, ?_⟩⟩
  · rw [taken]
    exact distinct.sublist (sub.map _)
  · intro info member
    rw [taken] at member
    exact (visited info).mp (sub.subset member)
  · intro short id info found eligible missing
    exact collected.short short info ((visited info).mpr ⟨id, found⟩) eligible missing

end Fetch

variable (multiaddrToSocketaddr : Multiaddr → Option SocketAddr)

theorem Consistent.step {m m' : AddrManager} (consistent : m.Consistent) (step : Step multiaddrToSocketaddr m m') :
    m'.Consistent := by
  cases step with
  | add addrInfo added => exact consistent.add added
  | remove addr done =>
    obtain ⟨m'', removed, result, consistent', -⟩ := remove_spec consistent addr
    rw [done, Option.some.injEq, Prod.mk.injEq] at result
    rw [result.1]
    exact consistent'
  | fetchRandom nowMs count filter roll fetched =>
    obtain ⟨m'', result, consistent', -⟩ := fetchRandom_spec multiaddrToSocketaddr nowMs count filter consistent roll
    rw [fetched, Option.some.injEq, Prod.mk.injEq] at result
    rw [result.1]
    exact consistent'
  | update addr f keeps => exact consistent.update addr keeps

theorem Reachable.consistent {m : AddrManager} (reachable : m.Reachable multiaddrToSocketaddr) : m.Consistent := by
  induction reachable with
  | refl => exact consistent_default
  | tail _ step consistent => exact consistent.step multiaddrToSocketaddr step

theorem Consistent.perm {m : AddrManager} (consistent : m.Consistent) :
    m.randomIds.Perm (sortedElems m.idToInfo.keys) := by
  rw [List.perm_ext_iff_of_nodup consistent.places.nodup (nodup_sortedElems _)]
  intro id
  rw [consistent.places.mem_iff, mem_sortedElems, Finmap.mem_keys, ← Finmap.lookup_isSome]
  simp [posOf]

theorem Consistent.count_eq {m : AddrManager} (consistent : m.Consistent) : m.count = m.randomIds.length := by
  have ids : m.idToInfo.keys.card = m.randomIds.length := by
    rw [← List.toFinset_card_of_nodup consistent.places.nodup]
    congr 1
    ext id
    rw [List.mem_toFinset, consistent.places.mem_iff, Finmap.mem_keys, ← Finmap.lookup_isSome]
    simp [posOf]
  rw [count, ← ids]
  -- `addr_to_id` is a bijection from the addresses onto the ids
  apply Finset.card_nbij' (fun addr => (m.addrToId.lookup addr).getD 0)
    (fun id => ((m.idToInfo.lookup id).map (·.addr)).getD [])
  · intro addr member
    obtain ⟨id, named⟩ := Option.isSome_iff_exists.mp (Finmap.lookup_isSome.mpr (Finmap.mem_keys.mp member))
    obtain ⟨info, found, -⟩ := Option.map_eq_some_iff.mp (consistent.inverse.mp named)
    simp only [named, Option.getD_some, Finset.mem_coe]
    exact Finmap.mem_keys.mpr (Finmap.mem_of_lookup_eq_some found)
  · intro id member
    obtain ⟨info, found⟩ := Option.isSome_iff_exists.mp (Finmap.lookup_isSome.mpr (Finmap.mem_keys.mp member))
    have named := consistent.inverse.mpr (show (m.idToInfo.lookup id).map (·.addr) = some info.addr by simp [found])
    simp only [found, Option.map_some, Option.getD_some, Finset.mem_coe]
    exact Finmap.mem_keys.mpr (Finmap.mem_of_lookup_eq_some named)
  · intro addr member
    obtain ⟨id, named⟩ := Option.isSome_iff_exists.mp (Finmap.lookup_isSome.mpr (Finmap.mem_keys.mp member))
    dsimp only
    rw [named, Option.getD_some, consistent.inverse.mp named, Option.getD_some]
  · intro id member
    obtain ⟨info, found⟩ := Option.isSome_iff_exists.mp (Finmap.lookup_isSome.mpr (Finmap.mem_keys.mp member))
    have named := consistent.inverse.mpr (show (m.idToInfo.lookup id).map (·.addr) = some info.addr by simp [found])
    dsimp only
    rw [found, Option.map_some, Option.getD_some, named, Option.getD_some]

/-- Every manager reached by `add`, `remove`, `fetch_random` and changes through `get_mut` keeps
`addr_to_id` and `id_to_info` inverse, lists each id once in `random_ids` at the position its
record keeps, counts its addresses by `random_ids`, panics in `add` only on a new address once
`next_id` is `u64::MAX`, never panics in `remove` or `fetch_random`, and `fetch_random` returns
distinct eligible stored records with distinct non-test IPs, at most `count` when `count > 0`, and
fewer only when each eligible record left out shares a non-test IP with a returned one. -/
theorem addr_manager_indexes_consistent {m : AddrManager} (reachable : m.Reachable multiaddrToSocketaddr) :
    (∀ addr id, m.addrToId.lookup addr = some id → ∃ info, m.idToInfo.lookup id = some info ∧ info.addr = addr) ∧
    (∀ id ∈ m.idToInfo, ∃ addr, m.addrToId.lookup addr = some id) ∧
    m.randomIds.Perm (sortedElems m.idToInfo.keys) ∧
    (∀ id info, m.idToInfo.lookup id = some info → m.randomIds[info.randomIdPos]? = some id) ∧
    m.count = m.randomIds.length ∧
    (∀ addrInfo, (m.addrToId.lookup addrInfo.addr).isSome ∨ m.nextId < u64Max → (m.add addrInfo).isSome) ∧
    (∀ addr, (m.remove addr).isSome) ∧
    ∀ nowMs count filter roll, ∃ m' addrInfos,
      m.fetchRandom multiaddrToSocketaddr nowMs count filter roll = some (m', addrInfos) ∧
      Fetched multiaddrToSocketaddr nowMs count filter m' addrInfos := by
  have consistent := reachable.consistent
  refine ⟨?_, ?_, consistent.perm, ?_, consistent.count_eq, fun _ room => add_isSome consistent room, ?_, ?_⟩
  · intro addr id named
    exact Option.map_eq_some_iff.mp (consistent.inverse.mp named)
  · intro id member
    obtain ⟨info, found⟩ := Option.isSome_iff_exists.mp (Finmap.lookup_isSome.mpr member)
    exact ⟨info.addr, consistent.inverse.mpr (by simp [found])⟩
  · intro id info found
    exact consistent.places.getElem?_pos (posOf_eq_some.mpr ⟨info, found, rfl⟩)
  · intro addr
    obtain ⟨m', removed, done, -⟩ := remove_spec consistent addr
    simp [done]
  · intro nowMs count filter roll
    obtain ⟨m', addrInfos, fetched, -, promised⟩ :=
      fetchRandom_fetched multiaddrToSocketaddr nowMs count filter consistent roll
    exact ⟨m', addrInfos, fetched, promised⟩

/-- A record of a loopback address, as `AddrInfo::new` makes it. -/
def sampleInfo : AddrInfo := ⟨[.ip4 2130706433, .tcp 8115], 100, 0, 0, 0, 0, 1⟩

/-- The default manager after `add(sampleInfo)`. -/
def sampleManager : AddrManager :=
  ⟨1, (∅ : FiniteMap Multiaddr Nat).insert sampleInfo.addr 0, (∅ : FiniteMap Nat AddrInfo).insert 0 sampleInfo, [0]⟩

theorem sampleInfo_withPos : ({ sampleInfo with randomIdPos := 0 } : AddrInfo) = sampleInfo := rfl

theorem add_sampleInfo : AddrManager.default.add sampleInfo = some sampleManager := by
  simp [AddrManager.add, AddrManager.default, sampleManager, checkedAdd, u64Max, sampleInfo_withPos]

theorem sample_manager_indexes_consistent :
    sampleManager.count = sampleManager.randomIds.length ∧ ∀ addr, (sampleManager.remove addr).isSome :=
  ⟨(addr_manager_indexes_consistent (fun _ => none) (.single (.add _ sampleInfo add_sampleInfo))).2.2.2.2.1,
    (addr_manager_indexes_consistent (fun _ => none) (.single (.add _ sampleInfo add_sampleInfo))).2.2.2.2.2.2.1⟩

/-- Adding `sampleInfo` and removing it again leaves an empty manager with `next_id` one higher:
`next_id` reaches every value up to `u64::MAX`. -/
theorem reachable_cleared (n : Nat) (le : n ≤ u64Max) :
    (⟨n, ∅, ∅, []⟩ : AddrManager).Reachable multiaddrToSocketaddr := by
  induction n with
  | zero => exact Relation.ReflTransGen.refl
  | succ n ih =>
    have added : (⟨n, ∅, ∅, []⟩ : AddrManager).add sampleInfo =
        some ⟨n + 1, (∅ : FiniteMap Multiaddr Nat).insert sampleInfo.addr n,
          (∅ : FiniteMap Nat AddrInfo).insert n sampleInfo, [n]⟩ := by
      simp [AddrManager.add, checkedAdd, show n + 1 ≤ u64Max by omega, sampleInfo_withPos]
    have base : baseAddr sampleInfo.addr = sampleInfo.addr := by decide
    have removed : (⟨n + 1, (∅ : FiniteMap Multiaddr Nat).insert sampleInfo.addr n,
        (∅ : FiniteMap Nat AddrInfo).insert n sampleInfo, [n]⟩ : AddrManager).remove sampleInfo.addr =
        some (⟨n + 1, ∅, ∅, []⟩, some sampleInfo) := by
      unfold AddrManager.remove
      rw [base]
      simp [checkedSub, swapRandomId, FiniteMap.erase_insert_empty, show sampleInfo.randomIdPos = 0 from rfl]
    exact ((ih (by omega)).tail (.add _ _ added)).tail (.remove _ _ removed)

/-- `multiaddr_to_socketaddr` on the addresses of an IPv4 host and a TCP port. -/
def sampleMultiaddrToSocketaddr : Multiaddr → Option SocketAddr
  | [.ip4 address, .tcp port] => some ⟨.v4 ⟨address % 2 ^ 32, Nat.mod_lt _ (by decide)⟩, port⟩
  | _ => none

theorem fetch_random_exceeds_zero_count :
    (sampleManager.Reachable sampleMultiaddrToSocketaddr ∧
      ∃ m', sampleManager.fetchRandom sampleMultiaddrToSocketaddr 0 0 (fun _ => true) (fun _ => 0) =
        some (m', [sampleInfo])) ∧
    ∃ m : AddrManager, m.Reachable sampleMultiaddrToSocketaddr ∧ m.addrToId.lookup sampleInfo.addr = none ∧
      m.add sampleInfo = none := by
  refine ⟨⟨.single (.add _ sampleInfo add_sampleInfo), sampleManager, ?_⟩,
    ⟨u64Max, ∅, ∅, []⟩, reachable_cleared sampleMultiaddrToSocketaddr u64Max le_rfl, by simp, ?_⟩
  · simp [fetchRandom, fetchLoop, swapRandomId, sampleManager, accept, sampleMultiaddrToSocketaddr, sampleInfo,
      AddrInfo.isConnectable, AddrInfo.triedInLastMinute, IpAddr.isTestIp, IpAddr.isLoopback]
  · exact add_eq_none (by simp) rfl

end AddrManager

end Ckb.Network
