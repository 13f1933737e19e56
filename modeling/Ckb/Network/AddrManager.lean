import Ckb.Types.Core
import Ckb.Support.FiniteMap
import Ckb.Support.IndexedList

/-!
The address manager of the peer store (`peer_store/addr_manager.rs`). Records are kept under an id
in `id_to_info`, found from their address through `addr_to_id`, and listed in `random_ids`, where
each record's `random_id_pos` is its index. `remove` swaps the record to the end of `random_ids`
and pops it; `fetch_random` shuffles `random_ids` in place (Fisher–Yates, through
`swap_random_id`) while it picks records.

The hash maps are finite maps and `random_ids` is a list. A panic (`expect`, an index out of
range, `u64` overflow of `next_id` under the release profile's overflow checks) is `none`. The
random draw `rng.gen_range(i..len)` of `fetch_random` is `i + roll i % (len - i)` for a function
`roll`, which reaches every index of the range. `multiaddr_to_socketaddr` comes from the `p2p`
crate and is a parameter.
-/

namespace Ckb.Network

/-- The components of a `Multiaddr` (`multiaddr::Protocol`). -/
inductive Protocol where
  | dns4 (host : String)
  | dns6 (host : String)
  | ip4 (address : Nat)
  | ip6 (address : Nat)
  | p2p (peerId : List Nat)
  | tcp (port : Nat)
  | tls (name : String)
  | ws
  | wss
  | memory (port : Nat)
  | onion3 (address : List Nat) (port : Nat)
  deriving DecidableEq, Repr

abbrev Multiaddr := List Protocol

/-- The components that `AddrInfo::new`, `remove`, `get` and `get_mut` strip from an address. -/
def Protocol.isTransport : Protocol → Bool
  | .ws | .wss | .memory _ | .tls _ => true
  | _ => false

/-- The address without its `Ws`, `Wss`, `Memory` and `Tls` components, the key `remove`,
`get` and `get_mut` look up. -/
def baseAddr (addr : Multiaddr) : Multiaddr := addr.filter fun p => !p.isTransport

inductive IpAddr where
  | v4 (bits : Fin (2 ^ 32))
  | v6 (bits : Fin (2 ^ 128))
  deriving DecidableEq, Repr

/-- `IpAddr::is_unspecified`: `0.0.0.0` or `::`. -/
def IpAddr.isUnspecified : IpAddr → Bool
  | .v4 bits => bits.val = 0
  | .v6 bits => bits.val = 0

/-- `IpAddr::is_loopback`: `127.0.0.0/8` or `::1`. -/
def IpAddr.isLoopback : IpAddr → Bool
  | .v4 bits => bits.val / 2 ^ 24 = 127
  | .v6 bits => bits.val = 1

/-- The addresses `fetch_random` lets share an IP: "a trick to make our tests work". -/
def IpAddr.isTestIp (ip : IpAddr) : Bool := ip.isUnspecified || ip.isLoopback

structure SocketAddr where
  ip : IpAddr
  port : Nat
  deriving DecidableEq, Repr

def addrTimeoutMs : Nat := 7 * 24 * 3600 * 1000
def addrMaxRetries : Nat := 3
def addrMaxFailures : Nat := 10

structure AddrInfo where
  addr : Multiaddr
  score : Int
  lastConnectedAtMs : Nat
  lastTriedAtMs : Nat
  attemptsCount : Nat
  randomIdPos : Nat
  flags : Nat
  deriving DecidableEq, Repr

namespace AddrInfo

/-- `tried_in_last_minute`, with `saturating_sub`. -/
def triedInLastMinute (info : AddrInfo) (nowMs : Nat) : Bool := info.lastTriedAtMs ≥ nowMs - 60000

def isConnectable (info : AddrInfo) (nowMs : Nat) : Bool :=
  if info.triedInLastMinute nowMs then true
  -- never connected, and retried too often
  else if info.lastConnectedAtMs = 0 ∧ info.attemptsCount ≥ addrMaxRetries then false
  -- not connected for too long, and failed too often
  else if nowMs - info.lastConnectedAtMs > addrTimeoutMs ∧ info.attemptsCount ≥ addrMaxFailures then false
  else true

end AddrInfo

structure AddrManager where
  nextId : Nat
  addrToId : FiniteMap Multiaddr Nat
  idToInfo : FiniteMap Nat AddrInfo
  randomIds : List Nat

namespace AddrManager

/-- `AddrManager::default()`. -/
protected def default : AddrManager := ⟨0, ∅, ∅, []⟩

/-- `add`: a known address takes the new record, keeping its position, unless the new record
was connected earlier; a new address gets the next id and the last position. -/
def add (m : AddrManager) (addrInfo : AddrInfo) : Option AddrManager :=
  match m.addrToId.lookup addrInfo.addr with
  | some id =>
    -- `expect("must exists")`
    (m.idToInfo.lookup id).map fun exist =>
      if addrInfo.lastConnectedAtMs ≥ exist.lastConnectedAtMs then
        { m with idToInfo := m.idToInfo.insert id { addrInfo with randomIdPos := exist.randomIdPos } }
      else m
  | none =>
    -- `self.next_id += 1`
    (checkedAdd m.nextId 1).map fun nextId =>
      { nextId
        addrToId := m.addrToId.insert addrInfo.addr m.nextId
        idToInfo := m.idToInfo.insert m.nextId { addrInfo with randomIdPos := m.randomIds.length }
        randomIds := m.randomIds ++ [m.nextId] }

/-- `swap_random_id(i, j)`: exchange two entries of `random_ids` and their records' positions. -/
def swapRandomId (m : AddrManager) (i j : Nat) : Option AddrManager :=
  if i = j then some m
  else do
    let a ← m.randomIds[i]?
    let infoA ← m.idToInfo.lookup a
    let idToInfo := m.idToInfo.insert a { infoA with randomIdPos := j }
    let b ← m.randomIds[j]?
    let infoB ← idToInfo.lookup b
    let idToInfo := idToInfo.insert b { infoB with randomIdPos := i }
    some { m with idToInfo, randomIds := m.randomIds.swapIdx i j }

/-- `remove`: the record of the address, swapped with the last entry of `random_ids` and popped. -/
def remove (m : AddrManager) (addr : Multiaddr) : Option (AddrManager × Option AddrInfo) :=
  let base := baseAddr addr
  let m₁ := { m with addrToId := m.addrToId.erase base }
  match m.addrToId.lookup base with
  | none => some (m₁, none)
  | some id => do
    -- `expect("exists")`
    let info ← m₁.idToInfo.lookup id
    -- `self.random_ids.len() - 1`
    let last ← checkedSub m₁.randomIds.length 1
    let m₂ ← m₁.swapRandomId info.randomIdPos last
    let m₃ := { m₂ with randomIds := m₂.randomIds.dropLast }
    some ({ m₃ with idToInfo := m₃.idToInfo.erase id }, m₃.idToInfo.lookup id)

def get (m : AddrManager) (addr : Multiaddr) : Option AddrInfo :=
  (m.addrToId.lookup (baseAddr addr)).bind m.idToInfo.lookup

/-- A change `f` made to the record `get_mut(addr)` returns. -/
def update (m : AddrManager) (addr : Multiaddr) (f : AddrInfo → AddrInfo) : AddrManager :=
  match m.addrToId.lookup (baseAddr addr) with
  | some id => { m with idToInfo := m.idToInfo.modify id f }
  | none => m

def count (m : AddrManager) : Nat := m.addrToId.keys.card

section Fetch

variable (multiaddrToSocketaddr : Multiaddr → Option SocketAddr) (nowMs count : Nat) (filter : AddrInfo → Bool)

/-- One record's turn in `fetch_random`: taken when it is connectable and accepted by `filter`,
and, when it has a socket address, its IP is a test IP or not taken yet. -/
def accept (duplicateIps : Finset IpAddr) (addrInfos : List AddrInfo) (addrInfo : AddrInfo) :
    Finset IpAddr × List AddrInfo :=
  match multiaddrToSocketaddr addrInfo.addr with
  | some socketAddr =>
    let ip := socketAddr.ip
    if (ip.isTestIp || decide (ip ∉ duplicateIps)) && addrInfo.isConnectable nowMs && filter addrInfo then
      (insert ip duplicateIps, addrInfos ++ [addrInfo])
    else (duplicateIps, addrInfos)
  | none =>
    if addrInfo.isConnectable nowMs && filter addrInfo then (duplicateIps, addrInfos ++ [addrInfo])
    else (duplicateIps, addrInfos)

/-- The loop of `fetch_random` over the indices `i` still to visit, with `len` the length of
`random_ids`; it breaks once `count` records are taken. -/
def fetchLoop (roll : Nat → Nat) (len : Nat) :
    List Nat → AddrManager → Finset IpAddr → List AddrInfo → Option (AddrManager × List AddrInfo)
  | [], m, _, addrInfos => some (m, addrInfos)
  | i :: rest, m, duplicateIps, addrInfos => do
    -- `let j = rng.gen_range(i..self.random_ids.len()); self.swap_random_id(j, i)`
    let m ← m.swapRandomId (i + roll i % (len - i)) i
    let id ← m.randomIds[i]?
    let addrInfo ← m.idToInfo.lookup id
    let (duplicateIps, addrInfos) := accept multiaddrToSocketaddr nowMs filter duplicateIps addrInfos addrInfo
    if addrInfos.length = count then some (m, addrInfos)
    else fetchLoop roll len rest m duplicateIps addrInfos

/-- `fetch_random(count, filter)` at time `nowMs`, with the random draws `roll`. -/
def fetchRandom (m : AddrManager) (roll : Nat → Nat) : Option (AddrManager × List AddrInfo) :=
  fetchLoop multiaddrToSocketaddr nowMs count filter roll m.randomIds.length
    (List.range m.randomIds.length) m ∅ []

end Fetch

variable (multiaddrToSocketaddr : Multiaddr → Option SocketAddr)

/-- The calls that change an address manager: `add`, `remove`, `fetch_random`, and a change
through `get_mut` that keeps the address and the position of the record. -/
inductive Step : AddrManager → AddrManager → Prop
  | add (m : AddrManager) (addrInfo : AddrInfo) {m' : AddrManager} (added : m.add addrInfo = some m') : Step m m'
  | remove (m : AddrManager) (addr : Multiaddr) {m' : AddrManager} {removed : Option AddrInfo}
      (done : m.remove addr = some (m', removed)) : Step m m'
  | fetchRandom (m : AddrManager) (nowMs count : Nat) (filter : AddrInfo → Bool) (roll : Nat → Nat)
      {m' : AddrManager} {addrInfos : List AddrInfo}
      (fetched : m.fetchRandom multiaddrToSocketaddr nowMs count filter roll = some (m', addrInfos)) : Step m m'
  | update (m : AddrManager) (addr : Multiaddr) (f : AddrInfo → AddrInfo)
      (keeps : ∀ info, (f info).addr = info.addr ∧ (f info).randomIdPos = info.randomIdPos) :
      Step m (m.update addr f)

def Reachable (m : AddrManager) : Prop :=
  Relation.ReflTransGen (Step multiaddrToSocketaddr) AddrManager.default m

end AddrManager

end Ckb.Network
