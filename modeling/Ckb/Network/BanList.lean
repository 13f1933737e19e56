import Mathlib

/-!
The ban list of the peer store (`peer_store/ban_list.rs`). Bans are kept by network: banning a
network replaces its earlier ban, and every `CLEAR_INTERVAL_COUNTER` bans the list drops the bans
that have run out. An address is banned at a time when a ban in force contains it; the list looks
up the address's own network first, then scans every ban.

The hash map is the list of its entries, with `insert` and `remove` keyed by network. The network
library (`IpNetwork::contains`, `ip_to_network`) is a parameter, and the clock is the `now` each
call is made at. `insert_count` is a `usize` that wraps.
-/

namespace Ckb.Network

def clearIntervalCounter : Nat := 1024

/-- `BannedAddr`: the fields the ban list reads. -/
structure BannedAddr (N : Type) where
  address : N
  banUntil : Nat
deriving DecidableEq, Repr

/-- The network library: `IpNetwork::contains` and `ip_to_network`. -/
structure IpNetworks (N A : Type) where
  contains : N → A → Bool
  ipToNetwork : A → N

structure BanList (N : Type) where
  inner : List (BannedAddr N)
  insertCount : Nat
deriving DecidableEq, Repr

namespace BanList

variable {N A : Type} [DecidableEq N]

def new : BanList N := ⟨[], 0⟩

def clearExpires (list : BanList N) (now : Nat) : BanList N :=
  { list with inner := list.inner.filter fun bannedAddr => now < bannedAddr.banUntil }

/-- `ban` at the time `now`, which `clear_expires` reads. -/
def ban (list : BanList N) (bannedAddr : BannedAddr N) (now : Nat) : BanList N :=
  let inserted : BanList N :=
    ⟨bannedAddr :: list.inner.filter (·.address ≠ bannedAddr.address), (list.insertCount + 1) % 2 ^ 64⟩
  if inserted.insertCount % clearIntervalCounter = 0 then inserted.clearExpires now else inserted

def unbanNetwork (list : BanList N) (ipNetwork : N) : BanList N :=
  { list with inner := list.inner.filter (·.address ≠ ipNetwork) }

/-- `is_ip_banned_until`: the ban of the address's own network, then every ban. -/
def isIpBannedUntil (networks : IpNetworks N A) (list : BanList N) (ip : A) (nowMs : Nat) : Bool :=
  let direct :=
    match list.inner.find? (·.address = networks.ipToNetwork ip) with
    | some bannedAddr => decide (nowMs < bannedAddr.banUntil)
    | none => false
  direct || list.inner.any fun bannedAddr => decide (nowMs < bannedAddr.banUntil) && networks.contains bannedAddr.address ip

def count (list : BanList N) : Nat := list.inner.length

end BanList

end Ckb.Network
