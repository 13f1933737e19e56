import Ckb.Network.BanList

namespace Ckb.Network.BanList

variable {N A : Type} [DecidableEq N]

/-- The calls that change the list. -/
inductive Op (N : Type) where
  | ban (bannedAddr : BannedAddr N) (now : Nat)
  | unban (ipNetwork : N)

def Op.apply : BanList N → Op N → BanList N
  | list, .ban bannedAddr now => list.ban bannedAddr now
  | list, .unban ipNetwork => list.unbanNetwork ipNetwork

/-- The ledger after a call: a ban replaces the network's earlier one, an unban drops it. -/
def Op.record : List (BannedAddr N) → Op N → List (BannedAddr N)
  | ledger, .ban bannedAddr _ => bannedAddr :: ledger.filter (·.address ≠ bannedAddr.address)
  | ledger, .unban ipNetwork => ledger.filter (·.address ≠ ipNetwork)

/-- The clock a call reads. -/
def Op.time : Op N → Nat
  | .ban _ now => now
  | .unban _ => 0

/-- Some ban in force at `now` contains the address. -/
def bannedBy (networks : IpNetworks N A) (entries : List (BannedAddr N)) (ip : A) (now : Nat) : Bool :=
  entries.any fun bannedAddr => decide (now < bannedAddr.banUntil) && networks.contains bannedAddr.address ip

theorem isIpBannedUntil_eq_bannedBy (networks : IpNetworks N A)
    (containsOwn : ∀ ip, networks.contains (networks.ipToNetwork ip) ip = true)
    (list : BanList N) (ip : A) (now : Nat) :
    list.isIpBannedUntil networks ip now = bannedBy networks list.inner ip now := by
  unfold isIpBannedUntil bannedBy
  cases found : list.inner.find? (·.address = networks.ipToNetwork ip) with
  | none => simp
  | some bannedAddr =>
    -- a ban the direct lookup finds in force, the scan finds too
    have mem := List.mem_of_find?_eq_some found
    have own : bannedAddr.address = networks.ipToNetwork ip := by simpa using List.find?_some found
    by_cases active : now < bannedAddr.banUntil
    · have scanned : (list.inner.any fun b => decide (now < b.banUntil) && networks.contains b.address ip) = true :=
        List.any_eq_true.mpr ⟨bannedAddr, mem, by simp [active, own, containsOwn]⟩
      simp [active, scanned]
    · simp [active]

/-- The list holds the ledger's bans, less some that had run out by `clock`. -/
structure Clears (list : BanList N) (ledger : List (BannedAddr N)) (clock : Nat) : Prop where
  subset : ∀ bannedAddr ∈ list.inner, bannedAddr ∈ ledger
  expired : ∀ bannedAddr ∈ ledger, bannedAddr ∉ list.inner → bannedAddr.banUntil ≤ clock

omit [DecidableEq N] in
theorem clears_new : Clears (new : BanList N) [] 0 :=
  ⟨fun _ mem => absurd mem List.not_mem_nil, fun _ mem => absurd mem List.not_mem_nil⟩

theorem Clears.ban {list : BanList N} {ledger : List (BannedAddr N)} {clock : Nat} (clears : Clears list ledger clock)
    (bannedAddr : BannedAddr N) (now : Nat) :
    Clears (list.ban bannedAddr now) (Op.record ledger (.ban bannedAddr now)) (max clock now) := by
  -- the list before a possible clear holds exactly the ledger's bans that the list held
  have inserted : ∀ b, b ∈ bannedAddr :: list.inner.filter (·.address ≠ bannedAddr.address) →
      b ∈ Op.record ledger (.ban bannedAddr now) := by
    intro b mem
    simp only [List.mem_cons, List.mem_filter, decide_eq_true_eq, Op.record] at mem ⊢
    rcases mem with rfl | ⟨held, other⟩
    · exact .inl rfl
    · exact .inr ⟨clears.subset b held, other⟩
  have missed : ∀ b ∈ Op.record ledger (.ban bannedAddr now),
      b ∉ bannedAddr :: list.inner.filter (·.address ≠ bannedAddr.address) → b.banUntil ≤ clock := by
    intro b recorded absent
    simp only [List.mem_cons, List.mem_filter, decide_eq_true_eq, Op.record, not_or, not_and] at recorded absent
    rcases recorded with rfl | ⟨kept, other⟩
    · exact absurd rfl absent.1
    · exact clears.expired b kept fun held => absent.2 held other
  unfold BanList.ban
  dsimp only
  split_ifs
  · -- `clear_expires` drops only bans that ran out by `now`
    refine ⟨fun b mem => inserted b (List.mem_filter.mp mem).1, fun b recorded absent => ?_⟩
    by_cases held : b ∈ bannedAddr :: list.inner.filter (·.address ≠ bannedAddr.address)
    · have ranOut : ¬ now < b.banUntil := fun active => absent (List.mem_filter.mpr ⟨held, by simpa using active⟩)
      omega
    · have := missed b recorded held
      omega
  · exact ⟨inserted, fun b recorded absent => Nat.le_trans (missed b recorded absent) (Nat.le_max_left clock now)⟩

theorem Clears.unban {list : BanList N} {ledger : List (BannedAddr N)} {clock : Nat} (clears : Clears list ledger clock)
    (ipNetwork : N) : Clears (list.unbanNetwork ipNetwork) (Op.record ledger (.unban ipNetwork)) clock := by
  constructor
  · intro b mem
    obtain ⟨held, other⟩ := List.mem_filter.mp mem
    exact List.mem_filter.mpr ⟨clears.subset b held, other⟩
  · intro b recorded absent
    obtain ⟨kept, other⟩ := List.mem_filter.mp recorded
    exact clears.expired b kept fun held => absent (List.mem_filter.mpr ⟨held, other⟩)

theorem Clears.apply {list : BanList N} {ledger : List (BannedAddr N)} {clock : Nat} (clears : Clears list ledger clock) :
    ∀ op : Op N, Clears (op.apply list) (op.record ledger) (max clock op.time)
  | .ban bannedAddr now => clears.ban bannedAddr now
  | .unban ipNetwork => by simpa [Op.time, Op.apply] using clears.unban ipNetwork

theorem Clears.run : ∀ (ops : List (Op N)) {list : BanList N} {ledger : List (BannedAddr N)} {clock : Nat},
    Clears list ledger clock →
      Clears (ops.foldl Op.apply list) (ops.foldl Op.record ledger) (ops.foldl (fun c op => max c op.time) clock)
  | [], _, _, _, clears => clears
  | op :: ops, _, _, _, clears => Clears.run ops (clears.apply op)

omit [DecidableEq N] in
theorem foldl_max_time_le {now : Nat} : ∀ (ops : List (Op N)) {clock : Nat}, clock ≤ now →
    (∀ op ∈ ops, op.time ≤ now) → ops.foldl (fun c op => max c op.time) clock ≤ now
  | [], _, below, _ => below
  | op :: ops, _, below, late =>
    foldl_max_time_le ops (Nat.max_le.mpr ⟨below, late op List.mem_cons_self⟩)
      fun later mem => late later (List.mem_cons_of_mem op mem)

theorem bannedBy_eq_of_clears (networks : IpNetworks N A) {list : BanList N} {ledger : List (BannedAddr N)}
    {clock now : Nat} (clears : Clears list ledger clock) (late : clock ≤ now) (ip : A) :
    bannedBy networks list.inner ip now = bannedBy networks ledger ip now := by
  unfold bannedBy
  rw [Bool.eq_iff_iff, List.any_eq_true, List.any_eq_true]
  constructor
  · rintro ⟨b, held, active⟩
    exact ⟨b, clears.subset b held, active⟩
  · rintro ⟨b, recorded, active⟩
    -- a recorded ban still in force was never cleared
    have inForce : now < b.banUntil := by
      simp only [Bool.and_eq_true, decide_eq_true_eq] at active
      exact active.1
    by_cases held : b ∈ list.inner
    · exact ⟨b, held, active⟩
    · have := clears.expired b recorded held
      omega

/-- At any time no earlier than the last ban, the ban list answers as the ledger of bans as
recorded, never cleared: neither the direct lookup nor `clear_expires` changes a verdict. -/
theorem clear_expires_keeps_verdicts (networks : IpNetworks N A)
    (containsOwn : ∀ ip, networks.contains (networks.ipToNetwork ip) ip = true)
    (ops : List (Op N)) (ip : A) (now : Nat) (late : ∀ op ∈ ops, op.time ≤ now) :
    (ops.foldl Op.apply new).isIpBannedUntil networks ip now = bannedBy networks (ops.foldl Op.record []) ip now := by
  rw [isIpBannedUntil_eq_bannedBy networks containsOwn]
  exact bannedBy_eq_of_clears networks (Clears.run ops clears_new) (foldl_max_time_le ops (Nat.zero_le now) late) ip

section Samples

/-- Addresses as numbers in networks of 256. -/
def sampleNetworks : IpNetworks Nat Nat := ⟨fun network ip => decide (network = ip / 256), fun ip => ip / 256⟩

/-- A ban of network 1, a ban of network 2 that is lifted, and a ban of network 1 again that ends earlier. -/
def sampleOps : List (Op Nat) := [.ban ⟨1, 100⟩ 10, .ban ⟨2, 50⟩ 20, .unban 2, .ban ⟨1, 40⟩ 30]

theorem sample_verdicts_kept :
    (∀ ip, sampleNetworks.contains (sampleNetworks.ipToNetwork ip) ip = true) ∧ (∀ op ∈ sampleOps, op.time ≤ 45) ∧
      (sampleOps.foldl Op.apply new).isIpBannedUntil sampleNetworks 300 45 =
        bannedBy sampleNetworks (sampleOps.foldl Op.record []) 300 45 :=
  ⟨fun ip => by simp [sampleNetworks], by decide,
    clear_expires_keeps_verdicts sampleNetworks (fun ip => by simp [sampleNetworks]) sampleOps 300 45 (by decide)⟩

end Samples

end Ckb.Network.BanList
