import Ckb.Sync.Inflight

namespace Ckb.Sync

namespace DownloadScheduler

variable {H : Type}

theorem decrease_one_taskCount (set : DownloadScheduler H) :
    (set.decrease 1).taskCount = if 2 ≤ set.taskCount then set.taskCount - 1 else set.taskCount := by
  have sum : saturatingAdd set.taskCount 1 > 2 ↔ 2 ≤ set.taskCount := by
    unfold saturatingAdd u64Max
    omega
  unfold decrease
  by_cases many : 2 ≤ set.taskCount
  · rw [if_pos (sum.mpr many), if_pos many]
  · rw [if_neg (mt sum.mp many), if_neg many]

/-- Each slow response takes a task away, down to one: `decrease(1)` subtracts one whenever the
count is above one, with no regard for `timeout_count`. -/
theorem decrease_iterate_taskCount (k : Nat) (set : DownloadScheduler H) :
    ((fun s => s.decrease 1)^[k] set).taskCount = set.taskCount - min k (set.taskCount - 1) := by
  induction k with
  | zero => simp
  | succ k ih =>
    rw [Function.iterate_succ_apply', decrease_one_taskCount, ih]
    split_ifs <;> omega

/-- Three slow responses to a fresh scheduler take three tasks away, where one for every three
timeouts would take one. -/
theorem timeouts_lower_task_count_each_call :
    ((fun s => s.decrease 1)^[3] (default : DownloadScheduler Nat)).taskCount = 29 ∧
      (default : DownloadScheduler Nat).timeoutCount = 0 ∧ (3 + 2) / 3 < 32 - 29 :=
  ⟨by rw [decrease_iterate_taskCount]; rfl, rfl, by decide⟩

end DownloadScheduler

end Ckb.Sync
