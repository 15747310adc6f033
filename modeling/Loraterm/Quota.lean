import Loraterm.Config

/-!
# Quotas

A rate limiter is built from a quota: one permit per period, and a burst of permits at the start.
The configured periods and bursts are clamped, so that there always is a quota.  Periods are
nanoseconds.
-/

namespace Loraterm

/-- One permit per period, up to a burst at once. -/
structure Quota where
  period : Nat
  burst : Nat
  period_pos : 0 < period
  burst_pos : 0 < burst
  deriving DecidableEq, Repr

namespace Quota

/-- A quota of one permit per period; there is none for an empty period. -/
def withPeriod (period : Nat) : Option Quota :=
  if period_pos : 0 < period then
    some { period, burst := 1, period_pos, burst_pos := Nat.one_pos }
  else none

/-- One permit per second. -/
def oncePerSecond : Quota :=
  { period := fromSecs 1, burst := 1, period_pos := by decide, burst_pos := Nat.one_pos }

/-- The quota with another burst. -/
def allowBurst (quota : Quota) (burst : Nat) (burst_pos : 0 < burst) : Quota :=
  { quota with burst, burst_pos }

end Quota

/-- The shortest period of a quota, 100 ms. -/
def minPeriod : Nat := 100000000

/-- The quota of a configured period and burst. -/
def clampedQuota (period burst : Nat) : Quota :=
  ((Quota.withPeriod (max period minPeriod)).getD .oncePerSecond).allowBurst (max burst 1)
    (Nat.le_max_right burst 1)

/-- The quota of a session's own limiter. -/
def perPeerQuota (limits : LimitsConfig) : Quota :=
  clampedQuota limits.perPeerPeriod limits.perPeerBurst

/-- The quota of the limiter all sessions share. -/
def globalQuota (limits : LimitsConfig) : Quota :=
  clampedQuota limits.globalPeriod limits.globalBurst

/-- The fallback is never taken: the period is clamped before the quota is built. -/
theorem clampedQuota_period (period burst : Nat) :
    (clampedQuota period burst).period = max period minPeriod := by
  have period_pos : 0 < max period minPeriod := Nat.lt_of_lt_of_le (by decide) (Nat.le_max_right _ _)
  rw [clampedQuota, Quota.withPeriod, dif_pos period_pos]
  rfl

theorem clampedQuota_burst (period burst : Nat) : (clampedQuota period burst).burst = max burst 1 :=
  rfl

end Loraterm
