import CronHive.Data

/-!
# Environment and parsers

`Env` is what `loadEnv` returns, with the bounds its schema has checked as fields. `Platform`
stands for the two parsers the code takes from outside the repository: the URL parser of the
runtime and the package cron-parser.
-/

namespace CronHive

set_option autoImplicit false

structure Env where
  lockBufferMs : Nat := 10000
  circuitBreakerConsecutiveDead : Nat := 10
  defaultCallbackTimeoutMs : Nat := 30000
  schedulerScanMs : Nat := 60000
  leaderLeaseMs : Nat := 10000
  allowPrivateCallbacks : Bool := false
  circuitBreaker_pos : 0 < circuitBreakerConsecutiveDead := by decide
  defaultCallbackTimeout_pos : 0 < defaultCallbackTimeoutMs := by decide
  schedulerScan_pos : 0 < schedulerScanMs := by decide
  leaderLease_pos : 0 < leaderLeaseMs := by decide

structure Url where
  protocol : String
  hostname : String
  deriving DecidableEq, Repr

structure Platform where
  /-- `new URL(rawUrl)`; `none` when it throws -/
  parseUrl : String → Option Url
  /-- `CronExpressionParser.parse(expr, { tz })` does not throw -/
  cronParses : String → String → Bool
  /-- `CronExpressionParser.parse(expr, { currentDate, tz }).prev()`; `none` when it throws -/
  cronPrev : String → String → Int → Option Int

/-- What the processes are started with. -/
structure Setup where
  env : Env
  platform : Platform

end CronHive
