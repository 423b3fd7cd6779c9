import CronHive.FireSlots
import CronHive.ExactlyOnce
import CronHive.AtLeastOnce
import CronHive.SlotLock
import CronHive.TickIsolation
import CronHive.CallbackGuard
import CronHive.CacheCoherence
import CronHive.TerminalStates
import CronHive.RowConsistency
import CronHive.RetryProtocol
import CronHive.Abandonment
import CronHive.DeadStages
import CronHive.CircuitBreaker
import CronHive.DeadStreak
import CronHive.LockSafety
import CronHive.ManualLock
import CronHive.Election
import CronHive.Failover
import CronHive.LongestGap
import CronHive.LeaderSafety
import CronHive.LeaderStop
import CronHive.LockTtl
import CronHive.Addresses
import CronHive.Ipv6Spellings
import CronHive.UrlCheck
import CronHive.JobMutations
import CronHive.History
import CronHive.ValidJobs
import CronHive.HaltedJobs
import CronHive.Announcements
import CronHive.CircuitRuns
import CronHive.MetricsAccount
import CronHive.Attempts
import CronHive.EventStream
import CronHive.Api
import CronHive.ApiAnswers
import CronHive.Async.Turns
import CronHive.Draining
import CronHive.Firings
import CronHive.JobStats
import CronHive.AttemptNumbers
