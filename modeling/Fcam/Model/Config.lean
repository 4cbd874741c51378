import Mathlib.Tactic.Common

/-!
# Configuration

The parts of `AppConfig` the modelled functions read, with the defaults of the source.
-/

namespace Fcam

structure FirecrawlConfig where
  baseUrl : String := "https://api.firecrawl.dev"
  timeout : Int := 30
  maxRetries : Int := 3
  failureThreshold : Int := 3
  failureWindowSeconds : Int := 60
  failedCooldownSeconds : Int := 60
deriving DecidableEq, Repr

/-- `quota.count_mode`: what a request is charged for. -/
inductive CountMode where
  | success
  | attempt
deriving DecidableEq, Repr

structure QuotaConfig where
  timezone : String := "UTC"
  countMode : CountMode := .success
  enableQuotaCheck : Bool := true
deriving DecidableEq, Repr

structure RateLimitConfig where
  cooldownSeconds : Int := 60
deriving DecidableEq, Repr

structure SmartRefreshConfig where
  enabled : Bool := true
  highUsageInterval : Int := 15
  mediumUsageInterval : Int := 30
  normalUsageInterval : Int := 60
  lowUsageInterval : Int := 120
deriving DecidableEq, Repr

structure FixedRefreshConfig where
  intervalMinutes : Int := 60
deriving DecidableEq, Repr

structure LocalEstimationConfig where
  enabled : Bool := true
  syncOnRequest : Bool := true
deriving DecidableEq, Repr

structure CreditMonitoringConfig where
  enabled : Bool := false
  smartRefresh : SmartRefreshConfig := {}
  fixedRefresh : FixedRefreshConfig := {}
  batchSize : Int := 10
  localEstimation : LocalEstimationConfig := {}
  retentionDays : Int := 90
  retryDelayMinutes : Int := 10
  minManualRefreshIntervalSeconds : Int := 300
deriving DecidableEq, Repr

structure IdempotencyConfig where
  enabled : Bool := true
  ttlSeconds : Int := 86400
  maxResponseBytes : Int := 1048576
  requireOn : List String := []
deriving DecidableEq, Repr

/-- `providers.<name>.auth_mode`. -/
inductive AuthMode where
  | bearer
  | xApiKey
deriving DecidableEq, Repr

structure ProviderConfig where
  enabled : Bool := true
  baseUrl : String
  authMode : AuthMode := .bearer
  timeout : Int := 30
  maxRetries : Int := 3
  allowedPaths : List String := []
deriving DecidableEq, Repr

structure ProvidersConfig where
  exa : ProviderConfig :=
    { enabled := false
      baseUrl := "https://api.exa.ai"
      authMode := .xApiKey
      allowedPaths := ["search", "findSimilar", "contents", "answer"] }
deriving DecidableEq, Repr

structure RequestLimitsConfig where
  maxBodyBytes : Int := 1048576
  allowedPaths : List String :=
    ["scrape", "crawl", "search", "agent", "map", "extract", "batch", "browser", "team"]
deriving DecidableEq, Repr

structure SecurityConfig where
  requestLimits : RequestLimitsConfig := {}
deriving DecidableEq, Repr

structure AppConfig where
  firecrawl : FirecrawlConfig := {}
  providers : ProvidersConfig := {}
  security : SecurityConfig := {}
  quota : QuotaConfig := {}
  rateLimit : RateLimitConfig := {}
  creditMonitoring : CreditMonitoringConfig := {}
  idempotency : IdempotencyConfig := {}
deriving DecidableEq, Repr

end Fcam
