import ArmatureRatelimit.Proof.Prune
import ArmatureRatelimit.Proof.IdleTtl
import ArmatureRatelimit.Proof.RetryAfter
import ArmatureRatelimit.Proof.Concurrent
import ArmatureRatelimit.Proof.KeyCap
import ArmatureRatelimit.Proof.EvictionPasses
import ArmatureRatelimit.Proof.KeyIsolation
import ArmatureRatelimit.Proof.Standalone
import ArmatureRatelimit.Proof.TokenBucketLaw
import ArmatureRatelimit.Proof.SlidingWindowLaw
import ArmatureRatelimit.Proof.FixedWindowLaw
import ArmatureRatelimit.Proof.RedisBucket
import ArmatureRatelimit.Proof.BucketExpiry
import ArmatureRatelimit.Proof.BucketAgree
import ArmatureRatelimit.Proof.RedisTtl
import ArmatureRatelimit.Proof.RedisWindow
import ArmatureRatelimit.Proof.WindowMembers
import ArmatureRatelimit.Proof.SlidingAgree
import ArmatureRatelimit.Proof.RedisFixed
import ArmatureRatelimit.Proof.FixedBoundary
import ArmatureRatelimit.Proof.UserKeys
import ArmatureRatelimit.Proof.KeyNames
import ArmatureRatelimit.Proof.ResetExact
import ArmatureRatelimit.Proof.Accounting
import ArmatureRatelimit.Proof.RetryHeader
import ArmatureRatelimit.Proof.BucketDelay
import ArmatureRatelimit.Proof.TinyRates
import ArmatureRatelimit.Proof.WindowArithmetic
import ArmatureRatelimit.Proof.ClientKeys
import ArmatureRatelimit.Proof.BuiltKeys
import ArmatureRatelimit.Proof.Cleanup
import ArmatureRatelimit.Proof.BucketForecast
import ArmatureRatelimit.Proof.WindowForecast
import ArmatureRatelimit.Proof.WindowReset
import ArmatureRatelimit.Proof.RedisFixedForecast
import ArmatureRatelimit.Proof.RedisSlidingForecast
import ArmatureRatelimit.Proof.LogOrder
import ArmatureRatelimit.Proof.OldestBatch
import ArmatureRatelimit.Proof.CapActivity
import ArmatureRatelimit.Proof.MaximalTraffic
import ArmatureRatelimit.Proof.AnyOrder
import ArmatureRatelimit.Proof.WindowDelay
import ArmatureRatelimit.Proof.Tenants
import ArmatureRatelimit.Proof.Denied
import ArmatureRatelimit.Proof.SkewedClocks
import ArmatureRatelimit.Proof.Leftovers
import ArmatureRatelimit.Proof.Allowance
import ArmatureRatelimit.Proof.HeldKeys
import ArmatureRatelimit.Proof.SkewedBucket
import ArmatureRatelimit.Proof.Remaining
import ArmatureRatelimit.Proof.TenantFleet
import ArmatureRatelimit.Proof.SkewedCounters
import ArmatureRatelimit.Cluster
import ArmatureRatelimit.Proof.ClusterAllowance
import ArmatureRatelimit.Lib.Printf
import ArmatureRatelimit.Scripts.Numbers
import ArmatureRatelimit.Proof.WindowTrace
import ArmatureRatelimit.Proof.KeyTouches
