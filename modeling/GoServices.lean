import GoServices.Ledger.PaymentRuns
import GoServices.Ledger.Saga
import GoServices.Ledger.Locks
import GoServices.Ledger.Partition
import GoServices.Ledger.Reconciliation
import GoServices.Ledger.Backoff
import GoServices.Ledger.Rupees
import GoServices.Raft.Fencing
import GoServices.Raft.Quorum
import GoServices.Clocks.Vector
import GoServices.Clocks.Hybrid
import GoServices.Clocks.Lamport
import GoServices.Replication.Lww
import GoServices.Replication.GCounter
import GoServices.SubscriptionCore.CallRuns
import GoServices.SubscriptionCore.Usage
import GoServices.SubscriptionCore.Postgres
import GoServices.Booking.Rollback
import GoServices.Booking.SeatMap
import GoServices.Booking.Idempotency
import GoServices.OrderService.Leases
import GoServices.OrderService.RetryDelay
import GoServices.OrderService.Placement
import GoServices.Playback.Admission
import GoServices.Playback.SlotRuns
import GoServices.Playback.Isolation
import GoServices.Playback.Token
import GoServices.Playback.Estimator
import GoServices.Playback.Guard
import GoServices.MultiTenant.Postgres
import GoServices.KafkaEda.Projector
import GoServices.KafkaEda.Dispatch
import GoServices.HoldQueue.Confirmations
import GoServices.HoldQueue.Resp
import GoServices.RailCache.Breaker
import GoServices.RailCache.Invalidation
import GoServices.Social.Delivery
import GoServices.FoodDelivery.EffectsOnce
import GoServices.FoodDelivery.Relay
import GoServices.FoodDelivery.Refunds
import GoServices.FoodEda.Ordering
import GoServices.FoodEda.Finality
import GoServices.FoodEda.PickUp
import GoServices.Gateway.CacheLru
import GoServices.Gateway.RateLimiter
import GoServices.Gateway.SharedLoads
import GoServices.Gateway.LateReports
import GoServices.Gateway.Picks
import GoServices.Gateway.Bodies
import GoServices.Gateway.Credentials
import GoServices.InstaScale.Counter
import GoServices.InstaScale.Client
import GoServices.InstaScale.Feed
import GoServices.FailureLab.Lab
import GoServices.Diagnostics.Buffer
import GoServices.Gateway.BreakerRuns
