import Relay.Properties.DeliveredFinal
import Relay.Properties.LiveWork
import Relay.Properties.HalfOpenProbe
import Relay.Pipeline.Carriers
import Relay.Properties.NoLostDelivery
import Relay.Lib.Fifo
import Relay.Pipeline.Lists
import Relay.Properties.StrictFifo
import Relay.Properties.SettledPopped
import Relay.Properties.ReplayPaths
import Relay.Pipeline.FanOut
import Relay.Properties.AcceptedEnqueued
import Relay.Properties.RetriesConserved
import Relay.Delivery.BreakerCalls
import Relay.Properties.ProbesSpaced
import Relay.Properties.OutageDated
import Relay.Properties.BreakerEdges
import Relay.Properties.RateLimitClock
import Relay.Properties.InFlightCap
import Relay.Delivery.Locking
import Relay.Properties.OneAtATime
import Relay.Api.Decisions
import Relay.Properties.DecidedOnce
import Relay.Agent.Session
import Relay.Agent.Graph
import Relay.Properties.AgentFrame
import Relay.Api.Parts
import Relay.Api.Reads
import Relay.Properties.TenantNoninterference
import Relay.Api.Tidy
import Relay.Properties.IdempotentIngestion
import Relay.Pipeline.SoleCarrier
import Relay.Properties.Backoff
import Relay.Delivery.Attempt
import Relay.Properties.ResponseRecorded
import Relay.Properties.AttemptBudget
import Relay.Lib.TokenBucket
import Relay.Properties.SlidingWindow
import Relay.Agent.Trigger
import Relay.Properties.HourlyBudget
import Relay.Properties.DailyBudget
import Relay.Delivery.BreakerHistory
import Relay.Lib.TimedWindow
import Relay.Properties.BreakerOpens
import Relay.Properties.StreakEvents
import Relay.Properties.AckMeaning
import Relay.Lib.Register
import Relay.Pipeline.Audit
import Relay.Properties.AuditTrail
import Relay.Agent.Calls
import Relay.Properties.Verification
import Relay.Properties.BoundedDelays
import Relay.Properties.ReplayTargets
import Relay.Properties.CostCeiling
import Relay.Agent.SharedSession
import Relay.Properties.FailingTools
import Relay.Properties.ToolLimit
import Relay.Properties.GivenBack
import Relay.Properties.GatedDelivery
import Relay.Properties.AttemptsSeen
import Relay.Properties.IngestConflicts
import Relay.Lib.AutoClaim
import Relay.Delivery.Reclaim
import Relay.Properties.ReclaimCovers
import Relay.Delivery.Gauges
import Relay.Properties.EventLog
import Relay.Properties.PresentGauges
import Relay.Lib.Digits
import Relay.Lib.Runs
import Relay.Text
import Relay.Delivery.MemberText
import Relay.Properties.RetryEntries
import Relay.Delivery.Signing
import Relay.Properties.SignatureBinds
import Relay.Properties.SignatureChecks
import Relay.Agent.Jsonable
import Relay.Properties.StoredEvidence
import Relay.Agent.Transcript
import Relay.Properties.ToolTranscripts
import Relay.Agent.Llm
import Relay.Properties.ProviderPairing
import Relay.Lib.JsonReading
import Relay.Lib.JsonBound
import Relay.Lib.JsonOrder
import Relay.Lib.JsonText
import Relay.Delivery.Wire
import Relay.Properties.WireFormat
import Relay.Agent.Messages
import Relay.Pipeline.Transient
import Relay.Properties.TriggerMessages
import Relay.Pipeline.Tenancy
import Relay.Properties.TenantsApart
import Relay.Properties.PauseStops
import Relay.Pipeline.Slots
import Relay.Properties.TenantCap
import Relay.Pipeline.Serving
import Relay.Properties.StillDeliverable
import Relay.Delivery.Shards
import Relay.Properties.ShardLoop
import Relay.Delivery.RetryScheduler
import Relay.Properties.NoStarvation
import Relay.Properties.SchedulerLoop
import Relay.Agent.Listener
import Relay.Properties.ListenerOrder
import Relay.Properties.OpenBreaker
import Relay.Pipeline.Rounds
import Relay.Properties.AttemptsBounded
import Relay.Pipeline.Buckets
import Relay.Properties.TenantRate
import Relay.Lib.Summary
import Relay.Properties.EvidenceSummary
import Relay.Api.Auth
import Relay.Lib.Unwinding
import Relay.Properties.KeysOpenOwn
