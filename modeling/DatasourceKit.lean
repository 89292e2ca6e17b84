import DatasourceKit.Interleave.Pool
import DatasourceKit.Fleet.SupervisorLock
import DatasourceKit.Fleet.Provenance
import DatasourceKit.Fleet.Clearable
import DatasourceKit.Worker.Telemetry
import DatasourceKit.Continuous
import DatasourceKit.Ratelimit.TokenBucket
import DatasourceKit.Fleet.Host
import DatasourceKit.Fetch.Sequence
import DatasourceKit.Fetch.Resume
import DatasourceKit.Store.Drivers
import DatasourceKit.Fleet.LockOwner
import DatasourceKit.Fleet.Handles
import DatasourceKit.Fleet.Layout
import DatasourceKit.Fleet.Metadata
import DatasourceKit.Fleet.Ownership
import DatasourceKit.Fleet.Convergence
import DatasourceKit.Clearance.Change
import DatasourceKit.Clearance.Upkeep
import DatasourceKit.Clearance.Calls
import DatasourceKit.Worker.Backoff
import DatasourceKit.Worker.RunLock
import DatasourceKit.Continuous.Observer
import DatasourceKit.Ratelimit.Acquire
import DatasourceKit.Ingest.Resolution
import DatasourceKit.Ingest.Starvation
import DatasourceKit.Window
import DatasourceKit.Ingest.Registry
import DatasourceKit.Store.Failure
import DatasourceKit.Inventory
import DatasourceKit.Clearance.TrustedWalk
import DatasourceKit.Clearance.Series
import DatasourceKit.Clearance.BoundedRead
import DatasourceKit.Clearance.Inspection
import DatasourceKit.AtomicWrite
import DatasourceKit.Ledger.Files
import DatasourceKit.Report
import DatasourceKit.Interleave.Commit
import DatasourceKit.Worker.CheckpointFile
import DatasourceKit.Fetch.Files
import DatasourceKit.Fetch.Completion
import DatasourceKit.Worker.Heartbeats
import DatasourceKit.Interleave.Indexed
import DatasourceKit.Fleet.ControlPlane
import DatasourceKit.Fleet.Requests
import DatasourceKit.Fleet.Reconciler
import DatasourceKit.AtomicRead
import DatasourceKit.StateText
import DatasourceKit.Ingest.Reruns
