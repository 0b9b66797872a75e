import ModelKeep.ExtensionSafety
import ModelKeep.PullThrough.Serve
import ModelKeep.PullThrough.DryRun
import ModelKeep.PullThrough.Refresh
import ModelKeep.TransferGate
import ModelKeep.Staging.Adoption
import ModelKeep.Staging.Live
import ModelKeep.SingleFlightSafety
import ModelKeep.Jobs.History
import ModelKeep.Jobs.Idempotency
import ModelKeep.InFlight.Sharing
import ModelKeep.InFlight.View
import ModelKeep.SingleFlightRelay
import ModelKeep.Staging.Startup
import ModelKeep.Refs.Update
import ModelKeep.ExtensionFailure
import ModelKeep.Disk.Servable
import ModelKeep.FileSystem.Isolation
import ModelKeep.Operations.NoDangling
import ModelKeep.Http.Ranges
import ModelKeep.Staging.Selections
import ModelKeep.PullThrough.Reconcile
import ModelKeep.Fetcher.Binding
import ModelKeep.Fetcher.Disclosure
import ModelKeep.Fetcher.Ownership
import ModelKeep.Concurrency.Simulation
import ModelKeep.Staging.Unrecognised
import ModelKeep.Staging.Listing
import ModelKeep.Publishing.Manifests
import ModelKeep.PullThrough.Answered
import ModelKeep.PullThrough.Interrupted
import ModelKeep.PullThrough.Satisfied
import ModelKeep.PullThrough.Cancelled
import ModelKeep.Jobs.Progress
import ModelKeep.Refs.Pages
import ModelKeep.Http.Metadata
import ModelKeep.Importing.Repeatable
import ModelKeep.Importing.Mirroring
import ModelKeep.Http.Download
import ModelKeep.TransferGateFairness
import ModelKeep.PullThrough.Remainder
import ModelKeep.Fetcher.ResolveOnly
import ModelKeep.Http.Listing
