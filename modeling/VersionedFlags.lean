import VersionedFlags.Config
import VersionedFlags.Conformance.Suite
import VersionedFlags.Files.Loading
import VersionedFlags.Files.Watching
import VersionedFlags.Item.Text
import VersionedFlags.Proofs.Cache.Accounting
import VersionedFlags.Proofs.Cache.Closing
import VersionedFlags.Proofs.Cache.Forgetting
import VersionedFlags.Proofs.Cache.Latch
import VersionedFlags.Proofs.Cache.Monotone
import VersionedFlags.Proofs.Cache.OneWriter
import VersionedFlags.Proofs.Cache.Overlap
import VersionedFlags.Proofs.Cache.Overrun
import VersionedFlags.Proofs.Cache.Renewal
import VersionedFlags.Proofs.Cache.Staleness
import VersionedFlags.Proofs.Cache.Station
import VersionedFlags.Proofs.Cache.Straddling
import VersionedFlags.Proofs.Cache.WriteThrough
import VersionedFlags.Proofs.Files.JsonFile
import VersionedFlags.Proofs.Files.Refusal
import VersionedFlags.Proofs.Files.Reimport
import VersionedFlags.Proofs.Files.Repeats
import VersionedFlags.Proofs.Files.Watched
import VersionedFlags.Proofs.Item.Origin
import VersionedFlags.Proofs.Item.RoundTrip
import VersionedFlags.Proofs.Realm.QualifiedKey
import VersionedFlags.Proofs.Session.Rivalry
import VersionedFlags.Proofs.Session.Sharing
import VersionedFlags.Proofs.Source.Listening
import VersionedFlags.Proofs.Source.Production
import VersionedFlags.Proofs.Store.Advice
import VersionedFlags.Proofs.Store.BuiltData
import VersionedFlags.Proofs.Store.Contest
import VersionedFlags.Proofs.Store.Isolation
import VersionedFlags.Proofs.Store.Linearization
import VersionedFlags.Proofs.Store.Numbering
import VersionedFlags.Proofs.Store.RoundTrip
import VersionedFlags.Proofs.Store.Shutting
import VersionedFlags.Proofs.Store.Transaction
import VersionedFlags.Session.Run
import VersionedFlags.Source.Scenario
