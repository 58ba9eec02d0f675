import ArtifactCache.Main
import ArtifactCache.Proofs.CacheStore.Account
import ArtifactCache.Proofs.CacheStore.Agreement
import ArtifactCache.Proofs.CacheStore.Creation
import ArtifactCache.Proofs.CacheStore.Following
import ArtifactCache.Proofs.CacheStore.Remainder
import ArtifactCache.Proofs.CacheStore.Visibility
import ArtifactCache.Proofs.Classpath.Accounting
import ArtifactCache.Proofs.Classpath.Entries
import ArtifactCache.Proofs.Classpath.Merging
import ArtifactCache.Proofs.CommandLine.DefaultFile
import ArtifactCache.Proofs.CommandLine.Outcome
import ArtifactCache.Proofs.CommandLine.Reprint
import ArtifactCache.Proofs.CommandLine.Verbosity
import ArtifactCache.Proofs.Coordinate.Order
import ArtifactCache.Proofs.Coordinate.RoundTrip
import ArtifactCache.Proofs.Coordinate.Sorting
import ArtifactCache.Proofs.Log.Session
import ArtifactCache.Proofs.Removal.FinalSlash
import ArtifactCache.Proofs.Settings.Strays
import ArtifactCache.Proofs.SourceRoots
import ArtifactCache.Proofs.Template.Places
import ArtifactCache.Proofs.UniqueList.History
import ArtifactCache.Proofs.UniqueList.Slicing
import ArtifactCache.UniqueList.Slice
import ArtifactCache.Proofs.Settings.Loading
