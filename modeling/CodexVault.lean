import CodexVault.ByteStrings
import CodexVault.VaultErrors
import CodexVault.FrameFormat
import CodexVault.Chunks
import CodexVault.Aead
import CodexVault.VaultWriter
import CodexVault.WriterRuns
import CodexVault.VaultReader
import CodexVault.ReaderRuns
import CodexVault.SealedFrames
import CodexVault.StreamRoundTrip
import CodexVault.ReferenceEncoder
import CodexVault.ReaderGrammar
import CodexVault.StreamIntegrity
import CodexVault.ResumedReaders
import CodexVault.SourceDeliveries
import CodexVault.NonceUse
import CodexVault.AcknowledgedBytes
import CodexVault.Programs
import CodexVault.Interference
import CodexVault.Interruptions
import CodexVault.Pools
import CodexVault.FileSystem
import CodexVault.TarArchive
import CodexVault.SystemCalls
import CodexVault.DaemonSocket
import CodexVault.DaemonSafety
import CodexVault.DaemonProtocol
import CodexVault.DaemonConnections
import CodexVault.PrivatePaths
import CodexVault.LinkedFileSystem
import CodexVault.LinkedCalls
import CodexVault.Base64
import CodexVault.Manifest
import CodexVault.KeyWrap
import CodexVault.Archive
import CodexVault.VaultStore
import CodexVault.Launcher
import CodexVault.ManifestFacts
import CodexVault.Samples
import CodexVault.SystemCallFacts
import CodexVault.SecondNames
import CodexVault.StoreCalls
import CodexVault.RuntimeRoots
import CodexVault.Extraction
import CodexVault.SealedArchive
import CodexVault.StoreFacts
import CodexVault.LockFacts
import CodexVault.LockFiles
import CodexVault.PasswordRotation
import CodexVault.FailedUnlock
import CodexVault.Disk
import CodexVault.DurableChanges
import CodexVault.SignalRuns
import CodexVault.ForwardedSignals
import CodexVault.ProfileCreation
import CodexVault.ProfileListing
import CodexVault.AcceptedManifests
import CodexVault.Catalogue
import CodexVault.CataloguedCalls
import CodexVault.RestoredTrees
import CodexVault.SharedStore
import CodexVault.CataloguedCreations
import CodexVault.Commits
import CodexVault.StoreHistories
import CodexVault.ListedUsers
import CodexVault.Preservation
import CodexVault.Accounts
import CodexVault.Creations
import CodexVault.Chronicles
import CodexVault.Unlocking
import CodexVault.ChronicleRuns
import CodexVault.Acknowledgements
import CodexVault.Assurances
