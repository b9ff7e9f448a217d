import Caveat.Install.McpClient
import Caveat.Install.NodeCodecLaw
import Caveat.Lib.Transition
import Caveat.Lock.Exclusion
import Caveat.Lock.CrashRecovery
import Caveat.Sync.Coalescing
import Caveat.Sync.Backoff
import Caveat.Index.Rebuild
import Caveat.Index.Isolation
import Caveat.Index.MarkerProof
import Caveat.Write.RecordProof
import Caveat.Write.Atomicity
import Caveat.Write.Containment
import Caveat.Write.Writers
import Caveat.Write.Preservation
import Caveat.RuntimeErrors.Acceptance
import Caveat.RuntimeErrors.Snapshot
import Caveat.Pending.Claims
import Caveat.Managed.JournalCrash
import Caveat.Managed.InstallerLock
import Caveat.Managed.InstallerCrash
import Caveat.Managed.ShellWrappersLaw
import Caveat.Sealed.RoundTrip
import Caveat.Publish.Approval
import Caveat.Publish.Plaintext
import Caveat.Publish.Boundary
import Caveat.Sync.Gate
import Caveat.Managed.RecoveryLaw
import Caveat.Managed.ActivePointer
import Caveat.Index.OpeningLaw
import Caveat.Hooks.SessionMemory
import Caveat.Hooks.RetrievalLaw
import Caveat.Hooks.GroupCount
import Caveat.Sealed.KeyserverLaw
import Caveat.Sync.ScheduleLaw
import Caveat.RuntimeErrors.Clock
import Caveat.Publish.Identity
import Caveat.Publish.Candidates
import Caveat.Entry.FrontmatterGraph
import Caveat.PrivateEvidence.OriginLaw
import Caveat.Entry.RawRead
import Caveat.Entry.Written
import Caveat.Write.RoundTrip
import Caveat.Write.Rescan
import Caveat.Lib.Breaks
import Caveat.Entry.RoleText
import Caveat.Hooks.ExcerptText
import Caveat.Hooks.ExcerptLaw
import Caveat.Hooks.SignalsLaw
import Caveat.Hooks.FailureCount
import Caveat.Hooks.SearchLaw
import Caveat.Lib.StableSort
import Caveat.Lib.PrefixCode
import Caveat.Js.JsonClosing
import Caveat.Js.JsonCode
import Caveat.Pending.SemanticKey
import Caveat.Sealed.NonceLaw
import Caveat.Lib.Parts
import Caveat.Install.HookUninstall
import Caveat.Install.HookUpsert
import Caveat.Install.TokenPrefix
import Caveat.Proposal.Assignment
import Caveat.Proposal.CanonicalJsonLaw
import Caveat.Proposal.ProtocolLaw
import Caveat.Sync.DefinitionLaw
import Caveat.Install.HookQuoting
import Caveat.Install.HookInstallers
import Caveat.Acl.SessionClose
import Caveat.Hooks.QueryLogWhole
import Caveat.Sealed.KeyProviderLaw
import Caveat.Managed.JournalAppend
import Caveat.Managed.Preservation
import Caveat.Managed.PreservationLaw
import Caveat.Managed.PreservationOrder
