import HolderCore.Library.Map
import HolderCore.Library.Rooted
import HolderCore.Library.Forest
import HolderCore.Library.Outcome
import HolderCore.Card.Types
import HolderCore.Card.FrontMatter
import HolderCore.Card.Repos
import HolderCore.Card.ReposLemmas
import HolderCore.Card.Hierarchy
import HolderCore.Card.Placement
import HolderCore.Card.HierarchyLemmas
import HolderCore.Git.Repo
import HolderCore.Git.Merge
import HolderCore.Git.WorkDir
import HolderCore.Card.World
import HolderCore.Card.FlowYaml
import HolderCore.Card.Mutation
import HolderCore.Card.MutationLemmas
import HolderCore.Card.MutationPlan
import HolderCore.Card.ChangeRows
import HolderCore.Project.Rebuild
import HolderCore.Project.RebuildLemmas
import HolderCore.Project.LoadLemmas
import HolderCore.Project.InSync
import HolderCore.Card.Tags
import HolderCore.Card.Store
import HolderCore.Card.StoreLemmas
import HolderCore.Card.FileLemmas
import HolderCore.Card.SubtreeLemmas
import HolderCore.Card.Commits
import HolderCore.Card.CreateLemmas
import HolderCore.Card.Forest
import HolderCore.Card.Runs
import HolderCore.Card.Rebuildable
import HolderCore.Project.Deletion
import HolderCore.Card.Clean
import HolderCore.Sync.Conflicts
import HolderCore.Sync.Places
import HolderCore.Project.Services
import HolderCore.Ai.Messages
import HolderCore.Resource.Store
import HolderCore.Privacy.Sealed
import HolderCore.Card.FileInvariants
import HolderCore.Privacy.Services
import HolderCore.Library.Schedule
import HolderCore.Card.Clients
import HolderCore.Card.Settled
import HolderCore.Project.Slices
import HolderCore.Project.Reload
import HolderCore.Project.RebuildOrder
import HolderCore.Library.Paging
import HolderCore.Card.Paging
import HolderCore.Library.Grouping
import HolderCore.Git.History
import HolderCore.History.CardHistory
import HolderCore.History.CardHistoryLemmas
import HolderCore.Sync.Push
import HolderCore.Project.Malformed
import HolderCore.Platform.DatabaseRebuild
import HolderCore.Platform.AllOrNothing
import HolderCore.Platform.LostFiles
import HolderCore.Platform.Quarantine
import HolderCore.Ai.Rebuild
import HolderCore.Ai.InStep
import HolderCore.Card.Indexed
import HolderCore.Card.RepairLemmas
import HolderCore.Card.IndexedCalls
import HolderCore.History.ProjectHistory
import HolderCore.Project.WholeRebuild
import HolderCore.Project.Manifests
import HolderCore.Resource.Repair
import HolderCore.Project.Agree
import HolderCore.Resource.Rebuildable
import HolderCore.Resource.Removal
import HolderCore.Sync.PullPaths
import HolderCore.History.ProjectHistoryLemmas
import HolderCore.Resource.ImportFaults
import HolderCore.Resource.FaultlessImports
import HolderCore.Index.Search
import HolderCore.Library.Frames
import HolderCore.Resource.AssetEnvelope
import HolderCore.Library.Spacing
import HolderCore.Card.SiblingOrder
import HolderCore.Card.LiveOrder
import HolderCore.Card.Moves
import HolderCore.Card.MovePlaces
import HolderCore.Card.RepeatedMoves
import HolderCore.Card.Trashing
import HolderCore.Card.Restoring
import HolderCore.Card.RepairLists
import HolderCore.Card.RepairPlan
import HolderCore.Card.Repaired
import HolderCore.Card.RepairPlaces
import HolderCore.Resource.Retrieve
import HolderCore.History.LineDiff
import HolderCore.Library.Utf8
import HolderCore.Card.TagLines
import HolderCore.History.ValidText
import HolderCore.Card.TagRemoval
import HolderCore.Project.HalfParsed
import HolderCore.Card.References
import HolderCore.Library.Lines
import HolderCore.Privacy.Envelope
import HolderCore.Sync.SafetyCheck
import HolderCore.Resource.AssetIntegrity
import HolderCore.Card.TagExtractor
import HolderCore.Card.TagAdded
import HolderCore.Library.Digits
import HolderCore.Identity.Uuid
import HolderCore.Git.SshSignature
import HolderCore.Sync.SyncRecords
import HolderCore.Card.ParentValidation
import HolderCore.Library.Regex
import HolderCore.Card.TagPattern
import HolderCore.Library.Json
import HolderCore.Resource.ResourceManifest
import HolderCore.Resource.ManifestRoundTrip
import HolderCore.Card.Recovery
import HolderCore.Library.JsonText
import HolderCore.Privacy.SecretStore
import HolderCore.Resource.LocationBindings
import HolderCore.Privacy.RecoveryToken
import HolderCore.Privacy.DeviceKeys
import HolderCore.Project.Mirrored
import HolderCore.Card.EditedRows
import HolderCore.Card.MirroredChanges
import HolderCore.Card.MirroredEdits
import HolderCore.Card.MirroredRepair
import HolderCore.Card.MirroredCalls
import HolderCore.Card.RowEdits
import HolderCore.Project.ProjectionRuns
import HolderCore.Project.Written
import HolderCore.Sync.PulledTree
