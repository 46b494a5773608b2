import Orchestration.EngineId
import Orchestration.Lock.Contention
import Orchestration.Lock.Guard
import Orchestration.Proofs.Lock.Contending
import Orchestration.Proofs.Lock.Contest
import Orchestration.Proofs.Migration.Moving
import Orchestration.Proofs.Migration.Renaming
import Orchestration.Proofs.Template.Coverage
import Orchestration.Proofs.Template.Fuller
import Orchestration.Proofs.Template.Extension
import Orchestration.Proofs.Template.Sessions
import Orchestration.Proofs.Watch.Failures
import Orchestration.Settings
import Orchestration.Store.FileWatches
import Orchestration.Template.Dependencies
import Orchestration.Proofs.Lock.Requests
import Orchestration.Proofs.Lock.Interference
import Orchestration.Proofs.Lock.Tenure
import Orchestration.Proofs.Json.Reading
import Orchestration.Proofs.Store.Files
import Orchestration.Proofs.Store.LockAgreement
import Orchestration.Proofs.Binary64.Integers
import Orchestration.Proofs.Json.Lines
import Orchestration.Proofs.Store.WatchAgreement
import Orchestration.Proofs.Lock.Release
import Orchestration.Proofs.Migration.Substitution
import Orchestration.Proofs.Migration.Resolving
import Orchestration.Proofs.Migration.Appending
import Orchestration.Proofs.Migration.Repetition
import Orchestration.Proofs.Migration.Calls
import Orchestration.Proofs.Store.Checksums
import Orchestration.Proofs.Migration.Keeping
import Orchestration.Proofs.Migration.Commuting
import Orchestration.Proofs.Template.Availability
import Orchestration.Proofs.Template.Outline
import Orchestration.Proofs.Template.Repeating
import Orchestration.Proofs.Template.Validation
import Orchestration.Proofs.Lock.Protocol
import Orchestration.Proofs.Migration.Spellings
import Orchestration.Proofs.Migration.Elements
import Orchestration.Proofs.Template.Equality
import Orchestration.Proofs.Template.Rekeying
import Orchestration.Proofs.Template.Rejoining
import Orchestration.Proofs.Template.Enumeration
import Orchestration.Proofs.Template.Merging
import Orchestration.Proofs.Template.Static
import Orchestration.Proofs.Template.Splicing
import Orchestration.Proofs.Watch.Window
import Orchestration.Proofs.Watch.Periods
import Orchestration.Proofs.Store.Keys
import Orchestration.Proofs.Template.Shapes
