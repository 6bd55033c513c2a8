import RecordMapping.Composer.Flatten
import RecordMapping.Fault.Store
import RecordMapping.Schema.Draft
import RecordMapping.Text.Outline
import RecordMapping.Proofs.Expansion
import RecordMapping.Proofs.Flatness
import RecordMapping.Proofs.Agreement
import RecordMapping.Proofs.Frames
import RecordMapping.Proofs.Layers
import RecordMapping.Proofs.CompiledForm
import RecordMapping.Proofs.Moments
import RecordMapping.Proofs.Copies
import RecordMapping.Proofs.Instantiation
import RecordMapping.Proofs.Inlining
import RecordMapping.Proofs.Meaning
import RecordMapping.Proofs.Nesting
import RecordMapping.Proofs.Ranks
import RecordMapping.Proofs.Termination
import RecordMapping.Proofs.References
import RecordMapping.Proofs.Compilable
import RecordMapping.Proofs.Constants
import RecordMapping.Proofs.Identities
import RecordMapping.Proofs.Renumbering
import RecordMapping.Proofs.Calls
import RecordMapping.Proofs.SharedCache
import RecordMapping.Proofs.Acyclic
import RecordMapping.Proofs.Readings
import RecordMapping.Proofs.Denotation
import RecordMapping.Proofs.Modularity
import RecordMapping.Proofs.MappingArguments
import RecordMapping.Proofs.Memoization
import RecordMapping.Proofs.InferredTypes
import RecordMapping.Proofs.LambdaBinders
import RecordMapping.Proofs.Substitution
import RecordMapping.Proofs.RepeatedParams
import RecordMapping.Proofs.Declarations
import RecordMapping.Proofs.Validation
import RecordMapping.Proofs.RelationKeys
import RecordMapping.Proofs.GuardKeys
import RecordMapping.Proofs.WellScoped
import RecordMapping.Proofs.Comparisons
import RecordMapping.Proofs.FreeParams
import RecordMapping.Proofs.Walks
import RecordMapping.Proofs.FirstOrder
import RecordMapping.Proofs.StagedBinding
import RecordMapping.Proofs.LikeForms
import RecordMapping.Proofs.SettledAhead
import RecordMapping.Proofs.LikeComposed
import RecordMapping.Proofs.MarkerShapes
import RecordMapping.Proofs.RenamedBinders
import RecordMapping.Proofs.SharperTypes
import RecordMapping.Proofs.WiderScopes
import RecordMapping.Proofs.FaultChains
import RecordMapping.Proofs.BindingRuns
import RecordMapping.Proofs.LikeRuns
import RecordMapping.Proofs.Subtypes
import RecordMapping.Proofs.RunFrames
import RecordMapping.Proofs.SlotsInScope
import RecordMapping.Proofs.SoundCode
