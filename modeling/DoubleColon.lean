import DoubleColon.Env.Standard
import DoubleColon.Resolver
import DoubleColon.Proofs.CacheCells
import DoubleColon.Proofs.Conclusions
import DoubleColon.Proofs.Routes
import DoubleColon.Proofs.Frames
import DoubleColon.Proofs.Interruption
import DoubleColon.Proofs.Trails
import DoubleColon.Proofs.CycleBreaks
import DoubleColon.Proofs.CutOff
import DoubleColon.Proofs.EditHistory
import DoubleColon.Proofs.Inquiries
import DoubleColon.Proofs.ResolutionOrder
import DoubleColon.Proofs.Circuits
import DoubleColon.Proofs.FreshRequests
import DoubleColon.Proofs.TypeVariables
import DoubleColon.Proofs.Bindings
import DoubleColon.Proofs.ReportedMethods
import DoubleColon.Proofs.MethodAnswers
import DoubleColon.Proofs.DirectMatch
import DoubleColon.Proofs.QualifierArguments
import DoubleColon.Proofs.Interleavings
import DoubleColon.Proofs.Publication
import DoubleColon.Proofs.MethodEdits
import DoubleColon.Proofs.FunctionOrder
import DoubleColon.Proofs.OverloadOrder
import DoubleColon.Proofs.MethodOrder
import DoubleColon.Proofs.Derivations
import DoubleColon.Proofs.ParallelRequests
import DoubleColon.Proofs.Repetition
import DoubleColon.Proofs.ComputeOnce
import DoubleColon.Proofs.RequestTraffic
import DoubleColon.Proofs.ExitPaths
import DoubleColon.Proofs.ChosenPositions
import DoubleColon.Proofs.ApplicableCandidates
import DoubleColon.Proofs.FaithfulChoices
import DoubleColon.Proofs.Narrowing
import DoubleColon.Proofs.BreadthFirst
import DoubleColon.Proofs.WalkViews
import DoubleColon.Proofs.Ambiguity
import DoubleColon.Proofs.Absorption
import DoubleColon.Proofs.OwnReceivers
import DoubleColon.Proofs.PositionalReads
import DoubleColon.Proofs.ImplicitConstructors
import DoubleColon.Proofs.CompleteWalks
import DoubleColon.Proofs.Overriding
import DoubleColon.Proofs.AcyclicHierarchies
import DoubleColon.Proofs.SubstitutedViews
import DoubleColon.Proofs.ViewsAreSupertypes
import DoubleColon.Proofs.SettledViews
import DoubleColon.Proofs.ClassGraph
import DoubleColon.Proofs.IntersectionParts
import DoubleColon.Proofs.SpelledSubtypes
import DoubleColon.Proofs.LowerBounds
import DoubleColon.Proofs.RootClass
import DoubleColon.Proofs.AbstractMembers
import DoubleColon.Proofs.DeclarationOrder
import DoubleColon.Proofs.ReturnTypes
import DoubleColon.Proofs.Implementations
import DoubleColon.Proofs.Instances
import DoubleColon.Proofs.Widening
import DoubleColon.Proofs.WildcardPlaces
import DoubleColon.Proofs.ProperArguments
import DoubleColon.Proofs.InferredMappings
import DoubleColon.Proofs.BestOverload
import DoubleColon.Proofs.Identities
import DoubleColon.Proofs.Renaming
import DoubleColon.Proofs.EnclosingInstances
import DoubleColon.Proofs.SubtypeLevels
import DoubleColon.Proofs.Composition
import DoubleColon.Proofs.Checkpoints
