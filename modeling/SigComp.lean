import SigComp.Engine.Operation
import SigComp.FrameCheck
import SigComp.Message.Stream
import SigComp.Settings.Document
import SigComp.Proofs.ArenaView
import SigComp.Proofs.RunBudget
import SigComp.Proofs.StoreReferences
import SigComp.Proofs.CompartmentBooks
import SigComp.Proofs.CompartmentHoldings
import SigComp.Proofs.RequestAdmission
import SigComp.Proofs.EngineConsistency
import SigComp.Proofs.EngineOperations
import SigComp.Proofs.ReferenceCounts
import SigComp.Proofs.RefusedAdmission
import SigComp.Proofs.RefusedCompression
import SigComp.Proofs.SelfOverwriting
import SigComp.Proofs.StoreLookup
import SigComp.Proofs.HonestStates
import SigComp.Proofs.RegisteredStates
import SigComp.Proofs.RingTraversal
import SigComp.Proofs.TrapFreedom
import SigComp.Proofs.PeerIsolation
import SigComp.Proofs.ArenaAccounts
import SigComp.Proofs.StoreAccounts
import SigComp.Proofs.ArenaChanges
import SigComp.Proofs.PendingQueue
import SigComp.Proofs.PendingFrame
import SigComp.Proofs.DeclarationOutcomes
import SigComp.Proofs.PendingRun
import SigComp.Proofs.RefusedDeclaration
import SigComp.Proofs.IndifferentOperations
import SigComp.Proofs.DeferredEffects
import SigComp.Proofs.StreamRoundTrip
import SigComp.Proofs.HeaderRoundTrip
import SigComp.Proofs.EngineSteps
import SigComp.Proofs.EngineMoves
import SigComp.Proofs.EngineInvariants
import SigComp.Proofs.IdentifierLists
import SigComp.Proofs.SettlementRecords
import SigComp.Proofs.PeerRecords
import SigComp.Proofs.StorePlaces
import SigComp.Proofs.CommitmentBounds
import SigComp.Proofs.DeferredErrors
import SigComp.Proofs.ArenaGenerations
import SigComp.Proofs.CallbackCourses
import SigComp.Proofs.SendingOutcomes
import SigComp.Proofs.CompartmentLifecycle
import SigComp.Proofs.BriefingHistory
import SigComp.Proofs.IdentifierReading
import SigComp.Proofs.PermanentStates
import SigComp.Proofs.CommittedSaves
import SigComp.Proofs.AdmissionOrder
import SigComp.Proofs.AdmissionHistory
import SigComp.Proofs.BitReading
import SigComp.Proofs.OperandScanning
import SigComp.Proofs.HuffmanDecoding
import SigComp.Proofs.SteppingBack
import SigComp.Proofs.SlidingWindow
import SigComp.Proofs.RowSorting
import SigComp.Proofs.RunRecord
import SigComp.Proofs.RunResources
import SigComp.Proofs.FailedInstructions
import SigComp.Proofs.StackMemory
import SigComp.Proofs.StackDiscipline
import SigComp.Proofs.PendingNames
import SigComp.Proofs.HeaderGrammar
import SigComp.Proofs.DamageDetection
import SigComp.Proofs.Announcements
import SigComp.Proofs.ArenaRuns
import SigComp.Proofs.ArenaWords
