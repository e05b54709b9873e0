import FunctionWrapper.ExactMatch
import FunctionWrapper.CallAcceptance
import FunctionWrapper.ConversionTable
import FunctionWrapper.StorageInvariant
import FunctionWrapper.Ownership
import FunctionWrapper.ValueSemantics
import FunctionWrapper.EvaluationPhases
import FunctionWrapper.RefTargets
import FunctionWrapper.FastPaths
import FunctionWrapper.ThrowingSteps
import FunctionWrapper.ArgumentPassing
import FunctionWrapper.StaticConversion
import FunctionWrapper.InnerSources
import FunctionWrapper.TargetIntrospection
import FunctionWrapper.BoundSignatures
import FunctionWrapper.NullPointers
import FunctionWrapper.PreferenceOrder
import FunctionWrapper.FunctionArrays
import FunctionWrapper.Simulations
import FunctionWrapper.ThrowConditions
import FunctionWrapper.ValueMachine
import FunctionWrapper.Histories
import FunctionWrapper.Independence
import FunctionWrapper.StoragePolicies
import FunctionWrapper.TargetPointers
import FunctionWrapper.ForwardChains
import FunctionWrapper.RefChains
import FunctionWrapper.StaticSlots
import FunctionWrapper.ConstantStart
import FunctionWrapper.WrapperLaws
import FunctionWrapper.ComparableRanks
import FunctionWrapper.SharedMemory
import FunctionWrapper.MemberAdapters
import FunctionWrapper.SharedObjects
import FunctionWrapper.MemberCalls
import FunctionWrapper.RefMachine
import FunctionWrapper.PointerHolders
import FunctionWrapper.BorrowedWrappers
