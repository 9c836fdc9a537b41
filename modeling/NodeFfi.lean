import NodeFfi.ResultBuffer
import NodeFfi.CallbackDelivery
import NodeFfi.CallbackWaits
import NodeFfi.CallbackProgress
import NodeFfi.LoopReference
import NodeFfi.VariadicSoundness
import NodeFfi.CallbackErrors
import NodeFfi.DispatchAgreement
import NodeFfi.AsyncAgreement
import NodeFfi.TypeIdentity
import NodeFfi.VariadicReturnTypes
import NodeFfi.VariadicReuse
import NodeFfi.AsyncFailures
import NodeFfi.LinkerScripts
import NodeFfi.TearDown
import NodeFfi.CallbackLifetimes
import NodeFfi.CifPreparation
import NodeFfi.TypeStability
import NodeFfi.CallIsolation
import NodeFfi.FunctionPointers
import NodeFfi.ClosureStorage
import NodeFfi.ElementArrays
import NodeFfi.CifRetention
import NodeFfi.StructLayouts
import NodeFfi.TrampolineRuns
import NodeFfi.I386Calls
import NodeFfi.TypeTrees
