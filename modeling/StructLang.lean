import StructLang.Main
import StructLang.Proofs.ItemOrder
import StructLang.Proofs.Parentage
import StructLang.Proofs.SlotLayout
import StructLang.Proofs.Subsumption
import StructLang.Proofs.TableSnapshot
import StructLang.Proofs.Nesting
import StructLang.Proofs.RecordForm
import StructLang.Proofs.ProgramForm
import StructLang.Proofs.ProgramDocument
import StructLang.Proofs.Levels
import StructLang.Proofs.MoreItems
import StructLang.Proofs.Anchors
import StructLang.Proofs.KnownTypes
import StructLang.Proofs.BodyMethods
import StructLang.Proofs.BuiltinStructs
import StructLang.Proofs.EnumerationOrder
import StructLang.Proofs.Readings
import StructLang.Proofs.Storage
import StructLang.Proofs.StaticMethods
import StructLang.Proofs.Instantiation
import StructLang.Proofs.TypeOrder
import StructLang.Proofs.Cycles
import StructLang.Proofs.Bindings
import StructLang.Proofs.Retry
import StructLang.Proofs.Records
import StructLang.Proofs.Replacement
import StructLang.Proofs.Annotation
import StructLang.Proofs.NodeListing
import StructLang.Proofs.Pending
import StructLang.Proofs.DispatchOrder
