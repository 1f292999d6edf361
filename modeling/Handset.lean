import Handset.Hardware.Devices
import Handset.Interface.Console
import Handset.Package.Application
import Handset.Proofs.Hardware.DetectedParts
import Handset.Proofs.Machine.ClassLoading
import Handset.Proofs.Machine.ExceptionDispatch
import Handset.Proofs.Storage.Persistence
import Handset.Workload.Devices
import Handset.Workload.Machine
import Handset.Workload.Program
import Handset.Proofs.Machine.RegisterFrame
import Handset.Proofs.Machine.FutileCollections
import Handset.Proofs.Interface.FileDeletion
import Handset.Proofs.Native.RepeatedLoading
import Handset.Proofs.Machine.SwitchTables
import Handset.Proofs.Machine.StraightLine
import Handset.Proofs.Machine.StoredValues
import Handset.Proofs.Machine.PairMoves
import Handset.Proofs.Machine.Comparisons
import Handset.Proofs.Dex.TableBounds
import Handset.Proofs.Dex.StringItems
import Handset.Proofs.Machine.EntryMethods
import Handset.Proofs.Storage.WrittenBytes
import Handset.Proofs.Storage.FailedRequests
import Handset.Proofs.Storage.Listings
import Handset.Proofs.Storage.StoredTexts
import Handset.Proofs.Machine.CollectionReports
import Handset.Proofs.Machine.MethodNames
import Handset.Proofs.Dex.VariableLength
import Handset.Proofs.Settings.TypedValues
