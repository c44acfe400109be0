import Hftp.CompletionProofs
import Hftp.ExclusionProofs
import Hftp.StrandedProofs
import Hftp.WakeupProofs
import Hftp.QueueProofs
import Hftp.RequestFramingProofs
import Hftp.DriversProofs
import Hftp.EndOfResponseProofs
import Hftp.RemainCountProofs
import Hftp.InvocationProofs
import Hftp.SlotReuseProofs
import Hftp.ChunkSharingProofs
import Hftp.HeadReferenceProofs
import Hftp.SingleCommandProofs
import Hftp.HeadSafetyProofs
import Hftp.ChunkTerminationProofs
import Hftp.ChunkConfinementProofs
import Hftp.CallbackFailureProofs
import Hftp.UrlPartsProofs
import Hftp.UrlWordsInverseProofs
import Hftp.UrlDataInverseProofs
import Hftp.CommandTextProofs
import Hftp.BusyWordProofs
import Hftp.CommandLinesProofs
import Hftp.InputHandlingProofs
import Hftp.ContentTypeProofs
import Hftp.ShutdownProofs
import Hftp.BusyFlagsProofs
import Hftp.SettlingProofs
import Hftp.DescriptorsProofs
import Hftp.BatchProofs
import Hftp.CommandRefinementProofs
import Hftp.WireProofs
import Hftp.ScriptProofs
import Hftp.ReadingProofs
import Hftp.OneCallProofs
import Hftp.ServiceOrderProofs
import Hftp.QueueRoomProofs
import Hftp.InterleavedProofs
