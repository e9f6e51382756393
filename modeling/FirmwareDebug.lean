import FirmwareDebug.Main
import FirmwareDebug.Proofs.AttributeOrder
import FirmwareDebug.Proofs.BitFieldEncoding
import FirmwareDebug.Proofs.CallFrame.Coverage
import FirmwareDebug.Proofs.CallFrame.Harmless
import FirmwareDebug.Proofs.CallSite
import FirmwareDebug.Proofs.CapturedMemory
import FirmwareDebug.Proofs.Carrier
import FirmwareDebug.Proofs.ChunkedRead
import FirmwareDebug.Proofs.Conditional
import FirmwareDebug.Proofs.Descent
import FirmwareDebug.Proofs.EmptyUnit
import FirmwareDebug.Proofs.EntryRegister
import FirmwareDebug.Proofs.Enumeration
import FirmwareDebug.Proofs.ExceptionEntry
import FirmwareDebug.Proofs.Expression.Stopped
import FirmwareDebug.Proofs.FieldWidth
import FirmwareDebug.Proofs.Form
import FirmwareDebug.Proofs.HexPayload
import FirmwareDebug.Proofs.LineTable.Breakpoint
import FirmwareDebug.Proofs.LineTable.OwnUnit
import FirmwareDebug.Proofs.LineTable.Progress
import FirmwareDebug.Proofs.LineTable.RoundTrip
import FirmwareDebug.Proofs.LineTable.SpelledOut
import FirmwareDebug.Proofs.LineTable.TableSize
import FirmwareDebug.Proofs.LocationList
import FirmwareDebug.Proofs.Nesting
import FirmwareDebug.Proofs.ObjectType
import FirmwareDebug.Proofs.PacketGrammar
import FirmwareDebug.Proofs.Pieces
import FirmwareDebug.Proofs.Reception
import FirmwareDebug.Proofs.RowInForce
import FirmwareDebug.Proofs.Scope
import FirmwareDebug.Proofs.SingleAttribute
import FirmwareDebug.Proofs.TreeLevels
import FirmwareDebug.Proofs.TypeGraph.Behind
import FirmwareDebug.Proofs.TypeGraph.Rendering
import FirmwareDebug.Proofs.TypeName.Faithful
import FirmwareDebug.Proofs.Unavailable
import FirmwareDebug.Proofs.UnitMemory
import FirmwareDebug.Proofs.UnusedFrameBase
import FirmwareDebug.Proofs.ValueBytes
import FirmwareDebug.Proofs.ValuePart
import FirmwareDebug.Remote.Reply
import FirmwareDebug.Remote.Request
