import ManagedPdb.Cursor
import ManagedPdb.DebugInfo.Sink
import ManagedPdb.Draft.Image
import ManagedPdb.Main
import ManagedPdb.Proofs.Bytes
import ManagedPdb.Proofs.Container.PagedRead
import ManagedPdb.Proofs.Reader
import ManagedPdb.Proofs.Line.Correlation
import ManagedPdb.Proofs.Symbol.Descent
import ManagedPdb.Proofs.Symbol.StackDecoder
import ManagedPdb.Proofs.Reads
import ManagedPdb.Proofs.Text
import ManagedPdb.Proofs.Guid
import ManagedPdb.Proofs.Draft.MethodDraft
import ManagedPdb.Proofs.Draft.SymbolRegion
import ManagedPdb.Proofs.Symbol.Payload
import ManagedPdb.Proofs.Symbol.RoundTrip
import ManagedPdb.Proofs.Container.Staging
import ManagedPdb.Proofs.DebugInfo.Streams
import ManagedPdb.Proofs.Draft.Layout
import ManagedPdb.Proofs.Stable
import ManagedPdb.Proofs.Symbol.Frames
import ManagedPdb.Proofs.Lossy
import ManagedPdb.Proofs.UpperCase
import ManagedPdb.Proofs.Draft.Names
import ManagedPdb.Proofs.Draft.Modules
import ManagedPdb.Proofs.Draft.Decoded
import ManagedPdb.Proofs.TokenRemap
import ManagedPdb.Proofs.Draft.SourceStream
import ManagedPdb.Proofs.Draft.Catalog
import ManagedPdb.Proofs.Symbol.Brackets
import ManagedPdb.Proofs.StableSort
import ManagedPdb.Proofs.DebugInfo.Lookup
import ManagedPdb.Proofs.DebugInfo.Remapping
import ManagedPdb.Proofs.Draft.LineRegion
import ManagedPdb.Proofs.Line.RoundTrip
import ManagedPdb.Proofs.Machine.Basic
import ManagedPdb.Proofs.Machine.Field
import ManagedPdb.Proofs.Machine.Container
import ManagedPdb.Proofs.Machine.Names
import ManagedPdb.Proofs.Machine.Module
import ManagedPdb.Proofs.Machine.Symbol
import ManagedPdb.Proofs.Machine.Line
import ManagedPdb.Proofs.Machine.Attachment
import ManagedPdb.Proofs.Machine.Decode
import ManagedPdb.Proofs.Bounds
import ManagedPdb.Proofs.Container.PageLists
import ManagedPdb.Proofs.DebugInfo.StreamBounds
import ManagedPdb.Proofs.DebugInfo.Truncation
import ManagedPdb.Proofs.Ensures
import ManagedPdb.Proofs.Line.ChecksumRecord
import ManagedPdb.Proofs.Line.TableFiles
import ManagedPdb.Proofs.DebugInfo.Readings
import ManagedPdb.Proofs.DebugInfo.MethodOrder
import ManagedPdb.Proofs.Source.Description
import ManagedPdb.Proofs.Source.Sharing
import ManagedPdb.Proofs.DebugInfo.SourceSharing
import ManagedPdb.Proofs.Loops
import ManagedPdb.Proofs.DebugInfo.Relabelling
import ManagedPdb.Proofs.Symbol.DroppedNames
import ManagedPdb.Proofs.DebugInfo.DroppedNames
import ManagedPdb.Proofs.Ahead
import ManagedPdb.Proofs.Line.Frames
import ManagedPdb.Proofs.Symbol.TokenLines
import ManagedPdb.Proofs.DebugInfo.TokenLines
import ManagedPdb.Proofs.Source.Loading
import ManagedPdb.Proofs.Source.Renaming
import ManagedPdb.Proofs.DebugInfo.Rereading
import ManagedPdb.Proofs.DebugInfo.Reordering
import ManagedPdb.Proofs.Draft.Relisted
import ManagedPdb.Proofs.DebugInfo.ModuleOrder
import ManagedPdb.Proofs.Symbol.ScopeWalk
import ManagedPdb.Proofs.DebugInfo.Forwarding
import ManagedPdb.Proofs.Line.Indexed
import ManagedPdb.Proofs.Line.Tiling
import ManagedPdb.Proofs.Sequential
import ManagedPdb.Proofs.Symbol.ItemFrames
import ManagedPdb.Proofs.Draft.Script
import ManagedPdb.Proofs.Symbol.Defects
import ManagedPdb.Proofs.Line.Shape
import ManagedPdb.Proofs.DebugInfo.LineShape
import ManagedPdb.Proofs.Terminated
import ManagedPdb.Proofs.Rows
import ManagedPdb.Proofs.Names.Slots
import ManagedPdb.Proofs.Names.StringBuffer
import ManagedPdb.Proofs.Needs
import ManagedPdb.Proofs.Module.DeclaredSizes
import ManagedPdb.Proofs.DebugInfo.Sink
import ManagedPdb.Proofs.Pieces
import ManagedPdb.Proofs.Text.WellFormed
import ManagedPdb.Proofs.Text.Fields
import ManagedPdb.Proofs.Text.Codec
import ManagedPdb.Proofs.Cursor.Field
import ManagedPdb.Proofs.Cursor.Failure
import ManagedPdb.Proofs.Cursor.Runs
import ManagedPdb.Proofs.DebugInfo.RemappedTokens
import ManagedPdb.Proofs.Report.Token
import ManagedPdb.Proofs.Symbol.Carried
import ManagedPdb.Proofs.Symbol.Located
import ManagedPdb.Proofs.Report.Selection
import ManagedPdb.Proofs.Report.ScopeEnds
import ManagedPdb.Proofs.Rounds
import ManagedPdb.Proofs.Progress
import ManagedPdb.Proofs.Cursor.Alignment
import ManagedPdb.Proofs.Draft.Framing
import ManagedPdb.Proofs.Symbol.ScopeOrder
