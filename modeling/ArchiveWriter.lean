import ArchiveWriter.Basic
import ArchiveWriter.Header
import ArchiveWriter.Symbols
import ArchiveWriter.MemberData
import ArchiveWriter.Writer
import ArchiveWriter.StringTable
import ArchiveWriter.Timestamps
import ArchiveWriter.Sizing
import ArchiveWriter.SymbolIndex
import ArchiveWriter.Layout
import ArchiveWriter.Reader
import ArchiveWriter.RoundTrip
import ArchiveWriter.Outcomes
import ArchiveWriter.Interpret.Driver
import ArchiveWriter.Interpret.Memory
