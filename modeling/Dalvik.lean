import Dalvik.Body.Basic
import Dalvik.Body.Edit
import Dalvik.Body.Try
import Dalvik.Bytes.Align
import Dalvik.Bytes.Cursor
import Dalvik.Bytes.Leb128
import Dalvik.Bytes.LittleEndian
import Dalvik.Bytes.Narrow
import Dalvik.Bytes.Parts
import Dalvik.Bytes.Power
import Dalvik.Bytes.Signed
import Dalvik.Class.Access
import Dalvik.Class.Basic
import Dalvik.Container.AnnotationItems
import Dalvik.Container.Archive
import Dalvik.Container.Catalog
import Dalvik.Container.ClassItems
import Dalvik.Container.ClassOrder
import Dalvik.Container.CodeItem
import Dalvik.Container.DataSection
import Dalvik.Container.Discovery
import Dalvik.Container.Entity
import Dalvik.Container.IdTables
import Dalvik.Container.Image
import Dalvik.Container.InternTable
import Dalvik.Container.MapList
import Dalvik.Container.Options
import Dalvik.Container.Pool
import Dalvik.Container.Shared
import Dalvik.Container.Stream
import Dalvik.Digest.Adler32
import Dalvik.Digest.Sha1
import Dalvik.Error
import Dalvik.Header
import Dalvik.Instruction.Basic
import Dalvik.Instruction.Check
import Dalvik.Instruction.Decode
import Dalvik.Instruction.Encode
import Dalvik.Instruction.Format
import Dalvik.Instruction.Opcode
import Dalvik.Key
import Dalvik.Output
import Dalvik.Proofs.Body.Branches
import Dalvik.Proofs.Body.Coverage
import Dalvik.Proofs.Body.Foreign
import Dalvik.Proofs.Body.Resolution
import Dalvik.Proofs.Class.Supertypes
import Dalvik.Proofs.Container.Archives
import Dalvik.Proofs.Container.FieldOrder
import Dalvik.Proofs.Container.DirectorySharing
import Dalvik.Proofs.Container.Frozen
import Dalvik.Proofs.Container.InternTable
import Dalvik.Proofs.Container.MapReading
import Dalvik.Proofs.Container.RegisterCounts
import Dalvik.Proofs.Container.Reordering
import Dalvik.Proofs.Container.Sealing
import Dalvik.Proofs.Container.SharedKeys
import Dalvik.Proofs.Instruction.Acceptance
import Dalvik.Proofs.Instruction.Locality
import Dalvik.Proofs.Instruction.Tiling
import Dalvik.Proofs.Instruction.Width
import Dalvik.Proofs.Text.Acceptance
import Dalvik.Proofs.Value.Inference
import Dalvik.Reference.Basic
import Dalvik.Reference.Descriptor
import Dalvik.Reference.Indexer
import Dalvik.Text.Hex
import Dalvik.Text.Mutf8
import Dalvik.Text.Quoted
import Dalvik.Text.Unmarked
import Dalvik.Text.Utf16
import Dalvik.Value.Basic
import Dalvik.Value.Encode
import Dalvik.Value.Infer
import Dalvik.Value.Key
import Dalvik.Proofs.Container.Alignment
import Dalvik.Proofs.Value.Payload
import Dalvik.Proofs.Bytes.Indices
import Dalvik.Proofs.Bytes.Operations
import Dalvik.Proofs.Output
