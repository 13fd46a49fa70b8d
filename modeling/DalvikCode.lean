import DalvikCode.Debug.Encoding
import DalvikCode.Image
import DalvikCode.Instruction.Encoding
import DalvikCode.Method.Body
import DalvikCode.Method.Layout
import DalvikCode.Proofs.Debug.History
import DalvikCode.Proofs.Debug.Program
import DalvikCode.Proofs.DeclaredCounts
import DalvikCode.Proofs.Instruction.AnyDecoder
import DalvikCode.Proofs.Instruction.Chunks
import DalvikCode.Proofs.Instruction.Codec
import DalvikCode.Proofs.Instruction.Extent
import DalvikCode.Proofs.Instruction.Failures
import DalvikCode.Proofs.Instruction.PrefixCode
import DalvikCode.Proofs.Instruction.Tables
import DalvikCode.Proofs.Instruction.TwoImages
import DalvikCode.Proofs.Instruction.WholeImage
import DalvikCode.Proofs.Leb128.Signed
import DalvikCode.Proofs.Leb128.Unsigned
import DalvikCode.Proofs.Method.Covering
import DalvikCode.Proofs.Method.Entries
import DalvikCode.Proofs.Method.Header
import DalvikCode.Proofs.Method.Limits
import DalvikCode.Proofs.Method.RoundTrip
import DalvikCode.Proofs.Method.Views
import DalvikCode.Proofs.Trapping.Exploration
import DalvikCode.Proofs.Trapping.Requests
