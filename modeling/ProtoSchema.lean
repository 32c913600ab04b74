import ProtoSchema.Descriptor.Wire
import ProtoSchema.Document.Yaml
import ProtoSchema.Message.Decode
import ProtoSchema.Message.Encode
import ProtoSchema.Message.Equal
import ProtoSchema.Message.Inspect
import ProtoSchema.Message.Required
import ProtoSchema.Proofs.Decimal.Written
import ProtoSchema.Proofs.Default
import ProtoSchema.Proofs.Descriptor.Bytes
import ProtoSchema.Proofs.Descriptor.Contract
import ProtoSchema.Proofs.Descriptor.Roundtrip
import ProtoSchema.Proofs.Message.Canonical
import ProtoSchema.Proofs.Message.Carried
import ProtoSchema.Proofs.Message.Forward
import ProtoSchema.Proofs.Message.Native
import ProtoSchema.Proofs.Message.Packed
import ProtoSchema.Proofs.Message.Required
import ProtoSchema.Proofs.Message.Text
import ProtoSchema.Proofs.Message.Truncated
import ProtoSchema.Proofs.Schema.Closed
import ProtoSchema.Proofs.Schema.Handles
import ProtoSchema.Proofs.Schema.Lookup
import ProtoSchema.Proofs.Schema.RecordNames
import ProtoSchema.Proofs.Text.Unescape
import ProtoSchema.Proofs.Yaml.Number
import ProtoSchema.Proofs.Yaml.Plain
import ProtoSchema.Proofs.Document.Declared
import ProtoSchema.Proofs.Yaml.Reads
import ProtoSchema.Proofs.Document.Defaults
