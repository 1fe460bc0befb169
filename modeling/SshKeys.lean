import SshKeys.Packet.Call
import SshKeys.Secret
import SshKeys.LogFile
import SshKeys.Error.Description
import SshKeys.Key.Bare
import SshKeys.Key.Construct
import SshKeys.Key.Generation
import SshKeys.KeyFile
import SshKeys.Proofs.Reading
import SshKeys.Proofs.EnvelopeCodec
import SshKeys.Proofs.KeyEntry
import SshKeys.Proofs.PublicBlob
import SshKeys.Proofs.SectionReading
import SshKeys.Proofs.AesInverse
import SshKeys.Proofs.CipherModes
import SshKeys.Proofs.Sealing
import SshKeys.Proofs.ArmourCodec
import SshKeys.Proofs.SectionWriting
import SshKeys.Proofs.KeyFileRoundTrip
import SshKeys.Proofs.RawReading
import SshKeys.Proofs.Conversion
import SshKeys.Proofs.Recognition
import SshKeys.Proofs.PrivateLoading
import SshKeys.Proofs.BlobCodec
import SshKeys.Proofs.LineRoundTrip
import SshKeys.Proofs.PublicForm
import SshKeys.Proofs.PublicSizes
import SshKeys.Proofs.Truncation
import SshKeys.Proofs.FieldRun
import SshKeys.Proofs.PacketRun
import SshKeys.Proofs.KeyEquality
import SshKeys.Proofs.PrimitiveDomain
import SshKeys.Proofs.LogIndependence
import SshKeys.Proofs.SealingInverse
import SshKeys.Proofs.UnusedPassphrase
import SshKeys.Proofs.TextOrBytes
import SshKeys.Proofs.PublicLoading
import SshKeys.Proofs.SectionRoundTrip
import SshKeys.Proofs.ArmourNoise
import SshKeys.Proofs.PemNoise
import SshKeys.Proofs.LineGrammar
import SshKeys.Proofs.IntegerCodec
import SshKeys.Proofs.RsaSignature
import SshKeys.Proofs.PrimeTest
import SshKeys.Proofs.SecretErasure
