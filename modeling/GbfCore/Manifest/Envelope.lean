import GbfCore.Blob.Primitives

/-!
# The checksum envelope (manifest.go)

A manifest file is one unit: the magic, the SHA-256 digest of the payload and the
payload. Files without the magic are legacy ones, whose digest is in a second file.
-/

namespace GbfCore

/-- `RegistryEnvelopeMagic` -/
def registryEnvelopeMagic : Bytes := ascii "GBR1"

/-- `sha256.Size` -/
def sha256Size : Nat := 32

/-- `registryEnvelopeHeaderSize` -/
def registryEnvelopeHeaderSize : Nat := registryEnvelopeMagic.length + sha256Size

section
variable (P : Primitives)

/-- The envelope `SaveManifestWithKey` writes around a payload. -/
def gbrEnvelope (payload : Bytes) : Bytes :=
  registryEnvelopeMagic ++ P.sha256 payload ++ payload

/-- `isGBREnvelope`. -/
def isGBREnvelope (data : Bytes) : Bool :=
  decide (registryEnvelopeHeaderSize ≤ data.length) &&
    decide (data.take registryEnvelopeMagic.length = registryEnvelopeMagic)

/-- `stripGBREnvelope`; `none` is a checksum mismatch. -/
def stripGBREnvelope (data : Bytes) : Option Bytes :=
  let want := (data.take registryEnvelopeHeaderSize).drop registryEnvelopeMagic.length
  let payload := data.drop registryEnvelopeHeaderSize
  if want = P.sha256 payload then some payload else none

end

end GbfCore
