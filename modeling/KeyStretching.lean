import KeyStretching.Credential.Hasher
import KeyStretching.Proofs.Bytes
import KeyStretching.Proofs.Buffer
import KeyStretching.Proofs.Cost
import KeyStretching.Proofs.Standard
import KeyStretching.Proofs.Salsa
import KeyStretching.Proofs.BlockMix
import KeyStretching.Proofs.RoMix
import KeyStretching.Proofs.Pbkdf2
import KeyStretching.Proofs.Pbkdf2.Keying
import KeyStretching.Proofs.Scrypt
import KeyStretching.Proofs.Scrypt.Lanes
import KeyStretching.Proofs.Scrypt.Outcome
import KeyStretching.Proofs.Scrypt.Words
import KeyStretching.Proofs.Scrypt.Memory
import KeyStretching.Proofs.Text.Ascii
import KeyStretching.Proofs.Text.Base64Url
import KeyStretching.Proofs.Text.Base64Url.Canonical
import KeyStretching.Proofs.Text.Hex
import KeyStretching.Proofs.Text.Hex.Digits
import KeyStretching.Proofs.Text.Hex.Conversion
import KeyStretching.Proofs.Credential.Envelope
import KeyStretching.Proofs.Credential.Header
import KeyStretching.Proofs.Credential.ScryptHeader
import KeyStretching.Proofs.Credential.HmacHeader
import KeyStretching.Proofs.Credential.Checking
import KeyStretching.Proofs.Credential.RoundTrip
import KeyStretching.Proofs.Credential.AcceptedKeys
import KeyStretching.Proofs.Credential.Rules
import KeyStretching.Proofs.Credential.Unpacking
import KeyStretching.Proofs.Credential.Overflow
import KeyStretching.Proofs.Credential.Grammar
import KeyStretching.Proofs.Credential.Rewriting
import KeyStretching.Proofs.Credential.Rejection
import KeyStretching.Proofs.Credential.HeaderField
import KeyStretching.Proofs.Credential.Failing
import KeyStretching.Proofs.Credential.Secrecy
import KeyStretching.Proofs.Credential.Unchecked
import KeyStretching.Proofs.Credential.Session
import KeyStretching.Proofs.Credential.Interchange
import KeyStretching.Proofs.Salsa.Inverse
import KeyStretching.Proofs.Scrypt.Symmetry
import KeyStretching.Proofs.Scrypt.TopBits
import KeyStretching.Proofs.Cost.Sizes
import KeyStretching.Proofs.Pbkdf2.InPlace
import KeyStretching.Proofs.Scrypt.Prefix
import KeyStretching.Proofs.Scrypt.Machine
import KeyStretching.Proofs.Pbkdf2.Numbering
import KeyStretching.Proofs.Scrypt.Selection
import KeyStretching.Proofs.Credential.Hashing
import KeyStretching.Proofs.Text.Wording
import KeyStretching.Proofs.Error
import KeyStretching.Proofs.Credential.Reporting
