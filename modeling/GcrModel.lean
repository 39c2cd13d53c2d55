import GcrModel.Egg.SecureMemory.Theorems.Fresh
import GcrModel.Egg.Armor.Theorems.Reparse
import GcrModel.Gcr.CertificateChain.Theorems.Async
import GcrModel.Gck.Enumerator.Theorems.Calls
import GcrModel.Gck.Uri.Theorems.Agree
import GcrModel.Gck.Session.Theorems.Kept
import GcrModel.Gck.Attributes.Theorems.Shared
import GcrModel.Gcr.Trust.Theorems.Law
import GcrModel.Gcr.SshAgent.Theorems.Process
import GcrModel.Gcr.CertificateRequest.Theorems.Alike
import GcrModel.Gcr.SystemPrompt.Theorems.Prompt
import GcrModel.Gck.SessionHandle.Theorems.Kept
import GcrModel.Gcr.Pkcs11Importer.Theorems.Imports
import GcrModel.Gcr.SystemPrompter.Theorems.Schedule
import GcrModel.Gcr.Record.Theorems.Codec
import GcrModel.Gcr.Openpgp.Theorems.Independent
import GcrModel.Gcr.Parser.Theorems.Balance
import GcrModel.Gcr.SshAgent.Theorems.Service
import GcrModel.Gcr.Parser.Theorems.Stream
import GcrModel.Gcr.GnupgProcess.Theorems.Delivery
import GcrModel.Gcr.GnupgProcess.Theorems.Process
import GcrModel.Egg.FileTracker.Theorems.Directory
import GcrModel.Gcr.Pkcs11Library.Theorems.Settings
import GcrModel.Egg.Asn1x.Theorems.Integer
import GcrModel.Egg.Asn1x.Theorems.Time
import GcrModel.Egg.Asn1x.Theorems.ObjectIdContent
import GcrModel.Egg.Asn1x.Theorems.BitsEncode
import GcrModel.Egg.Decimal.Decimal
import GcrModel.Egg.Symkey.Theorems.Pkcs12
import GcrModel.Gck.ObjectCache.Theorems.Lookup
import GcrModel.Gcr.CertificateChain.Theorems.Order
import GcrModel.Egg.Dn.Theorems.Name
import GcrModel.Gcr.Record.Theorems.Split
import GcrModel.Gcr.SshAgent.Packet
import GcrModel.Gcr.SecretExchange.Theorems.Receive
import GcrModel.Gcr.Parser.Theorems.Memory
import GcrModel.Gcr.SubjectPublicKey.Theorems.Load
import GcrModel.Egg.Asn1x.Theorems.Bounds
import GcrModel.Egg.Asn1x.Theorems.Tables
import GcrModel.Egg.Asn1x.Theorems.Oids
import GcrModel.Gcr.SubjectPublicKey.Theorems.Size
import GcrModel.Egg.Dh.Dh
import GcrModel.Egg.Hkdf.Hkdf
import GcrModel.Egg.SecureMemory.Strings
import GcrModel.Gcr.SshAgent.Theorems.PublicKey
import GcrModel.Egg.Openssl.Openssl
import GcrModel.Gck.Session.Login
import GcrModel.Gcr.SshAskpass.SshAskpass
import GcrModel.Gcr.CertificateExtension.Names
import GcrModel.Gcr.Openpgp.Theorems.Transfer
import GcrModel.Egg.Asn1x.Theorems.Taken
import GcrModel.Egg.Asn1x.Theorems.Distinguished
import GcrModel.Gcr.SshAgent.Theorems.Identities
