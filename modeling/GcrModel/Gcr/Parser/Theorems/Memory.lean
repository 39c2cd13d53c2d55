import GcrModel.Egg.Armor.Theorems.Parse
import GcrModel.Gcr.Openpgp.Theorems.Memory
import GcrModel.Gcr.Parser.Theorems.Pem

-- What the parser reads behind the data.
namespace Parser

open GLib

-- The function for the format reads nothing behind the data.
structure DataFormat.Stays (lib : Library) (data : Bytes) (format : DataFormat) : Prop where
  armor   : format.armored = true → ¬Armor.Leaves data
  openpgp : format = .openpgpPacket → ¬Openpgp.Leaves lib.hashes lib.now openpgpFlags data
  -- Either the prefix is missing, which only is seen in longer data, or there is a NUL somewhere behind it.
  base64  : format = .base64Spkac →
    spkacPrefix.length < data.length ∧ data.take spkacPrefix.length ≠ spkacPrefix ∨ 0 ∈ data.drop spkacPrefix.length

variable {lib : Library} {backend : Backend} {data after : Bytes} {format format' : DataFormat} {formats : List DataFormat}
  {s s' s'' : State} {code : Code} {chosen : Option DataFormat}

section Example

end Example

end Parser
