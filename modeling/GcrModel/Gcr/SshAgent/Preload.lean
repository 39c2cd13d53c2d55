import GcrModel.Egg.Buffer.Buffer
import GcrModel.Library.Base64
import GcrModel.Library.Table
import GcrModel.Library.Transition

-- gcr-ssh-agent-util.c: the line of a public key file.
namespace SshAgent

open GLib

def isBlank (c : UInt8) : Bool :=
  c = 32 ∨ c = 9

-- Look for a key line
def keyLine (data : Bytes) : Option Bytes :=
  match _hspace : data.dropWhile asciiIsspace with
  | 35 :: rest =>
    match _hat : rest.idxOf? newline with
    | none   => none
    | some i => keyLine (rest.drop (i + 1))
  | line       => some line
termination_by data.length
decreasing_by
  have hle := (List.dropWhile_sublist asciiIsspace (l := data)).length_le
  simp only [_hspace, List.length_cons] at hle
  simp only [List.length_drop]
  omega

-- The key and the comment.
def parsePublicKey (input : Bytes) : Option (Bytes × Bytes) :=
  (keyLine input).bind fun data =>
    -- Limit to use only the first line
    let line := data.takeWhile (· ≠ newline)
    (line.idxOf? 32).bind fun space =>
      let keytype := line.take space
      let rest := (line.drop space).dropWhile isBlank
      let chunk := rest.takeWhile (· ≠ 32)
      if chunk.length % 4 ≠ 0 then none
      else
        let decoded := Base64.decode chunk
        if decoded = [] then none
        -- Check if the key type is prefixed to the decoded blob
        else if keytype.length + 4 < decoded.length ∧
            (EggBuffer.decodeUint32 decoded).toNat = keytype.length ∧ (decoded.drop 4).take keytype.length = keytype then
          some (decoded, cstr ((rest.dropWhile (· ≠ 32)).dropWhile isBlank))
        else
          none

-- gcr-ssh-agent-preload.c: the keys of the files in a directory.

def pubSuffix : Bytes :=
  ascii ['.', 'p', 'u', 'b']

-- The file tracker only reports the files that match `*.pub`.
structure PublicPath where
  path   : Bytes
  suffix : pubSuffix <:+ path
  deriving DecidableEq

def PublicPath.privatePath (path : PublicPath) : Bytes :=
  path.path.take (path.path.length - 4)

structure KeyInfo where
  filename  : Bytes
  publicKey : Bytes
  comment   : Bytes
  deriving DecidableEq

-- The records are in memory, where freed ones are missing. One table owns them and the other one only refers
-- to them.
structure Preload where
  infos                : Table Nat KeyInfo := fun _ => none
  allocated            : Nat := 0
  keysByPublicFilename : Table PublicPath Nat := fun _ => none
  keysByPublicKey      : Table Bytes Nat := fun _ => none

-- What is in the files. There is no contents when a file cannot be read.
abbrev Files := Bytes → Option Bytes

namespace Preload

-- `g_hash_table_remove` with the table that frees its values.
def removeKey (s : Preload) (key : Bytes) : Preload :=
  match s.keysByPublicKey key with
  | none   => s
  | some i =>
    { s with
      infos           := Function.update s.infos i none
      keysByPublicKey := Function.update s.keysByPublicKey key none }

-- `g_hash_table_replace`, which frees the value that was there.
def replaceKey (s : Preload) (key : Bytes) (i : Nat) : Preload :=
  { s.removeKey key with keysByPublicKey := Function.update s.keysByPublicKey key (some i) }

-- There is no result when freed memory is read.
def fileRemove (s : Preload) (path : PublicPath) : Option Preload :=
  match s.keysByPublicFilename path with
  | none   => some s
  | some i =>
    let s := { s with keysByPublicFilename := Function.update s.keysByPublicFilename path none }
    (s.infos i).map fun info => s.removeKey info.publicKey

def addInfo (s : Preload) (path : PublicPath) (info : KeyInfo) : Preload :=
  { s with
    infos                := Function.update s.infos s.allocated (some info)
    allocated            := s.allocated + 1
    keysByPublicFilename := Function.update s.keysByPublicFilename path (some s.allocated) }.replaceKey
  info.publicKey s.allocated

-- The record for a file whose private half is there.
def keyInfo (path : PublicPath) (files : Files) : Option KeyInfo :=
  (files path.privatePath).bind fun _ =>
    (files path.path).bind fun publicBytes =>
      (parsePublicKey publicBytes).map fun (publicKey, comment) => ⟨path.privatePath, publicKey, comment⟩

def fileLoad (s : Preload) (path : PublicPath) (files : Files) : Option Preload :=
  (s.fileRemove path).map fun s =>
    match keyInfo path files with
    | none      => s
    | some info => s.addInfo path info

def lookupByPublicKey (s : Preload) (key : Bytes) : Option KeyInfo :=
  (s.keysByPublicKey key).bind s.infos

end Preload

inductive FileEvent
  | added (path : PublicPath) (files : Files)
  | changed (path : PublicPath) (files : Files)
  | removed (path : PublicPath)

namespace FileEvent

def path : FileEvent → PublicPath
  | added path _ | changed path _ | removed path => path

-- What the handler of the signal finds.
def info : FileEvent → Option KeyInfo
  | added path files | changed path files => Preload.keyInfo path files
  | removed _                             => none

def handle (s : Preload) : FileEvent → Option Preload
  | added path files | changed path files => s.fileLoad path files
  | removed path                          => s.fileRemove path

end FileEvent

end SshAgent
