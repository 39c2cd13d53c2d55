import Mathlib.Data.List.AList
import GcrModel.GLib.Strings
import GcrModel.Library.Table
import GcrModel.Library.Transition

-- egg-file-tracker.c: the files of a directory and what happened to them since the last look.
namespace FileTracker

open GLib

structure Stat where
  mode  : UInt32
  mtime : Int64
  deriving DecidableEq

def sIFMT : UInt32 :=
  0o170000

def sIFDIR : UInt32 :=
  0o040000

def Stat.isDirectory (sb : Stat) : Bool :=
  sb.mode &&& sIFMT = sIFDIR

-- What the file system tells during a refresh. There is no answer when a call fails.
structure Snapshot where
  mtime : Option Int64
  names : Option (List Bytes)
  stat  : Bytes → Option Stat
  nodup {l} : names = some l → l.Nodup

inductive Signal
  | fileAdded (path : Bytes)
  | fileRemoved (path : Bytes)
  | fileChanged (path : Bytes)
  deriving DecidableEq

def Signal.path : Signal → Bytes
  | fileAdded path | fileRemoved path | fileChanged path => path

abbrev FileTable := AList fun _ : Bytes => Int64

-- The patterns are what they tell of a file name.
structure Specification where
  includeSpec   : Option (Bytes → Bool) := none
  excludeSpec   : Option (Bytes → Bool) := none
  directoryPath : Bytes

structure Tracker where
  directoryMtime : Int64 := 0
  files          : FileTable := ∅

-- `GPOINTER_TO_UINT`, whose value goes into a time again.
def gpointerToUint (value : Int64) : Int64 :=
  value.toUInt64.toUInt32.toUInt64.toInt64

-- `g_build_filename` for a name that has no separator.
def buildFilename (directory filename : Bytes) : Bytes :=
  let leading := directory.takeWhile (· = 47)
  let body := ((directory.dropWhile (· = 47)).reverse.dropWhile (· = 47)).reverse
  leading ++ if body = [] then filename else body ++ 47 :: filename

namespace Specification

variable (spec : Specification)

def wanted (filename : Bytes) : Bool :=
  filename.head? ≠ some 46 ∧ spec.includeSpec.all (· filename) ∧ ¬spec.excludeSpec.any (· filename)

def path (filename : Bytes) : Bytes :=
  buildFilename spec.directoryPath filename

end Specification

-- The tracker in a refresh, the paths that were not seen yet and what was signalled.
structure Update where
  tracker : Tracker
  checks  : FileTable
  signals : List Signal := []

namespace Update

variable (spec : Specification) (d : Snapshot) (forceAll : Bool) (u : Update)

def insert (path : Bytes) (mtime : Int64) (signal : Signal) : Update :=
  { u with
    tracker.files := u.tracker.files.insert path mtime
    signals       := u.signals ++ [signal] }

def uncheck (path : Bytes) : Update :=
  { u with checks := u.checks.erase path }

def removeFiles (path : Bytes) : Update :=
  { u with
    tracker.files := u.tracker.files.erase path
    signals       := u.signals ++ [.fileRemoved path] }

-- There is no result when a path that is not in the table gets there.
def updateFile (path : Bytes) : Option (Update × Bool) :=
  match d.stat path with
  | none    => some (u, false)
  | some sb =>
    (u.tracker.files.lookup path).map fun value =>
      -- See if it has actually changed
      if forceAll ∨ gpointerToUint value ≠ sb.mtime then (u.insert path sb.mtime (.fileChanged path), true)
      else (u, true)

def updateEachFile (path : Bytes) : Option Update :=
  (u.updateFile d false path).map fun (u, found) => if found then u.uncheck path else u

def listFile (filename : Bytes) : Option Update :=
  if spec.wanted filename then
    let file := spec.path filename
    if file ∈ u.checks then ((u.uncheck file).updateFile d forceAll file).map Prod.fst
    else
      -- If we hadn't yet seen this, then add it
      match d.stat file with
      | none    => some u
      | some sb =>
        -- We don't do directories
        if sb.mode &&& sIFDIR = 0 then some (u.insert file sb.mtime (.fileAdded file)) else some u
  else some u

def updateDirectory : Option Update :=
  match d.mtime with
  | none       => some u
  | some mtime =>
    -- See if it was updated since last seen or not
    if ¬forceAll ∧ u.tracker.directoryMtime = mtime then
      u.tracker.files.keys.foldlM (fun u => u.updateEachFile d) u
    else
      let u := { u with tracker.directoryMtime := mtime }
      match d.names with
      | none       => some u
      | some names => names.foldlM (fun u => u.listFile spec d forceAll) u

end Update

-- What is signalled and the tracker afterwards.
def Tracker.refresh (spec : Specification) (d : Snapshot) (forceAll : Bool) (s : Tracker) :
    Option (List Signal × Tracker) :=
  (Update.updateDirectory spec d forceAll { tracker := s, checks := s.files }).map fun u =>
    -- Find any keyrings whose paths we didn't see
    let u := u.checks.keys.foldl Update.removeFiles u
    (u.signals, u.tracker)

end FileTracker
