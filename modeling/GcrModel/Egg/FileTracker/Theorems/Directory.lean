import GcrModel.Egg.FileTracker.Theorems.Refresh

namespace FileTracker

open GLib
open Transition (Run)

def Snapshot.Readable (d : Snapshot) : Prop :=
  d.mtime ≠ none ∧ d.names ≠ none

-- The non-hidden, non-directory entries that match, with their times.
def Snapshot.files (spec : Specification) (d : Snapshot) (p : Bytes) : Option Int64 :=
  if d.lists spec p then
    (d.stat p).bind fun sb => if sb.isDirectory then none else some sb.mtime
  else none

-- What is to be signalled of a path, from the time seen last and the one now.
def difference (forceAll : Bool) (p : Bytes) : Option Int64 → Option Int64 → List Signal
  | none, none       => []
  | none, some _     => [.fileAdded p]
  | some _, none     => [.fileRemoved p]
  | some old, some t => if forceAll ∨ old ≠ t then [.fileChanged p] else []

-- The tracker between refreshes, what the last one signalled and the times of the tracked files that it saw.
structure Watch where
  tracker : Tracker := {}
  signals : List Signal := []
  seen    : Bytes → Option Int64 := fun _ => none

structure Refresh where
  forceAll : Bool
  snapshot : Snapshot

namespace Watch

def Init (w : Watch) : Prop :=
  w = {}

variable (spec : Specification) (w : Watch) (e : Refresh) (p : Bytes)

def step : Option Watch :=
  (w.tracker.refresh spec e.snapshot e.forceAll).map fun (signals, tracker) =>
    { tracker, signals
      seen := fun p => (tracker.files.lookup p).bind fun _ => ((e.snapshot.stat p).map Stat.mtime).or (w.seen p) }

def Step (w' : Watch) : Prop :=
  w.step spec e = some w'

-- After a refresh of a readable directory, the tracked files are those that are there and the signals are
-- what the difference is.
def Follows (w' : Watch) : Prop :=
  e.snapshot.Readable → ∀ p,
    ((w'.tracker.files.lookup p).isSome ↔ (e.snapshot.files spec p).isSome) ∧
    w'.signals.filter (·.path = p) = difference e.forceAll p (w.seen p) (e.snapshot.files spec p)

-- The conditions for that, which are all about what is there before the refresh.
@[mk_iff]
structure Regular : Prop where
  -- When the listing is left out there is no file that is not tracked yet.
  complete : w.tracker.Skips e.snapshot e.forceAll → w.tracker.files.lookup p = none → e.snapshot.files spec p = none
  -- The bit that is looked at tells new directories from new files.
  plain {sb} : ¬w.tracker.Skips e.snapshot e.forceAll → w.tracker.files.lookup p = none →
    p ∈ e.snapshot.listing spec → e.snapshot.stat p = some sb → (sb.mode &&& sIFDIR = 0 ↔ sb.isDirectory = false)
  -- A tracked path that is still there is still a file.
  kept : w.tracker.files.lookup p ≠ none →
    (if w.tracker.Skips e.snapshot e.forceAll then e.snapshot.stat p ≠ none else p ∈ e.snapshot.listing spec) →
    e.snapshot.files spec p ≠ none
  -- The low half of the time in the table tells whether the time is another one.
  times {value mtime} : e.forceAll = false → w.tracker.files.lookup p = some value →
    e.snapshot.files spec p = some mtime → (gpointerToUint value = mtime ↔ w.seen p = some mtime)

-- The paths with a time are the tracked ones.
def Inv : Prop :=
  ∀ p, w.seen p = none ↔ w.tracker.files.lookup p = none

variable {spec w e p} {w' : Watch} {ts : List (Watch × Refresh × Watch)}

theorem exists_step (spec : Specification) (w : Watch) (e : Refresh) : ∃ w', w.Step spec e w' := by
  obtain ⟨signals, s', h, _⟩ := Tracker.refresh_eq spec e.snapshot e.forceAll w.tracker
  exact ⟨_, by rw [Step, step, h, Option.map_some]⟩

theorem Step.fate (h : Step spec w e w') (p : Bytes) :
    (w'.tracker.files.lookup p, w'.signals.filter (·.path = p)) = w.tracker.fate spec e.snapshot e.forceAll p := by
  obtain ⟨signals, s', hr, hfate⟩ := Tracker.refresh_eq spec e.snapshot e.forceAll w.tracker
  rw [Step, step, hr, Option.map_some] at h
  cases h
  exact hfate p

theorem Step.seen (h : Step spec w e w') (p : Bytes) :
    w'.seen p = (w'.tracker.files.lookup p).bind fun _ => ((e.snapshot.stat p).map Stat.mtime).or (w.seen p) := by
  obtain ⟨signals, s', hr, _⟩ := Tracker.refresh_eq spec e.snapshot e.forceAll w.tracker
  rw [Step, step, hr, Option.map_some] at h
  cases h
  rfl

theorem Init.inv (h : Init w) : Inv w := by
  cases h
  intro p
  simp

theorem Step.inv (i : Inv w) (h : Step spec w e w') : Inv w' := by
  intro p
  have hp := congrArg Prod.fst (h.fate p)
  rw [h.seen p]
  cases hv' : w'.tracker.files.lookup p
  case none => simp
  case some t =>
    rw [hv'] at hp
    have hseen : ¬((e.snapshot.stat p).map Stat.mtime = none ∧ w.seen p = none) := by
      rintro ⟨hs, hw⟩
      rw [Tracker.fate, (i p).mp hw, Option.map_eq_none_iff.mp hs] at hp
      cases hp
    rw [Option.bind_some, Option.or_eq_none_iff]
    exact iff_of_false hseen (Option.some_ne_none t)

theorem follows_iff_at (i : Inv w) :
    (((w.tracker.fate spec e.snapshot e.forceAll p).1.isSome ↔ (e.snapshot.files spec p).isSome) ∧
      (w.tracker.fate spec e.snapshot e.forceAll p).2 =
        difference e.forceAll p (w.seen p) (e.snapshot.files spec p)) ↔ Regular spec w e p := by
  have hi := i p
  rw [regular_iff]
  cases hv : w.tracker.files.lookup p <;> cases hs : e.snapshot.stat p <;>
    simp only [Snapshot.files, Tracker.fate, Snapshot.lists_iff, hv, hs]
  case none.none =>
    rw [hi.mpr hv]
    simp [difference]
  case none.some sb =>
    rw [hi.mpr hv]
    grind [difference]
  case some.none value =>
    obtain ⟨old, hold⟩ := Option.ne_none_iff_exists'.mp (mt hi.mp (hv ▸ Option.some_ne_none value))
    rw [hold]
    grind [difference]
  case some.some value sb =>
    obtain ⟨old, hold⟩ := Option.ne_none_iff_exists'.mp (mt hi.mp (hv ▸ Option.some_ne_none value))
    rw [hold]
    grind [difference]

theorem follows_iff (i : Inv w) (h : Step spec w e w') :
    Follows spec w e w' ↔ (e.snapshot.Readable → ∀ p, Regular spec w e p) := by
  refine imp_congr_right fun _ => forall_congr' fun p => ?_
  have hp := h.fate p
  rw [← follows_iff_at i, ← hp]

theorem forall_follows_iff (r : Run Init (Step spec) ts w) :
    (∀ t ∈ ts, Follows spec t.1 t.2.1 t.2.2) ↔
      ∀ t ∈ ts, t.2.1.snapshot.Readable → ∀ p, Regular spec t.1 t.2.1 p :=
  r.forall_congr (fun _ => Init.inv) (fun _ _ _ => Step.inv) fun _ _ _ => follows_iff

-- The time of a directory is another one when names were added or removed.
def TellsChanges (ts : List (Watch × Refresh × Watch)) : Prop :=
  ∀ t ∈ ts, ∀ t' ∈ ts, ∀ l l', t.2.1.snapshot.mtime = t'.2.1.snapshot.mtime →
    t.2.1.snapshot.names = some l → t'.2.1.snapshot.names = some l' → ∀ name, name ∈ l ↔ name ∈ l'

-- The directory `d` with the file `a`, and how it is gone.
def plainSpec : Specification where
  directoryPath := [100]

def oneFile : Refresh where
  forceAll := false
  snapshot := {
    mtime := some 5
    names := some [[97]]
    stat  := fun _ => some ⟨0o100644, 7⟩
    nodup := by rintro l ⟨⟩; simp }

def missing : Refresh where
  forceAll := false
  snapshot := {
    mtime := none
    names := none
    stat  := fun _ => none
    nodup := by rintro l ⟨⟩ }

theorem missing_state :
    ((({} : Watch).step plainSpec oneFile).bind (·.step plainSpec missing)).map
      (fun w => (w.tracker.directoryMtime, w.tracker.files.lookup [100, 47, 97])) = some (5, none) := by
  decide

theorem oneFile_files : oneFile.snapshot.files plainSpec [100, 47, 97] = some 7 := by
  decide

-- The time of the directory is still remembered after the directory was gone.
theorem run_missing : ∃ w₁ w₂ w₃, Run Init (Step plainSpec)
    [(w₂, oneFile, w₃), (w₁, missing, w₂), ({}, oneFile, w₁)] w₃ ∧ ¬Regular plainSpec w₂ oneFile [100, 47, 97] := by
  obtain ⟨w₁, h₁⟩ := exists_step plainSpec {} oneFile
  obtain ⟨w₂, h₂⟩ := exists_step plainSpec w₁ missing
  obtain ⟨w₃, h₃⟩ := exists_step plainSpec w₂ oneFile
  have r : Run Init (Step plainSpec) [(w₂, oneFile, w₃), (w₁, missing, w₂), ({}, oneFile, w₁)] w₃ :=
    .step (.step (.step (.start rfl) h₁) h₂) h₃
  refine ⟨w₁, w₂, w₃, r, fun r => ?_⟩
  have hstate := missing_state
  rw [Step] at h₁ h₂
  rw [h₁, Option.bind_some, h₂, Option.map_some] at hstate
  obtain ⟨hm, hf⟩ := Prod.mk.inj (Option.some.inj hstate)
  have hnone := r.complete ⟨rfl, by rw [hm]; rfl⟩ hf
  rw [oneFile_files] at hnone
  cases hnone

theorem not_forall_follows : ¬∀ spec ts w, Run Init (Step spec) ts w → TellsChanges ts →
    ∀ t ∈ ts, Follows spec t.1 t.2.1 t.2.2 := by
  intro hall
  obtain ⟨w₁, w₂, w₃, r, hr⟩ := run_missing
  have htells : TellsChanges [(w₂, oneFile, w₃), (w₁, missing, w₂), ({}, oneFile, w₁)] := by
    have hnames : ∀ t ∈ [(w₂, oneFile, w₃), (w₁, missing, w₂), (({} : Watch), oneFile, w₁)], ∀ l,
        t.2.1.snapshot.names = some l → l = [[97]] := by
      simp [oneFile, missing]
    intro t ht t' ht' l l' _ hl hl' name
    rw [hnames t ht l hl, hnames t' ht' l' hl']
  have hf := hall _ _ _ r htells (w₂, oneFile, w₃) List.mem_cons_self
  cases r
  case step h r =>
    have i : Inv w₂ := r.invariant (fun _ => Init.inv) fun _ _ _ => Step.inv
    exact hr ((follows_iff i h).mp hf ⟨by simp [oneFile], by simp [oneFile]⟩ _)

theorem forall_follows_iff_missing : ∃ ts w, Run Init (Step plainSpec) ts w ∧
    ((∀ t ∈ ts, Follows plainSpec t.1 t.2.1 t.2.2) ↔
      ∀ t ∈ ts, t.2.1.snapshot.Readable → ∀ p, Regular plainSpec t.1 t.2.1 p) := by
  obtain ⟨w₁, w₂, w₃, r, _⟩ := run_missing
  exact ⟨_, _, r, forall_follows_iff r⟩

end Watch

end FileTracker
