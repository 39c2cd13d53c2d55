import GcrModel.Gcr.SshAgent.Preload

namespace SshAgent

open GLib
open Transition (Run)

-- What the last event of each file found in it.
abbrev Held := Table PublicPath KeyInfo

-- The preloaded keys, unless freed memory was read, beside what the files hold.
structure Directory where
  preload : Option Preload := some {}
  held    : Held := fun _ => none

namespace Directory

def handle (d : Directory) (e : FileEvent) : Directory where
  preload := d.preload.bind e.handle
  held    := Function.update d.held e.path e.info

def Init (d : Directory) : Prop :=
  d = {}

def Step (d : Directory) (e : FileEvent) (d' : Directory) : Prop :=
  d' = d.handle e

end Directory

namespace Preload

-- What the two tables are for.
structure Tracks (s : Preload) (held : Held) : Prop where
  stored {p i} : s.keysByPublicFilename p = some i → ∃ key, s.keysByPublicKey key = some i
  loadable {key i} : s.keysByPublicKey key = some i → ∃ info p, s.infos i = some info ∧ held p = some info
  found {p info} : held p = some info → ∃ info' q info'', s.lookupByPublicKey info.publicKey = some info' ∧
    info'.filename = q.privatePath ∧ held q = some info'' ∧ info''.publicKey = info.publicKey

-- What holds of the two tables also when keys collide.
structure Inv (s : Preload) (held : Held) : Prop where
  keyed {key i} : s.keysByPublicKey key = some i → ∃ info, s.infos i = some info ∧ info.publicKey = key
  tracked {p} : held p = none ↔ s.keysByPublicFilename p = none
  named {p i info} : s.keysByPublicFilename p = some i → s.infos i = some info → held p = some info
  injective {p q i} : s.keysByPublicFilename p = some i → s.keysByPublicFilename q = some i → p = q
  filename_lt {p i} : s.keysByPublicFilename p = some i → i < s.allocated
  key_lt {key i} : s.keysByPublicKey key = some i → i < s.allocated
  filename {p info} : held p = some info → info.filename = p.privatePath

variable {s s' : Preload} {held : Held} {path : PublicPath} {info : KeyInfo} {files : Files} {key : Bytes} {j : Nat}

theorem keyInfo_filename (h : keyInfo path files = some info) : info.filename = path.privatePath := by
  simp only [keyInfo, Option.bind_eq_some_iff, Option.map_eq_some_iff] at h
  obtain ⟨_, _, _, _, _, _, rfl⟩ := h
  rfl

-- A record is in the table of its own key only.
theorem Inv.key_inj (i : Inv s held) {key' : Bytes} (h : s.keysByPublicKey key = some j)
    (h' : s.keysByPublicKey key' = some j) : key = key' := by
  obtain ⟨info, hi, rfl⟩ := i.keyed h
  obtain ⟨info', hi', rfl⟩ := i.keyed h'
  rw [hi] at hi'
  cases hi'
  rfl

theorem removeKey_eq (h : s.keysByPublicKey key = some j) :
    s.removeKey key = { s with
      infos           := Function.update s.infos j none
      keysByPublicKey := Function.update s.keysByPublicKey key none } := by
  simp only [removeKey, h]

theorem removeKey_none (h : s.keysByPublicKey key = none) : s.removeKey key = s := by
  simp only [removeKey, h]

theorem Inv.removeKey (i : Inv s held) (key : Bytes) : Inv (s.removeKey key) held := by
  cases hk : s.keysByPublicKey key
  case none =>
    rw [removeKey_none hk]
    exact i
  case some j =>
    rw [removeKey_eq hk]
    refine { i with
      keyed  := fun {key' i'} h => ?_
      named  := fun {p i' info} hp h => ?_
      key_lt := fun {key' i'} h => ?_ }
    · obtain ⟨hne, hk'⟩ := Table.erase_eq_some.mp h
      obtain ⟨info, hi, hkey⟩ := i.keyed hk'
      refine ⟨info, Table.erase_eq_some.mpr ⟨?_, hi⟩, hkey⟩
      rintro rfl
      exact hne (i.key_inj hk' hk)
    · exact i.named hp (Table.erase_eq_some.mp h).2
    · exact i.key_lt (Table.erase_eq_some.mp h).2

-- The file is not in the directory any more.
def forget (s : Preload) (path : PublicPath) : Preload :=
  { s with keysByPublicFilename := Function.update s.keysByPublicFilename path none }

theorem Inv.forget (i : Inv s held) (path : PublicPath) :
    Inv (s.forget path) (Function.update held path none) := by
  refine { i with
    tracked     := ?_
    named       := fun hp h => ?_
    injective   := fun hp hq => ?_
    filename_lt := fun hp => ?_
    filename    := fun h => ?_ }
  · simp only [Preload.forget, Table.erase_eq_none, i.tracked, implies_true]
  · obtain ⟨hne, hp⟩ := Table.erase_eq_some.mp hp
    exact Table.erase_eq_some.mpr ⟨hne, i.named hp h⟩
  · exact i.injective (Table.erase_eq_some.mp hp).2 (Table.erase_eq_some.mp hq).2
  · exact i.filename_lt (Table.erase_eq_some.mp hp).2
  · exact i.filename (Table.erase_eq_some.mp h).2

theorem fileRemove_none (h : s.keysByPublicFilename path = none) : s.fileRemove path = some s := by
  simp only [fileRemove, h]

theorem fileRemove_some (h : s.keysByPublicFilename path = some j) :
    s.fileRemove path = (s.infos j).map fun info => (s.forget path).removeKey info.publicKey := by
  simp only [fileRemove, h, forget]

theorem update_none_of_none {t : Table PublicPath KeyInfo} (h : t path = none) : Function.update t path none = t := by
  rw [← h, Function.update_eq_self]

theorem Inv.fileRemove (i : Inv s held) (h : s.fileRemove path = some s') :
    Inv s' (Function.update held path none) ∧ s'.keysByPublicFilename path = none := by
  cases hp : s.keysByPublicFilename path
  case none =>
    rw [fileRemove_none hp] at h
    cases h
    rw [update_none_of_none (i.tracked.mpr hp)]
    exact ⟨i, hp⟩
  case some j =>
    rw [fileRemove_some hp] at h
    obtain ⟨info, _, rfl⟩ := Option.map_eq_some_iff.mp h
    have i' := (i.forget path).removeKey info.publicKey
    exact ⟨i', i'.tracked.mp (Function.update_self ..)⟩

-- A new record under the name of its file.
def store (s : Preload) (path : PublicPath) (info : KeyInfo) : Preload :=
  { s with
    infos                := Function.update s.infos s.allocated (some info)
    allocated            := s.allocated + 1
    keysByPublicFilename := Function.update s.keysByPublicFilename path (some s.allocated) }

theorem Inv.store (i : Inv s held) (hp : s.keysByPublicFilename path = none) (hname : info.filename = path.privatePath) :
    Inv (s.store path info) (Function.update held path (some info)) where
  keyed {key j} h := by
    obtain ⟨info', hi, hkey⟩ := i.keyed h
    exact ⟨info', Table.insert_eq_some.mpr (.inr ⟨(i.key_lt h).ne, hi⟩), hkey⟩
  tracked := by
    simp only [Preload.store, Table.insert_eq_none, i.tracked, implies_true]
  named {p j info'} hp hi := by
    obtain ⟨rfl, rfl⟩ | ⟨hne, hp⟩ := Table.insert_eq_some.mp hp
    · obtain ⟨_, rfl⟩ | ⟨hne, _⟩ := Table.insert_eq_some.mp hi
      · exact Function.update_self ..
      · exact absurd rfl hne
    · obtain ⟨rfl, _⟩ | ⟨_, hi⟩ := Table.insert_eq_some.mp hi
      · exact absurd (i.filename_lt hp) (lt_irrefl _)
      · exact Table.insert_eq_some.mpr (.inr ⟨hne, i.named hp hi⟩)
  injective {p q j} hp hq := by
    obtain ⟨rfl, rfl⟩ | ⟨_, hp⟩ := Table.insert_eq_some.mp hp
    · obtain ⟨rfl, _⟩ | ⟨_, hq⟩ := Table.insert_eq_some.mp hq
      · rfl
      · exact absurd (i.filename_lt hq) (lt_irrefl _)
    · obtain ⟨_, rfl⟩ | ⟨_, hq⟩ := Table.insert_eq_some.mp hq
      · exact absurd (i.filename_lt hp) (lt_irrefl _)
      · exact i.injective hp hq
  filename_lt {p j} hp := by
    obtain ⟨_, rfl⟩ | ⟨_, hp⟩ := Table.insert_eq_some.mp hp
    · exact Nat.lt_succ_self _
    · exact Nat.lt_succ_of_lt (i.filename_lt hp)
  key_lt h := Nat.lt_succ_of_lt (i.key_lt h)
  filename {p info'} h := by
    obtain ⟨rfl, rfl⟩ | ⟨_, h⟩ := Table.insert_eq_some.mp h
    · exact hname
    · exact i.filename h

-- The record of a key is a new one.
theorem Inv.insertKey (i : Inv s held) (hj : s.infos j = some info) (hlt : j < s.allocated) :
    Inv { s with keysByPublicKey := Function.update s.keysByPublicKey info.publicKey (some j) } held := by
  refine { i with
    keyed  := fun h => ?_
    key_lt := fun h => ?_ }
  · obtain ⟨rfl, rfl⟩ | ⟨_, h⟩ := Table.insert_eq_some.mp h
    · exact ⟨info, hj, rfl⟩
    · exact i.keyed h
  · obtain ⟨rfl, rfl⟩ | ⟨_, h⟩ := Table.insert_eq_some.mp h
    · exact hlt
    · exact i.key_lt h

theorem removeKey_infos (h : s.keysByPublicKey key ≠ some j) : (s.removeKey key).infos j = s.infos j := by
  cases hk : s.keysByPublicKey key
  case none => rw [removeKey_none hk]
  case some j' =>
    rw [removeKey_eq hk]
    refine Function.update_of_ne ?_ ..
    rintro rfl
    exact h hk

theorem update_removeKey (v : Option Nat) :
    Function.update (s.removeKey key).keysByPublicKey key v = Function.update s.keysByPublicKey key v := by
  cases hk : s.keysByPublicKey key
  case none   => rw [removeKey_none hk]
  case some j => rw [removeKey_eq hk, Function.update_idem]

theorem addInfo_eq : s.addInfo path info = { (s.store path info).removeKey info.publicKey with
    keysByPublicKey := Function.update ((s.store path info).removeKey info.publicKey).keysByPublicKey info.publicKey
      (some s.allocated) } := by
  rw [update_removeKey]
  rfl

-- The new record is not the one of the key that was there before.
theorem Inv.new_ne (i : Inv s held) : s.keysByPublicKey key ≠ some s.allocated :=
  fun h => absurd (i.key_lt h) (lt_irrefl _)

theorem removeKey_allocated : (s.removeKey key).allocated = s.allocated := by
  rw [removeKey]
  split <;> rfl

theorem Inv.addInfo (i : Inv s held) (hp : s.keysByPublicFilename path = none) (hname : info.filename = path.privatePath) :
    Inv (s.addInfo path info) (Function.update held path (some info)) := by
  have hj : ((s.store path info).removeKey info.publicKey).infos s.allocated = some info :=
    (removeKey_infos (s := s.store path info) i.new_ne).trans (Function.update_self ..)
  have hlt : s.allocated < ((s.store path info).removeKey info.publicKey).allocated := by
    rw [removeKey_allocated]
    exact Nat.lt_succ_self _
  rw [addInfo_eq]
  exact ((i.store hp hname).removeKey _).insertKey hj hlt

-- The record of a file is also that of its key.
theorem Inv.owned (i : Inv s held) (hp : s.keysByPublicFilename path = some j) (hkey : s.keysByPublicKey key = some j) :
    ∃ info, s.infos j = some info ∧ held path = some info ∧ info.publicKey = key := by
  obtain ⟨info, hi, rfl⟩ := i.keyed hkey
  exact ⟨info, hi, i.named hp hi, rfl⟩

theorem Tracks.owned (t : Tracks s held) (i : Inv s held) (h : held path = some info) :
    ∃ j, s.keysByPublicFilename path = some j ∧ s.infos j = some info ∧ s.keysByPublicKey info.publicKey = some j := by
  obtain ⟨j, hj⟩ := Option.ne_none_iff_exists'.mp (mt i.tracked.mpr (h ▸ Option.some_ne_none info))
  obtain ⟨key, hkey⟩ := t.stored hj
  obtain ⟨info', hi, hh, rfl⟩ := i.owned hj hkey
  cases h.symm.trans hh
  exact ⟨j, hj, hi, hkey⟩

-- Then every file is found under its own name.
theorem Inv.tracks (i : Inv s held)
    (hs : ∀ {p j}, s.keysByPublicFilename p = some j → ∃ key, s.keysByPublicKey key = some j)
    (hl : ∀ {key j}, s.keysByPublicKey key = some j → ∃ info p, s.infos j = some info ∧ held p = some info) :
    Tracks s held where
  stored      := hs
  loadable    := hl
  found {p info} h := by
    obtain ⟨j, hj⟩ := Option.ne_none_iff_exists'.mp (mt i.tracked.mpr (h ▸ Option.some_ne_none info))
    obtain ⟨key, hkey⟩ := hs hj
    obtain ⟨info', hi, hh, rfl⟩ := i.owned hj hkey
    cases h.symm.trans hh
    refine ⟨info, p, info, ?_, i.filename h, h, rfl⟩
    rw [lookupByPublicKey, hkey, Option.bind_some, hi]

theorem Tracks.fileRemove (t : Tracks s held) (i : Inv s held) (path : PublicPath) :
    ∃ s', s.fileRemove path = some s' ∧ Tracks s' (Function.update held path none) := by
  cases hp : s.keysByPublicFilename path
  case none =>
    refine ⟨s, fileRemove_none hp, ?_⟩
    rwa [update_none_of_none (i.tracked.mpr hp)]
  case some j =>
    obtain ⟨key, hkey⟩ := t.stored hp
    obtain ⟨info, hi, hh, rfl⟩ := i.owned hp hkey
    refine ⟨_, by rw [fileRemove_some hp, hi, Option.map_some], ?_⟩
    apply ((i.forget path).removeKey _).tracks
    all_goals rw [removeKey_eq (s := s.forget path) hkey]
    · intro p j' h
      obtain ⟨hne, hp'⟩ := Table.erase_eq_some.mp h
      obtain ⟨key', hkey'⟩ := t.stored hp'
      refine ⟨key', Table.erase_eq_some.mpr ⟨?_, hkey'⟩⟩
      rintro rfl
      cases hkey.symm.trans hkey'
      exact hne (i.injective hp' hp)
    · intro key' j' h
      obtain ⟨hne, hkey'⟩ := Table.erase_eq_some.mp h
      obtain ⟨info', p, hi', hp'⟩ := t.loadable hkey'
      refine ⟨info', p, Table.erase_eq_some.mpr ⟨?_, hi'⟩, Table.erase_eq_some.mpr ⟨?_, hp'⟩⟩
      · rintro rfl
        exact hne (i.key_inj hkey' hkey)
      · rintro rfl
        cases hh.symm.trans hp'
        obtain ⟨info', hi'', rfl⟩ := i.keyed hkey'
        cases hi'.symm.trans hi''
        exact hne rfl

theorem addInfo_filenames :
    (s.addInfo path info).keysByPublicFilename = Function.update s.keysByPublicFilename path (some s.allocated) := by
  rw [addInfo, replaceKey, removeKey]
  split <;> rfl

theorem addInfo_infos (h : s.keysByPublicKey info.publicKey ≠ some j) :
    (s.addInfo path info).infos j = Function.update s.infos s.allocated (some info) j :=
  removeKey_infos (s := s.store path info) h

theorem Tracks.addInfo (t : Tracks s held) (i : Inv s held) (hp : s.keysByPublicFilename path = none)
    (hname : info.filename = path.privatePath)
    (hd : ∀ p info', p ≠ path → held p = some info' → info'.publicKey ≠ info.publicKey) :
    Tracks (s.addInfo path info) (Function.update held path (some info)) := by
  apply (i.addInfo hp hname).tracks
  · intro p j h
    rw [addInfo_filenames] at h
    obtain ⟨rfl, rfl⟩ | ⟨hne, hp⟩ := Table.insert_eq_some.mp h
    · exact ⟨info.publicKey, Function.update_self ..⟩
    · obtain ⟨key, hkey⟩ := t.stored hp
      obtain ⟨info', _, hh, rfl⟩ := i.owned hp hkey
      exact ⟨_, Table.insert_eq_some.mpr (.inr ⟨hd p info' hne hh, hkey⟩)⟩
  · intro key j h
    obtain ⟨rfl, rfl⟩ | ⟨hne, hkey⟩ := Table.insert_eq_some.mp h
    · refine ⟨info, path, ?_, Function.update_self ..⟩
      rw [addInfo_infos i.new_ne, Function.update_self]
    · obtain ⟨info', p, hi, hh⟩ := t.loadable hkey
      refine ⟨info', p, ?_, Table.insert_eq_some.mpr (.inr ⟨?_, hh⟩)⟩
      · rw [addInfo_infos fun h => hne (i.key_inj hkey h), Function.update_of_ne (i.key_lt hkey).ne, hi]
      · rintro rfl
        cases hh.symm.trans (i.tracked.mpr hp)

-- The record of the other file with the key is freed, while its file still refers to it.
theorem Tracks.not_addInfo (t : Tracks s held) (i : Inv s held) {p : PublicPath} {info' : KeyInfo} (hne : p ≠ path)
    (hh : held p = some info') (heq : info'.publicKey = info.publicKey) :
    ¬∃ held', Tracks (s.addInfo path info) held' := by
  rintro ⟨held', t'⟩
  obtain ⟨j, hp, hi, hkey⟩ := t.owned i hh
  obtain ⟨key, hkey'⟩ := t'.stored (p := p) (i := j) (by rw [addInfo_filenames, Function.update_of_ne hne, hp])
  obtain ⟨_, rfl⟩ | ⟨hkne, hkey'⟩ := Table.insert_eq_some.mp hkey'
  · exact i.new_ne hkey
  · exact hkne (heq ▸ i.key_inj hkey' hkey)

end Preload

-- What a handler does with the tables.
theorem FileEvent.handle_none {e : FileEvent} {s : Preload} (h : e.info = none) : e.handle s = s.fileRemove e.path := by
  cases e
  case added | changed =>
    rw [FileEvent.info] at h
    simp only [FileEvent.handle, FileEvent.path, Preload.fileLoad, h, Option.map_id']
  case removed => rfl

theorem FileEvent.handle_some {e : FileEvent} {s : Preload} {info : KeyInfo} (h : e.info = some info) :
    e.handle s = (s.fileRemove e.path).map (·.addInfo e.path info) := by
  cases e
  case added | changed =>
    rw [FileEvent.info] at h
    simp only [FileEvent.handle, FileEvent.path, Preload.fileLoad, h]
  case removed => cases h

theorem FileEvent.info_filename {e : FileEvent} {info : KeyInfo} (h : e.info = some info) :
    info.filename = e.path.privatePath := by
  cases e
  case added | changed => exact Preload.keyInfo_filename h
  case removed         => cases h

namespace Directory

variable {d d' : Directory} {e : FileEvent} {ts : List (Directory × FileEvent × Directory)}

def Inv (d : Directory) : Prop :=
  ∀ s, d.preload = some s → s.Inv d.held

-- No freed memory was read and the tables are right.
def Tracks (d : Directory) : Prop :=
  ∃ s, d.preload = some s ∧ s.Tracks d.held

-- The event does not find the key of another file.
def Distinct (d : Directory) (e : FileEvent) : Prop :=
  ∀ info, e.info = some info → ∀ p info', p ≠ e.path → d.held p = some info' → info'.publicKey ≠ info.publicKey

theorem handle_held : (d.handle e).held e.path = e.info := by
  simp only [handle, Function.update_self]

theorem Init.inv (h : Init d) : Inv d := by
  cases h
  rintro s ⟨⟩
  exact {
    keyed       := fun h => by cases h
    tracked     := by simp
    named       := fun h => by cases h
    injective   := fun h => by cases h
    filename_lt := fun h => by cases h
    key_lt      := fun h => by cases h
    filename    := fun h => by cases h }

theorem Init.tracks (h : Init d) : Tracks d := by
  cases h
  refine ⟨_, rfl, ?_⟩
  exact {
    stored   := fun h => by cases h
    loadable := fun h => by cases h
    found    := fun h => by cases h }

theorem update_removed {t : Table PublicPath KeyInfo} {p : PublicPath} (v : Option KeyInfo) :
    Function.update (Function.update t p none) p v = Function.update t p v :=
  Function.update_idem ..

theorem Step.inv (i : Inv d) (h : Step d e d') : Inv d' := by
  cases h
  intro s' h
  obtain ⟨s, hs, h⟩ := Option.bind_eq_some_iff.mp h
  cases hi : e.info
  case none =>
    rw [FileEvent.handle_none hi] at h
    rw [handle, hi]
    exact ((i s hs).fileRemove h).1
  case some info =>
    rw [FileEvent.handle_some hi] at h
    obtain ⟨s₁, h₁, rfl⟩ := Option.map_eq_some_iff.mp h
    obtain ⟨i₁, hp⟩ := (i s hs).fileRemove h₁
    rw [handle, hi, ← update_removed]
    exact i₁.addInfo hp (FileEvent.info_filename hi)

theorem Step.tracks_iff (i : Inv d) (t : Tracks d) (h : Step d e d') : Tracks d' ↔ Distinct d e := by
  cases h
  obtain ⟨s, hs, t⟩ := t
  obtain ⟨s₁, h, t₁⟩ := t.fileRemove (i s hs) e.path
  obtain ⟨i₁, hp⟩ := (i s hs).fileRemove h
  cases hi : e.info
  case none =>
    rw [Tracks, handle, hs, hi, Option.bind_some, FileEvent.handle_none hi]
    exact iff_of_true ⟨s₁, h, t₁⟩ fun _ hinfo => by cases hi.symm.trans hinfo
  case some info =>
    have hheld : ∀ {p}, p ≠ e.path → Function.update d.held e.path none p = d.held p :=
      fun hne => Function.update_of_ne hne ..
    rw [Tracks, handle, hs, hi, Option.bind_some, FileEvent.handle_some hi, h, Option.map_some, ← update_removed]
    constructor
    · rintro ⟨s', hs', t'⟩ info' hinfo p info'' hne hh heq
      cases hs'
      cases hi.symm.trans hinfo
      exact t₁.not_addInfo i₁ hne ((hheld hne).trans hh) heq ⟨_, t'⟩
    · intro hd
      refine ⟨_, rfl, t₁.addInfo i₁ hp (FileEvent.info_filename hi) fun p info' hne hh => ?_⟩
      exact hd info hi p info' hne ((hheld hne).symm.trans hh)

theorem forall_tracks_iff (r : Run Init Step ts d) :
    (∀ t ∈ ts, Tracks t.2.2) ↔ ∀ t ∈ ts, Distinct t.1 t.2.1 :=
  r.forall_iff (fun _ => Init.inv) (fun _ _ _ => Step.inv) (fun _ => Init.tracks) fun _ _ _ => Step.tracks_iff

-- Two files with the same key: `k AAAAAWsA`.
def sameKey (_ : Bytes) : Option Bytes :=
  some [107, 32, 65, 65, 65, 65, 65, 87, 115, 65]

def pathA : PublicPath :=
  ⟨[97, 46, 112, 117, 98], by decide⟩

def pathB : PublicPath :=
  ⟨[98, 46, 112, 117, 98], by decide⟩

theorem keyInfo_sameKey (path : PublicPath) :
    Preload.keyInfo path sameKey = some ⟨path.privatePath, [0, 0, 0, 1, 107, 0], []⟩ := by
  have hparse : parsePublicKey [107, 32, 65, 65, 65, 65, 65, 87, 115, 65] = some ([0, 0, 0, 1, 107, 0], []) := by
    rw [parsePublicKey, keyLine]
    decide
  simp only [Preload.keyInfo, sameKey, Option.bind_some, hparse, Option.map_some]

theorem not_distinct_sameKey : ¬Distinct (handle {} (.added pathA sameKey)) (.added pathB sameKey) := by
  intro hd
  have hA : (handle {} (.added pathA sameKey)).held pathA = Preload.keyInfo pathA sameKey :=
    handle_held
  exact hd _ (keyInfo_sameKey pathB) pathA _ (by decide) (hA.trans (keyInfo_sameKey pathA)) rfl

theorem run_sameKey : ∃ ts, Run Init Step ts (handle {} (.added pathA sameKey)) :=
  ⟨_, .step (.start rfl) rfl⟩

-- The second file frees the record that the table of the files has for the first one.
theorem not_tracks_sameKey :
    ¬∀ ts d, Run Init Step ts d → ∀ t ∈ ts, Tracks t.2.2 := by
  intro hall
  obtain ⟨ts, r⟩ := run_sameKey
  have i : Inv (handle {} (.added pathA sameKey)) := r.invariant (fun _ => Init.inv) fun _ _ _ => Step.inv
  have hsecond : Tracks (handle (handle {} (.added pathA sameKey)) (.added pathB sameKey)) :=
    hall _ _ (r.step rfl) _ List.mem_cons_self
  have hfirst : Tracks (handle {} (.added pathA sameKey)) := by
    refine (Step.tracks_iff (Init.inv rfl) (Init.tracks rfl) rfl).mpr fun info _ p info' _ hp => ?_
    cases hp
  exact not_distinct_sameKey ((Step.tracks_iff i hfirst rfl).mp hsecond)

def otherKey (_ : Bytes) : Option Bytes :=
  some [108, 32, 65, 65, 65, 65, 65, 87, 119, 65]

-- Two files, of which the second is rewritten and the first is removed.
def twoFiles : List FileEvent :=
  [.added pathA sameKey, .added pathB otherKey, .changed pathB sameKey, .removed pathA]

theorem forall_tracks_iff_twoFiles :
    ∃ ts, Run Init Step ts (twoFiles.foldl handle {}) ∧
      ((∀ t ∈ ts, Tracks t.2.2) ↔ ∀ t ∈ ts, Distinct t.1 t.2.1) := by
  have r : Run Init Step _ (twoFiles.foldl handle {}) := .step (.step (.step (.step (.start rfl) rfl) rfl) rfl) rfl
  exact ⟨_, r, forall_tracks_iff r⟩

end Directory

end SshAgent
