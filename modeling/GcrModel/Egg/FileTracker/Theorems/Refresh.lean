import GcrModel.Egg.FileTracker.FileTracker

namespace FileTracker

open GLib

variable {spec : Specification} {d : Snapshot} {forceAll : Bool} {s : Tracker} {u : Update} {p q filename : Bytes}

theorem buildFilename_injective (directory : Bytes) : Function.Injective (buildFilename directory) := by
  intro a b h
  simp only [buildFilename, List.append_cancel_left_eq] at h
  split at h
  · exact h
  · simpa using h

-- What a refresh knows about one path.
structure Cell where
  value   : Option Int64
  unseen  : Bool
  signals : List Signal

namespace Update

def cell (u : Update) (p : Bytes) : Cell where
  value   := u.tracker.files.lookup p
  unseen  := (u.checks.lookup p).isSome
  signals := u.signals.filter (·.path = p)

theorem cell_insert (u : Update) (mtime : Int64) {signal : Signal} (h : signal.path = p) :
    (u.insert p mtime signal).cell p =
      { u.cell p with value := some mtime, signals := (u.cell p).signals ++ [signal] } := by
  simp [cell, insert, List.filter_append, h]

theorem cell_insert_ne (u : Update) (mtime : Int64) {signal : Signal} (h : signal.path = p) (hne : q ≠ p) :
    (u.insert p mtime signal).cell q = u.cell q := by
  have hs : signal.path ≠ q := h ▸ hne.symm
  simp [cell, insert, List.filter_append, AList.lookup_insert_ne hne, hs]

theorem cell_uncheck (u : Update) (p : Bytes) : (u.uncheck p).cell p = { u.cell p with unseen := false } := by
  simp [cell, uncheck]

theorem cell_uncheck_ne (u : Update) (hne : q ≠ p) : (u.uncheck p).cell q = u.cell q := by
  simp [cell, uncheck, AList.lookup_erase_ne hne]

theorem cell_removeFiles (u : Update) (p : Bytes) :
    (u.removeFiles p).cell p =
      { u.cell p with value := none, signals := (u.cell p).signals ++ [.fileRemoved p] } := by
  simp [cell, removeFiles, List.filter_append, Signal.path]

theorem cell_removeFiles_ne (u : Update) (hne : q ≠ p) : (u.removeFiles p).cell q = u.cell q := by
  have hs : p ≠ q := hne.symm
  simp [cell, removeFiles, List.filter_append, Signal.path, AList.lookup_erase_ne hne, hs]

end Update

namespace Cell

variable (d : Snapshot) (forceAll : Bool) (p : Bytes) (c : Cell)

-- `updateFile`
def updated : Cell :=
  match d.stat p, c.value with
  | some sb, some value =>
    if forceAll ∨ gpointerToUint value ≠ sb.mtime then
      { c with value := some sb.mtime, signals := c.signals ++ [.fileChanged p] }
    else c
  | _, _                => c

-- `updateEachFile`
def visited : Cell :=
  { c.updated d false p with unseen := c.unseen && (d.stat p).isNone }

-- `listFile`
def listed : Cell :=
  if c.unseen then { c with unseen := false }.updated d forceAll p
  else match d.stat p with
    | none    => c
    | some sb =>
      if sb.mode &&& sIFDIR = 0 then
        { c with value := some sb.mtime, signals := c.signals ++ [.fileAdded p] }
      else c

-- `removeFiles`
def removed : Cell :=
  { c with value := none, signals := c.signals ++ [.fileRemoved p] }

theorem updated_unseen : (c.updated d forceAll p).unseen = c.unseen := by
  rw [updated]
  split
  · split <;> rfl
  · rfl

end Cell

namespace Update

-- Only the cell of the path is another one.
def Changes (u : Update) (p : Bytes) (c : Cell) (u' : Update) : Prop :=
  u'.cell p = c ∧ ∀ q, q ≠ p → u'.cell q = u.cell q

theorem changes_insert (u : Update) (mtime : Int64) {signal : Signal} (h : signal.path = p) :
    Changes u p { u.cell p with value := some mtime, signals := (u.cell p).signals ++ [signal] }
      (u.insert p mtime signal) :=
  ⟨cell_insert u mtime h, fun _ hne => cell_insert_ne u mtime h hne⟩

theorem changes_uncheck (u : Update) (p : Bytes) : Changes u p { u.cell p with unseen := false } (u.uncheck p) :=
  ⟨cell_uncheck u p, fun _ hne => cell_uncheck_ne u hne⟩

theorem Changes.refl (u : Update) (p : Bytes) : Changes u p (u.cell p) u :=
  ⟨rfl, fun _ _ => rfl⟩

theorem Changes.trans {u₁ u₂ : Update} {c₁ c₂ : Cell} (h₁ : Changes u p c₁ u₁) (h₂ : Changes u₁ p c₂ u₂) :
    Changes u p c₂ u₂ :=
  ⟨h₂.1, fun q hne => (h₂.2 q hne).trans (h₁.2 q hne)⟩

-- The assertion holds for the paths that are in the table.
theorem updateFile_eq (d : Snapshot) (forceAll : Bool) (h : (u.cell p).value ≠ none) :
    ∃ u', u.updateFile d forceAll p = some (u', (d.stat p).isSome) ∧
      Changes u p ((u.cell p).updated d forceAll p) u' := by
  obtain ⟨value, hv⟩ := Option.ne_none_iff_exists'.mp h
  have hl : u.tracker.files.lookup p = some value := hv
  cases hs : d.stat p
  case none =>
    refine ⟨u, by rw [updateFile, hs, Option.isSome_none], ?_⟩
    rw [Cell.updated, hs]
    exact .refl u p
  case some sb =>
    rw [Cell.updated, hs, hv, updateFile, hs, hl]
    simp only [Option.map_some]
    split
    · exact ⟨_, rfl, changes_insert u sb.mtime rfl⟩
    · exact ⟨_, rfl, .refl u p⟩

theorem updateEachFile_eq (d : Snapshot) (h : (u.cell p).value ≠ none) :
    ∃ u', u.updateEachFile d p = some u' ∧ Changes u p ((u.cell p).visited d p) u' := by
  obtain ⟨u', hu', hc⟩ := updateFile_eq d false h
  rw [updateEachFile, hu', Option.map_some]
  refine ⟨_, rfl, ?_⟩
  have hunseen : (u'.cell p).unseen = (u.cell p).unseen := by rw [hc.1, Cell.updated_unseen]
  cases hs : d.stat p
  case none =>
    refine ⟨?_, hc.2⟩
    simp only [Option.isSome_none, Bool.false_eq_true, if_false, Cell.visited, hs, Option.isNone_none, Bool.and_true]
    rw [hc.1, ← Cell.updated_unseen d false p]
  case some sb =>
    have hu := hc.trans (changes_uncheck u' p)
    simp only [Option.isSome_some, if_true, Cell.visited, hs, Option.isNone_some, Bool.and_false]
    rwa [hc.1] at hu

theorem listFile_eq (spec : Specification) (d : Snapshot) (forceAll : Bool)
    (h : (u.cell (spec.path filename)).unseen = true → (u.cell (spec.path filename)).value ≠ none) :
    ∃ u', u.listFile spec d forceAll filename = some u' ∧
      Changes u (spec.path filename)
        (if spec.wanted filename then (u.cell (spec.path filename)).listed d forceAll (spec.path filename)
          else u.cell (spec.path filename)) u' := by
  rw [listFile]
  split
  case isFalse hw => exact ⟨u, rfl, .refl u _⟩
  case isTrue hw =>
    simp only [← AList.lookup_isSome]
    split
    case isTrue hc =>
      have hc : (u.cell (spec.path filename)).unseen = true := hc
      have hu := changes_uncheck u (spec.path filename)
      obtain ⟨u', hu', hc'⟩ := updateFile_eq (u := u.uncheck (spec.path filename)) (p := spec.path filename)
        d forceAll (by rw [hu.1]; exact h hc)
      rw [hu']
      refine ⟨u', rfl, ?_⟩
      rw [Cell.listed, if_pos hc, ← hu.1]
      exact hu.trans hc'
    case isFalse hc =>
      have hc : ¬(u.cell (spec.path filename)).unseen = true := hc
      rw [Cell.listed, if_neg hc]
      cases d.stat (spec.path filename)
      case none => exact ⟨u, rfl, .refl u _⟩
      case some sb =>
        simp only []
        split
        · exact ⟨_, rfl, changes_insert u sb.mtime rfl⟩
        · exact ⟨u, rfl, .refl u _⟩

theorem cell_value : (u.cell p).value ≠ none ↔ p ∈ u.tracker.files.keys := by
  rw [← AList.mem_keys, ← AList.lookup_isSome, Option.isSome_iff_ne_none]
  rfl

theorem cell_unseen : (u.cell p).unseen = true ↔ p ∈ u.checks.keys := by
  rw [← AList.mem_keys, ← AList.lookup_isSome]
  rfl

theorem foldlM_updateEachFile (d : Snapshot) (u : Update) :
    ∃ u', u.tracker.files.keys.foldlM (fun u => u.updateEachFile d) u = some u' ∧
      (∀ p, (u.cell p).value ≠ none → u'.cell p = (u.cell p).visited d p) ∧
      ∀ p, (u.cell p).value = none → u'.cell p = u.cell p := by
  obtain ⟨u', hu', hin, hout⟩ := Table.foldlM_view cell id (φ := Cell.visited d)
    (p := fun _ c => c.value ≠ none) (f := fun u => u.updateEachFile d) (fun _ _ h => updateEachFile_eq d h)
    (l := u.tracker.files.keys) (by rw [List.map_id]; exact u.tracker.files.keys_nodup) (s := u)
    (fun _ ha => (cell_value).mpr ha)
  refine ⟨u', hu', fun p hp => hin p ((cell_value).mp hp), fun p hp => hout p ?_⟩
  rw [List.map_id]
  exact fun hk => (cell_value).mpr hk hp

theorem foldlM_listFile (spec : Specification) (d : Snapshot) (forceAll : Bool) {names : List Bytes} (hn : names.Nodup)
    (h : ∀ p, (u.cell p).unseen = true → (u.cell p).value ≠ none) :
    ∃ u', names.foldlM (fun u => u.listFile spec d forceAll) u = some u' ∧
      (∀ p ∈ (names.filter spec.wanted).map spec.path, u'.cell p = (u.cell p).listed d forceAll p) ∧
      ∀ p, p ∉ (names.filter spec.wanted).map spec.path → u'.cell p = u.cell p := by
  have hinj : Function.Injective spec.path := buildFilename_injective spec.directoryPath
  obtain ⟨u', hu', hin, hout⟩ := Table.foldlM_view cell spec.path
    (φ := fun filename c => if spec.wanted filename then c.listed d forceAll (spec.path filename) else c)
    (p := fun _ c => c.unseen = true → c.value ≠ none) (f := fun u => u.listFile spec d forceAll)
    (fun _ _ h => listFile_eq spec d forceAll h)
    (l := names) (hn.map hinj) (s := u) (fun filename _ => h (spec.path filename))
  refine ⟨u', hu', fun p hp => ?_, fun p hp => ?_⟩
  · obtain ⟨filename, hf, rfl⟩ := List.mem_map.mp hp
    obtain ⟨hf, hw⟩ := List.mem_filter.mp hf
    rw [hin filename hf, if_pos hw]
  · by_cases hm : p ∈ names.map spec.path
    · obtain ⟨filename, hf, rfl⟩ := List.mem_map.mp hm
      rw [hin filename hf, if_neg]
      exact fun hw => hp (List.mem_map_of_mem (List.mem_filter.mpr ⟨hf, hw⟩))
    · exact hout p hm

theorem foldl_removeFiles (u : Update) :
    (∀ p, (u.cell p).unseen = true → (u.checks.keys.foldl removeFiles u).cell p = (u.cell p).removed p) ∧
      ∀ p, (u.cell p).unseen = false → (u.checks.keys.foldl removeFiles u).cell p = u.cell p := by
  obtain ⟨hin, hout⟩ := Table.foldl_view cell id (φ := Cell.removed) (f := removeFiles)
    (fun u p => ⟨cell_removeFiles u p, fun _ hne => cell_removeFiles_ne u hne⟩)
    (l := u.checks.keys) (by rw [List.map_id]; exact u.checks.keys_nodup) u
  refine ⟨fun p hp => hin p ((cell_unseen).mp hp), fun p hp => hout p ?_⟩
  rw [List.map_id]
  intro hk
  rw [(cell_unseen).mpr hk] at hp
  cases hp

end Update

-- The time of the directory is the one that is remembered, so that it is not listed.
def Tracker.Skips (s : Tracker) (d : Snapshot) (forceAll : Bool) : Prop :=
  forceAll = false ∧ d.mtime = some s.directoryMtime

instance (s : Tracker) (d : Snapshot) (forceAll : Bool) : Decidable (s.Skips d forceAll) :=
  inferInstanceAs (Decidable (_ ∧ _))

-- The paths that a listing comes to.
def Snapshot.listing (spec : Specification) (d : Snapshot) : List Bytes :=
  if d.mtime.isSome then ((d.names.getD []).filter spec.wanted).map spec.path else []

def Snapshot.lists (spec : Specification) (d : Snapshot) (p : Bytes) : Bool :=
  (d.listing spec).contains p

theorem Snapshot.lists_iff : d.lists spec p ↔ p ∈ d.listing spec :=
  List.contains_iff_mem

-- What becomes of a path, and what is signalled about it.
def Tracker.fate (spec : Specification) (d : Snapshot) (forceAll : Bool) (s : Tracker) (p : Bytes) :
    Option Int64 × List Signal :=
  match s.files.lookup p, d.stat p with
  | none, none          => (none, [])
  | none, some sb       =>
    if ¬s.Skips d forceAll ∧ d.lists spec p ∧ sb.mode &&& sIFDIR = 0 then (some sb.mtime, [.fileAdded p])
    else (none, [])
  | some value, none    =>
    if ¬s.Skips d forceAll ∧ d.lists spec p then (some value, []) else (none, [.fileRemoved p])
  | some value, some sb =>
    if s.Skips d forceAll ∨ d.lists spec p then
      if forceAll ∨ gpointerToUint value ≠ sb.mtime then (some sb.mtime, [.fileChanged p]) else (some value, [])
    else (none, [.fileRemoved p])

-- What the removal of the paths that were not seen makes of a cell.
def Cell.final (p : Bytes) (c : Cell) : Option Int64 × List Signal :=
  if c.unseen then (none, c.signals ++ [.fileRemoved p]) else (c.value, c.signals)

def Tracker.cell (s : Tracker) (p : Bytes) : Cell where
  value   := s.files.lookup p
  unseen  := (s.files.lookup p).isSome
  signals := []

namespace Tracker

theorem fate_of_skips (h : s.Skips d forceAll) (hp : (s.cell p).value ≠ none) :
    ((s.cell p).visited d p).final p = s.fate spec d forceAll p := by
  obtain ⟨value, hv⟩ := Option.ne_none_iff_exists'.mp hp
  have hl : s.files.lookup p = some value := hv
  rw [fate, Cell.final, Cell.visited, Cell.updated, cell, hl, h.1]
  cases d.stat p
  case none => simp [h.1 ▸ h]
  case some sb =>
    simp only [h.1 ▸ h, Option.isSome_some, Option.isNone_some, Bool.and_false, Bool.false_eq_true, if_false, if_true, true_or]
    split <;> rfl

theorem fate_of_listed (h : ¬s.Skips d forceAll) (hp : p ∈ d.listing spec) :
    ((s.cell p).listed d forceAll p).final p = s.fate spec d forceAll p := by
  rw [← Snapshot.lists_iff] at hp
  rw [fate, Cell.final, Cell.listed, Cell.updated, cell]
  cases s.files.lookup p
  case none =>
    cases d.stat p
    case none => simp
    case some sb =>
      simp only [Option.isSome_none, Bool.false_eq_true, if_false, h, hp, not_false_eq_true, true_and]
      split <;> rfl
  case some value =>
    cases d.stat p
    case none => simp [h, hp]
    case some sb =>
      simp only [Option.isSome_some, if_true, hp, or_true]
      split <;> rfl

theorem fate_of_untouched (h : (s.cell p).value = none ∧ s.Skips d forceAll ∨ ¬s.Skips d forceAll ∧ p ∉ d.listing spec) :
    (s.cell p).final p = s.fate spec d forceAll p := by
  have hl : (s.cell p).value = s.files.lookup p := rfl
  rw [hl, ← Snapshot.lists_iff] at h
  rw [fate, Cell.final, cell]
  cases hv : s.files.lookup p
  case none => cases d.stat p <;> grind
  case some value => cases d.stat p <;> grind

theorem updateDirectory_fate (spec : Specification) (d : Snapshot) (forceAll : Bool) (s : Tracker) :
    ∃ u, Update.updateDirectory spec d forceAll { tracker := s, checks := s.files } = some u ∧
      ∀ p, (u.cell p).final p = s.fate spec d forceAll p := by
  have hcell : ∀ p, ({ tracker := s, checks := s.files } : Update).cell p = s.cell p := fun _ => rfl
  rw [Update.updateDirectory]
  cases hm : d.mtime
  case none =>
    have hskip : ¬s.Skips d forceAll := fun h => by rw [Skips, hm] at h; cases h.2
    have hlist : d.listing spec = [] := by rw [Snapshot.listing, hm]; rfl
    exact ⟨_, rfl, fun p => fate_of_untouched (.inr ⟨hskip, by rw [hlist]; exact List.not_mem_nil⟩)⟩
  case some mtime =>
    simp only []
    split
    case isTrue h =>
      have hskip : s.Skips d forceAll := ⟨by simpa using h.1, by rw [hm, h.2]⟩
      obtain ⟨u', hu', hin, hout⟩ := Update.foldlM_updateEachFile d { tracker := s, checks := s.files }
      refine ⟨u', hu', fun p => ?_⟩
      by_cases hp : (s.cell p).value = none
      · rw [hout p hp]
        exact fate_of_untouched (.inl ⟨hp, hskip⟩)
      · rw [hin p hp]
        exact fate_of_skips hskip hp
    case isFalse h =>
      have hskip : ¬s.Skips d forceAll := fun hs => h ⟨by simp [hs.1], Option.some.inj (hs.2.symm.trans hm)⟩
      cases hn : d.names
      case none =>
        have hlist : d.listing spec = [] := by simp [Snapshot.listing, hn]
        exact ⟨_, rfl, fun p => fate_of_untouched (.inr ⟨hskip, by rw [hlist]; exact List.not_mem_nil⟩)⟩
      case some names =>
        have hlist : d.listing spec = (names.filter spec.wanted).map spec.path := by simp [Snapshot.listing, hn, hm]
        obtain ⟨u', hu', hin, hout⟩ := Update.foldlM_listFile (u := { tracker := { s with directoryMtime := mtime }, checks := s.files })
          spec d forceAll (d.nodup hn) fun p hp => Option.isSome_iff_ne_none.mp hp
        refine ⟨u', hu', fun p => ?_⟩
        by_cases hp : p ∈ d.listing spec
        · rw [hin p (hlist ▸ hp)]
          exact fate_of_listed hskip hp
        · rw [hout p (hlist ▸ hp)]
          exact fate_of_untouched (.inr ⟨hskip, hp⟩)

-- A refresh never fails, and does to each path what its fate says.
theorem refresh_eq (spec : Specification) (d : Snapshot) (forceAll : Bool) (s : Tracker) :
    ∃ signals s', s.refresh spec d forceAll = some (signals, s') ∧
      ∀ p, (s'.files.lookup p, signals.filter (·.path = p)) = s.fate spec d forceAll p := by
  obtain ⟨u, hu, hfate⟩ := updateDirectory_fate spec d forceAll s
  rw [refresh, hu, Option.map_some]
  refine ⟨_, _, rfl, fun p => ?_⟩
  obtain ⟨hin, hout⟩ := Update.foldl_removeFiles u
  have hfinal : ((u.checks.keys.foldl Update.removeFiles u).tracker.files.lookup p,
      (u.checks.keys.foldl Update.removeFiles u).signals.filter (·.path = p)) = (u.cell p).final p := by
    cases hun : (u.cell p).unseen
    case true =>
      have h := hin p hun
      rw [Cell.final, if_pos hun]
      exact Prod.ext (congrArg Cell.value h) (congrArg Cell.signals h)
    case false =>
      have h := hout p hun
      rw [Cell.final, if_neg (by simp [hun])]
      exact Prod.ext (congrArg Cell.value h) (congrArg Cell.signals h)
  rw [hfinal, hfate]

end Tracker

end FileTracker
