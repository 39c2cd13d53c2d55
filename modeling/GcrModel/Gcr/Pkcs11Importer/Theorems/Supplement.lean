import GcrModel.Gcr.Pkcs11Importer.Importer
import Mathlib.Data.List.Flatten
import Mathlib.Data.List.Perm.Lattice

namespace Pkcs11Importer

open GLib Gck Attributes

variable {env : Env} {queue queue' : List Item} {pairs pairs' : Pairs} {klass : Nat} {item : Item} {fingerprint : Bytes}

-- All items that are in the table.
def CertificateKeyPair.items (pair : CertificateKeyPair) : List Item :=
  pair.privateKey.toList ++ pair.certificate.toList

def recorded (pairs : Pairs) : List Item :=
  pairs.flatMap fun entry => entry.2.items

-- An item is put in its place, or there was one already.
theorem CertificateKeyPair.items_put (pair : CertificateKeyPair) (klass : Nat) (item : Item) :
    ((pair.put klass item).items).Perm (item :: pair.items) ∨ pair.put klass item = pair := by
  obtain ⟨certificate, privateKey⟩ := pair
  by_cases hcertificate : klass = ckoCertificate
  · simp only [put, if_pos hcertificate, items]
    cases certificate
    case some => exact .inr rfl
    case none =>
      refine .inl ?_
      rw [Option.toList_none, List.append_nil]
      exact List.perm_append_singleton item _
  · by_cases hprivate : klass = ckoPrivateKey
    · simp only [put, if_neg hcertificate, if_pos hprivate, items]
      cases privateKey
      case some => exact .inr rfl
      case none => exact .inl (List.Perm.refl _)
    · exact .inr (by simp only [put, if_neg hcertificate, if_neg hprivate])

theorem recorded_put (klass : Nat) (item : Item) (fingerprint : Bytes) (pairs : Pairs) :
    (recorded (put klass item fingerprint pairs)).Perm (item :: recorded pairs) ∨
      recorded (put klass item fingerprint pairs) = recorded pairs := by
  induction pairs
  case nil =>
    rcases CertificateKeyPair.items_put ⟨none, none⟩ klass item with h | h
    · refine .inl ?_
      simp only [put, recorded, List.flatMap_cons, List.flatMap_nil, List.append_nil]
      exact h
    · refine .inr ?_
      simp only [put, recorded, List.flatMap_cons, List.flatMap_nil, List.append_nil, h]
      rfl
  case cons entry pairs ih =>
    obtain ⟨f, pair⟩ := entry
    by_cases hf : f = fingerprint
    · simp only [put, if_pos hf, recorded, List.flatMap_cons]
      rcases pair.items_put klass item with h | h
      · exact .inl (h.append_right _)
      · exact .inr (by rw [h])
    · simp only [put, if_neg hf, recorded, List.flatMap_cons]
      rcases ih with h | h
      · exact .inl ((h.append_left _).trans List.perm_middle)
      · exact .inr (congrArg _ h)

-- The table has items of the queue only, each in one place.
structure Recorded (processed : List Nat) (pairs : Pairs) : Prop where
  nodup  : (ids (recorded pairs)).Nodup
  subset : ∀ id ∈ ids (recorded pairs), id ∈ processed

theorem Recorded.put {processed : List Nat} (r : Recorded processed pairs) (klass : Nat) (item : Item)
    (fingerprint : Bytes) (hnew : item.id ∉ processed) : Recorded (item.id :: processed) (put klass item fingerprint pairs) := by
  rcases recorded_put klass item fingerprint pairs with h | h
  · have hids : (ids (recorded (Pkcs11Importer.put klass item fingerprint pairs))).Perm
        (item.id :: ids (recorded pairs)) := h.map _
    constructor
    · apply hids.nodup_iff.mpr
      exact List.nodup_cons.mpr ⟨fun hmem => hnew (r.subset _ hmem), r.nodup⟩
    · intro id hid
      rcases List.mem_cons.mp (hids.mem_iff.mp hid) with rfl | hid
      · exact List.mem_cons_self
      · exact List.mem_cons_of_mem _ (r.subset id hid)
  · constructor
    · rw [h]
      exact r.nodup
    · intro id hid
      rw [h] at hid
      exact List.mem_cons_of_mem _ (r.subset id hid)

theorem Recorded.mono {processed processed' : List Nat} (r : Recorded processed pairs)
    (h : ∀ id ∈ processed, id ∈ processed') : Recorded processed' pairs where
  nodup        := r.nodup
  subset id hid := h id (r.subset id hid)

theorem classify_ids (env : Env) (queue : List Item) (pairs : Pairs) :
    ids (classify env queue pairs).1 = ids queue := by
  induction queue generalizing pairs
  case nil                => rfl
  case cons item queue ih =>
    rw [classify]
    cases findUlong item.attrs ckaClass
    case none       => rfl
    case some klass => exact congrArg (item.id :: ·) (ih _)

theorem classify_recorded {processed : List Nat} (r : Recorded processed pairs) (hnodup : (ids queue).Nodup)
    (hdisjoint : ∀ id ∈ ids queue, id ∉ processed) (h : (classify env queue pairs).2 = some pairs') :
    Recorded (ids queue ++ processed) pairs' := by
  induction queue generalizing pairs processed
  case nil =>
    cases h
    exact r
  case cons item queue ih =>
    obtain ⟨hnew, hnodup⟩ := List.nodup_cons.mp hnodup
    have hids : ∀ id ∈ ids queue, id ∉ item.id :: processed := by
      intro id hid hmem
      rcases List.mem_cons.mp hmem with rfl | hmem
      · exact hnew hid
      · exact hdisjoint id (List.mem_cons_of_mem _ hid) hmem
    rw [classify] at h
    cases hklass : findUlong item.attrs ckaClass
    case none       => simp only [hklass, reduceCtorEq] at h
    case some klass =>
      simp only [hklass] at h
      have hperm : (ids queue ++ item.id :: processed).Perm (ids (item :: queue) ++ processed) := List.perm_middle
      refine Recorded.mono (ih ?_ hnodup hids h) fun id => hperm.mem_iff.mp
      cases env.fingerprint item.attrs
      case none        => exact r.mono fun id => List.mem_cons_of_mem _
      case some finger =>
        exact r.put klass { item with attrs := withClass item.attrs klass } finger (hdisjoint item.id List.mem_cons_self)

-- What is in pairs that are complete is in the table.
theorem ids_paired_sublist (pairs : Pairs) : (ids (paired pairs)).Sublist (ids (recorded pairs)) := by
  apply List.Sublist.map
  apply List.Sublist.flatMap_right
  rintro ⟨f, certificate, privateKey⟩ -
  cases certificate <;> cases privateKey <;> simp [CertificateKeyPair.complete, CertificateKeyPair.items]

theorem ids_supplementPair (env : Env) (supplements : Attributes) (entry : Bytes × CertificateKeyPair) :
    ids (supplementPair env supplements entry) = ids entry.2.complete := by
  obtain ⟨f, certificate, privateKey⟩ := entry
  cases certificate <;> cases privateKey <;> rfl

theorem ids_flatMap_supplementPair (env : Env) (supplements : Attributes) (pairs : Pairs) :
    ids (pairs.flatMap (supplementPair env supplements)) = ids (paired pairs) := by
  simp only [ids, paired, List.map_flatMap]
  congr 1
  funext entry
  exact ids_supplementPair env supplements entry

-- What is left out of a list and what was in it otherwise.
theorem append_filter_perm {l as : List Nat} (hl : l.Nodup) (has : as.Nodup) (hsubset : ∀ a ∈ l, a ∈ as) :
    (l ++ as.filter (· ∉ l)).Perm as := by
  apply (List.perm_ext_iff_of_nodup ?_ has).mpr
  · intro a
    rw [List.mem_append, List.mem_filter, decide_eq_true_eq]
    constructor
    · rintro (h | ⟨h, -⟩)
      · exact hsubset a h
      · exact h
    · intro h
      by_cases hmem : a ∈ l
      · exact .inl hmem
      · exact .inr ⟨h, hmem⟩
  · apply List.Nodup.append hl (has.filter _)
    intro a hal hfilter
    exact of_decide_eq_true (List.mem_filter.mp hfilter).right hal

-- The items are those that there were, in another order.
theorem supplementAttributes_perm (env : Env) (supplements : Attributes) (hnodup : (ids queue).Nodup) :
    (ids (supplementAttributes env queue supplements)).Perm (ids queue) := by
  have hids := classify_ids env queue []
  have hrecorded : ∀ pairs, (classify env queue []).2 = some pairs → Recorded (ids queue ++ []) pairs := by
    intro pairs h
    have r : Recorded [] [] := ⟨List.nodup_nil, fun _ hid => hid⟩
    exact classify_recorded r hnodup (fun _ _ => List.not_mem_nil) h
  rw [supplementAttributes]
  generalize classify env queue [] = classified at hids hrecorded
  obtain ⟨queue', result⟩ := classified
  cases result
  case none       => exact List.Perm.of_eq hids
  case some pairs =>
    have r := hrecorded pairs rfl
    rw [List.append_nil] at r
    have hpaired : ((ids (env.iterate pairs |>.flatMap (supplementPair env supplements)))).Perm (ids (paired pairs)) := by
      rw [ids_flatMap_supplementPair]
      exact ((env.iterate_perm pairs).flatMap_right _).map _
    have hfilter : ∀ rest, ids ((queue'.filter fun item => item.id ∉ (paired pairs).map (·.id)).map
        (supplementUnpaired env rest)) = (ids queue).filter (· ∉ ids (paired pairs)) := by
      intro rest
      have hids : ids queue' = ids queue := hids
      rw [← hids, ids, ids, ids, List.map_map, List.filter_map]
      rfl
    rw [ids, List.map_append]
    refine (hpaired.append (List.Perm.of_eq (hfilter _))).trans ?_
    apply append_filter_perm (r.nodup.sublist (ids_paired_sublist pairs)) hnodup
    intro id hid
    exact r.subset id ((ids_paired_sublist pairs).subset hid)

end Pkcs11Importer

-- The templates that objects are created with.
namespace Pkcs11Importer

open GLib Gck Attributes

-- `_gcr_pkcs11_importer_queue`: the attributes that are queued.
def pkcs11ImporterQueue (label : Option Bytes) (attrs : Attributes) : Attributes :=
  match label with
  | none       => attrs
  | some label => if find attrs ckaLabel = none then addString attrs ckaLabel label else attrs

def enqueued (queue : List Attributes) : List Item :=
  queue.mapIdx fun i attrs => ⟨i, attrs⟩

-- Certificates and private keys, by their class.
def IsImported (attrs : Attributes) : Prop :=
  findUlong attrs ckaClass = some ckoCertificate ∨ findUlong attrs ckaClass = some ckoPrivateKey

def firstOf (env : Env) (queue : List Item) (klass : Nat) (finger : Bytes) : Option Item :=
  queue.find? fun item => findUlong item.attrs ckaClass = some klass ∧ env.fingerprint item.attrs = some finger

-- There are a certificate and a key with the fingerprint.
structure IsPair (env : Env) (queue : List Item) (finger : Bytes) (privateKey certificate : Item) : Prop where
  privateKey  : firstOf env queue ckoPrivateKey finger = some privateKey
  certificate : firstOf env queue ckoCertificate finger = some certificate

def InPair (env : Env) (queue : List Item) (item : Item) (finger : Bytes) : Prop :=
  ∃ privateKey certificate, IsPair env queue finger privateKey certificate ∧ (item = privateKey ∨ item = certificate)

-- The pairs get what is supplemented, or all items where there are no pairs.
def Supplemented (env : Env) (queue : List Item) (item : Item) : Prop :=
  (∃ finger, InPair env queue item finger) ∨ ∀ finger item', ¬InPair env queue item' finger

def given (supplements : Attributes) : Attributes :=
  supplements.filter fun attr => attr.value ≠ none ∧ attr.value ≠ some []

def types (attrs : Attributes) : List Nat :=
  attrs.map (·.type)

-- No id is the item's own, and none is supplemented.
structure Generated (env : Env) (queue : List Item) (supplements : Attributes) (item : Item) : Prop where
  own        : find item.attrs ckaId = none
  supplement : Supplemented env queue item → find (given supplements) ckaId = none

-- What is required of the templates:
-- (1) There is one for each item.
-- (2) The pairs are in front, with the key before the certificate.
-- (3) Both of a pair have the same id.
-- (4) Generated ids are different, except in a pair.
-- (5) Objects are put on the token.
-- (6) The attributes of the item are there, but for those that an import decides on.
-- (7) No attribute is there twice.
structure Templates (env : Env) (queue : List Item) (supplements : Attributes) (templates : List Item) : Prop where
  each      : (ids templates).Perm (ids queue)
  front     : ∃ (fingers : List Bytes) (rest : List Nat), fingers.Nodup ∧
    (∀ finger, finger ∈ fingers ↔ ∃ privateKey certificate, IsPair env queue finger privateKey certificate) ∧
    ids templates = (fingers.flatMap fun finger => ids ((firstOf env queue ckoPrivateKey finger).toList ++
      (firstOf env queue ckoCertificate finger).toList)) ++ rest
  sameId    : ∀ finger privateKey certificate, IsPair env queue finger privateKey certificate → ∀ t ∈ templates,
    ∀ t' ∈ templates, t.id = privateKey.id → t'.id = certificate.id → find t.attrs ckaId = find t'.attrs ckaId
  different : ∀ item ∈ queue, ∀ item' ∈ queue, item.id ≠ item'.id → Generated env queue supplements item →
    Generated env queue supplements item' → (∀ finger, ¬(InPair env queue item finger ∧ InPair env queue item' finger)) →
    ∀ t ∈ templates, ∀ t' ∈ templates, t.id = item.id → t'.id = item'.id → find t.attrs ckaId ≠ find t'.attrs ckaId
  token     : ∀ t ∈ templates, findBoolean t.attrs ckaToken = some true
  remaining : ∀ item ∈ queue, ∀ t ∈ templates, t.id = item.id →
    ∀ attr ∈ item.attrs, attr.type ≠ ckaToken → attr.type ≠ ckaPrivate → attr ∈ t.attrs
  once      : ∀ t ∈ templates, (types t.attrs).Nodup

-- The uses that all private keys get.
def usage (attrs : Attributes) : Attributes :=
  if findUlong attrs ckaClass = some ckoPrivateKey then
    [ckaDecrypt, ckaSign, ckaSignRecover, ckaUnwrap, ckaSensitive].map fun type => ⟨type, ofBoolean true⟩
  else []

-- Nothing of the item is added again, and nothing that is added before.
structure Fits (attrs supplements : Attributes) : Prop where
  own        : (types attrs).Nodup
  usage      : ∀ type ∈ types (usage attrs), type ∉ types attrs
  nodup      : (types supplements).Nodup
  supplement : ∀ type ∈ types supplements, type ∉ types attrs ∧ type ∉ types (Pkcs11Importer.usage attrs) ∧
    type ≠ ckaToken ∧ type ≠ ckaPrivate

-- Ids of a pair that are the same in the end. An id is as good as the one that would be generated.
def SameIds (env : Env) (finger : Bytes) (privateKey certificate : Item) : Prop :=
  let generated : Option Attribute := some ⟨ckaId, some (env.hash finger)⟩
  find privateKey.attrs ckaId = find certificate.attrs ckaId ∨
    find privateKey.attrs ckaId = none ∧ find certificate.attrs ckaId = generated ∨
    find certificate.attrs ckaId = none ∧ find privateKey.attrs ckaId = generated

structure Consistent (env : Env) (queue : List Item) (supplements : Attributes) : Prop where
  sameIds : ∀ finger privateKey certificate, IsPair env queue finger privateKey certificate →
    SameIds env finger privateKey certificate
  fits    : ∀ item ∈ queue, Fits item.attrs []
  given   : ∀ item ∈ queue, Supplemented env queue item → Fits item.attrs (given supplements)

-- What tells items apart: hashes are of a fingerprint, or of an address that is the one of an item in the queue.
structure Unique (env : Env) (queue : List Item) : Prop where
  finger  : ∀ attrs finger, env.fingerprint attrs = some finger → finger.length = 20
  address : ∀ item, (env.pointer item).length = 8
  item    : ∀ item item', item.id ∈ ids queue → item'.id ∈ ids queue → env.pointer item = env.pointer item' →
    item.id = item'.id
  hash    : ∀ a b : Bytes, a.length = 20 ∨ a.length = 8 → b.length = 20 ∨ b.length = 8 → env.hash a = env.hash b → a = b

section Attributes

variable {attrs supplements : Attributes} {type : Nat} {value : Option Bytes} {data : Bytes} {env : Env}

theorem types_append (attrs attrs' : Attributes) : types (attrs ++ attrs') = types attrs ++ types attrs' :=
  List.map_append

theorem find_append (attrs attrs' : Attributes) (type : Nat) : find (attrs ++ attrs') type = (find attrs type).or (find attrs' type) :=
  List.find?_append

theorem find_eq_none : find attrs type = none ↔ type ∉ types attrs := by
  rw [find, List.find?_eq_none, types, List.mem_map]
  constructor
  case mp =>
    rintro h ⟨attr, hmem, rfl⟩
    exact h attr hmem (by simp)
  case mpr =>
    intro h attr hmem htype
    exact h ⟨attr, hmem, by simpa using htype⟩

theorem find_set_of_ne {type' : Nat} (hne : type ≠ type') : find (set attrs type value) type' = find attrs type' := by
  induction attrs with
  | nil => simp [Attributes.set, find, hne]
  | cons attr attrs ih =>
    rw [Attributes.set]
    split
    case isTrue heq => simp [find, hne, heq]
    case isFalse    => rw [find, List.find?_cons, find, List.find?_cons, ← find, ih, ← find]

theorem types_set (attrs : Attributes) (type : Nat) (value : Option Bytes) :
    types (set attrs type value) = if type ∈ types attrs then types attrs else types attrs ++ [type] := by
  induction attrs with
  | nil => rfl
  | cons attr attrs ih =>
    rw [Attributes.set]
    split
    case isTrue heq => simp [types, heq]
    case isFalse hne =>
      rw [types, List.map_cons, ← types, ih]
      by_cases hmem : type ∈ types attrs
      case pos => simp [types, show type ∈ attrs.map (·.type) from hmem]
      case neg =>
        have hnot : ¬type ∈ attrs.map (·.type) := hmem
        simp [types, hnot, Ne.symm hne]

theorem mem_types_set {type' : Nat} : type' ∈ types (set attrs type value) ↔ type' = type ∨ type' ∈ types attrs := by
  rw [types_set]
  split
  case isTrue hmem =>
    constructor
    case mp  => exact .inr
    case mpr =>
      rintro (rfl | h)
      · exact hmem
      · exact h
  case isFalse => rw [List.mem_append, List.mem_singleton, or_comm]

theorem nodup_types_set : (types (set attrs type value)).Nodup ↔ (types attrs).Nodup := by
  rw [types_set]
  split
  case isTrue => exact Iff.rfl
  case isFalse hmem =>
    rw [← List.concat_eq_append, List.nodup_concat]
    exact ⟨fun h => h.2, fun h => ⟨hmem, h⟩⟩

theorem mem_set {attr : Attribute} (hmem : attr ∈ attrs) (hne : attr.type ≠ type) : attr ∈ set attrs type value := by
  induction attrs with
  | nil => cases hmem
  | cons attr' attrs ih =>
    rw [Attributes.set]
    rcases List.mem_cons.mp hmem with rfl | hmem
    case inl => rw [if_neg hne]; exact List.mem_cons_self
    case inr =>
      split
      case isTrue  => exact List.mem_cons_of_mem _ hmem
      case isFalse => exact List.mem_cons_of_mem _ (ih hmem)

-- What an item has after its class was looked at, without the uses of a key.
def decided (attrs : Attributes) : Attributes :=
  set (set attrs ckaToken (ofBoolean true)) ckaPrivate (ofBoolean (findUlong attrs ckaClass = some ckoPrivateKey))

-- The attributes of a template.
def templateAttrs (env : Env) (attrs supplements : Attributes) (data : Bytes) : Attributes :=
  supplementIdForData env (decided attrs ++ usage attrs ++ supplements) data

theorem withClass_eq {klass : Nat} (himported : IsImported attrs) (hklass : findUlong attrs ckaClass = some klass) :
    withClass attrs klass = decided attrs ++ usage attrs := by
  rcases himported with h | h
  all_goals cases h.symm.trans hklass
  case inl =>
    simp only [decided, usage, h, show some ckoCertificate ≠ some ckoPrivateKey by decide, if_false, List.append_nil]
    rfl
  case inr =>
    simp only [decided, usage, h, if_true]
    rw [withClass, if_neg (by decide), if_pos rfl]
    simp [addBoolean, add, setBoolean]

theorem mem_types_decided : type ∈ types (decided attrs) ↔ type = ckaPrivate ∨ type = ckaToken ∨ type ∈ types attrs := by
  rw [decided, mem_types_set, mem_types_set]

theorem nodup_types_usage (attrs : Attributes) : (types (usage attrs)).Nodup := by
  rw [usage]
  split <;> decide

theorem types_usage_notMem (attrs : Attributes) :
    ckaToken ∉ types (usage attrs) ∧ ckaPrivate ∉ types (usage attrs) ∧ ckaId ∉ types (usage attrs) := by
  rw [usage]
  split <;> decide

theorem find_decided_id : find (decided attrs) ckaId = find attrs ckaId := by
  rw [decided, find_set_of_ne (by decide), find_set_of_ne (by decide)]

theorem find_template_id : find (templateAttrs env attrs supplements data) ckaId =
    ((find attrs ckaId).or (find supplements ckaId)).or (some ⟨ckaId, some (env.hash data)⟩) := by
  have hbefore : find (decided attrs ++ usage attrs ++ supplements) ckaId = (find attrs ckaId).or (find supplements ckaId) := by
    rw [find_append, find_append, find_decided_id, find_eq_none.mpr (types_usage_notMem attrs).2.2, Option.or_none]
  rw [templateAttrs, supplementIdForData]
  split
  case isTrue hnone =>
    rw [add, find_append, hnone, ← hbefore, hnone]
    rfl
  case isFalse hsome =>
    rw [hbefore]
    obtain ⟨attr, hattr⟩ := Option.ne_none_iff_exists'.mp hsome
    rw [← hbefore, hattr]
    rfl

theorem findBoolean_template_token : findBoolean (templateAttrs env attrs supplements data) ckaToken = some true := by
  have hdecided : find (decided attrs) ckaToken = some ⟨ckaToken, ofBoolean true⟩ := by
    rw [decided, find_set_of_ne (by decide), find_set_self]
  have hfind : find (templateAttrs env attrs supplements data) ckaToken = some ⟨ckaToken, ofBoolean true⟩ := by
    rw [templateAttrs, supplementIdForData]
    split
    case isTrue  => rw [add, find_append, find_append, find_append, hdecided]; rfl
    case isFalse => rw [find_append, find_append, hdecided]; rfl
  rw [findBoolean, findData, hfind]
  rfl

theorem mem_template {attr : Attribute} (hmem : attr ∈ attrs) (htoken : attr.type ≠ ckaToken) (hprivate : attr.type ≠ ckaPrivate) :
    attr ∈ templateAttrs env attrs supplements data := by
  have hbefore : attr ∈ decided attrs ++ usage attrs ++ supplements := by
    rw [List.append_assoc]
    exact List.mem_append_left _ (mem_set (mem_set hmem htoken) hprivate)
  rw [templateAttrs, supplementIdForData]
  split
  case isTrue  => exact List.mem_append_left _ hbefore
  case isFalse => exact hbefore

-- An id is added where there is none, so that it is there once.
theorem nodup_supplementIdForData : (types (supplementIdForData env attrs data)).Nodup ↔ (types attrs).Nodup := by
  rw [supplementIdForData]
  split
  case isTrue hnone =>
    have hmem : ckaId ∉ types attrs := find_eq_none.mp hnone
    rw [add, types_append, show types [⟨ckaId, some (env.hash data)⟩] = [ckaId] from rfl, ← List.concat_eq_append, List.nodup_concat]
    exact ⟨fun h => h.2, fun h => ⟨hmem, h⟩⟩
  case isFalse => exact Iff.rfl

theorem nodup_template_iff : (types (templateAttrs env attrs supplements data)).Nodup ↔ Fits attrs supplements := by
  obtain ⟨htoken, hprivate, -⟩ := types_usage_notMem attrs
  rw [templateAttrs, nodup_supplementIdForData, types_append, types_append, List.append_assoc, List.nodup_append, List.nodup_append,
    decided, nodup_types_set, nodup_types_set, ← decided]
  constructor
  case mp =>
    rintro ⟨hown, ⟨-, hnodup, husage⟩, hdecided⟩
    refine ⟨hown, fun type htype hmem => ?_, hnodup, fun type htype => ⟨fun hmem => ?_, fun hmem => ?_, ?_, ?_⟩⟩
    · exact hdecided type (mem_types_decided.mpr (.inr (.inr hmem))) type (List.mem_append_left _ htype) rfl
    · exact hdecided type (mem_types_decided.mpr (.inr (.inr hmem))) type (List.mem_append_right _ htype) rfl
    · exact husage type hmem type htype rfl
    · exact fun heq => hdecided type (mem_types_decided.mpr (.inr (.inl heq))) type (List.mem_append_right _ htype) rfl
    · exact fun heq => hdecided type (mem_types_decided.mpr (.inl heq)) type (List.mem_append_right _ htype) rfl
  case mpr =>
    intro h
    refine ⟨h.own, ⟨nodup_types_usage attrs, h.nodup, ?_⟩, ?_⟩
    · rintro type husage _ hmem rfl
      exact (h.supplement type hmem).2.1 husage
    · rintro type hdecided _ hmem rfl
      rcases List.mem_append.mp hmem with husage | hsupplement
      · rcases mem_types_decided.mp hdecided with rfl | rfl | hown
        · exact hprivate husage
        · exact htoken husage
        · exact h.usage type husage hown
      · obtain ⟨hown, -, hneToken, hnePrivate⟩ := h.supplement type hsupplement
        rcases mem_types_decided.mp hdecided with rfl | rfl | hmem
        · exact hnePrivate rfl
        · exact hneToken rfl
        · exact hown hmem

end Attributes

section Pairs

variable {env : Env} {queue : List Item} {pairs : Pairs} {item : Item} {finger finger' : Bytes} {klass klass' : Nat}
variable {supplements : Attributes} {entry : Bytes × CertificateKeyPair}

def klassOf (item : Item) : Nat :=
  (findUlong item.attrs ckaClass).getD 0

def classified (item : Item) : Item :=
  { item with attrs := withClass item.attrs (klassOf item) }

def record (env : Env) (pairs : Pairs) (item : Item) : Pairs :=
  match env.fingerprint item.attrs with
  | some finger => put (klassOf item) (classified item) finger pairs
  | none        => pairs

-- The table that the first loop leaves.
def table (env : Env) (queue : List Item) : Pairs :=
  queue.foldl (record env) []

def IsKlass (klass : Nat) : Prop :=
  klass = ckoCertificate ∨ klass = ckoPrivateKey

theorem IsImported.findKlass (h : IsImported item.attrs) :
    findUlong item.attrs ckaClass = some (klassOf item) ∧ IsKlass (klassOf item) := by
  rw [klassOf]
  rcases h with h | h
  · exact ⟨by rw [h]; rfl, .inl (by rw [h]; rfl)⟩
  · exact ⟨by rw [h]; rfl, .inr (by rw [h]; rfl)⟩

theorem classified_attrs (h : IsImported item.attrs) : (classified item).attrs = decided item.attrs ++ usage item.attrs :=
  withClass_eq h h.findKlass.1

theorem classify_eq (h : ∀ item ∈ queue, IsImported item.attrs) (pairs : Pairs) :
    classify env queue pairs = (queue.map classified, some (queue.foldl (record env) pairs)) := by
  induction queue generalizing pairs with
  | nil => rfl
  | cons item queue ih =>
    obtain ⟨hitem, hqueue⟩ := List.forall_mem_cons.mp h
    rw [classify, hitem.findKlass.1]
    dsimp only
    rw [ih hqueue]
    rfl

-- The item of the class that an entry has.
def CertificateKeyPair.slot (pair : CertificateKeyPair) (klass : Nat) : Option Item :=
  if klass = ckoCertificate then pair.certificate else pair.privateKey

def look (pairs : Pairs) (finger : Bytes) (klass : Nat) : Option Item :=
  (pairs.find? (·.1 = finger)).bind (·.2.slot klass)

theorem CertificateKeyPair.slot_put (pair : CertificateKeyPair) (item : Item) (h : IsKlass klass) (h' : IsKlass klass') :
    (pair.put klass item).slot klass' = if klass = klass' then (pair.slot klass').or (some item) else pair.slot klass' := by
  rcases h with rfl | rfl
  all_goals rcases h' with rfl | rfl
  all_goals rfl

-- The first item of a class stays in its place.
theorem look_put (h : IsKlass klass) (h' : IsKlass klass') : look (put klass item finger pairs) finger' klass' =
    if finger = finger' ∧ klass = klass' then (look pairs finger' klass').or (some item) else look pairs finger' klass' := by
  induction pairs with
  | nil =>
    by_cases hfinger : finger = finger'
    case neg => simp [put, look, hfinger]
    case pos =>
      have hslot := CertificateKeyPair.slot_put ⟨none, none⟩ item h h'
      have hnone : (CertificateKeyPair.mk none none).slot klass' = none := by
        rw [CertificateKeyPair.slot]
        split <;> rfl
      simpa [put, look, hfinger, hnone] using hslot
  | cons entry pairs ih =>
    obtain ⟨f, pair⟩ := entry
    rw [put]
    split
    case isTrue heq =>
      by_cases hfinger : finger = finger'
      case neg => simp [look, heq, hfinger]
      case pos => simpa [look, heq, hfinger] using pair.slot_put item h h'
    case isFalse hne =>
      by_cases hfound : f = finger'
      case pos =>
        have hother : finger ≠ finger' := fun heq => hne (hfound.trans heq.symm)
        simp [look, hfound, hother]
      case neg => simpa [look, hfound] using ih

theorem firstOf_cons : firstOf env (item :: queue) klass finger =
    if findUlong item.attrs ckaClass = some klass ∧ env.fingerprint item.attrs = some finger then some item
    else firstOf env queue klass finger := by
  rw [firstOf, List.find?_cons, ← firstOf]
  split
  case h_1 heq => rw [if_pos (of_decide_eq_true heq)]
  case h_2 hne => rw [if_neg (of_decide_eq_false hne)]

theorem look_foldl (h : ∀ item ∈ queue, IsImported item.attrs) (hklass : IsKlass klass) (pairs : Pairs) :
    look (queue.foldl (record env) pairs) finger klass =
      (look pairs finger klass).or ((firstOf env queue klass finger).map classified) := by
  induction queue generalizing pairs with
  | nil => simp [firstOf]
  | cons item queue ih =>
    obtain ⟨hitem, hqueue⟩ := List.forall_mem_cons.mp h
    obtain ⟨hfound, hitemKlass⟩ := hitem.findKlass
    rw [List.foldl_cons, ih hqueue, firstOf_cons, hfound, record]
    cases hfinger : env.fingerprint item.attrs with
    | none => simp
    | some f =>
      dsimp only
      rw [look_put hitemKlass hklass]
      by_cases heq : f = finger ∧ klassOf item = klass
      case pos =>
        simp only [heq, and_self, if_true, Option.map_some]
        cases look pairs finger klass <;> rfl
      case neg =>
        have hne : ¬(some (klassOf item) = some klass ∧ some f = some finger) := by
          simpa [and_comm] using heq
        rw [if_neg heq, if_neg hne]

theorem look_table (h : ∀ item ∈ queue, IsImported item.attrs) (hklass : IsKlass klass) :
    look (table env queue) finger klass = (firstOf env queue klass finger).map classified :=
  look_foldl h hklass []

def fingers (pairs : Pairs) : List Bytes :=
  pairs.map (·.1)

theorem fingers_put : fingers (put klass item finger pairs) =
    if finger ∈ fingers pairs then fingers pairs else fingers pairs ++ [finger] := by
  induction pairs with
  | nil => rfl
  | cons entry pairs ih =>
    obtain ⟨f, pair⟩ := entry
    rw [put]
    split
    case isTrue heq => simp [fingers, heq]
    case isFalse hne =>
      rw [fingers, List.map_cons, ← fingers, ih]
      by_cases hmem : finger ∈ fingers pairs
      case pos => simp [fingers, show finger ∈ pairs.map (·.1) from hmem]
      case neg =>
        have hnot : ¬finger ∈ pairs.map (·.1) := hmem
        simp only [fingers, hnot, if_false, List.map_cons, List.mem_cons, Ne.symm hne, or_self, List.cons_append]

theorem nodup_fingers_foldl (hnodup : (fingers pairs).Nodup) : (fingers (queue.foldl (record env) pairs)).Nodup := by
  induction queue generalizing pairs with
  | nil => exact hnodup
  | cons item queue ih =>
    apply ih
    rw [record]
    split
    case h_1 finger _ =>
      rw [fingers_put]
      split
      case isTrue  => exact hnodup
      case isFalse hmem =>
        rw [← List.concat_eq_append, List.nodup_concat]
        exact ⟨hmem, hnodup⟩
    case h_2 => exact hnodup

theorem nodup_fingers_table (env : Env) (queue : List Item) : (fingers (table env queue)).Nodup :=
  nodup_fingers_foldl List.nodup_nil

-- An entry of a table with distinct keys is what is found under its key.
theorem find?_of_mem (hnodup : (fingers pairs).Nodup) (hmem : entry ∈ pairs) : pairs.find? (·.1 = entry.1) = some entry := by
  induction pairs with
  | nil => cases hmem
  | cons other pairs ih =>
    obtain ⟨hother, hnodup⟩ := List.nodup_cons.mp hnodup
    rcases List.mem_cons.mp hmem with rfl | hmem
    case inl => simp
    case inr =>
      have hkey : entry.1 ∈ fingers pairs := List.mem_map_of_mem hmem
      have hne : other.1 ≠ entry.1 := fun heq => hother (show other.1 ∈ fingers pairs from heq ▸ hkey)
      rw [List.find?_cons_of_neg (by simpa using hne)]
      exact ih hnodup hmem

theorem table_entry (h : ∀ item ∈ queue, IsImported item.attrs) (hmem : entry ∈ table env queue) :
    entry.2 = ⟨(firstOf env queue ckoCertificate entry.1).map classified, (firstOf env queue ckoPrivateKey entry.1).map classified⟩ := by
  have hfind := find?_of_mem (nodup_fingers_table env queue) hmem
  have hcertificate : look (table env queue) entry.1 ckoCertificate = _ := look_table h (.inl rfl)
  have hprivateKey : look (table env queue) entry.1 ckoPrivateKey = _ := look_table h (.inr rfl)
  rw [look, hfind] at hcertificate hprivateKey
  rw [← hcertificate, ← hprivateKey]
  rfl

theorem mem_fingers_of_look (h : look pairs finger klass = some item) : ∃ pair, (finger, pair) ∈ pairs := by
  obtain ⟨⟨f, pair⟩, hfind, -⟩ := Option.bind_eq_some_iff.mp h
  obtain rfl : f = finger := by simpa using List.find?_some hfind
  exact ⟨pair, List.mem_of_find?_eq_some hfind⟩

variable {privateKey certificate : Item}

theorem IsPair.mem_table (h : ∀ item ∈ queue, IsImported item.attrs) (hpair : IsPair env queue finger privateKey certificate) :
    (finger, ⟨some (classified certificate), some (classified privateKey)⟩) ∈ table env queue := by
  have hlook : look (table env queue) finger ckoCertificate = some (classified certificate) := by
    rw [look_table h (.inl rfl), hpair.certificate]
    rfl
  obtain ⟨pair, hmem⟩ := mem_fingers_of_look hlook
  have hentry : pair = _ := table_entry h hmem
  rw [hpair.certificate, hpair.privateKey] at hentry
  rwa [hentry] at hmem

-- The items of an entry are those of a pair, or there are none.
theorem complete_entry (h : ∀ item ∈ queue, IsImported item.attrs) (hmem : entry ∈ table env queue) :
    entry.2.complete = [] ∧ (∀ privateKey certificate, ¬IsPair env queue entry.1 privateKey certificate) ∨
      ∃ privateKey certificate, IsPair env queue entry.1 privateKey certificate ∧
        entry.2 = ⟨some (classified certificate), some (classified privateKey)⟩ := by
  have hentry := table_entry h hmem
  rw [hentry]
  cases hcertificate : firstOf env queue ckoCertificate entry.1 with
  | none =>
    refine .inl ⟨rfl, fun privateKey certificate hpair => ?_⟩
    cases hcertificate.symm.trans hpair.certificate
  | some certificate =>
    cases hprivateKey : firstOf env queue ckoPrivateKey entry.1 with
    | none =>
      refine .inl ⟨rfl, fun privateKey certificate hpair => ?_⟩
      cases hprivateKey.symm.trans hpair.privateKey
    | some privateKey => exact .inr ⟨privateKey, certificate, ⟨hprivateKey, hcertificate⟩, rfl⟩

theorem mem_ids_paired (h : ∀ item ∈ queue, IsImported item.attrs) {id : Nat} :
    id ∈ ids (paired (table env queue)) ↔ ∃ item finger, InPair env queue item finger ∧ item.id = id := by
  simp only [ids, paired, List.mem_map, List.mem_flatMap]
  constructor
  case mp =>
    rintro ⟨item, ⟨entry, hmem, hitem⟩, rfl⟩
    rcases complete_entry h hmem with ⟨hnil, -⟩ | ⟨privateKey, certificate, hpair, hentry⟩
    case inl => rw [hnil] at hitem; cases hitem
    case inr =>
      rw [hentry] at hitem
      rcases List.mem_pair.mp hitem with rfl | rfl
      · exact ⟨privateKey, entry.1, ⟨_, _, hpair, .inl rfl⟩, rfl⟩
      · exact ⟨certificate, entry.1, ⟨_, _, hpair, .inr rfl⟩, rfl⟩
  case mpr =>
    rintro ⟨item, finger, ⟨privateKey, certificate, hpair, hitem⟩, rfl⟩
    refine ⟨classified item, ⟨_, hpair.mem_table h, ?_⟩, rfl⟩
    rcases hitem with rfl | rfl
    · exact List.mem_cons_self
    · exact List.mem_cons_of_mem _ List.mem_cons_self

theorem paired_eq_nil_iff (h : ∀ item ∈ queue, IsImported item.attrs) :
    paired (table env queue) = [] ↔ ∀ finger item, ¬InPair env queue item finger := by
  rw [← List.map_eq_nil_iff, ← ids, List.eq_nil_iff_forall_not_mem]
  constructor
  case mp  => exact fun hnone finger item hin => hnone item.id ((mem_ids_paired h).mpr ⟨item, finger, hin, rfl⟩)
  case mpr =>
    rintro hnone id hid
    obtain ⟨item, finger, hin, -⟩ := (mem_ids_paired h).mp hid
    exact hnone finger item hin

theorem firstOf_mem (h : firstOf env queue klass finger = some item) : item ∈ queue :=
  List.mem_of_find?_eq_some h

theorem InPair.mem (h : InPair env queue item finger) : item ∈ queue := by
  obtain ⟨privateKey, certificate, hpair, rfl | rfl⟩ := h
  · exact firstOf_mem hpair.privateKey
  · exact firstOf_mem hpair.certificate

theorem firstOf_fingerprint (h : firstOf env queue klass finger = some item) : env.fingerprint item.attrs = some finger := by
  have hfound := List.find?_some h
  exact (of_decide_eq_true hfound).2

theorem InPair.fingerprint (h : InPair env queue item finger) : env.fingerprint item.attrs = some finger := by
  obtain ⟨privateKey, certificate, hpair, rfl | rfl⟩ := h
  · exact firstOf_fingerprint hpair.privateKey
  · exact firstOf_fingerprint hpair.certificate

-- The template that an item gets.
inductive IsTemplate (env : Env) (queue : List Item) (supplements : Attributes) (item : Item) : Item → Prop
  | paired {finger : Bytes} (h : InPair env queue item finger) :
    IsTemplate env queue supplements item ⟨item.id, templateAttrs env item.attrs (given supplements) finger⟩
  | supplemented (h : ∀ finger item', ¬InPair env queue item' finger) :
    IsTemplate env queue supplements item
      ⟨item.id, templateAttrs env item.attrs (given supplements) (env.pointer (classified item))⟩
  | unpaired (h : ¬Supplemented env queue item) :
    IsTemplate env queue supplements item ⟨item.id, templateAttrs env item.attrs [] (env.pointer (classified item))⟩

theorem supplementAttributes_eq (h : ∀ item ∈ queue, IsImported item.attrs) (supplements : Attributes) :
    supplementAttributes env queue supplements =
      (env.iterate (table env queue)).flatMap (supplementPair env supplements) ++
        ((queue.map classified).filter fun item => item.id ∉ (paired (table env queue)).map (·.id)).map
          (supplementUnpaired env (if paired (table env queue) = [] then some supplements else none)) := by
  rw [supplementAttributes, classify_eq h]
  rfl

theorem isTemplate_of_mem (h : ∀ item ∈ queue, IsImported item.attrs) {t : Item}
    (hmem : t ∈ supplementAttributes env queue supplements) : ∃ item ∈ queue, IsTemplate env queue supplements item t := by
  rw [supplementAttributes_eq h] at hmem
  rcases List.mem_append.mp hmem with hmem | hmem
  case inl =>
    obtain ⟨entry, hiterate, ht⟩ := List.mem_flatMap.mp hmem
    have hentry : entry ∈ table env queue := (env.iterate_perm _).mem_iff.mp hiterate
    rcases complete_entry h hentry with ⟨hnil, -⟩ | ⟨privateKey, certificate, hpair, hentry⟩
    case inl =>
      have hids : ids (supplementPair env supplements entry) = [] := by rw [ids_supplementPair, hnil]; rfl
      rw [List.map_eq_nil_iff.mp hids] at ht
      cases ht
    case inr =>
      have htemplate : ∀ item, InPair env queue item entry.1 →
          IsTemplate env queue supplements item { classified item with
            attrs := supplementIdForData env (supplementWithAttributes (classified item).attrs supplements) entry.1 } := by
        intro item hin
        rw [classified_attrs (h item hin.mem)]
        exact .paired hin
      rw [supplementPair, hentry] at ht
      rcases List.mem_pair.mp ht with rfl | rfl
      · exact ⟨privateKey, firstOf_mem hpair.privateKey, htemplate privateKey ⟨_, _, hpair, .inl rfl⟩⟩
      · exact ⟨certificate, firstOf_mem hpair.certificate, htemplate certificate ⟨_, _, hpair, .inr rfl⟩⟩
  case inr =>
    obtain ⟨item', hfilter, rfl⟩ := List.mem_map.mp hmem
    obtain ⟨hitem', hnot⟩ := List.mem_filter.mp hfilter
    obtain ⟨item, hitem, rfl⟩ := List.mem_map.mp hitem'
    have hunpaired : ∀ finger, ¬InPair env queue item finger := by
      intro finger hin
      exact of_decide_eq_true hnot ((mem_ids_paired h).mpr ⟨item, finger, hin, rfl⟩)
    refine ⟨item, hitem, ?_⟩
    have hattrs := classified_attrs (h item hitem)
    by_cases hnil : paired (table env queue) = []
    case pos =>
      have htemplate : IsTemplate env queue supplements item { classified item with
          attrs := supplementIdForData env (supplementWithAttributes (classified item).attrs supplements)
            (env.pointer (classified item)) } := by
        rw [hattrs]
        exact .supplemented ((paired_eq_nil_iff h).mp hnil)
      rw [if_pos hnil]
      exact htemplate
    case neg =>
      have htemplate : IsTemplate env queue supplements item { classified item with
          attrs := supplementIdForData env ((classified item).attrs ++ []) (env.pointer (classified item)) } := by
        rw [hattrs]
        refine .unpaired fun hsupplemented => ?_
        rcases hsupplemented with ⟨finger, hin⟩ | hnone
        · exact hunpaired finger hin
        · exact hnil ((paired_eq_nil_iff h).mpr hnone)
      rw [List.append_nil] at htemplate
      rw [if_neg hnil]
      exact htemplate

end Pairs

section Consistency

variable {env : Env} {queue : List Item} {item item' t t' privateKey certificate : Item} {finger finger' : Bytes}
variable {supplements : Attributes}

theorem IsTemplate.id_eq (h : IsTemplate env queue supplements item t) : t.id = item.id := by
  cases h <;> rfl

-- The template of an item is one with its number.
theorem isTemplate_of_id (himported : ∀ item ∈ queue, IsImported item.attrs) (hnodup : (ids queue).Nodup) (hitem : item ∈ queue)
    (hmem : t ∈ supplementAttributes env queue supplements) (hid : t.id = item.id) :
    IsTemplate env queue supplements item t := by
  obtain ⟨item', hitem', htemplate⟩ := isTemplate_of_mem himported hmem
  have heq : item' = item := List.inj_on_of_nodup_map hnodup hitem' hitem (htemplate.id_eq.symm.trans hid)
  exact heq ▸ htemplate

theorem exists_template (supplements : Attributes) (himported : ∀ item ∈ queue, IsImported item.attrs)
    (hnodup : (ids queue).Nodup) (hitem : item ∈ queue) :
    ∃ t ∈ supplementAttributes env queue supplements, t.id = item.id ∧ IsTemplate env queue supplements item t := by
  have hperm := supplementAttributes_perm env supplements hnodup
  obtain ⟨t, hmem, hid⟩ := List.mem_map.mp (hperm.mem_iff.mpr (List.mem_map_of_mem hitem))
  exact ⟨t, hmem, hid, isTemplate_of_id himported hnodup hitem hmem hid⟩

theorem IsTemplate.of_pair (h : IsTemplate env queue supplements item t) (hin : InPair env queue item finger) :
    t.attrs = templateAttrs env item.attrs (given supplements) finger := by
  cases h with
  | paired hin' =>
    cases hin.fingerprint.symm.trans hin'.fingerprint
    rfl
  | supplemented hnone => exact absurd hin (hnone _ _)
  | unpaired hnot      => exact absurd (.inl ⟨finger, hin⟩) hnot

-- What a template is made of, and whether there are supplements in it.
theorem IsTemplate.attrs_eq (h : IsTemplate env queue supplements item t) :
    Supplemented env queue item ∧ (∃ data, t.attrs = templateAttrs env item.attrs (given supplements) data) ∨
      ¬Supplemented env queue item ∧ ∃ data, t.attrs = templateAttrs env item.attrs [] data := by
  cases h with
  | paired hin         => exact .inl ⟨.inl ⟨_, hin⟩, _, rfl⟩
  | supplemented hnone => exact .inl ⟨.inr hnone, _, rfl⟩
  | unpaired hnot      => exact .inr ⟨hnot, _, rfl⟩

theorem Fits.without (h : Fits item.attrs supplements) : Fits item.attrs [] where
  own        := h.own
  usage      := h.usage
  nodup      := List.nodup_nil
  supplement := fun _ hmem => nomatch hmem

theorem IsTemplate.once_iff (h : IsTemplate env queue supplements item t) : (types t.attrs).Nodup ↔
    Fits item.attrs [] ∧ (Supplemented env queue item → Fits item.attrs (given supplements)) := by
  rcases h.attrs_eq with ⟨hsupplemented, data, hattrs⟩ | ⟨hnot, data, hattrs⟩
  all_goals rw [hattrs, nodup_template_iff]
  case inl => exact ⟨fun hfits => ⟨hfits.without, fun _ => hfits⟩, fun hfits => hfits.2 hsupplemented⟩
  case inr => exact ⟨fun hfits => ⟨hfits, fun hsupplemented => absurd hsupplemented hnot⟩, fun hfits => hfits.1⟩

theorem IsPair.privateKey_in (h : IsPair env queue finger privateKey certificate) : InPair env queue privateKey finger :=
  ⟨privateKey, certificate, h, .inl rfl⟩

theorem IsPair.certificate_in (h : IsPair env queue finger privateKey certificate) : InPair env queue certificate finger :=
  ⟨privateKey, certificate, h, .inr rfl⟩

theorem Fits.find_id (h : Fits item.attrs supplements) (hsome : find supplements ckaId ≠ none) : find item.attrs ckaId = none := by
  refine find_eq_none.mpr (h.supplement ckaId ?_).1
  by_contra hmem
  exact hsome (find_eq_none.mpr hmem)

-- Where an id is supplemented, neither of a pair has one.
theorem sameIds_iff (hprivateKey : Fits privateKey.attrs supplements) (hcertificate : Fits certificate.attrs supplements) :
    find (templateAttrs env privateKey.attrs supplements finger) ckaId =
      find (templateAttrs env certificate.attrs supplements finger) ckaId ↔ SameIds env finger privateKey certificate := by
  rw [find_template_id, find_template_id, SameIds]
  by_cases hsome : find supplements ckaId = none
  case pos =>
    rw [hsome, Option.or_none, Option.or_none]
    cases find privateKey.attrs ckaId <;> cases find certificate.attrs ckaId <;> simp [eq_comm]
  case neg => simp [hprivateKey.find_id hsome, hcertificate.find_id hsome]

-- What a generated id is made from.
theorem IsTemplate.generated (h : IsTemplate env queue supplements item t) (hgenerated : Generated env queue supplements item) :
    ∃ data, find t.attrs ckaId = some ⟨ckaId, some (env.hash data)⟩ ∧
      (InPair env queue item data ∨ data = env.pointer (classified item)) := by
  have hid : ∀ suppl data, find suppl ckaId = none →
      find (templateAttrs env item.attrs suppl data) ckaId = some ⟨ckaId, some (env.hash data)⟩ := by
    intro suppl data hnone
    rw [find_template_id, hgenerated.own, hnone]
    rfl
  cases h with
  | paired hin         => exact ⟨_, hid _ _ (hgenerated.supplement (.inl ⟨_, hin⟩)), .inl hin⟩
  | supplemented hnone => exact ⟨_, hid _ _ (hgenerated.supplement (.inr hnone)), .inr rfl⟩
  | unpaired hnot      => exact ⟨_, hid _ _ rfl, .inr rfl⟩

theorem Unique.data (hunique : Unique env queue) (hid : item.id ∈ ids queue) (hid' : item'.id ∈ ids queue)
    (hne : item.id ≠ item'.id) (hpair : ∀ finger, ¬(InPair env queue item finger ∧ InPair env queue item' finger))
    {data data' : Bytes} (h : InPair env queue item data ∨ data = env.pointer (classified item))
    (h' : InPair env queue item' data' ∨ data' = env.pointer (classified item')) : env.hash data ≠ env.hash data' := by
  have hlength : ∀ {item data}, InPair env queue item data ∨ data = env.pointer (classified item) →
      data.length = 20 ∨ data.length = 8 := by
    rintro item data (hin | rfl)
    · exact .inl (hunique.finger _ _ hin.fingerprint)
    · exact .inr (hunique.address _)
  intro hhash
  obtain rfl : data = data' := hunique.hash _ _ (hlength h) (hlength h') hhash
  rcases h with hin | hdata
  all_goals rcases h' with hin' | hdata'
  case inl.inl => exact hpair data ⟨hin, hin'⟩
  case inl.inr =>
    have htwenty := hunique.finger _ _ hin.fingerprint
    rw [hdata', hunique.address] at htwenty
    cases htwenty
  case inr.inl =>
    have htwenty := hunique.finger _ _ hin'.fingerprint
    rw [hdata, hunique.address] at htwenty
    cases htwenty
  case inr.inr => exact hne (hunique.item (classified item) (classified item') hid hid' (hdata.symm.trans hdata'))

-- The fingerprints of the pairs, in the order in which the table is gone through.
theorem ids_paired_eq (himported : ∀ item ∈ queue, IsImported item.attrs) {entries : Pairs}
    (hmem : ∀ entry ∈ entries, entry ∈ table env queue) :
    ids (paired entries) = ((entries.filter fun entry => !entry.2.complete.isEmpty).map (·.1)).flatMap fun finger =>
      ids ((firstOf env queue ckoPrivateKey finger).toList ++ (firstOf env queue ckoCertificate finger).toList) := by
  induction entries with
  | nil => rfl
  | cons entry entries ih =>
    obtain ⟨hentry, hentries⟩ := List.forall_mem_cons.mp hmem
    have hsplit : ids (paired (entry :: entries)) = ids entry.2.complete ++ ids (paired entries) := by
      simp [ids, paired]
    rw [hsplit, ih hentries]
    rcases complete_entry himported hentry with ⟨hnil, -⟩ | ⟨privateKey, certificate, hpair, heq⟩
    case inl => simp [hnil, ids]
    case inr =>
      have hcomplete : entry.2.complete = [classified privateKey, classified certificate] := by
        rw [heq]
        rfl
      simp [hcomplete, hpair.privateKey, hpair.certificate, ids, classified]

theorem templates_front (himported : ∀ item ∈ queue, IsImported item.attrs) (supplements : Attributes) :
    ∃ (fingers : List Bytes) (rest : List Nat), fingers.Nodup ∧
      (∀ finger, finger ∈ fingers ↔ ∃ privateKey certificate, IsPair env queue finger privateKey certificate) ∧
      ids (supplementAttributes env queue supplements) = (fingers.flatMap fun finger =>
        ids ((firstOf env queue ckoPrivateKey finger).toList ++ (firstOf env queue ckoCertificate finger).toList)) ++ rest := by
  have hperm := env.iterate_perm (table env queue)
  have hmem : ∀ entry ∈ env.iterate (table env queue), entry ∈ table env queue := fun _ => hperm.mem_iff.mp
  have hids : ∃ rest, ids (supplementAttributes env queue supplements) = ids (paired (env.iterate (table env queue))) ++ rest := by
    rw [supplementAttributes_eq himported, ids, List.map_append, ← ids, ids_flatMap_supplementPair]
    exact ⟨_, rfl⟩
  obtain ⟨rest, hrest⟩ := hids
  refine ⟨((env.iterate (table env queue)).filter fun entry => !entry.2.complete.isEmpty).map (·.1), rest, ?nodup,
    fun finger => ?members, ?front⟩
  case nodup =>
    have hkeys : (fingers (env.iterate (table env queue))).Nodup := (hperm.map _).nodup_iff.mpr (nodup_fingers_table env queue)
    exact hkeys.sublist (List.filter_sublist.map _)
  case members =>
    simp only [List.mem_map, List.mem_filter]
    constructor
    case mp =>
      rintro ⟨entry, ⟨hentry, hcomplete⟩, rfl⟩
      rcases complete_entry himported (hmem entry hentry) with ⟨hnil, -⟩ | ⟨privateKey, certificate, hpair, -⟩
      · rw [hnil] at hcomplete
        cases hcomplete
      · exact ⟨privateKey, certificate, hpair⟩
    case mpr =>
      rintro ⟨privateKey, certificate, hpair⟩
      exact ⟨_, ⟨hperm.mem_iff.mpr (hpair.mem_table himported), rfl⟩, rfl⟩
  case front => rw [hrest, ids_paired_eq himported hmem]

theorem ids_enqueued (attrs : List Attributes) : ids (enqueued attrs) = List.range attrs.length := by
  apply List.ext_getElem <;> simp [ids, enqueued]

theorem mem_enqueued {attrs : List Attributes} (h : item ∈ enqueued attrs) : item.attrs ∈ attrs := by
  obtain ⟨i, hi, rfl⟩ := List.mem_mapIdx.mp h
  exact List.getElem_mem hi

-- The templates of an import are those that are wanted where nothing is added to an item that it has already, and where
-- either both of a pair or none have an id of their own, which has to be the same.
theorem supplementAttributes_consistent_iff (env : Env) (attrs : List Attributes) (supplements : Attributes)
    (himported : ∀ a ∈ attrs, IsImported a) (hunique : Unique env (enqueued attrs)) :
    Templates env (enqueued attrs) supplements (supplementAttributes env (enqueued attrs) supplements) ↔
      Consistent env (enqueued attrs) supplements := by
  have hnodup : (ids (enqueued attrs)).Nodup := by
    rw [ids_enqueued]
    exact List.nodup_range
  have hall : ∀ item ∈ enqueued attrs, IsImported item.attrs := fun item hitem => himported _ (mem_enqueued hitem)
  generalize enqueued attrs = queue at hnodup hall hunique
  constructor
  case mp =>
    intro h
    have hfits : ∀ item ∈ queue, Fits item.attrs [] ∧ (Supplemented env queue item → Fits item.attrs (given supplements)) := by
      intro item hitem
      obtain ⟨t, hmem, -, htemplate⟩ := exists_template supplements hall hnodup hitem
      exact htemplate.once_iff.mp (h.once t hmem)
    refine ⟨fun finger privateKey certificate hpair => ?_, fun item hitem => (hfits item hitem).1,
      fun item hitem => (hfits item hitem).2⟩
    have hin := hpair.privateKey_in
    have hin' := hpair.certificate_in
    obtain ⟨t, hmem, hid, htemplate⟩ := exists_template supplements hall hnodup hin.mem
    obtain ⟨t', hmem', hid', htemplate'⟩ := exists_template supplements hall hnodup hin'.mem
    have hsame := h.sameId finger privateKey certificate hpair t hmem t' hmem' hid hid'
    rw [htemplate.of_pair hin, htemplate'.of_pair hin'] at hsame
    exact (sameIds_iff ((hfits _ hin.mem).2 (.inl ⟨_, hin⟩)) ((hfits _ hin'.mem).2 (.inl ⟨_, hin'⟩))).mp hsame
  case mpr =>
    intro h
    refine ⟨supplementAttributes_perm env supplements hnodup, templates_front hall supplements, ?sameId, ?different, ?token,
      ?remaining, ?once⟩
    case sameId =>
      intro finger privateKey certificate hpair t hmem t' hmem' hid hid'
      have hin := hpair.privateKey_in
      have hin' := hpair.certificate_in
      rw [(isTemplate_of_id hall hnodup hin.mem hmem hid).of_pair hin,
        (isTemplate_of_id hall hnodup hin'.mem hmem' hid').of_pair hin']
      exact (sameIds_iff (h.given _ hin.mem (.inl ⟨_, hin⟩)) (h.given _ hin'.mem (.inl ⟨_, hin'⟩))).mpr
        (h.sameIds finger privateKey certificate hpair)
    case different =>
      intro item hitem item' hitem' hne hgenerated hgenerated' hpair t hmem t' hmem' hid hid' hsame
      obtain ⟨data, hdata, hfrom⟩ := (isTemplate_of_id hall hnodup hitem hmem hid).generated hgenerated
      obtain ⟨data', hdata', hfrom'⟩ := (isTemplate_of_id hall hnodup hitem' hmem' hid').generated hgenerated'
      rw [hdata, hdata'] at hsame
      have hhash : env.hash data = env.hash data' := by simpa using hsame
      exact hunique.data (List.mem_map_of_mem hitem) (List.mem_map_of_mem hitem') hne hpair hfrom hfrom' hhash
    case token =>
      intro t hmem
      obtain ⟨item, -, htemplate⟩ := isTemplate_of_mem hall hmem
      rcases htemplate.attrs_eq with ⟨-, data, hattrs⟩ | ⟨-, data, hattrs⟩
      all_goals rw [hattrs, findBoolean_template_token]
    case remaining =>
      intro item hitem t hmem hid attr hattr htoken hprivate
      rcases (isTemplate_of_id hall hnodup hitem hmem hid).attrs_eq with ⟨-, data, hattrs⟩ | ⟨-, data, hattrs⟩
      all_goals
        rw [hattrs]
        exact mem_template hattr htoken hprivate
    case once =>
      intro t hmem
      obtain ⟨item, hitem, htemplate⟩ := isTemplate_of_mem hall hmem
      exact htemplate.once_iff.mpr ⟨h.fits item hitem, h.given item hitem⟩

-- A private key with a modulus has the fingerprint of the certificate with the value 30 00, and the addresses are the
-- numbers of items.
def plainEnv : Env where
  fingerprint attrs :=
    if (find attrs ckaModulus).isSome ∨ find attrs ckaValue = some ⟨ckaValue, some [0x30, 0]⟩ then some (List.replicate 20 1)
    else none
  hash              := id
  pointer item      := List.replicate 7 0 ++ [UInt8.ofNat item.id]
  iterate           := id
  iterate_perm _    := .refl _

def certificateAttrs : Attributes :=
  [⟨ckaClass, ofUlong ckoCertificate⟩, ⟨ckaValue, some [0x30, 0]⟩]

def keyAttrs : Attributes :=
  [⟨ckaClass, ofUlong ckoPrivateKey⟩, ⟨ckaModulus, some [15]⟩]

theorem plainEnv_unique {attrs : List Attributes} (h : attrs.length ≤ 256) : Unique plainEnv (enqueued attrs) where
  finger  := by
    intro attrs finger h
    obtain ⟨-, ⟨⟩⟩ := Option.ite_none_right_eq_some.mp h
    exact List.length_replicate
  address := fun _ => rfl
  item    := by
    intro item item' hid hid' hsame
    rw [ids_enqueued, List.mem_range] at hid hid'
    have hbyte : UInt8.ofNat item.id = UInt8.ofNat item'.id := by simpa [plainEnv] using hsame
    have hmod : item.id % 256 = item'.id % 256 := by simpa using congrArg UInt8.toNat hbyte
    omega
  hash    := fun _ _ _ _ h => h

-- A certificate that is queued before its key, and one without a key.
def exampleQueue : List Item :=
  enqueued [certificateAttrs, [⟨ckaClass, ofUlong ckoCertificate⟩, ⟨ckaValue, some [0x30, 1, 0]⟩], keyAttrs]

theorem exampleQueue_consistent : Consistent plainEnv exampleQueue [⟨ckaLabel, some [120]⟩] := by
  have hid : ∀ item ∈ exampleQueue, find item.attrs ckaId = none := by decide
  have hfits : ∀ item ∈ exampleQueue, Fits item.attrs [] ∧ Fits item.attrs [⟨ckaLabel, some [120]⟩] := by
    intro item hitem
    obtain rfl | rfl | rfl : item = ⟨0, certificateAttrs⟩ ∨ item = ⟨1, _⟩ ∨ item = ⟨2, keyAttrs⟩ := by
      simpa [exampleQueue, enqueued] using hitem
    all_goals exact ⟨⟨by decide, by decide, by decide, by decide⟩, ⟨by decide, by decide, by decide, by decide⟩⟩
  constructor
  case sameIds =>
    intro finger privateKey certificate hpair
    exact .inl ((hid _ (List.mem_of_find?_eq_some hpair.privateKey)).trans
      (hid _ (List.mem_of_find?_eq_some hpair.certificate)).symm)
  case fits  => exact fun item hitem => (hfits item hitem).1
  case given => exact fun item hitem _ => (hfits item hitem).2

-- A label is supplemented for both of the pair.
theorem certificate_consistent_iff :
    IsPair plainEnv exampleQueue (List.replicate 20 1) ⟨2, keyAttrs⟩ ⟨0, certificateAttrs⟩ ∧
      Templates plainEnv exampleQueue [⟨ckaLabel, some [120]⟩]
        (supplementAttributes plainEnv exampleQueue [⟨ckaLabel, some [120]⟩]) := by
  refine ⟨⟨rfl, rfl⟩, (supplementAttributes_consistent_iff _ _ _ ?_ (plainEnv_unique (by decide))).mpr
    exampleQueue_consistent⟩
  simp only [List.forall_mem_cons]
  exact ⟨.inl (by decide), .inl (by decide), .inr (by decide), by simp⟩

-- The label that is queued with a certificate is supplemented, too.
theorem not_supplementAttributes_consistent : ¬∀ (env : Env) (attrs : List Attributes) (supplements : Attributes),
    (∀ a ∈ attrs, IsImported a) → Unique env (enqueued attrs) →
      Templates env (enqueued attrs) supplements (supplementAttributes env (enqueued attrs) supplements) := by
  intro h
  let queued := pkcs11ImporterQueue (some [120]) certificateAttrs
  have himported : ∀ a ∈ [queued], IsImported a := List.forall_mem_singleton.mpr (.inl (by decide))
  have htemplates := h plainEnv [queued] (supplementPrep (enqueued [queued])) himported (plainEnv_unique (by decide))
  have honce : ∀ t ∈ supplementAttributes plainEnv (enqueued [queued]) (supplementPrep (enqueued [queued])),
      (types t.attrs).Nodup := htemplates.once
  exact absurd (honce _ (List.mem_singleton.mpr rfl)) (by decide)

end Consistency

end Pkcs11Importer
