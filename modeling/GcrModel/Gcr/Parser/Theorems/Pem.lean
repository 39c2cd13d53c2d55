import GcrModel.Gcr.Parser.Pem
import GcrModel.Library.Scan
import Mathlib.Data.Multiset.ZeroCons

-- The results of the blocks of armor, and what is made of them.
namespace Parser

open GLib

-- What comes of one block. The type of some is none that is known.
def handleBlock (lib : Library) (backend : Backend) (want : Option Inner) (found : Armor.Found × Bytes) : ParserM Code :=
  match formatsForArmorType found.1.type with
  | none                      => pure .unrecognized
  | some (inner, outerFormat) =>
    withParsed fun parsed => do
      parsingBlock parsed outerFormat found.2
      handlePemBlock lib backend want inner found.1 found.2

-- The results of the blocks one after the other, up to the first failure.
inductive Results (lib : Library) (backend : Backend) (want : Option Inner) :
    State → List (Armor.Found × Bytes) → List Code → Prop
  | done {s : State} : Results lib backend want s [] []
  | failure {s s' : State} {block : Armor.Found × Bytes} {blocks : List (Armor.Found × Bytes)} :
    handleBlock lib backend want block s = .ok (.failure, s') →
    Results lib backend want s (block :: blocks) [.failure]
  | next {s s' : State} {block : Armor.Found × Bytes} {blocks : List (Armor.Found × Bytes)} {res : Code} {results : List Code} :
    handleBlock lib backend want block s = .ok (res, s') → res ≠ .failure →
    Results lib backend want s' blocks results → Results lib backend want s (block :: blocks) (res :: results)

variable {lib : Library} {backend : Backend} {want : Option Inner} {s s' : State} {result res : Code} {results : List Code}
  {block : Armor.Found × Bytes} {blocks : List (Armor.Found × Bytes)}

-- What results come to, in whatever order they are.
def verdict (results : Multiset Code) : Code :=
  if .failure ∈ results then .failure
  else if .locked ∈ results then .locked
  else if .cancelled ∈ results then .cancelled
  else if .success ∈ results then .success
  else .unrecognized

-- What is promised of the result.
structure Reported (results : List Code) (result : Code) : Prop where
  failure : .failure ∈ results → result = .failure
  success : result = .success → .success ∈ results ∧ ∀ res ∈ results, res = .success ∨ res = .unrecognized
  order   : result = verdict results

theorem reported_verdict (results : List Code) : Reported results (verdict results) where
  failure h := if_pos (Multiset.mem_coe.mpr h)
  success h := by
    rw [verdict] at h
    split_ifs at h with hfailure hlocked hcancelled hsuccess
    refine ⟨Multiset.mem_coe.mp hsuccess, fun res hres => ?_⟩
    cases res with
    | success      => exact .inl rfl
    | unrecognized => exact .inr rfl
    | failure      => exact absurd hres hfailure
    | locked       => exact absurd hres hlocked
    | cancelled    => exact absurd hres hcancelled
  order     := rfl

-- No block fails unless it is the first that is recognised.
def FirstFails (results : List Code) : Prop :=
  .failure ∈ results → (results.filter (· ≠ .unrecognized)).head? = some .failure

section Merge

theorem mergeResult_unrecognized (result : Code) : mergeResult result .unrecognized = result :=
  if_pos rfl

theorem unrecognized_mergeResult (res : Code) : mergeResult .unrecognized res = res := by
  rw [mergeResult]
  split
  case isTrue h => exact h.symm
  case isFalse  => exact if_pos rfl

-- A failure is merged into nothing that was recognised before.
theorem mergeResult_ne_failure (hfailure : result ≠ .failure) (hrecognized : result ≠ .unrecognized) (res : Code) :
    mergeResult result res ≠ .failure ∧ mergeResult result res ≠ .unrecognized := by
  cases result with
  | failure      => exact absurd rfl hfailure
  | unrecognized => exact absurd rfl hrecognized
  | success      => cases res <;> decide
  | cancelled    => cases res <;> decide
  | locked       => cases res <;> decide

theorem mergeResult_ne (h : result ≠ .failure) (hres : res ≠ .failure) : mergeResult result res ≠ .failure := by
  by_cases hrecognized : result = .unrecognized
  case pos =>
    rw [hrecognized, unrecognized_mergeResult]
    exact hres
  case neg => exact (mergeResult_ne_failure h hrecognized res).1

theorem verdict_merge (m : Multiset Code) (h : result ≠ .failure) (hres : res ≠ .failure) :
    verdict (mergeResult result res ::ₘ m) = verdict (result ::ₘ res ::ₘ m) := by
  cases result <;> cases res <;> simp_all [verdict, mergeResult, Code.toInt]

theorem foldl_mergeResult (h : result ≠ .failure) (hresults : .failure ∉ results) :
    results.foldl mergeResult result = verdict ((result :: results : List Code) : Multiset Code) := by
  induction results generalizing result with
  | nil => cases result <;> simp_all [verdict]
  | cons res results ih =>
    rw [List.mem_cons, not_or] at hresults
    obtain ⟨hres, hrest⟩ := hresults
    rw [List.foldl_cons, ih (mergeResult_ne h (Ne.symm hres)) hrest]
    exact verdict_merge results h (Ne.symm hres)

end Merge

section Blocks

theorem handlePemData_failure : handlePemData lib backend want .failure block s = .ok (.failure, s) := by
  rw [handlePemData, if_pos rfl]
  rfl

-- The block is handled and its result is merged, unless something failed.
theorem handlePemData_eq (h : result ≠ .failure) (hblock : handleBlock lib backend want block s = .ok (res, s')) :
    handlePemData lib backend want result block s = .ok (mergeResult result res, s') := by
  rw [handleBlock] at hblock
  rw [handlePemData, if_neg h]
  cases hformats : formatsForArmorType block.1.type with
  | none =>
    rw [hformats] at hblock
    cases hblock
    rw [mergeResult_unrecognized]
    rfl
  | some formats =>
    rw [hformats] at hblock
    exact Returns.bind_ok hblock

theorem handlePemBlocks_failure : handlePemBlocks lib backend want .failure blocks s = .ok (.failure, s) := by
  induction blocks with
  | nil => rfl
  | cons block blocks ih =>
    rw [handlePemBlocks, List.foldlM_cons, Returns.bind_ok handlePemData_failure]
    exact ih

theorem handlePemBlocks_cons (h : result ≠ .failure) (hblock : handleBlock lib backend want block s = .ok (res, s')) :
    handlePemBlocks lib backend want result (block :: blocks) s =
      handlePemBlocks lib backend want (mergeResult result res) blocks s' := by
  rw [handlePemBlocks, List.foldlM_cons, Returns.bind_ok (handlePemData_eq h hblock)]
  rfl

theorem handlePemData_error {fault : Fault} (h : result ≠ .failure) (hblock : handleBlock lib backend want block s = .error fault) :
    handlePemData lib backend want result block s = .error fault := by
  rw [handleBlock] at hblock
  rw [handlePemData, if_neg h]
  cases hformats : formatsForArmorType block.1.type with
  | none =>
    rw [hformats] at hblock
    cases hblock
  | some formats =>
    rw [hformats] at hblock
    exact Returns.bind_error hblock

-- Once a block was recognised and did not fail, no failure is reported any more.
theorem handlePemBlocks_ne_failure (hfailure : result ≠ .failure) (hrecognized : result ≠ .unrecognized)
    (h : handlePemBlocks lib backend want result blocks s = .ok (res, s')) : res ≠ .failure := by
  induction blocks generalizing result s with
  | nil =>
    cases h
    exact hfailure
  | cons block blocks ih =>
    cases hblock : handleBlock lib backend want block s with
    | error fault =>
      rw [handlePemBlocks, List.foldlM_cons, Returns.bind_error (handlePemData_error hfailure hblock)] at h
      cases h
    | ok x =>
      rw [handlePemBlocks_cons hfailure hblock] at h
      obtain ⟨hfailure', hrecognized'⟩ := mergeResult_ne_failure hfailure hrecognized x.1
      exact ih hfailure' hrecognized' h

theorem Results.returns (h : Results lib backend want s blocks results) (hresult : result ≠ .failure)
    (hresults : .failure ∉ results) :
    Returns (handlePemBlocks lib backend want result blocks) s fun res _ => res = results.foldl mergeResult result := by
  induction h generalizing result with
  | done => exact ⟨result, _, rfl, rfl⟩
  | failure => exact absurd List.mem_cons_self hresults
  | next hblock hne _ ih =>
    obtain ⟨res, s', heq, hres⟩ := ih (mergeResult_ne hresult hne) (List.not_mem_of_not_mem_cons hresults)
    exact ⟨res, s', (handlePemBlocks_cons hresult hblock).trans heq, hres⟩

-- Where the first block that is recognised fails, so does the whole.
theorem Results.returns_failure (h : Results lib backend want s blocks results)
    (hfirst : (results.filter (· ≠ .unrecognized)).head? = some .failure) :
    Returns (handlePemBlocks lib backend want .unrecognized blocks) s fun res _ => res = .failure := by
  induction h with
  | done => cases hfirst
  | @failure _ s' _ _ hblock =>
    refine ⟨.failure, s', ?_, rfl⟩
    rw [handlePemBlocks_cons (by decide) hblock, unrecognized_mergeResult]
    exact handlePemBlocks_failure
  | @next _ _ _ _ res _ hblock hne _ ih =>
    by_cases hres : res = .unrecognized
    case neg =>
      rw [List.filter_cons_of_pos (by simpa using hres), List.head?_cons] at hfirst
      exact absurd (Option.some.inj hfirst) hne
    case pos =>
      subst hres
      rw [List.filter_cons_of_neg (by simp)] at hfirst
      obtain ⟨res, s', heq, hres⟩ := ih hfirst
      exact ⟨res, s', (handlePemBlocks_cons (by decide) hblock).trans heq, hres⟩

-- Where it is another one that fails, its failure is lost.
theorem Results.ne_failure (h : Results lib backend want s blocks results)
    (hfirst : (results.filter (· ≠ .unrecognized)).head? ≠ some .failure)
    (hreturn : handlePemBlocks lib backend want .unrecognized blocks s = .ok (res, s')) : res ≠ .failure := by
  induction h with
  | done =>
    cases hreturn
    decide
  | failure => exact absurd rfl hfirst
  | @next _ _ _ _ first _ hblock hne _ ih =>
    rw [handlePemBlocks_cons (by decide) hblock, unrecognized_mergeResult] at hreturn
    by_cases hfirst' : first = .unrecognized
    case neg => exact handlePemBlocks_ne_failure hne hfirst' hreturn
    case pos =>
      subst hfirst'
      rw [List.filter_cons_of_neg (by simp)] at hfirst
      exact ih hfirst hreturn

end Blocks

-- There are none in no bytes.
def blocksOf (lib : Library) (data : Bytes) : Except Armor.Fault (List (Armor.Found × Bytes)) :=
  if data = [] then .ok [] else lib.armor data

theorem handlePemFormat_eq {data : Bytes} (h : blocksOf lib data = .ok blocks) :
    handlePemFormat lib backend want data = handlePemBlocks lib backend want .unrecognized blocks := by
  rw [handlePemFormat]
  rw [blocksOf] at h
  split
  case isTrue hdata  =>
    cases (if_pos hdata).symm.trans h
    rfl
  case isFalse hdata =>
    rw [(if_neg hdata).symm.trans h]
    rfl

-- The result is what the blocks come to in any order, but for a failure behind a block that was recognised and did not fail.
theorem handlePemFormat_reported_iff {data : Bytes} (hblocks : blocksOf lib data = .ok blocks)
    (h : Results lib backend want s blocks results) :
    (Returns (handlePemFormat lib backend want data) s fun result _ => Reported results result) ↔ FirstFails results := by
  rw [handlePemFormat_eq hblocks]
  by_cases hfailure : .failure ∈ results
  case neg =>
    obtain ⟨res, s', heq, rfl⟩ := h.returns (by decide : Code.unrecognized ≠ .failure) hfailure
    refine iff_of_true ⟨_, s', heq, ?_⟩ fun hmem => absurd hmem hfailure
    rw [foldl_mergeResult (by decide) hfailure]
    have hverdict : verdict ((.unrecognized :: results : List Code) : Multiset Code) = verdict results := by
      simp [verdict]
    rw [hverdict]
    exact reported_verdict results
  case pos =>
    constructor
    · rintro ⟨res, s', heq, hreported⟩ -
      by_contra hfirst
      exact h.ne_failure hfirst heq (hreported.failure hfailure)
    · intro hfirst
      obtain ⟨res, s', heq, rfl⟩ := h.returns_failure (hfirst hfailure)
      refine ⟨_, s', heq, ?_⟩
      have hverdict : verdict results = .failure := if_pos (Multiset.mem_coe.mpr hfailure)
      rw [← hverdict]
      exact reported_verdict results

section Example

-- An encrypted key without the header that says how, and a certificate.
def exampleEncrypted : Armor.Found × Bytes :=
  (⟨pemRsaPrivateKey, [48, 0], 0, 0, some [(procType, encryptedType)]⟩, [])

def exampleCertificate : Armor.Found × Bytes :=
  (⟨pemCertificate, [48, 0], 0, 0, none⟩, [])

-- A library that takes everything for a certificate without names, with these blocks in the text of one byte.
def exampleLibrary : Library where
  asn1    := {
    subjectPublicKeyInfo    := fun _ => none
    rsaPublicKey            := fun _ => none
    dsaPublicPart           := fun _ => none
    dsaParameters           := fun _ => none
    ecPoint                 := fun _ => none
    privateKeyInfo          := fun _ => none
    certificate             := fun _ => some ⟨none, none, none, none⟩
    contentInfo             := fun _ => none
    signedData              := fun _ => none
    certBag                 := fun _ => none
    pkcs7Data               := fun _ => none
    certificationRequest    := fun _ => none
    signedPublicKey         := fun _ => false
    rsaPrivateKey           := fun _ => none
    dsaPrivateKey           := fun _ => none
    dsaPrivatePart          := fun _ => none
    ecPrivateKey            := fun _ => none
    encryptedPrivateKeyInfo := fun _ => none
    encryptedData           := fun _ => none
    safeContents            := fun _ => none
    authenticatedSafe       := fun _ => none
    pfx                     := fun _ => none
    elementLength           := fun _ => none }
  gnutls  := ⟨true, fun _ _ => none, fun _ _ => none, fun _ => none, fun _ _ => none⟩
  gcrypt  := ⟨fun _ _ _ => none, fun _ _ _ => none, fun _ _ _ => none⟩
  armor   := fun data =>
    .ok (if data = [0] then [exampleEncrypted, exampleCertificate] else [exampleCertificate, exampleEncrypted])
  hashes  := ⟨fun _ => ⟨List.replicate 20 0, rfl⟩, fun _ => ⟨List.replicate 20 0, rfl⟩⟩
  now     := fun _ => 0
  openssh := fun _ => []
  base64  := fun _ => none

-- What the certificate leaves.
def exampleState : State :=
  (handleBlock exampleLibrary .libgcrypt none exampleCertificate {}).toOption.elim {} (·.2)

theorem handleBlock_exampleCertificate :
    handleBlock exampleLibrary .libgcrypt none exampleCertificate {} = .ok (.success, exampleState) := by
  decide +kernel

theorem handleBlock_exampleEncrypted :
    handleBlock exampleLibrary .libgcrypt none exampleEncrypted exampleState = .ok (.failure, exampleState) ∧
    handleBlock exampleLibrary .libgcrypt none exampleEncrypted {} = .ok (.failure, {}) := by
  decide +kernel

-- The key in front of the certificate.
theorem handlePemFormat_reported_iff_encrypted :
    (Returns (handlePemFormat exampleLibrary .libgcrypt none [0]) {} fun result _ => Reported [.failure] result) ↔
      FirstFails [.failure] :=
  handlePemFormat_reported_iff rfl (.failure handleBlock_exampleEncrypted.2)

-- Behind the certificate its failure is lost.
theorem not_handlePemFormat_reported : ¬∀ (lib : Library) (backend : Backend) (want : Option Inner) (data : Bytes) (s : State)
    (blocks : List (Armor.Found × Bytes)) (results : List Code), blocksOf lib data = .ok blocks →
    Results lib backend want s blocks results →
    Returns (handlePemFormat lib backend want data) s fun result _ => Reported results result := by
  intro h
  have hresults : Results exampleLibrary .libgcrypt none {} [exampleCertificate, exampleEncrypted] [.success, .failure] :=
    .next handleBlock_exampleCertificate (by decide) (.failure (handleBlock_exampleEncrypted).1)
  obtain ⟨result, s', heq, hreported⟩ := h exampleLibrary .libgcrypt none [1] {} _ _ rfl hresults
  have hsuccess : (handlePemFormat exampleLibrary .libgcrypt none [1] {}).map (·.1) = .ok .success := by
    decide +kernel
  rw [heq, hreported.failure (by decide)] at hsuccess
  cases hsuccess

end Example

end Parser
