import GcrModel.Egg.SecureMemory.Theorems.Client
import GcrModel.GLib.Strings

-- Strings in secure memory. `none` is a read outside of the memory, or a pointer that is `NULL` and written to.
namespace SecureMemory

open GLib

-- The distance to the first NUL among the first bytes.
def memchr : Bytes → Nat → Option (Option Nat)
  | _,        0          => some none
  | [],       _ + 1      => none
  | c :: str, length + 1 => if c = 0 then some (some 0) else (memchr str length).map (·.map (· + 1))

-- The string at an address, where so many bytes can be read.
def strlen (mem : Memory Byte) : Nat → Nat → Option Nat
  | 0,        _      => none
  | room + 1, memory => if (mem memory).val = 0 then some 0 else (strlen mem room (memory + 1)).map (· + 1)

-- Bytes of the client that are written to an address.
def State.write (s : State) (memory : Nat) (bytes : Bytes) : State :=
  { s with heap := { s.heap with mem := s.heap.mem.store memory bytes.length fun i => .client (bytes.getD i 0) } }

-- `strcpy` copies the NUL as well.
def eggSecureStrdupFull (host : Host) (tag : Option String) (str : Option CString) (options : Bool) (s : State) :
    Option (Option Nat × State) :=
  match str with
  | none     => some (none, s)
  | some str => do
    let (res, s) ← eggSecureAllocFull host tag (str.bytes.length + 1) options s
    let res ← res
    some (some res, s.write res (str.bytes ++ [0]))

-- `str` is the memory that can be read.
def eggSecureStrndupFull (host : Host) (tag : Option String) (str : Option Bytes) (length : Nat) (options : Bool)
    (s : State) : Option (Option Nat × State) :=
  match str with
  | none     => some (none, s)
  | some str => do
    let length := (← memchr str length).getD length
    let len := (length + 1) % 2 ^ 64
    let (res, s) ← eggSecureAllocFull host tag len options s
    let res ← res
    if str.length < len then none else some (some res, s.write res (str.take len))

def eggSecureClear (memory length : Nat) (s : State) : State :=
  if memory = 0 then s
  else { s with heap := { s.heap with mem := s.heap.mem.fill memory length (.client 0xAA) } }

def eggSecureStrclear (room memory : Nat) (s : State) : Option State :=
  if memory = 0 then some s
  else (strlen s.heap.mem room memory).map fun length => eggSecureClear memory length s

def eggSecureStrfree (host : Host) (room memory : Nat) (s : State) : Option State :=
  (eggSecureStrclear room memory s).bind (eggSecureFreeFull host memory true)

-- A string in memory of its own, with a NUL behind it. It is cleared without anything else being written, and freed.
structure Terminated (host : Host) (live : List (Nat × Nat)) (text : Bytes) (memory len : Nat) (s s' : State) : Prop where
  fits  : text.length < len
  bytes : ∀ i (hi : i < text.length), s'.heap.mem (memory + i) = .client text[i]
  nul   : (s'.heap.mem (memory + text.length)).val = 0
  inv   : Inv host s' ((memory, len) :: live)
  kept  : ∀ a ∈ live, Preserves s.heap s'.heap a
  clear : ∃ s'', eggSecureStrclear len memory s' = some s'' ∧
    s''.heap.mem = s'.heap.mem.fill memory text.length (.client 0xAA)
  free  : ∃ s'', eggSecureStrfree host len memory s' = some s'' ∧ Inv host s'' live ∧ ∀ a ∈ live, Preserves s'.heap s''.heap a

-- The bytes in front of a NUL, or in front of the length.
def bounded (str : Bytes) (length : Nat) : Bytes :=
  cstr (str.take length)

variable {host : Host} {s s₁ s₂ : State} {live : List (Nat × Nat)} {tag : Option String} {options : Bool}
  {memory len length room : Nat} {str text : Bytes}

-- The search ends at a NUL, or reads all the bytes.
theorem memchr_eq (str : Bytes) (length : Nat) : memchr str length =
    if 0 ∈ str.take length then some (some (bounded str length).length)
    else if length ≤ str.length then some none else none := by
  induction str generalizing length with
  | nil =>
    cases length with
    | zero        => rfl
    | succ length => rfl
  | cons c str ih =>
    cases length with
    | zero        => simp [memchr]
    | succ length =>
      rw [memchr, ih, bounded, bounded, List.take_succ_cons, cstr, cstr]
      by_cases hc : c = 0
      · simp [hc]
      · simp only [hc, if_false, List.mem_cons, Ne.symm hc, false_or, List.length_cons, Nat.succ_le_succ_iff]
        split
        case isTrue  => simp [hc]
        case isFalse => split <;> rfl

-- A NUL behind bytes that are none.
theorem strlen_eq {mem : Memory Byte} (hroom : text.length < room) (hnul : 0 ∉ text)
    (htext : ∀ i (hi : i < text.length), (mem (memory + i)).val = text[i]) (hend : (mem (memory + text.length)).val = 0) :
    strlen mem room memory = some text.length := by
  induction text generalizing room memory with
  | nil =>
    cases room with
    | zero      => exact absurd hroom (Nat.not_lt_zero _)
    | succ room => exact if_pos hend
  | cons c text ih =>
    cases room with
    | zero      => exact absurd hroom (Nat.not_lt_zero _)
    | succ room =>
      obtain ⟨hc, htext'⟩ := not_or.mp (List.mem_cons.not.mp hnul)
      have hfirst : (mem memory).val = c := htext 0 (Nat.succ_pos _)
      have hrest := @ih (memory + 1) room (Nat.lt_of_succ_lt_succ hroom) htext'
        (fun i hi => by
          have := htext (i + 1) (Nat.succ_lt_succ hi)
          rwa [Nat.add_assoc, Nat.add_comm 1 i])
        (by rwa [Nat.add_assoc, Nat.add_comm 1])
      rw [strlen, if_neg (by rw [hfirst]; exact Ne.symm hc), hrest]
      rfl

theorem mem_write (s : State) (memory : Nat) (bytes : Bytes) : (s.write memory bytes).heap.mem =
    s.heap.mem.store memory bytes.length fun i => .client (bytes.getD i 0) :=
  rfl

theorem mem_store {bytes : Bytes} {i : Nat} (hi : i < bytes.length) :
    (s.write memory bytes).heap.mem (memory + i) = .client bytes[i] := by
  have hget : bytes.getD i 0 = bytes[i] := by rw [List.getD_eq_getElem?_getD, List.getElem?_eq_getElem hi, Option.getD_some]
  rw [mem_write, Memory.store_eq hi, hget]

-- A string that is written with its NUL into memory that is as large.
theorem Terminated.of_written (i : Inv host s live) (hnul : 0 ∉ text)
    (halloc : eggSecureAllocFull host tag (text.length + 1) options s = some (some memory, s₁)) :
    Terminated host live text memory (text.length + 1) s (s₁.write memory (text ++ [0])) := by
  obtain ⟨m, s', he, i₁, hkept, -⟩ := eggSecureAllocFull_spec tag (text.length + 1) options i
  obtain ⟨rfl, rfl⟩ := Prod.mk.inj (Option.some.inj (halloc.symm.trans he))
  have i₁ : Inv host s₁ ((memory, text.length + 1) :: live) := i₁
  have ha : (memory, text.length + 1) ∈ (memory, text.length + 1) :: live := List.mem_cons_self
  have herase : ((memory, text.length + 1) :: live).erase (memory, text.length + 1) = live := List.erase_cons_head _ _
  have hpos : memory ≠ 0 := Nat.pos_iff_ne_zero.mp (i₁.pos ha).1
  have hlen : (text ++ [0]).length = text.length + 1 := by rw [List.length_append, List.length_singleton]
  obtain ⟨i₂, hkept₂⟩ := i₁.write (s₁.write memory (text ++ [0])).heap.mem ha fun x hx => by
    rw [mem_write, hlen]
    exact Memory.store_frame hx
  rw [herase] at hkept₂
  have hbytes : ∀ i (hi : i < text.length), (s₁.write memory (text ++ [0])).heap.mem (memory + i) = .client text[i] := by
    intro i hi
    rw [mem_store (by rw [hlen]; omega), List.getElem_append_left hi]
  have hend : ((s₁.write memory (text ++ [0])).heap.mem (memory + text.length)).val = 0 := by
    rw [mem_store (by rw [hlen]; omega), List.getElem_append_right (Nat.le_refl _)]
    simp [Byte.val]
  have hstrlen : strlen (s₁.write memory (text ++ [0])).heap.mem (text.length + 1) memory = some text.length :=
    strlen_eq (Nat.lt_succ_self _) hnul (fun i hi => by rw [hbytes i hi]; rfl) hend
  have hclear : eggSecureStrclear (text.length + 1) memory (s₁.write memory (text ++ [0])) =
      some (eggSecureClear memory text.length (s₁.write memory (text ++ [0]))) := by
    rw [eggSecureStrclear, if_neg hpos, hstrlen]
    rfl
  have hmem : (eggSecureClear memory text.length (s₁.write memory (text ++ [0]))).heap.mem =
      (s₁.write memory (text ++ [0])).heap.mem.fill memory text.length (.client 0xAA) := by
    rw [eggSecureClear, if_neg hpos]
  constructor
  case fits  => exact Nat.lt_succ_self _
  case bytes => exact hbytes
  case nul   => exact hend
  case inv   => exact i₂
  case kept  => exact fun a ha => (hkept a ha).trans (hkept₂ a ha)
  case clear => exact ⟨_, hclear, hmem⟩
  case free  =>
    obtain ⟨i₃, hkept₃⟩ := i₂.write (eggSecureClear memory text.length (s₁.write memory (text ++ [0]))).heap.mem ha
      fun x hx => by
        rw [hmem]
        refine Memory.fill_frame fun hx' => hx ?_
        simp only [Memory.mem_range] at hx' ⊢
        omega
    have hstate : eggSecureClear memory text.length (s₁.write memory (text ++ [0])) = { s₁.write memory (text ++ [0]) with
        heap := { (s₁.write memory (text ++ [0])).heap with
          mem := (eggSecureClear memory text.length (s₁.write memory (text ++ [0]))).heap.mem } } := by
      rw [eggSecureClear, if_neg hpos]
    obtain ⟨s'', hfree, i₄, hkept₄⟩ := eggSecureFreeFull_spec true i₃ ha fun _ => rfl
    rw [herase] at i₄ hkept₃ hkept₄
    refine ⟨s'', ?_, i₄, fun a ha => (hkept₃ a ha).trans (hkept₄ a ha)⟩
    rw [eggSecureStrfree, hclear, Option.bind_some, hstate]
    exact hfree

theorem not_insane_of_alloc {res : Nat} (halloc : eggSecureAllocFull host tag len options s = some (some res, s₁)) :
    len < 2 ^ 64 := by
  rw [eggSecureAllocFull] at halloc
  split at halloc
  case isTrue              => cases halloc
  case isFalse hinsane =>
    rw [insane] at hinsane
    omega

-- The copy is made of bytes in front of the length, and it is a string.
def Copied (host : Host) (live : List (Nat × Nat)) (tag : Option String) (str : Bytes) (length : Nat) (options : Bool)
    (s : State) (memory : Nat) : Prop :=
  ∃ s', eggSecureStrndupFull host tag (some (str.take length)) length options s = some (some memory, s') ∧
    eggSecureStrndupFull host tag (some str) length options s = some (some memory, s') ∧
    Terminated host live (bounded str length) memory ((bounded str length).length + 1) s s'

-- All that is read is in front of the NUL, and the NUL.
theorem strndup_of_nul (h : 0 ∈ str.take length)
    (halloc : eggSecureAllocFull host tag ((bounded str length).length + 1) options s = some (some memory, s₁)) :
    eggSecureStrndupFull host tag (some str) length options s =
      some (some memory, s₁.write memory (bounded str length ++ [0])) := by
  obtain ⟨behind, hsplit⟩ := exists_cstr h
  have htake : str = bounded str length ++ 0 :: (behind ++ str.drop length) := by
    conv_lhs => rw [← List.take_append_drop length str, hsplit]
    simp [bounded]
  have hcopy : str.take ((bounded str length).length + 1) = bounded str length ++ [0] := by
    have hfront : str = (bounded str length ++ [0]) ++ (behind ++ str.drop length) := by
      rwa [List.append_assoc]
    have hlen : (bounded str length ++ [0]).length = (bounded str length).length + 1 := by simp
    rw [← hlen]
    exact (congrArg (List.take _) hfront).trans List.take_left
  have hle : ¬str.length < (bounded str length).length + 1 := by
    have hlen := congrArg List.length htake
    simp only [List.length_append, List.length_cons] at hlen
    omega
  rw [eggSecureStrndupFull]
  dsimp only
  rw [memchr_eq, if_pos h, Option.bind_eq_bind, Option.bind_some, Option.getD_some,
    Nat.mod_eq_of_lt (not_insane_of_alloc halloc), halloc, Option.bind_eq_bind, Option.bind_some]
  dsimp only
  rw [Option.bind_eq_bind, Option.bind_some, if_neg hle, hcopy]

theorem Copied.nul (h : Copied host live tag str length options s memory) (hstr : 0 ∈ str.take length ∨ length ≤ str.length)
    (halloc : eggSecureAllocFull host tag ((bounded str length).length + 1) options s = some (some memory, s₁)) :
    0 ∈ str.take length := by
  by_contra hnul
  have hle : length ≤ str.length := hstr.resolve_left hnul
  have hlength : (str.take length).length = length := List.length_take_of_le hle
  have hbounded : bounded str length = str.take length := cstr_eq hnul
  rw [hbounded, hlength] at halloc
  obtain ⟨s', hcopy, -⟩ := h
  rw [eggSecureStrndupFull] at hcopy
  dsimp only at hcopy
  rw [memchr_eq, List.take_take, Nat.min_self, if_neg hnul, hlength, if_pos (Nat.le_refl _), Option.bind_eq_bind,
    Option.bind_some, Option.getD_none, Nat.mod_eq_of_lt (not_insane_of_alloc halloc), halloc, Option.bind_eq_bind,
    Option.bind_some] at hcopy
  dsimp only at hcopy
  rw [Option.bind_eq_bind, Option.bind_some, if_pos (Nat.lt_succ_self _)] at hcopy
  cases hcopy

theorem strdup_of_alloc {text : CString}
    (halloc : eggSecureAllocFull host tag (text.bytes.length + 1) options s = some (some memory, s₁)) :
    eggSecureStrdupFull host tag (some text) options s = some (some memory, s₁.write memory (text.bytes ++ [0])) := by
  rw [eggSecureStrdupFull]
  dsimp only
  rw [halloc, Option.bind_eq_bind, Option.bind_some]
  rfl

-- A copy of a whole string is one, and a copy of so many bytes is one if and only if there is a NUL among them.
theorem copied_iff {client : Client} (r : client.Reachable host) (hstr : 0 ∈ str.take length ∨ length ≤ str.length)
    (halloc : eggSecureAllocFull host tag ((bounded str length).length + 1) options client.state = some (some memory, s₁)) :
    (∀ {text : CString} {memory s₁},
      eggSecureAllocFull host tag (text.bytes.length + 1) options client.state = some (some memory, s₁) → ∃ s',
        eggSecureStrdupFull host tag (some text) options client.state = some (some memory, s') ∧
          Terminated host client.live text.bytes memory (text.bytes.length + 1) client.state s') ∧
    (Copied host client.live tag str length options client.state memory ↔ 0 ∈ str.take length) := by
  constructor
  · intro text memory s₁ halloc
    exact ⟨_, strdup_of_alloc halloc, .of_written r.inv text.nul halloc⟩
  · refine ⟨fun h => h.nul hstr halloc, fun h => ⟨_, ?_, strndup_of_nul h halloc, ?_⟩⟩
    · have hbounded : bounded (str.take length) length = bounded str length := by
        rw [bounded, List.take_take, Nat.min_self]
        rfl
      rw [← hbounded] at halloc
      have htaken := @strndup_of_nul _ _ _ _ _ _ _ (str.take length) (by rwa [List.take_take, Nat.min_self]) halloc
      rwa [hbounded] at htaken
    · exact .of_written r.inv (nul_notMem_cstr _) halloc

theorem start_reachable : Client.start.Reachable .small :=
  ⟨[], .start ⟨_, rfl⟩⟩

theorem alloc_start : ∃ s₁, eggSecureAllocFull .small none 3 true Client.start.state = some (some 0x20008, s₁) := by
  have h : (eggSecureAllocFull .small none 3 true Client.start.state).any fun x => x.1 = some 0x20008 := by
    decide +kernel
  obtain ⟨⟨memory, s₁⟩, halloc, hmemory⟩ := Option.any_eq_true _ _ |>.mp h
  obtain rfl : memory = some 0x20008 := of_decide_eq_true hmemory
  exact ⟨s₁, halloc⟩

theorem copied_start : (∀ {text : CString} {memory s₁},
      eggSecureAllocFull .small none (text.bytes.length + 1) true Client.start.state = some (some memory, s₁) → ∃ s',
        eggSecureStrdupFull .small none (some text) true Client.start.state = some (some memory, s') ∧
          Terminated .small [] text.bytes memory (text.bytes.length + 1) Client.start.state s') ∧
    (Copied .small [] none [97, 98, 0, 99] 4 true Client.start.state 0x20008 ↔ 0 ∈ [(97 : UInt8), 98, 0, 99]) := by
  obtain ⟨s₁, halloc⟩ := alloc_start
  exact @copied_iff _ _ _ _ _ _ [97, 98, 0, 99] _ start_reachable (by decide) halloc

-- Two bytes of a string that has more of them.
theorem not_copied_start : ¬Copied .small [] none [97, 98, 99, 0] 2 true Client.start.state 0x20008 := by
  obtain ⟨s₁, halloc⟩ := alloc_start
  intro h
  have hnul := @Copied.nul _ _ _ _ _ _ _ _ [97, 98, 99, 0] h (.inr (by decide)) halloc
  revert hnul
  decide

end SecureMemory
