import GcrModel.GLib.InputStream
import GcrModel.Egg.Buffer.Theorems.Codec

-- gcr-ssh-agent-util.c: the packets of a connection to an agent.
namespace SshAgent

open GLib EggBuffer

-- The size in the message is not set when the buffer has no four bytes.
inductive PacketError
  | critical
  | stream
  | connectionClosed
  | invalidPacketSize (packetSize : Option UInt32)
  deriving DecidableEq, Repr

-- Read into the memory of a buffer: there is no result where bytes behind it are written. The pointer may be NULL.
def readAll (isNull : Bool) (b : Buffer) (pos count : Nat) (s : InputStream) :
    Option (Except PacketError Nat × Buffer × InputStream) :=
  if isNull ∧ b.buf = [] then some (.error .critical, b, s)
  else
    let (ret, data, s) := s.readAll count
    (b.write pos data).map fun b => (if ret then .ok data.length else .error .stream, b, s)

variable (allocator : Option Allocator)

-- What a call of `egg_buffer_resize` leaves, whether it returned TRUE or not.
def resized (b : Buffer) (len : Nat) : Option Buffer :=
  (b.resize allocator len).map (·.2)

-- The size of the second read is added in 32 bits, and nobody looks at how many bytes it read.
def readBody (packetSize : UInt32) (b : Buffer) (s : InputStream) :
    Option (Except PacketError Unit × Buffer × InputStream) :=
  (resized allocator b (packetSize + 4).toNat).bind fun b =>
    (readAll false b 4 packetSize.toNat s).map fun (bytesRead, b, s) => (bytesRead.map fun _ => (), b, s)

def readPacket (isNull : Bool) (b : Buffer) (s : InputStream) :
    Option (Except PacketError Unit × Buffer × InputStream) :=
  (resized allocator b.reset 4).bind fun b =>
    (readAll isNull b 0 4 s).bind fun
      | (.error e, b, s)      => some (.error e, b, s)
      | (.ok bytesRead, b, s) =>
        if bytesRead < 4 then some (.error .connectionClosed, b, s)
        else
          match b.getUint32 0 with
          | none                      => none
          | some none                 => some (.error (.invalidPacketSize none), b, s)
          | some (some (packetSize, _)) =>
            if packetSize < 1 then some (.error (.invalidPacketSize (some packetSize)), b, s)
            else readBody allocator packetSize b s

variable {allocator : Option Allocator} {isNull : Bool} {b b' : Buffer} {s s₀ : InputStream} {packetSize : UInt32}

-- There is memory for so many bytes, or the allocator gives it.
def Reserves (allocator : Option Allocator) (b : Buffer) (len : Nat) : Prop :=
  (b.reserve allocator len).1 = true

-- How much memory there is after it was asked for.
def reservedLen (allocator : Option Allocator) (b : Buffer) (len : Nat) : Nat :=
  (b.reserve allocator len).2.buf.length

section Memory

-- How a buffer is reserved depends on how much memory it has, not on what is there.
theorem reserve_congr (hlen : b.buf.length = b'.buf.length) (hcalls : b.calls = b'.calls) (n : Nat) :
    (Reserves allocator b n ↔ Reserves allocator b' n) ∧ reservedLen allocator b n = reservedLen allocator b' n ∧
      (b.reserve allocator n).2.calls = (b'.reserve allocator n).2.calls := by
  simp only [Reserves, reservedLen, Buffer.reserve, hlen, hcalls]
  split
  case isTrue => exact ⟨Iff.rfl, hlen, hcalls⟩
  case isFalse =>
    cases allocator with
    | none           => exact ⟨Iff.rfl, hlen, hcalls⟩
    | some allocator =>
      dsimp only
      generalize allocator b'.calls _ = new
      cases new with
      | none     => exact ⟨Iff.rfl, hlen, rfl⟩
      | some new => exact ⟨Iff.rfl, by simp only [List.length_append, List.length_map, List.length_range, hlen], rfl⟩

theorem reserve_keeps (allocator : Option Allocator) (b : Buffer) (n : Nat) :
    b.buf <+: (b.reserve allocator n).2.buf ∧ (b.reserve allocator n).2.len = b.len := by
  rw [Buffer.reserve]
  split
  case isTrue => exact ⟨List.prefix_refl _, rfl⟩
  case isFalse =>
    cases allocator with
    | none           => exact ⟨List.prefix_refl _, rfl⟩
    | some allocator =>
      dsimp only
      split
      case h_1 => exact ⟨List.prefix_refl _, rfl⟩
      case h_2 => exact ⟨List.prefix_append _ _, rfl⟩

theorem reserve_fails {n : Nat} (h : ¬Reserves allocator b n) : (b.reserve allocator n).2.buf = b.buf := by
  rw [Reserves] at h
  rw [Buffer.reserve] at h ⊢
  split
  case isTrue hlt => exact absurd (by rw [if_pos hlt]) h
  case isFalse hlt =>
    rw [if_neg hlt] at h
    cases allocator with
    | none           => rfl
    | some allocator =>
      dsimp only at h ⊢
      split at h
      case h_1 hnone => rfl
      case h_2 => exact absurd rfl h

theorem le_reservedLen {n : Nat} (h : Reserves allocator b n) : n ≤ reservedLen allocator b n := by
  obtain ⟨ret, b', hreserve, -, -, hle⟩ := Buffer.reserve_spec allocator b n
  rw [Reserves, hreserve] at h
  rw [reservedLen, hreserve]
  exact hle h

-- The length is the new one only if there is memory.
theorem resized_spec (allocator : Option Allocator) (b : Buffer) (n : Nat) : ∃ b', resized allocator b n = some b' ∧
    b'.buf = (b.reserve allocator n).2.buf ∧ b'.calls = (b.reserve allocator n).2.calls ∧
    (Reserves allocator b n → b'.len = n) ∧ (¬Reserves allocator b n → b'.len = b.len) := by
  have hkeeps := (reserve_keeps allocator b n).2
  have hle := @le_reservedLen allocator b n
  rw [resized, Buffer.resize]
  rw [Reserves, reservedLen] at hle
  rw [Reserves]
  generalize b.reserve allocator n = r at hkeeps hle ⊢
  obtain ⟨_ | _, b'⟩ := r
  · exact ⟨b', rfl, rfl, rfl, nofun, fun _ => hkeeps⟩
  · dsimp only at hle ⊢
    rw [Buffer.setLen_eq (hle rfl)]
    exact ⟨_, rfl, rfl, rfl, fun _ => rfl, fun h => absurd rfl h⟩

theorem reset_memory (b : Buffer) :
    b.reset.buf.length = b.buf.length ∧ b.reset.calls = b.calls :=
  ⟨List.length_replicate, rfl⟩

variable {pos count : Nat}

theorem readAll_fits (h : ¬(isNull = true ∧ b.buf = [])) (hfits : pos + (s.content.take count).length ≤ b.buf.length) :
    ∃ b', readAll isNull b pos count s = some (if (s.readAll count).1 then .ok (s.content.take count).length else .error .stream,
        b', (s.readAll count).2.2) ∧
      b'.len = b.len ∧ b'.calls = b.calls ∧ b'.buf.length = b.buf.length ∧
      b'.buf.take (pos + (s.content.take count).length) = b.buf.take pos ++ s.content.take count := by
  obtain ⟨hdata, -, -⟩ := InputStream.readAll_spec count s
  obtain ⟨b', hwrite, hlen, hbuf, htake⟩ := Buffer.write_spec hfits
  have hcalls : b'.calls = b.calls := by
    rw [Buffer.write, dif_pos hfits] at hwrite
    cases hwrite
    rfl
  refine ⟨b', ?_, hlen, hcalls, hbuf, htake⟩
  rw [readAll, if_neg h]
  dsimp only
  rw [hdata, hwrite, Option.map_some]

theorem readAll_overrun (h : ¬(isNull = true ∧ b.buf = [])) (hlt : b.buf.length < pos + (s.content.take count).length) :
    readAll isNull b pos count s = none := by
  obtain ⟨hdata, -, -⟩ := InputStream.readAll_spec count s
  rw [readAll, if_neg h]
  dsimp only
  rw [hdata, Buffer.write, dif_neg (Nat.not_le_of_lt hlt), Option.map_none]

end Memory

-- What is promised of a packet: nothing is written behind the memory, and a call that succeeds has the next bytes of the
-- stream, of which there are as many as the first four say.
def Framed (s : InputStream) (x : Option (Except PacketError Unit × Buffer × InputStream)) : Prop :=
  ∃ ret b s', x = some (ret, b, s') ∧ (ret = .ok () → ∃ packetSize : UInt32, s.content.take 4 = encodeUint32 packetSize ∧
    b.len = packetSize.toNat + 4 ∧ b.bytes = s.content.take (packetSize.toNat + 4))

theorem framed_error {e : PacketError} : Framed s (some (.error e, b, s₀)) :=
  ⟨_, _, _, rfl, nofun⟩

-- The rest of a packet arrives, there is memory for it, and its size and four more are a number of 32 bits; where an
-- error comes first, there is memory for what arrives.
def Arrives (allocator : Option Allocator) (b : Buffer) (packetSize : UInt32) (s : InputStream) : Prop :=
  if s.failing = true ∧ s.content.length < packetSize.toNat + 4 then
    s.content.length ≤ reservedLen allocator b (packetSize + 4).toNat
  else
    packetSize.toNat + 4 < 2 ^ 32 ∧ Reserves allocator b (packetSize.toNat + 4) ∧ packetSize.toNat + 4 ≤ s.content.length

theorem encodeUint32_injective {val val' : UInt32} (h : encodeUint32 val = encodeUint32 val') : val = val' := by
  rw [← decodeUint32_encode val, h, decodeUint32_encode]

theorem toNat_add_four (h : packetSize.toNat + 4 < 2 ^ 32) : (packetSize + 4).toNat = packetSize.toNat + 4 := by
  rw [UInt32.toNat_add]
  exact Nat.mod_eq_of_lt h

theorem framed_ok_iff (hsize : s₀.content.take 4 = encodeUint32 packetSize) : Framed s₀ (some (.ok (), b, s)) ↔
    b.len = packetSize.toNat + 4 ∧ b.bytes = s₀.content.take (packetSize.toNat + 4) := by
  constructor
  · rintro ⟨_, _, _, ⟨⟩, h⟩
    obtain ⟨packetSize', hsize', hlen, hbytes⟩ := h rfl
    obtain rfl := encodeUint32_injective (hsize.symm.trans hsize')
    exact ⟨hlen, hbytes⟩
  · rintro ⟨hlen, hbytes⟩
    exact ⟨_, _, _, rfl, fun _ => ⟨packetSize, hsize, hlen, hbytes⟩⟩

theorem readBody_framed_iff (hlen : b.len = 4) (hbuf : 4 ≤ b.buf.length) (htake : b.buf.take 4 = s₀.content.take 4)
    (hsize : s₀.content.take 4 = encodeUint32 packetSize) (hpos : 1 ≤ packetSize.toNat)
    (hcontent : s.content = s₀.content.drop 4) (hfailing : s.failing = s₀.failing) :
    Framed s₀ (readBody allocator packetSize b s) ↔ Arrives allocator b packetSize s₀ := by
  have hheader : 4 ≤ s₀.content.length := by
    have := congrArg List.length hsize
    rw [Buffer.length_encodeUint32, List.length_take] at this
    omega
  obtain ⟨b₁, hresized, hbuf₁, -, hlen₁, hold⟩ := resized_spec allocator b (packetSize + 4).toNat
  have hlength : b₁.buf.length = reservedLen allocator b (packetSize + 4).toNat := congrArg List.length hbuf₁
  have hstart := (reserve_keeps allocator b (packetSize + 4).toNat).1
  have hnull : ¬(false = true ∧ b₁.buf = []) := nofun
  have hdata : (s.content.take packetSize.toNat).length = min packetSize.toNat (s₀.content.length - 4) := by
    rw [List.length_take, hcontent, List.length_drop]
  obtain ⟨-, hret, -⟩ := InputStream.readAll_spec packetSize.toNat s
  rw [hcontent, List.length_drop, hfailing] at hret
  rw [readBody, hresized, Option.bind_some, Arrives]
  by_cases hfits : 4 + (s.content.take packetSize.toNat).length ≤ b₁.buf.length
  case neg =>
    rw [readAll_overrun hnull (Nat.lt_of_not_le hfits), Option.map_none]
    refine iff_of_false (fun ⟨_, _, _, h, _⟩ => by cases h) ?_
    rw [hdata, hlength] at hfits
    split
    case isTrue hfail => omega
    case isFalse =>
      rintro ⟨hlt, hreserves, hall⟩
      have hle := le_reservedLen hreserves
      rw [toNat_add_four hlt] at hfits
      omega
  case pos =>
    obtain ⟨b₂, hread, hlen₂, -, hbuf₂, htake₂⟩ := readAll_fits hnull hfits
    rw [hread, Option.map_some]
    dsimp only
    by_cases hok : (s.readAll packetSize.toNat).1 = true
    case neg =>
      rw [if_neg hok, if_pos]
      · rw [hdata, hlength] at hfits
        exact iff_of_true framed_error (by rw [hret] at hok; omega)
      · rw [hret] at hok
        exact ⟨by simpa using (not_or.mp hok).2, by omega⟩
    case pos =>
      rw [if_pos hok, if_neg]
      · refine (framed_ok_iff hsize).trans ⟨?_, ?_⟩
        · rintro ⟨hlen', hbytes⟩
          have hreserves : Reserves allocator b (packetSize + 4).toNat := by
            by_contra hnot
            rw [hlen₂, hold hnot, hlen] at hlen'
            omega
          have hsum : (packetSize + 4).toNat = packetSize.toNat + 4 := by rw [← hlen', hlen₂, hlen₁ hreserves]
          have hall := congrArg List.length hbytes
          rw [Buffer.length_bytes, hlen', List.length_take] at hall
          exact ⟨hsum ▸ UInt32.toNat_lt _, hsum ▸ hreserves, by omega⟩
        · rintro ⟨hlt, hreserves, hall⟩
          rw [← toNat_add_four hlt] at hreserves
          have hlen' : b₂.len = packetSize.toNat + 4 := by rw [hlen₂, hlen₁ hreserves, toNat_add_four hlt]
          refine ⟨hlen', ?_⟩
          have htake₁ : b₁.buf.take 4 = s₀.content.take 4 := by
            rw [hbuf₁, ← htake, ← List.prefix_iff_eq_append.mp hstart, List.take_append_of_le_length hbuf]
          rw [hdata, Nat.min_eq_left (by omega), Nat.add_comm 4, htake₁, hcontent] at htake₂
          rw [Buffer.bytes, hlen', htake₂, Nat.add_comm, List.take_add]
      · rw [hret] at hok
        rintro ⟨hfail, hshort⟩
        obtain hall | hnot := hok
        · omega
        · cases hfail.symm.trans hnot

-- The first four bytes find memory, and so does the packet that they begin.
structure Frames (allocator : Option Allocator) (isNull : Bool) (b : Buffer) (s : InputStream) : Prop where
  header : Reserves allocator b 4 ∨ (isNull = true ∧ b.buf = []) ∨ (s.content.take 4).length ≤ b.buf.length
  body   : Reserves allocator b 4 → ∀ packetSize : UInt32, s.content.take 4 = encodeUint32 packetSize →
    1 ≤ packetSize.toNat → Arrives allocator (b.reserve allocator 4).2 packetSize s

theorem frames_of_short (hreserves : Reserves allocator b 4) (hshort : s.content.length < 4) : Frames allocator isNull b s := by
  refine ⟨.inl hreserves, fun _ packetSize hsize => ?_⟩
  have hlength := congrArg List.length hsize
  rw [Buffer.length_encodeUint32, List.length_take] at hlength
  omega

theorem arrives_congr (hlen : b.buf.length = b'.buf.length) (hcalls : b.calls = b'.calls) :
    Arrives allocator b packetSize s ↔ Arrives allocator b' packetSize s := by
  obtain ⟨hreserves, -⟩ := @reserve_congr allocator b b' hlen hcalls (packetSize.toNat + 4)
  obtain ⟨-, hreserved, -⟩ := @reserve_congr allocator b b' hlen hcalls (packetSize + 4).toNat
  rw [Arrives, Arrives, hreserves, hreserved]

-- A packet that is read with memory for the first four bytes.
theorem readPacket_framed_iff_arrives (hreserves : Reserves allocator b 4) :
    Framed s (readPacket allocator isNull b s) ↔ Frames allocator isNull b s := by
  obtain ⟨hlength, hcalls⟩ := reset_memory b
  obtain ⟨b₁, hresized, hbuf₁, hcalls₁, hlen₁, -⟩ := resized_spec allocator b.reset 4
  have hreset := (reserve_congr hlength hcalls 4).1.mpr hreserves
  have hle : 4 ≤ b₁.buf.length := by
    rw [hbuf₁]
    exact le_reservedLen hreset
  have hnull : ¬(isNull = true ∧ b₁.buf = []) := by
    rintro ⟨-, hempty⟩
    rw [hempty, List.length_nil] at hle
    omega
  obtain ⟨-, hret, hrest⟩ := InputStream.readAll_spec 4 s
  have hfits : 0 + (s.content.take 4).length ≤ b₁.buf.length := by
    rw [List.length_take]
    omega
  obtain ⟨b₂, hread, hlen₂, hcalls₂, hbuf₂, htake₂⟩ := readAll_fits hnull hfits
  rw [readPacket, hresized, Option.bind_some, hread, Option.bind_some]
  by_cases hshort : s.content.length < 4
  case pos =>
    refine iff_of_true ?_ (frames_of_short hreserves hshort)
    by_cases hok : (s.readAll 4).1 = true
    case neg =>
      rw [if_neg hok]
      exact framed_error
    case pos =>
      rw [if_pos hok]
      dsimp only
      rw [if_pos (by rw [List.length_take]; omega)]
      exact framed_error
  case neg =>
    have hfull : (s.content.take 4).length = 4 := by
      rw [List.length_take]
      omega
    have hok : (s.readAll 4).1 = true := hret.mpr (.inl (by omega))
    obtain ⟨hcontent, hfailing⟩ := hrest (by omega)
    rw [hfull, List.take_zero, List.nil_append, Nat.zero_add] at htake₂
    have hlen : b₂.len = 4 := hlen₂.trans (hlen₁ hreset)
    have hget : b₂.getUint32 0 = some (some (decodeUint32 (s.content.take 4), 4)) := by
      rw [Buffer.getUint32, Buffer.getNumber_eq, if_pos (Nat.le_of_eq hlen.symm), List.drop_zero, Buffer.bytes, hlen,
        List.take_take, Nat.min_self, htake₂]
    have hsize := (encodeUint32_decode hfull).symm
    rw [if_pos hok]
    dsimp only
    rw [if_neg (by omega), hget]
    dsimp only
    generalize decodeUint32 (s.content.take 4) = packetSize at hsize ⊢
    have hone : packetSize < 1 ↔ ¬1 ≤ packetSize.toNat := by
      rw [UInt32.lt_iff_toNat_lt]
      exact Nat.not_le.symm
    by_cases hzero : packetSize < 1
    case pos =>
      rw [if_pos hzero]
      refine iff_of_true framed_error ⟨.inl hreserves, fun _ packetSize' hsize' hpos => ?_⟩
      obtain rfl := encodeUint32_injective (hsize.symm.trans hsize')
      exact absurd hpos (hone.mp hzero)
    case neg =>
      rw [if_neg hzero]
      have hpos := not_not.mp (mt hone.mpr hzero)
      have hsame : b₂.buf.length = (b.reserve allocator 4).2.buf.length ∧ b₂.calls = (b.reserve allocator 4).2.calls := by
        obtain ⟨-, hreserved, hcalled⟩ := @reserve_congr allocator _ _ hlength hcalls 4
        exact ⟨hbuf₂.trans ((congrArg List.length hbuf₁).trans hreserved), hcalls₂.trans (hcalls₁.trans hcalled)⟩
      rw [readBody_framed_iff hlen (by omega) htake₂ hsize hpos hcontent hfailing,
        arrives_congr hsame.1 hsame.2]
      constructor
      · intro h
        refine ⟨.inl hreserves, fun _ packetSize' hsize' _ => ?_⟩
        obtain rfl := encodeUint32_injective (hsize.symm.trans hsize')
        exact h
      · exact fun h => h.body hreserves packetSize hsize hpos

-- Without memory for them only the first bytes are read, and no size.
theorem readPacket_framed_iff_header (hnot : ¬Reserves allocator b 4) :
    Framed s (readPacket allocator isNull b s) ↔ Frames allocator isNull b s := by
  obtain ⟨hlength, hcalls⟩ := reset_memory b
  obtain ⟨b₁, hresized, hbuf₁, -, -, hlen₁⟩ := resized_spec allocator b.reset 4
  have hreset := mt (@reserve_congr allocator _ _ hlength hcalls 4).1.mp hnot
  have hlength₁ : b₁.buf.length = b.buf.length := by rw [hbuf₁, reserve_fails hreset, hlength]
  have hnull : isNull = true ∧ b₁.buf = [] ↔ isNull = true ∧ b.buf = [] := by
    rw [← List.length_eq_zero_iff, hlength₁, List.length_eq_zero_iff]
  have hframes : Frames allocator isNull b s ↔
      (isNull = true ∧ b.buf = []) ∨ (s.content.take 4).length ≤ b.buf.length :=
    ⟨fun h => h.header.resolve_left hnot, fun h => ⟨.inr h, fun hreserves => absurd hreserves hnot⟩⟩
  rw [readPacket, hresized, Option.bind_some, hframes]
  by_cases hempty : isNull = true ∧ b₁.buf = []
  case pos =>
    rw [readAll, if_pos hempty]
    exact iff_of_true framed_error (.inl (hnull.mp hempty))
  case neg =>
    by_cases hfits : 0 + (s.content.take 4).length ≤ b₁.buf.length
    case neg =>
      rw [readAll_overrun hempty (Nat.lt_of_not_le hfits)]
      refine iff_of_false (fun ⟨_, _, _, h, _⟩ => by cases h) (not_or.mpr ⟨mt hnull.mpr hempty, ?_⟩)
      rwa [Nat.zero_add, hlength₁] at hfits
    case pos =>
      obtain ⟨b₂, hread, hlen₂, -, -, -⟩ := readAll_fits hempty hfits
      have hlen : b₂.len = 0 := hlen₂.trans (hlen₁ hreset)
      have hget : b₂.getUint32 0 = some none := by
        rw [Buffer.getUint32, Buffer.getNumber_eq, if_neg (by omega)]
      rw [hread, Option.bind_some]
      rw [Nat.zero_add, hlength₁] at hfits
      refine iff_of_true ?_ (.inr hfits)
      split
      case h_1 => exact framed_error
      case h_2 bytesRead b s' heq =>
        obtain rfl : b₂ = b := congrArg (·.2.1) heq
        rw [hget]
        split
        · exact framed_error
        · exact framed_error

-- A packet is framed unless the connection is cut, its size wraps around, or there is no memory for it.
theorem readPacket_framed_iff (allocator : Option Allocator) (isNull : Bool) (b : Buffer) (s : InputStream) :
    Framed s (readPacket allocator isNull b s) ↔ Frames allocator isNull b s := by
  by_cases h : Reserves allocator b 4
  case pos => exact readPacket_framed_iff_arrives h
  case neg => exact readPacket_framed_iff_header h

-- Of a packet of five bytes only the first arrives.
theorem not_readPacket_framed : ¬∀ (allocator : Option Allocator) (isNull : Bool) (b : Buffer) (s : InputStream),
    Framed s (readPacket allocator isNull b s) := by
  intro h
  obtain ⟨ret, b, s, heq, hframed⟩ := h none false ⟨List.replicate 10 0, 0, 0, by decide⟩ [.data 0 [0, 0, 5, 11]]
  have hresult : readPacket none false ⟨List.replicate 10 0, 0, 0, by decide⟩ [.data 0 [0, 0, 5, 11]] =
      some (.ok (), ⟨[0, 0, 0, 5, 11, 0, 0, 0, 0, 0], 9, 0, by decide⟩, []) := rfl
  cases hresult.symm.trans heq
  obtain ⟨packetSize, hsize, hlen, hbytes⟩ := hframed rfl
  have hlength := congrArg List.length hbytes
  rw [Buffer.length_bytes, List.length_take] at hlength
  exact absurd (hlength.trans_le (Nat.min_le_right _ _)) (by decide)

end SshAgent
