import GcrModel.Gck.Enumerator.Theorems.Exact
import GcrModel.Gck.Enumerator.Theorems.Safe
import GcrModel.Gck.Uri.Uri

namespace Uri

open Enumerator (GckEnumerator GckEnumeratorState Slot SessionOptions Move Stop Ready)

variable {modules : List Module} {uri : GckUriData} {args args' : GckEnumeratorState} {slots : List Slot}

-- The slots on which `state_slots` goes on to the next state.
def accepted (uri : Enumerator.GckUriData) (slots : List Slot) : List Slot :=
  slots.filter (·.tokenInfo.any (Enumerator.matched uri))

-- The slots that a state still has to search.
def toSearch (args : GckEnumeratorState) : List Slot :=
  opened args ++ accepted args.uriData args.slots ++ args.modules.flatMap fun m => accepted args.uriData m.slots

theorem toSearch_move (h : Move args args') : toSearch args = opened args ++ toSearch args' := by
  cases h
  case module hh hs hm    => simp [toSearch, opened, accepted, hh, hs, hm]
  case noSlots hh hs      => simp [toSearch, opened, accepted, hh, hs]
  case skipSlot hh hs ht  => simp [toSearch, opened, accepted, hh, hs, ht]
  case slot hh hs ht hm   => simp [toSearch, opened, accepted, hh, hs, ht, hm]
  case noSession hh _ _ _ => simp [toSearch, opened, hh]
  case session hh _ _ _   => simp [toSearch, opened, hh]
  case find hh _ _        => simp [toSearch, opened, hh]
  case results hh _ _ _   => simp [toSearch, opened, hh]
  case again hh _ _ _     => simp [toSearch, opened, hh]

-- A stop keeps what is to be searched.
theorem toSearch_stop (h : Stop args args') (n : Nat) (results : List Enumerator.GckEnumeratorResult) :
    toSearch { args' with wantObjects := n, results := results } = toSearch args := by
  cases h
  case modules   => rfl
  case find      => rfl
  case noSession => rfl
  case results   => rfl

-- What is known about an enumerator for modules while it is on its way.
structure Searching (modules : List Module) (args : GckEnumeratorState) : Prop where
  ready   : Ready args
  left    : ∃ before after, modules = before ++ after ∧ args.modules = after.map Module.toModule
  slots   : ∀ slot ∈ args.slots, ∀ readWrite, (slot.functions.openSession readWrite).1 = 0 →
    (slot.functions.openSession readWrite).2 ≠ 0
  funcs   : ∀ funcs ∈ args.funcs, ∀ readWrite, (funcs.openSession readWrite).1 = 0 → (funcs.openSession readWrite).2 ≠ 0
  session : ∀ session ∈ args.session, session.handle ≠ 0

theorem Searching.move (s : Searching modules args) (h : Move args args') : Searching modules args' := by
  refine ⟨s.ready.move h, ?_, ?_, ?_, ?_⟩
  · cases h
    case module m ms hh hs hm =>
      obtain ⟨before, after, heq, hmodules⟩ := s.left
      cases after
      case nil =>
        rw [hm] at hmodules
        cases hmodules
      case cons m' after =>
        rw [hm, List.map_cons, List.cons.injEq] at hmodules
        refine ⟨before ++ [m'], after, ?_, hmodules.right⟩
        rw [heq, List.append_assoc, List.singleton_append]
    all_goals exact s.left
  · cases h
    case module m ms hh hs hm =>
      obtain ⟨before, after, heq, hmodules⟩ := s.left
      have hm' : m ∈ after.map Module.toModule := by rw [← hmodules, hm]; exact List.mem_cons_self
      obtain ⟨m', -, rfl⟩ := List.mem_map.mp hm'
      exact m'.handles
    case noSlots hh hs => exact fun slot hslot => absurd hslot (List.not_mem_nil)
    case skipSlot slot slots hh hs ht =>
      exact fun slot' hslot => s.slots slot' (hs ▸ List.mem_cons_of_mem _ hslot)
    case slot slot slots tokenInfo hh hs ht hm =>
      exact fun slot' hslot => s.slots slot' (hs ▸ List.mem_cons_of_mem _ hslot)
    all_goals exact s.slots
  · cases h
    case slot slot slots tokenInfo hh hs ht hm =>
      intro funcs hfuncs
      obtain rfl := Option.mem_some_iff.mp hfuncs
      exact s.slots slot (hs ▸ List.mem_cons_self)
    case noSession => exact fun funcs hfuncs => absurd hfuncs (Option.not_mem_none _)
    case again     => exact fun funcs hfuncs => absurd hfuncs (Option.not_mem_none _)
    all_goals exact s.funcs
  · cases h
    case session slot funcs hh hslot hfuncs hrv =>
      intro session hsession
      obtain rfl := Option.mem_some_iff.mp hsession
      exact s.funcs funcs hfuncs _ hrv
    case again => exact fun session hsession => absurd hsession (Option.not_mem_none _)
    all_goals exact s.session

theorem Searching.stop (s : Searching modules args) (h : Stop args args') {n : Nat} (hn : 0 < n)
    (results : List Enumerator.GckEnumeratorResult) :
    Searching modules { args' with wantObjects := n, results := results } := by
  have hready := s.ready.stop h
  refine ⟨⟨⟨hready.valid.fields, hready.valid.objectClass⟩, hready.objectClass, hn⟩, ?_, ?_, ?_, ?_⟩
  all_goals cases h
  all_goals first | exact s.left | exact s.slots | exact s.funcs | exact s.session

-- Those that a finished search has been through are all those that were to be searched.
theorem Searches.eq_toSearch (h : Searches modules args slots) (s : Searching modules args) : slots = toSearch args := by
  induction h
  case finish args h hend =>
    obtain ⟨args', hstop⟩ : ∃ args', Stop args args' := ⟨args, Enumerator.stop_of_round h⟩
    cases hstop
    case modules hh hs hm             => simp [toSearch, opened, accepted, hh, hs, hm]
    case find hh _ _ _                => simp [hend] at hh
    case noSession hh _               => simp [hend] at hh
    case results found _ _ hh _ _ _   => simp [hend] at hh
  case next args args' slots h _ _ ih =>
    have hmove := Enumerator.move_of_next h
    rw [ih (s.move hmove), ← toSearch_move hmove]
  case again args args' results slots n h hn _ ih =>
    have hstop := Enumerator.stop_of_round h
    rw [ih (s.stop hstop hn results), toSearch_stop hstop]

-- The modules that an enumerator still has to take.
def modulesLeft (modules : List Module) (args : GckEnumeratorState) : List Module :=
  modules.drop (modules.length - args.modules.length)

theorem modulesLeft_of_eq {before after : List Module} (h : args.modules = after.map Module.toModule) :
    modulesLeft (before ++ after) args = after := by
  rw [modulesLeft, h, List.length_map, List.length_append, Nat.add_sub_cancel, List.drop_left]

-- The module that is taken is the first of those that are left.
theorem Searching.modulesLeft_cons (s : Searching modules args) {m : Enumerator.Module} {ms : List Enumerator.Module}
    (hm : args.modules = m :: ms) (hm' : args'.modules = ms) : ∃ m', m'.toModule = m ∧
      modulesLeft modules args = m' :: modulesLeft modules args' ∧
        modules[modules.length - args.modules.length]? = some m' := by
  obtain ⟨before, after, rfl, hmodules⟩ := s.left
  cases after
  case nil =>
    rw [hm] at hmodules
    cases hmodules
  case cons m' after =>
    have hleft : modulesLeft (before ++ m' :: after) args = m' :: after := modulesLeft_of_eq hmodules
    rw [hm, List.map_cons, List.cons.injEq] at hmodules
    have happend : before ++ m' :: after = (before ++ [m']) ++ after := (List.append_cons before m' after)
    have hleft' : modulesLeft (before ++ m' :: after) args' = after := by
      rw [happend]
      exact modulesLeft_of_eq (hm'.trans hmodules.right)
    refine ⟨m', hmodules.left.symm, by rw [hleft, hleft'], ?_⟩
    rw [modulesLeft] at hleft
    rw [← Nat.add_zero (_ - args.modules.length), ← List.getElem?_drop, hleft, List.getElem?_cons_zero]

-- The description of each module that is left is told before the end.
theorem Searches.described (h : Searches modules args slots) (s : Searching modules args) :
    ∀ m ∈ modulesLeft modules args, m.info.isSome := by
  induction h
  case finish args h hend =>
    obtain ⟨args', hstop⟩ : ∃ args', Stop args args' := ⟨args, Enumerator.stop_of_round h⟩
    cases hstop
    case modules hh hs hm =>
      intro m hmem
      rw [modulesLeft, hm, List.length_nil, Nat.sub_zero, List.drop_length] at hmem
      cases hmem
    case find hh _ _ _              => simp [hend] at hh
    case noSession hh _             => simp [hend] at hh
    case results found _ _ hh _ _ _ => simp [hend] at hh
  case next args args' slots h hinfo hrest ih =>
    have hmove := Enumerator.move_of_next h
    have hih := ih (s.move hmove)
    clear ih hrest h
    cases hmove
    case module m ms hh hs hm =>
      intro m₁ hmem
      let args' := { args with handler := .slots, modules := ms, slots := m.slots }
      have hms : args'.modules = ms := rfl
      obtain ⟨m', -, hleft, hfirst⟩ := s.modulesLeft_cons hm hms
      rw [hleft] at hmem
      cases hmem
      case head      => exact hinfo hh m₁ hfirst
      case tail hmem => exact hih m₁ hmem
    all_goals exact hih
  case again args args' results slots n h hn _ ih =>
    have hstop := Enumerator.stop_of_round h
    have hmodules : args'.modules = args.modules := by cases hstop <;> rfl
    have hih := ih (s.stop hstop hn results)
    rwa [modulesLeft, hmodules] at hih

theorem forward_eq_none_of_round (h : Enumerator.forwardRound args = .inl none) : Enumerator.forward args = none := by
  simp only [Enumerator.forwardRound] at h
  split at h
  · assumption
  · simp at h
  · simp at h

-- A call that has what it wants has taken something of what was found.
theorem left_length_lt {types : List Nat} {want : Nat} {found left results results' : List Enumerator.GckEnumeratorResult}
    (hwant : 0 < want) (h : Enumerator.takeResults types want found results = (left, results', true)) :
    left.length < found.length := by
  rw [Enumerator.takeResults_eq] at h
  simp only [Prod.mk.injEq, decide_eq_true_eq] at h
  obtain ⟨rfl, -, hle⟩ := h
  rw [List.length_drop]
  omega

-- An enumerator comes to its end when the descriptions of all modules can be told.
theorem Searching.exists_searches (hinfo : ∀ m ∈ modules, m.info.isSome) (s : Searching modules args) :
    ∃ slots, Searches modules args slots := by
  -- On the rounds that are left, and then on what was found but not taken.
  induction hrounds : Enumerator.rounds args using Nat.strong_induction_on generalizing args
  case _ n ih =>
    induction hlength : (args.found.getD []).length using Nat.strong_induction_on generalizing args
    case _ k ih' =>
      cases hround : Enumerator.forwardRound args
      case inr args' =>
        have hmove := Enumerator.move_of_next hround
        obtain ⟨slots, hslots⟩ := ih _ (hrounds ▸ hmove.rounds_lt) (s.move hmove) rfl
        refine ⟨_, .next hround ?_ hslots⟩
        intro _ m hm
        exact hinfo m (List.mem_of_getElem? hm)
      case inl result =>
        obtain ⟨args', rfl⟩ : ∃ args', result = some args' := by
          apply Option.ne_none_iff_exists'.mp
          rintro rfl
          exact s.ready.safe.forward (forward_eq_none_of_round hround)
        have hstop := Enumerator.stop_of_round hround
        have hsearching := s.stop hstop Nat.one_pos []
        cases hstop
        case modules hh hs hm                              => exact ⟨[], .finish hround hh⟩
        case find session funcs hh hs _ hz                 => exact absurd hz (s.session session hs)
        case noSession hh hz                               =>
          cases hs : args.session
          case none         => simp [hs] at hz
          case some session => exact absurd (by simpa [hs] using hz) (s.session session hs)
        case results found left results hh hz hfound ht =>
          have hlt : left.length < k := by
            rw [← hlength, hfound]
            exact left_length_lt s.ready.wantObjects ht
          obtain ⟨slots, hslots⟩ := ih' left.length hlt hsearching hrounds rfl
          exact ⟨slots, .again hround Nat.one_pos hslots⟩

end Uri
