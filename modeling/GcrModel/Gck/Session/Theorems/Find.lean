import GcrModel.Gck.Session.Session

namespace Session

open GLib Monitor

section Operations

variable {rules : Rules} {op : Operation} {calls calls' : List Event} {asks : Bool} {rv : RV} {output : Bytes}
  {active : Active}

@[simp]
theorem idle_apply : idle op = false :=
  rfl

theorem start_ne_idle : Function.update idle op true ≠ idle :=
  fun h => by simpa using congrFun h op

@[simp]
theorem ends_false : rules.ends false rv ↔ rv ≠ ckrBufferTooSmall := by
  simp [Rules.ends]

theorem ends_of_ok : rules.ends true ckrOk = false := by
  simp [Rules.ends]

-- What completes an operation ends it, if the rules say so.
theorem complete_idle_iff :
    rules.after (Function.update idle op true) (.complete op asks rv output) = idle ↔ rules.ends asks rv := by
  by_cases h : rules.ends asks rv
  case pos => simp [Rules.after, h]
  case neg => simp [Rules.after, h]

-- A call for the length that does not fail ends nothing.
theorem complete_ok : rules.after active (.complete op true ckrOk output) = active := by
  simp [Rules.after, ends_of_ok]

theorem init_ok : rules.after active (.init op ckrOk) = Function.update active op true := by
  simp [Rules.after]

theorem init_failed (h : rv ≠ ckrOk) : rules.after active (.init op rv) = active := by
  simp [Rules.after, h]

@[simp]
theorem active_findObjects {handles : List Nat} :
    rules.active (calls ++ [.findObjects rv handles]) = rules.active calls := by
  simp [Rules.active, Rules.after]

@[simp]
theorem admits_findObjects {handles : List Nat} :
    rules.Admits idle (calls ++ [.findObjects rv handles]) ↔ rules.Admits idle calls := by
  simp [Rules.Admits, admits]

theorem active_final (h : rules.active calls = Function.update idle .search true) :
    rules.active (calls ++ [.findObjectsFinal rv]) = idle := by
  rw [Rules.active] at h
  simp [Rules.active, h, Rules.after]

@[simp]
theorem admits_final : rules.Admits idle (calls ++ [.findObjectsFinal rv]) ↔ rules.Admits idle calls := by
  simp [Rules.Admits, admits]

-- Calls that find no operation active where they start one, and end it.
structure Quiet (rules : Rules) (calls : List Event) : Prop where
  ended    : rules.active calls = idle
  admitted : rules.Admits idle calls

theorem Quiet.nil : Quiet rules [] :=
  ⟨rfl, trivial⟩

theorem active_append (h : rules.active calls = idle) : rules.active (calls ++ calls') = rules.active calls' := by
  rw [Rules.active, after_append]
  exact congrArg (after rules.after · calls') h

theorem admits_append (h : rules.active calls = idle) :
    rules.Admits idle (calls ++ calls') ↔ rules.Admits idle calls ∧ rules.Admits idle calls' := by
  rw [Rules.Admits, accepts_append]
  exact and_congr_right' (iff_of_eq (congrArg (Accepts rules.after admits · calls') h))

theorem Quiet.append (h : Quiet rules calls) (h' : Quiet rules calls') : Quiet rules (calls ++ calls') where
  ended    := (active_append h.ended).trans h'.ended
  admitted := (admits_append h.ended).mpr ⟨h.admitted, h'.admitted⟩

theorem Quiet.init_failed (h : rv ≠ ckrOk) : Quiet rules [.init op rv] where
  ended    := by rw [Rules.active, after_cons, after_nil, Session.init_failed h]
  admitted := ⟨rfl, trivial⟩

@[simp]
theorem found_final : found (calls ++ [.findObjectsFinal rv]) = found calls := by
  simp [found, Event.handles]

@[simp]
theorem found_append : found (calls ++ calls') = found calls ++ found calls' :=
  List.flatMap_append

end Operations

section Crypt

variable {σ : Type*} {f : Functions σ} {rules : Rules} {fuel : Nat} {module module' : σ}

-- The password loop returns one thing.
theorem Authenticates.unique {interaction : Bool} {key : Nat} {rv rv' : RV} {module₁ module₂ : σ}
    (h : Authenticates f interaction key module rv module₁) (h' : Authenticates f interaction key module rv' module₂) :
    rv = rv' ∧ module₁ = module₂ := by
  obtain ⟨fuel, h⟩ := h
  obtain ⟨fuel', h'⟩ := h'
  suffices (rv, module₁) = (rv', module₂) from Prod.mk.inj this
  simp only [authenticateKey] at h h'
  split at h
  case isTrue hrv => exact Option.some.inj (h.symm.trans ((if_pos hrv).symm.trans h'))
  case isFalse hrv =>
    rw [if_neg hrv] at h'
    split at h
    case isTrue hok => exact Option.some.inj (h.symm.trans ((if_pos hok).symm.trans h'))
    case isFalse hok =>
      rw [if_neg hok] at h'
      split at h
      case isTrue hno => exact Option.some.inj (h.symm.trans ((if_pos hno).symm.trans h'))
      case isFalse hno =>
        rw [if_neg hno] at h'
        exact Loop.run_unique h h'

-- What a perform function does to the operations, and what it delivers, where its result is wanted or not.
structure Performs {α : Type*} (rules : Rules) (p : Performed σ α) (delivers : α → List Event → Prop)
    (regular : Bool → Prop) : Prop where
  admitted : rules.Admits idle p.calls
  kept     : ∀ finishes : Bool, rules.active p.calls = idle ∧ (finishes → p.rv = ckrOk → delivers p.args p.calls) ↔ regular finishes

def CryptResult.Delivers (c : CryptResult) (calls : List Event) : Prop :=
  lastOutput calls = some (c.result.getD []) ∧ c.nResult = (c.result.getD []).length

-- An operation that was started and asked for the length of its output.
theorem active_started {op : Operation} {e : Event} :
    rules.active [.init op ckrOk, .complete op true ckrOk [], e] = rules.after (Function.update idle op true) e := by
  simp only [Rules.active, after_cons, after_nil, init_ok, complete_ok]

theorem completeCrypt_performs {args : Crypt} {nResult : Nat} :
    Performs rules
      (completeCrypt f args nResult [.init (.crypt args.op) ckrOk, .complete (.crypt args.op) true ckrOk []] module)
      CryptResult.Delivers fun _ =>
        if nResult = 0 then rules.ends true (f.lengthOf args.op args.input module).1.1 = true
        else (f.complete args.op args.input nResult module).1.1 ≠ ckrBufferTooSmall := by
  by_cases hn : nResult = 0
  case pos =>
    simp only [completeCrypt, hn, ↓reduceIte, List.cons_append, List.nil_append]
    refine ⟨⟨rfl, trivial, trivial, trivial⟩, fun finishes => ?_⟩
    rw [active_started, complete_idle_iff]
    refine ⟨And.left, fun h => ⟨h, fun _ hrv => ?_⟩⟩
    have hok : (f.lengthOf args.op args.input module).1.1 = ckrOk := hrv
    rw [hok, ends_of_ok] at h
    exact absurd h (by decide)
  case neg =>
    simp only [completeCrypt, hn, ↓reduceIte, List.cons_append, List.nil_append]
    refine ⟨⟨rfl, trivial, trivial, trivial⟩, fun finishes => ?_⟩
    rw [active_started, complete_idle_iff, ends_false]
    exact ⟨And.left, fun h => ⟨h, fun _ _ => ⟨rfl, rfl⟩⟩⟩

-- Where no operation was started, nothing is to be done.
theorem Performs.refused {α : Type*} {op : Operation} {p : Performed σ α} {delivers : α → List Event → Prop}
    {regular : Bool → Prop} (hcalls : p.calls = [.init op p.rv]) (hrv : p.rv ≠ ckrOk) (h : ∀ b, regular b) :
    Performs rules p delivers regular where
  admitted := hcalls ▸ (Quiet.init_failed hrv).admitted
  kept     := fun b => by
    refine ⟨fun _ => h b, fun _ => ⟨?_, fun _ hok => absurd hok hrv⟩⟩
    exact hcalls ▸ (Quiet.init_failed hrv).ended

-- Where one was started and not completed, it is still active.
theorem Performs.abandoned {α : Type*} {op : Operation} {p : Performed σ α} {delivers : α → List Event → Prop}
    {regular : Bool → Prop} (hcalls : p.calls = [.init op ckrOk]) (h : ∀ b, ¬regular b) :
    Performs rules p delivers regular where
  admitted := hcalls ▸ ⟨rfl, trivial⟩
  kept     := fun b => by
    refine ⟨fun hp => absurd hp.1 ?_, fun hr => absurd hr (h b)⟩
    rw [hcalls, Rules.active, after_cons, after_nil, init_ok]
    exact start_ne_idle

theorem performCrypt_performs {args : Crypt} {p : Performed σ CryptResult} (hkey : args.key ≠ 0)
    (h : performCrypt f fuel args module = some p) :
    Performs rules p CryptResult.Delivers fun _ => Crypt.Regular f rules args module := by
  cases hinit : f.init (.crypt args.op) args.mechanism args.key module with | mk rv module₁
  simp only [performCrypt, hinit] at h
  split at h
  case isTrue hrv =>
    cases h
    refine .refused rfl hrv fun _ _ hok => ?_
    rw [hinit] at hok
    exact absurd hok hrv
  case isFalse hrv =>
    obtain rfl : rv = ckrOk := not_not.mp hrv
    split at h
    case h_1 => exact absurd h (by simp)
    case h_2 rv₂ module₂ hauth =>
      have hauth' : Authenticates f args.interaction args.key module₁ rv₂ module₂ := ⟨fuel, hauth⟩
      have hreg : Crypt.Regular f rules args module ↔ rv₂ = ckrOk ∧ Completes f rules args.op args.input module₂ := by
        simp only [Crypt.Regular, hinit]
        refine ⟨fun hr => hr hkey trivial rv₂ module₂ hauth', fun hr _ _ rv₃ module₃ h₃ => ?_⟩
        obtain ⟨rfl, rfl⟩ := hauth'.unique h₃
        exact hr
      simp only [hreg]
      split at h
      case isTrue hrv₂ =>
        cases h
        exact .abandoned rfl fun _ hr => hrv₂ hr.1
      case isFalse hrv₂ =>
        obtain rfl : rv₂ = ckrOk := not_not.mp hrv₂
        rcases hlen : f.lengthOf args.op args.input module₂ with ⟨⟨rv₃, nResult⟩, module₃⟩
        simp only [hlen] at h
        simp only [Completes, hlen, true_and]
        split at h
        case isTrue hrv₃ =>
          cases h
          refine ⟨⟨rfl, trivial, trivial⟩, fun _ => ?_⟩
          rw [if_pos hrv₃]
          have hactive : rules.active [.init (.crypt args.op) ckrOk, .complete (.crypt args.op) true rv₃ []] = idle ↔
              rules.ends true rv₃ = true := by
            rw [Rules.active, after_cons, after_cons, after_nil, init_ok, complete_idle_iff]
          exact ⟨fun hp => hactive.mp hp.1, fun hr => ⟨hactive.mpr hr, fun _ hok => absurd hok hrv₃⟩⟩
        case isFalse hrv₃ =>
          obtain rfl : rv₃ = ckrOk := not_not.mp hrv₃
          cases h
          rw [if_neg (not_not.mpr rfl)]
          exact completeCrypt_performs

theorem performVerify_performs {args : Verify} {p : Performed σ Unit} (hkey : args.key ≠ 0)
    (h : performVerify f fuel args module = some p) :
    Performs rules p (fun _ _ => True) fun _ => Verify.Regular f args module := by
  cases hinit : f.init .verify args.mechanism args.key module with | mk rv module₁
  simp only [performVerify, hinit] at h
  split at h
  case isTrue hrv =>
    cases h
    refine .refused rfl hrv fun _ _ hok => ?_
    rw [hinit] at hok
    exact absurd hok hrv
  case isFalse hrv =>
    obtain rfl : rv = ckrOk := not_not.mp hrv
    split at h
    case h_1 => exact absurd h (by simp)
    case h_2 rv₂ module₂ hauth =>
      have hauth' : Authenticates f args.interaction args.key module₁ rv₂ module₂ := ⟨fuel, hauth⟩
      have hreg : Verify.Regular f args module ↔
          rv₂ = ckrOk ∧ (f.verify args.input args.signature module₂).1 ≠ ckrBufferTooSmall := by
        simp only [Verify.Regular, hinit]
        refine ⟨fun hr => hr hkey trivial rv₂ module₂ hauth', fun hr _ _ rv₃ module₃ h₃ => ?_⟩
        obtain ⟨rfl, rfl⟩ := hauth'.unique h₃
        exact hr
      simp only [hreg]
      split at h
      case isTrue hrv₂ =>
        cases h
        exact .abandoned rfl fun _ hr => hrv₂ hr.1
      case isFalse hrv₂ =>
        obtain rfl : rv₂ = ckrOk := not_not.mp hrv₂
        cases h
        refine ⟨⟨rfl, trivial, trivial⟩, fun _ => ?_⟩
        rw [Rules.active, List.cons_append, List.nil_append, after_cons, after_cons, after_nil, init_ok,
          complete_idle_iff, ends_false]
        simp

end Crypt

end Session

namespace Session

open GLib Monitor Relation

variable {σ : Type*} {f : Functions σ} {rules : Rules} {fuel : Nat} {module module' : σ}
  {attrs : List (Nat × Bytes)} {s t u : Finding σ} {rv : RV} {array data array' : List Nat}

theorem gArrayAppendVals_eq (h : gArrayAppendVals array data = some array') :
    array' = array ++ data.take (data.length % 0x100000000) := by
  simp only [gArrayAppendVals, Option.ite_none_right_eq_some, Option.some.injEq] at h
  exact h.2.symm

-- A round that goes on.
structure Goes (f : Functions σ) (s t : Finding σ) : Prop where
  succeeds : (s.answer f).1.1 = ckrOk
  array    : t.array = s.array ++ (s.answer f).1.2.take ((s.answer f).1.2.length % 0x100000000)
  calls    : t.calls = s.calls ++ [.findObjects ckrOk (s.answer f).1.2]
  found    : (s.answer f).1.2 ≠ []

theorem goes_of_next (h : Loop.Next (findRound f) s t) : Goes f s t := by
  have h' : findRound f s = .inr t := h
  simp only [findRound] at h'
  split at h'
  case isTrue => exact absurd h' (by simp)
  case isFalse hrv =>
    have hok : (s.answer f).1.1 = ckrOk := not_not.mp hrv
    split at h'
    case h_1 => exact absurd h' (by simp)
    case h_2 array harray =>
      split at h'
      case isTrue hlen =>
        obtain rfl := Sum.inr.inj h'
        refine ⟨hok, gArrayAppendVals_eq harray, ?_, List.ne_nil_of_length_pos hlen⟩
        rw [← hok]
        rfl
      case isFalse => exact absurd h' (by simp)

-- A round that stops.
structure Stops (f : Functions σ) (s : Finding σ) (rv : RV) (t : Finding σ) : Prop where
  answered : rv = (s.answer f).1.1
  calls    : t.calls = s.calls ++ [.findObjects rv (s.answer f).1.2]
  module   : t.module = (s.answer f).2
  array    : rv = ckrOk → (s.answer f).1.2 = [] ∧ t.array = s.array

theorem stops_of_stop (h : findRound f s = .inl (some (rv, t))) : Stops f s rv t := by
  simp only [findRound] at h
  split at h
  case isTrue hrv =>
    simp only [Sum.inl.injEq, Option.some.injEq, Prod.mk.injEq] at h
    obtain ⟨rfl, rfl⟩ := h
    exact ⟨rfl, rfl, rfl, fun hok => absurd hok hrv⟩
  case isFalse hrv =>
    split at h
    case h_1 => exact absurd h (by simp)
    case h_2 array harray =>
      split at h
      case isTrue => exact absurd h (by simp)
      case isFalse hlen =>
        simp only [Sum.inl.injEq, Option.some.injEq, Prod.mk.injEq] at h
        obtain ⟨rfl, rfl⟩ := h
        have hnil : (s.answer f).1.2 = [] := List.eq_nil_of_length_eq_zero (by simpa using hlen)
        refine ⟨rfl, rfl, rfl, fun _ => ⟨hnil, ?_⟩⟩
        have heq := gArrayAppendVals_eq harray
        simpa [Finding.after, hnil] using heq

-- What holds of the states of a search.
structure Searching (rules : Rules) (s : Finding σ) : Prop where
  active   : rules.active s.calls = Function.update idle .search true
  admitted : rules.Admits idle s.calls
  length   : s.array.length ≤ (found s.calls).length
  array    : s.array = found s.calls ↔ ∀ e ∈ s.calls, e.handles.length < 0x100000000

theorem Searching.next (h : Searching rules s) (hst : Loop.Next (findRound f) s t) : Searching rules t := by
  have hgo := goes_of_next hst
  have hfound : found t.calls = found s.calls ++ (s.answer f).1.2 := by
    simp [hgo.calls, found, Event.handles]
  refine ⟨?_, ?_, ?_, ?_⟩
  · rw [hgo.calls, active_findObjects, h.active]
  · rw [hgo.calls, admits_findObjects]
    exact h.admitted
  · rw [hgo.array, hfound, List.length_append, List.length_append, List.length_take]
    have := h.length
    omega
  · rw [hgo.array, hfound, hgo.calls, List.forall_mem_append, ← h.array]
    constructor
    · intro heq
      have hlen := congrArg List.length heq
      rw [List.length_append, List.length_append, List.length_take] at hlen
      have hle := h.length
      obtain ⟨hl, hr⟩ := List.append_inj heq (by omega)
      refine ⟨hl, ?_⟩
      simp only [List.mem_singleton, forall_eq, Event.handles, if_true]
      have := List.length_take ▸ congrArg List.length hr
      omega
    · rintro ⟨hl, hr⟩
      simp only [List.mem_singleton, forall_eq, Event.handles, if_true] at hr
      rw [hl, Nat.mod_eq_of_lt hr, List.take_length]

theorem Searches.searching (hinit : (f.findObjectsInit attrs module).1 = ckrOk) (h : Searches f attrs module s) :
    Searching rules s := by
  induction h
  case refl =>
    rw [hinit]
    refine ⟨?_, ⟨rfl, trivial⟩, Nat.le_refl _, ?_⟩
    · rw [Rules.active, after_cons, after_nil, init_ok]
    · simp [found, Event.handles]
  case tail _ hst ih => exact ih.next hst

-- The handles of a call are what was answered in a state of the search, and those of a search go on.
theorem Searches.answered (h : Searches f attrs module s) :
    ∀ e ∈ s.calls, e.handles = [] ∨ ∃ u, Searches f attrs module u ∧ e.handles = (u.answer f).1.2 := by
  induction h
  case refl => simp [Event.handles]
  case tail u v hu huv ih =>
    rw [(goes_of_next huv).calls, List.forall_mem_append]
    refine ⟨ih, ?_⟩
    simp only [List.mem_singleton, forall_eq, Event.handles, if_true]
    exact .inr ⟨u, hu, rfl⟩

theorem calls_subset (h : ReflTransGen (Loop.Next (findRound f)) s t) : s.calls ⊆ t.calls := by
  induction h
  case refl => exact fun _ => id
  case tail _ hst ih => exact fun e he => (goes_of_next hst).calls ▸ List.mem_append_left _ (ih he)

theorem mem_calls (hst : ReflTransGen (Loop.Next (findRound f)) s t) :
    s = t ∨ ∃ u, Goes f s u ∧ .findObjects ckrOk (s.answer f).1.2 ∈ t.calls := by
  rcases ReflTransGen.cases_head hst with rfl | ⟨u, hsu, hut⟩
  · exact .inl rfl
  · have hgo := goes_of_next hsu
    exact .inr ⟨u, hgo, calls_subset hut (hgo.calls ▸ List.mem_append_right _ List.mem_cons_self)⟩

theorem performFindObjects_performs {p : Performed σ (List Nat)} (h : performFindObjects f fuel attrs module = some p) :
    Performs rules p (fun handles calls => handles = found calls)
      fun finishes => FindHandles.Regular f (.async false !finishes) attrs module := by
  rcases hinit : f.findObjectsInit attrs module with ⟨rv, module₁⟩
  simp only [performFindObjects, hinit] at h
  split at h
  case isTrue hrv =>
    cases h
    refine .refused rfl hrv fun _ => ⟨?_, ?_⟩ <;> rw [hinit] <;> exact fun hok => absurd hok hrv
  case isFalse hrv =>
    obtain rfl : rv = ckrOk := not_not.mp hrv
    have hok : (f.findObjectsInit attrs module).1 = ckrOk := by rw [hinit]
    split at h
    case h_1 => exact absurd h (by simp)
    case h_2 rv s hrun =>
      obtain ⟨t, ht, hstop⟩ := Loop.run_eq_some_iff.mp ⟨fuel, Option.join_eq_some_iff.mp hrun⟩
      have hsearch : Searches f attrs module t := by rw [Searches, hinit]; exact ht
      have hstops := stops_of_stop hstop
      have hsearching : Searching rules t := hsearch.searching hok
      have hlast : ∀ u, Searches f attrs module u → u = t ∨
          ∃ v, Goes f u v ∧ .findObjects ckrOk (u.answer f).1.2 ∈ t.calls :=
        fun u hu => mem_calls (Loop.reaches_last hu hsearch hstop)
      have hsucceeds : (∀ u, Searches f attrs module u → (u.answer f).1.1 = ckrOk) ↔ rv = ckrOk := by
        refine ⟨fun hall => hstops.answered.trans (hall t hsearch), fun hrv u hu => ?_⟩
        rcases hlast u hu with rfl | ⟨v, hgo, _⟩
        · exact hstops.answered.symm.trans hrv
        · exact hgo.succeeds
      split at h
      case isFalse hrv =>
        cases h
        refine ⟨?_, fun _ => ?_⟩
        · rw [hstops.calls, admits_findObjects]
          exact hsearching.admitted
        · refine ⟨fun hp => absurd hp.1 ?_, fun hr => absurd (hsucceeds.mp (hr.succeeds hok)) hrv⟩
          rw [hstops.calls, active_findObjects, hsearching.active]
          exact start_ne_idle
      case isTrue hrv =>
        cases h
        obtain ⟨hnil, harray⟩ := hstops.array hrv
        have hcounts : s.array = found s.calls ↔
            ∀ u, Searches f attrs module u → (u.answer f).1.2.length < 0x100000000 := by
          rw [harray, hstops.calls, found_append, hnil]
          simp only [found, List.flatMap_cons, Event.handles, List.flatMap_nil, List.append_nil, ite_self]
          refine hsearching.array.trans ⟨fun hall u hu => ?_, fun hall e he => ?_⟩
          · rcases hlast u hu with rfl | ⟨_, _, hmem⟩
            · simp [hnil]
            · simpa [Event.handles] using hall _ hmem
          · rcases hsearch.answered e he with heq | ⟨u, hu, heq⟩
            · simp [heq]
            · exact heq ▸ hall u hu
        have hidle : rules.active (s.calls ++ [.findObjectsFinal (f.findObjectsFinal s.module).1]) = idle := by
          apply active_final
          rw [hstops.calls, active_findObjects, hsearching.active]
        refine ⟨?_, fun finishes => ?_⟩
        · rw [admits_final, hstops.calls, admits_findObjects]
          exact hsearching.admitted
        · simp only [hidle, found_final, true_and]
          constructor
          · intro hp
            refine ⟨fun _ => hsucceeds.mpr hrv, fun _ hfinishes u hu hempty hfinal => ?_⟩
            refine hcounts.mp (hp (by simpa [How.finishes] using hfinishes) ?_)
            rcases hlast u hu with rfl | ⟨v, hgo, _⟩
            · rw [hstops.module]
              exact hfinal
            · exact absurd hempty hgo.found
          · intro hr hfinishes hfinal
            refine hcounts.mpr (hr.counts hok (by simpa [How.finishes] using hfinishes) t hsearch hnil ?_)
            rw [← hstops.module]
            exact hfinal

end Session
