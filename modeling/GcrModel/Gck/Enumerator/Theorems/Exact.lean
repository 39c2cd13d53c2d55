import GcrModel.Gck.Enumerator.Theorems.States

namespace Enumerator

variable {args args' : GckEnumeratorState} {types : List Nat} {want count : Nat}

-- What an enumerator finds in a session, or nothing if it does not get past the session.
abbrev Visit := Option (List GckEnumeratorResult)

def sessionVisit (uriData : GckUriData) (funcs : FunctionList) (session : Session) : Visit :=
  if session.handle = 0 then none else some (findResults uriData funcs session)

def openVisits (uriData : GckUriData) (options : SessionOptions) (slot : Slot) (funcs : FunctionList) : List Visit :=
  if (funcs.openSession options.readWrite).1 ≠ 0 then []
  else [sessionVisit uriData funcs ⟨(funcs.openSession options.readWrite).2, slot, options⟩]

def slotVisits (uriData : GckUriData) (options : SessionOptions) (slot : Slot) : List Visit :=
  if slot.tokenInfo.any (matched uriData) then openVisits uriData options slot slot.functions else []

def moduleVisits (uriData : GckUriData) (options : SessionOptions) (m : Module) : List Visit :=
  m.slots.flatMap (slotVisits uriData options)

def readable (types : List Nat) (v : Visit) : List GckEnumeratorResult :=
  (v.getD []).filterMap (readResult types)

-- An object as the enumerator returns it.
def GckEnumerator.object (self : GckEnumerator) (result : GckEnumeratorResult) : GckObject where
  objectClass := some self.objectClass
  handle      := result.object.handle
  session     := result.session
  attributes  := result.attrs

-- The sessions that an enumerator is made for, in the order of its modules and slots.
def Creation.visits (c : Creation) : List Visit :=
  match c.source with
  | .modules modules options => modules.flatMap (moduleVisits c.uriData options)
  | .slots slots options     => slots.flatMap (slotVisits c.uriData options)
  | .session session         => [sessionVisit c.uriData session.slot.functions session]

-- All matching objects whose attributes can be read.
def Creation.objects (c : Creation) : List GckObject :=
  (c.visits.flatMap (readable c.self.types)).map c.self.object

def matching (cs : List Creation) : List GckObject :=
  cs.flatMap Creation.objects

-- The session that the enumerator is at.
def current (args : GckEnumeratorState) : List Visit :=
  match args.handler with
  | .modules => []
  | .slots   => []
  | .slot    =>
    match args.slot, args.funcs with
    | some slot, some funcs => openVisits args.uriData args.sessionOptions slot funcs
    | _, _                  => []
  | .session =>
    match args.session, args.funcs with
    | some session, some funcs => [sessionVisit args.uriData funcs session]
    | _, _                     => []
  | .find    =>
    match args.session, args.funcs with
    | some session, some funcs => [sessionVisit args.uriData funcs session]
    | _, _                     => []
  | .results => if args.session.any (·.handle = 0) then [none] else [some (args.found.getD [])]

-- The sessions that are left.
def visits (args : GckEnumeratorState) : List Visit :=
  current args ++ args.slots.flatMap (slotVisits args.uriData args.sessionOptions) ++
    args.modules.flatMap (moduleVisits args.uriData args.sessionOptions)

-- The objects that are queued and those that are still to be found.
def queue (args : GckEnumeratorState) : List GckObject :=
  args.results.map args.enumerator.object

def left (args : GckEnumeratorState) : List GckObject :=
  ((visits args).flatMap (readable args.enumerator.types)).map args.enumerator.object

def pending (args : GckEnumeratorState) : List GckObject :=
  queue args ++ left args

-- The counter stops an enumerator before it has got what is wanted, or a session does that it does not
-- get past, while there are readable objects left. It does not show where there are only fewer objects
-- than wanted: where one is got and the chained enumerators have none.
def Short (types : List Nat) (want count : Nat) (chained : List GckObject) : Nat → List Visit → Prop
  | _, []           => False
  | n, none :: vs   => n < want ∧ vs.flatMap (readable types) ≠ [] ∧ (count + n = 0 ∨ chained ≠ [])
  | n, some g :: vs =>
    if g.length < want then Short types want count chained (n + (readable types (some g)).length) vs
    else
      n + (readable types (some (g.take want))).length < want ∧
      (readable types (some (g.drop want)) ++ vs.flatMap (readable types) ≠ []) ∧
      (count + (n + (readable types (some (g.take want))).length) = 0 ∨ chained ≠ [])

instance Short.decidable (types : List Nat) (want count : Nat) (chained : List GckObject) :
    ∀ n vs, Decidable (Short types want count chained n vs)
  | _, []           => .isFalse id
  | n, none :: vs   =>
    inferInstanceAs (Decidable (n < want ∧ vs.flatMap (readable types) ≠ [] ∧ (count + n = 0 ∨ chained ≠ [])))
  | n, some g :: vs =>
    have := Short.decidable types want count chained (n + (readable types (some g)).length) vs
    inferInstanceAs (Decidable (if g.length < want then _ else _ ∧ _ ∧ _))

-- No enumerator of the chain stops short when `want` objects are wanted and `count` were got.
def Counted (want : Nat) : Nat → List GckEnumeratorState → Prop
  | _, []                  => True
  | count, args :: chained =>
    ¬Short args.enumerator.types (want - count) count (chained.flatMap pending) args.results.length (visits args) ∧
    (count + (pending args).length < want → Counted want (count + (pending args).length) chained)

instance Counted.decidable (want : Nat) : ∀ count states, Decidable (Counted want count states)
  | _, []                  => .isTrue trivial
  | count, args :: chained =>
    have := Counted.decidable want (count + (pending args).length) chained
    inferInstanceAs (Decidable (¬_ ∧ (_ → _)))

-- What the handlers do to the queue and the sessions that are left.
def collect (types : List Nat) (want : Nat) :
    List GckEnumeratorResult → List Visit → List GckEnumeratorResult × List Visit
  | results, []           => (results, [])
  | results, none :: vs   => (results, none :: vs)
  | results, some g :: vs =>
    if g.length < want then collect types want (results ++ readable types (some g)) vs
    else (results ++ readable types (some (g.take want)), some (g.drop want) :: vs)

theorem takeResults_eq (types : List Nat) (want : Nat) (found results : List GckEnumeratorResult) :
    takeResults types want found results =
      (found.drop want, results ++ readable types (some (found.take want)), decide (want ≤ found.length)) := by
  induction want generalizing found results
  case zero => simp [takeResults, readable]
  case succ want ih =>
    cases found
    case nil => simp [takeResults, readable]
    case cons result found =>
      rw [takeResults, ih]
      cases hr : readResult types result <;> simp [readable, hr]

namespace collect

variable {results : List GckEnumeratorResult} {vs : List Visit}

-- Nothing is lost and nothing changes its place.
theorem append_eq (types : List Nat) (want : Nat) (results : List GckEnumeratorResult) (vs : List Visit) :
    (collect types want results vs).1 ++ (collect types want results vs).2.flatMap (readable types) =
      results ++ vs.flatMap (readable types) := by
  fun_induction collect types want results vs
  case case1 => rfl
  case case2 => rfl
  case case3 results g vs hlt ih => simp [ih]
  case case4 results g vs hlt =>
    have hg : readable types (some g) = readable types (some (g.take want)) ++ readable types (some (g.drop want)) := by
      simp [readable, ← List.filterMap_append]
    simp [hg]

theorem left_nil (want : Nat) (results : List GckEnumeratorResult) (h : vs.flatMap (readable types) = []) :
    (collect types want results vs).2.flatMap (readable types) = [] := by
  fun_induction collect types want results vs
  case case1 => rfl
  case case2 => exact h
  case case3 results g vs hlt ih => exact ih (by simp_all)
  case case4 results g vs hlt =>
    have hg : readable types (some g) = readable types (some (g.take want)) ++ readable types (some (g.drop want)) := by
      simp [readable, ← List.filterMap_append]
    simp_all

-- Where the enumerator gets less than what is wanted there is nothing left, or it does not show.
theorem of_not_short {chained : List GckObject} (h : ¬Short types want count chained results.length vs)
    (hlt : (collect types want results vs).1.length < want) :
    (collect types want results vs).2.flatMap (readable types) = [] ∨
      0 < count + (collect types want results vs).1.length ∧ chained = [] := by
  fun_induction collect types want results vs
  case case1 => exact .inl rfl
  case case2 results vs =>
    simp only [Short, not_and_or, not_or, not_not] at h
    rcases h with h | h | ⟨h₁, h₂⟩
    · exact absurd hlt h
    · exact .inl (by simpa [readable] using h)
    · exact .inr ⟨Nat.pos_of_ne_zero h₁, h₂⟩
  case case3 results g vs hg ih =>
    rw [Short, if_pos hg] at h
    exact ih (by simpa using h) hlt
  case case4 results g vs hg =>
    rw [Short, if_neg hg, not_and_or, not_and_or, not_or, not_not, not_not] at h
    rcases h with h | h | ⟨h₁, h₂⟩
    · exact absurd (by simpa using hlt) h
    · exact .inl (by simpa using h)
    · exact .inr ⟨by rw [List.length_append]; exact Nat.pos_of_ne_zero h₁, h₂⟩

end collect

-- Nothing is found where nothing was looked for.
def FoundEmpty (args : GckEnumeratorState) : Prop :=
  args.handler ≠ .results → args.found.getD [] = []

theorem Move.foundEmpty (h : Move args args') (hf : FoundEmpty args) : FoundEmpty args' := by
  cases h
  case module hh _ _         => exact fun _ => hf (by simp [hh])
  case noSlots hh _          => exact fun _ => hf (by simp [hh])
  case skipSlot hh _ _       => exact fun _ => hf (by simp [hh])
  case slot hh _ _ _         => exact fun _ => hf (by simp [hh])
  case noSession hh _ _ _    => exact fun _ => hf (by simp [hh])
  case session hh _ _ _      => exact fun _ => hf (by simp [hh])
  case find hh _ _           => exact fun _ => hf (by simp [hh])
  case results               => exact fun hr => absurd rfl hr
  case again found _ _ _ _ _ ht =>
    rw [takeResults_eq] at ht
    simp only [Prod.mk.injEq, decide_eq_false_iff_not, not_le] at ht
    obtain ⟨rfl, -, hlt⟩ := ht
    exact fun _ => List.drop_eq_nil_of_le hlt.le

theorem Move.collect (h : Move args args') (hf : FoundEmpty args) :
    collect args.attrTypes args.wantObjects args'.results (visits args') =
      Enumerator.collect args.attrTypes args.wantObjects args.results (visits args) := by
  cases h
  case module hh hs hm      => simp [visits, current, hh, hs, hm, moduleVisits]
  case noSlots hh hs        => simp [visits, current, hh, hs]
  case skipSlot hh hs hm    => simp [visits, current, hh, hs, slotVisits, hm]
  case slot hh hs ht hm     => simp [visits, current, hh, hs, slotVisits, ht, hm]
  case noSession hh hs hf hrv => simp [visits, current, hh, hs, hf, openVisits, hrv]
  case session hh hs hf hrv => simp [visits, current, hh, hs, hf, openVisits, hrv]
  case find hh hf hs        => simp [visits, current, hh]
  case results hh hs hfs hz =>
    simp [visits, current, hh, hs, hfs, sessionVisit, hz, hf (by simp [hh])]
  case again found _ _ hh hz hfound ht =>
    rw [takeResults_eq] at ht
    simp only [Prod.mk.injEq, decide_eq_false_iff_not, not_le] at ht
    obtain ⟨rfl, rfl, hlt⟩ := ht
    simp [visits, current, hh, hz, hfound, Enumerator.collect, hlt, List.take_of_length_le hlt.le]

theorem Stop.collect (h : Stop args args') :
    Enumerator.collect args.attrTypes args.wantObjects args.results (visits args) =
      (args'.results, visits args') := by
  cases h
  case modules hh hs hm   => simp [visits, current, hh, hs, hm, Enumerator.collect]
  case find hh hs hf hz   => simp [visits, current, hh, hs, hf, sessionVisit, hz, Enumerator.collect]
  case noSession hh hz    => simp [visits, current, hh, hz, Enumerator.collect]
  case results found _ _ hh hz hfound ht =>
    rw [takeResults_eq] at ht
    simp only [Prod.mk.injEq, decide_eq_true_eq] at ht
    obtain ⟨rfl, rfl, hle⟩ := ht
    simp [visits, current, hh, hz, hfound, Enumerator.collect, not_lt.mpr hle]

theorem Stop.foundEmpty (h : Stop args args') (hf : FoundEmpty args) : FoundEmpty args' := by
  cases h
  case modules             => exact hf
  case find hh _ _ _       => exact fun _ => by simp [hf (by simp [hh])]
  case noSession           => exact hf
  case results hh _ _ _    => exact fun hr => absurd hh hr

end Enumerator
