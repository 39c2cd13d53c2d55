import GcrModel.Gck.Session.Operations

-- gck-session.c: how the user is asked for a PIN to log in to a token, and to use a key.
namespace Login

open GLib Session

inductive User
  | user
  | contextSpecific
  deriving DecidableEq

structure TokenInfo where
  label : Bytes
  flags : Nat

structure SessionInfo where
  slotId : Nat
  state  : Nat

-- What `C_GetAttributeValue` finds of the key: the length of CKA_LABEL and the value of CKA_ALWAYS_AUTHENTICATE, each of
-- which may be missing, unless the call fails for another reason.
inductive KeyReply
  | filled (label : Option Nat) (alwaysAuthenticate : Option Bool)
  | failed (rv : RV)

-- The module and the user in a state, which also has whether the operation was cancelled.
structure Functions (σ : Type*) where
  cancelled      : σ → Bool
  getTokenInfo   : Option Nat → σ → (RV × TokenInfo) × σ
  getSessionInfo : σ → (RV × SessionInfo) × σ
  getAttributes  : σ → KeyReply × σ
  getLabel       : Nat → σ → (RV × Bytes) × σ
  login          : User → Option Bytes → σ → RV × σ
  askPassword    : Password → σ → InteractionResult × σ

-- What is of interest of the calls that are made. A question ends with the operation cancelled or not.
inductive Call
  | check (cancelled : Bool)
  | tokenInfo (rv : RV) (flags : Nat)
  | sessionInfo (rv : RV) (state : Nat)
  | ask (password : Password) (result : InteractionResult) (cancelled : Bool)
  | login (type : User) (pin : Option Bytes) (rv : RV)

-- `CKF_LOGIN_REQUIRED`
def ckfLoginRequired : Nat := 2

-- CKS_RO_USER_FUNCTIONS, CKS_RW_USER_FUNCTIONS and CKS_RW_SO_FUNCTIONS
def loggedIn (state : Nat) : Bool :=
  state = 3 ∨ state = 1 ∨ state = 4

-- `gck_string_from_chars`
def stringFromChars (data : Bytes) : Option Bytes :=
  -- Means no value
  if data.head? = some 0 then none else some ((cstr data).rdropWhile asciiIsspace)

def updatePasswordForToken (password : Password) (info : TokenInfo) (requestRetry : Bool) : Password :=
  updatePasswordForKey { password with description := stringFromChars info.label } info.flags requestRetry

variable {σ : Type*} (f : Functions σ) (interaction : Bool)

-- The question and the login, which both loops have: the calls, and what is returned or the state for the next round.
def askAndLogin (type : User) (a : Authentication σ) : List Call × (RV ⊕ Authentication σ) :=
  if interaction then
    match f.askPassword a.password a.module with
    | (.failed error, module) =>
      ([.ask a.password (.failed error) (f.cancelled module)], .inl (rvFromError error ckrUserNotLoggedIn))
    | (.unhandled, module)    => ([.ask a.password .unhandled (f.cancelled module)], .inl ckrUserNotLoggedIn)
    | (.handled pin, module)  =>
      let (rv, module') := f.login type (some pin) module
      ([.ask a.password (.handled pin) (f.cancelled module), .login type (some pin) rv],
        if rv = ckrPinIncorrect then .inr { a with requestRetry := true, module := module' } else .inl rv)
  else ([], .inl ckrUserNotLoggedIn)

-- Only one C_Login call if protected auth path
def protectedLogin (type : User) (module : σ) : List Call × (RV ⊕ Authentication σ) :=
  let (rv, _) := f.login type none module
  ([.login type none rv], .inl rv)

def tokenRound (a : Authentication σ) : List Call × (RV ⊕ Authentication σ) :=
  if f.cancelled a.module then ([.check true], .inl ckrFunctionCanceled)
  else
    let ((rv, info), module) := f.getTokenInfo none a.module
    let calls := [.check false, .tokenInfo rv info.flags]
    if rv ≠ ckrOk then (calls, .inl rv)
    -- No login necessary?
    else if info.flags.testBit ckfLoginRequired = false then (calls, .inl ckrOk)
    else
      -- Next check if session is logged in?
      let ((rv, session), module) := f.getSessionInfo module
      let calls := calls ++ [.sessionInfo rv session.state]
      if rv ≠ ckrOk then (calls, .inl rv)
      -- Already logged in?
      else if loggedIn session.state then (calls, .inl ckrOk)
      else
        let (last, next) :=
          if info.flags.testBit ckfProtectedAuthenticationPath then protectedLogin f .user module
          else askAndLogin f interaction .user
            { a with password := updatePasswordForToken a.password info a.requestRetry, module := module }
        (calls ++ last, next)

-- Set the label properly
def setLabel (labelLength : Nat) (a : Authentication σ) : Authentication σ :=
  if a.gotLabel then a
  else if labelLength ≠ 0 ∧ labelLength ≠ gckInvalid then
    let ((rv, label), module) := f.getLabel labelLength a.module
    { a with
      password := if rv = ckrOk then { a.password with description := some label } else a.password
      gotLabel := true
      module   := module }
  else { a with gotLabel := true }

def keyRound (labelLength : Nat) (a : Authentication σ) : List Call × (RV ⊕ Authentication σ) :=
  if f.cancelled a.module then ([.check true], .inl ckrFunctionCanceled)
  else
    let ((rv, session), module) := f.getSessionInfo a.module
    let calls := [.check false, .sessionInfo rv session.state]
    if rv ≠ ckrOk then (calls, .inl rv)
    else
      let ((rv, info), module) := f.getTokenInfo (some session.slotId) module
      let calls := calls ++ [.tokenInfo rv info.flags]
      if rv ≠ ckrOk then (calls, .inl rv)
      else
        let (last, next) :=
          -- Protected authentication path, just use NULL passwords
          if info.flags.testBit ckfProtectedAuthenticationPath then protectedLogin f .contextSpecific module
          else askAndLogin f interaction .contextSpecific (setLabel f labelLength
            { a with password := updatePasswordForKey a.password info.flags a.requestRetry, module := module })
        (calls ++ last, next)

-- The rounds up to so many, with what is returned if they end.
def attempts (round : Authentication σ → List Call × (RV ⊕ Authentication σ)) : Nat → Authentication σ → List Call × Option RV
  | 0,        _ => ([], none)
  | fuel + 1, a =>
    match round a with
    | (calls, .inl rv) => (calls, some rv)
    | (calls, .inr a)  =>
      let (rest, rv) := attempts round fuel a
      (calls ++ rest, rv)

def authenticateToken (fuel : Nat) (module : σ) : List Call × Option RV :=
  attempts (tokenRound f interaction) fuel { module := module }

def authenticateKey (fuel : Nat) (module : σ) : List Call × Option RV :=
  match f.getAttributes module with
  -- Couldn't check whether key requires authentication, assuming it doesn't
  | (.failed _, _)                    => ([], some ckrOk)
  | (.filled label always, module)    =>
    -- `CKR_ATTRIBUTE_TYPE_INVALID` when either is missing, and then the value is CK_FALSE
    let bvalue := if label.isSome ∧ always.isSome then always else some false
    if bvalue ≠ some true then ([], some ckrOk)
    else attempts (keyRound f interaction (label.getD 0)) fuel { module := module }

section Rules

-- What a monitor knows of the calls so far: the answer that was not used yet, whether there was a question, whether the
-- token has a protected authentication path, what the last login returned and whether it was for one, and whether it
-- should end.
structure Watch where
  answer      : Option Bytes := none
  asked       : Bool := false
  path        : Bool := false
  last        : Option RV := none
  isProtected : Bool := false
  ended       : Bool := false

def watch (w : Watch) : Call → Watch
  | .check cancelled                 => { w with ended := w.ended || cancelled }
  | .tokenInfo _ flags               => { w with path := flags.testBit ckfProtectedAuthenticationPath }
  | .sessionInfo _ _                 => w
  | .ask _ (.handled pin) cancelled  => { w with asked := true, answer := some pin, ended := w.ended || cancelled }
  | .ask _ (.failed _) _             => { w with asked := true, answer := none, ended := true }
  | .ask _ .unhandled _              => { w with asked := true, answer := none, ended := true }
  | .login _ _ rv                    => { w with answer := none, last := some rv, isProtected := w.path }

-- There was no login before, or the PIN was incorrect.
def Watch.Again (w : Watch) : Prop :=
  w.last = none ∨ w.last = some ckrPinIncorrect ∧ w.isProtected = false

-- A question is flagged as a retry if it is not the first one, and each login with a PIN takes that of the question in front.
-- A login is without one exactly for a protected authentication path. Nothing more is done once it should end.
def Allows (w : Watch) : Call → Prop
  | .check _              => w.ended = false
  | .tokenInfo _ _        => w.ended = false
  | .sessionInfo _ _      => w.ended = false
  | .ask password _ _     => w.ended = false ∧ w.Again ∧ password.retry = w.asked
  | .login _ (some pin) _ => w.ended = false ∧ w.Again ∧ w.path = false ∧ w.answer = some pin
  | .login _ none _       => w.ended = false ∧ w.Again ∧ w.path = true

abbrev Ordered (calls : List Call) : Prop :=
  Monitor.Accepts watch Allows {} calls

-- That no login is needed, or that one was successful.
def Call.authenticates : Call → Bool
  | .tokenInfo rv flags   => rv = ckrOk ∧ flags.testBit ckfLoginRequired = false
  | .sessionInfo rv state => rv = ckrOk ∧ loggedIn state
  | .login _ _ rv         => rv = ckrOk
  | .check _              => false
  | .ask _ _ _            => false

def Call.isContextLogin : Call → Bool
  | .login .contextSpecific _ _ => true
  | _                           => false

-- What is expected of a login to the token, with the calls so far and what is returned.
structure TokenKept (run : List Call × Option RV) : Prop where
  ordered       : Ordered run.1
  authenticated : run.2 = some ckrOk → ∃ c ∈ run.1, c.authenticates

structure KeyKept (reply : KeyReply) (run : List Call × Option RV) : Prop where
  ordered   : Ordered run.1
  attempted : ∀ label, reply = .filled label (some true) → run.2 = some ckrOk → ∃ c ∈ run.1, c.isContextLogin
  spared    : (∀ label, reply ≠ .filled label (some true)) → ∀ c ∈ run.1, c.isContextLogin = false

def Call.isAsk : Call → Bool
  | .ask _ _ _ => true
  | _          => false

-- The operation is not cancelled while a question is asked that is answered.
def Call.Undisturbed : Call → Prop
  | .ask _ (.handled _) cancelled => cancelled = false
  | _                             => True

-- A question does not fail with an error that says that there is none.
def Call.Honest : Call → Prop
  | .ask _ (.failed (.gck rv)) _ => rv ≠ ckrOk
  | _                            => True

structure Kept (module : σ) : Prop where
  token : ∀ fuel, TokenKept (authenticateToken f interaction fuel module)
  key   : ∀ fuel, KeyKept (f.getAttributes module).1 (authenticateKey f interaction fuel module)

-- When the two functions keep to it: a key that has to be authenticated always has a label, the operation is not cancelled
-- during a question that is answered, and no question fails with CKR_OK, if it is the first one for a key.
structure Suits (module : σ) : Prop where
  token : ∀ fuel, ∀ c ∈ (authenticateToken f interaction fuel module).1, c.Undisturbed ∧ c.Honest
  label : (f.getAttributes module).1 ≠ .filled none (some true)
  key   : ∀ fuel, ∀ c ∈ (authenticateKey f interaction fuel module).1, c.Undisturbed
  first : ∀ fuel, ∀ c ∈ (authenticateKey f interaction fuel module).1.find? Call.isAsk, c.Honest

end Rules

section Shape

-- The calls in front of a login.
def Call.isInfo : Call → Bool
  | .check cancelled => !cancelled
  | .tokenInfo _ _   => true
  | .sessionInfo _ _ => true
  | .ask _ _ _       => false
  | .login _ _ _     => false

-- The path of the token as it was read last.
def pathOf (path : Bool) (calls : List Call) : Bool :=
  (Monitor.after watch { path := path } calls).path

-- What a round can be.
inductive Shape (type : User) (p : Call → Prop) (a : Authentication σ) : List Call → RV ⊕ Authentication σ → Prop
  | cancelled : Shape type p a [.check true] (.inl ckrFunctionCanceled)
  | stopped {calls rv} : (∀ c ∈ calls, p c) → rv ≠ ckrOk → Shape type p a calls (.inl rv)
  | exempt {calls c} : (∀ c ∈ calls, p c) → type = .user → c.isInfo → c.authenticates →
    Shape type p a (calls ++ [c]) (.inl ckrOk)
  | isProtected {calls rv} : (∀ c ∈ calls, p c) → (∀ path, pathOf path calls = true) →
    Shape type p a (calls ++ [.login type none rv]) (.inl rv)
  | declined {calls password cancelled} : (∀ c ∈ calls, p c) → password.retry = a.requestRetry →
    Shape type p a (calls ++ [.ask password .unhandled cancelled]) (.inl ckrUserNotLoggedIn)
  | failed {calls password error cancelled} : (∀ c ∈ calls, p c) → password.retry = a.requestRetry →
    Shape type p a (calls ++ [.ask password (.failed error) cancelled]) (.inl (rvFromError error ckrUserNotLoggedIn))
  | answered {calls password pin cancelled rv} : (∀ c ∈ calls, p c) → (∀ path, pathOf path calls = false) →
    password.retry = a.requestRetry → Shape type p a (calls ++ [.ask password (.handled pin) cancelled, .login type (some pin) rv]) (.inl rv)
  | again {calls password pin cancelled a'} : (∀ c ∈ calls, p c) → (∀ path, pathOf path calls = false) →
    password.retry = a.requestRetry → a'.requestRetry = true → Shape type p a (calls ++ [.ask password (.handled pin) cancelled, .login type (some pin) ckrPinIncorrect]) (.inr a')

variable {f interaction} {type : User} {p : Call → Prop} {a a' : Authentication σ} {calls : List Call}

theorem askAndLogin_shape (hcalls : ∀ c ∈ calls, p c) (hpath : ∀ path, pathOf path calls = false) (hretry : a'.password.retry = a.requestRetry) :
    Shape type p a (calls ++ (askAndLogin f interaction type a').1) (askAndLogin f interaction type a').2 := by
  rw [askAndLogin]
  split
  case isFalse =>
    rw [List.append_nil]
    exact .stopped hcalls (by decide)
  case isTrue =>
    split
    case h_1 => exact .failed hcalls hretry
    case h_2 => exact .declined hcalls hretry
    case h_3 pin module _ =>
      dsimp only
      by_cases hwrong : (f.login type (some pin) module).1 = ckrPinIncorrect
      case pos =>
        rw [if_pos hwrong, hwrong]
        exact .again hcalls hpath hretry rfl
      case neg =>
        rw [if_neg hwrong]
        exact .answered hcalls hpath hretry

theorem protectedLogin_shape (hcalls : ∀ c ∈ calls, p c) (hpath : ∀ path, pathOf path calls = true) (module : σ) :
    Shape type p a (calls ++ (protectedLogin f type module).1) (protectedLogin f type module).2 :=
  .isProtected hcalls hpath

theorem setLabel_retry (labelLength : Nat) (a : Authentication σ) : (setLabel f labelLength a).password.retry = a.password.retry := by
  rw [setLabel]
  split
  case isTrue => rfl
  case isFalse =>
    split
    case isTrue =>
      dsimp only
      split
      case isTrue  => rfl
      case isFalse => rfl
    case isFalse => rfl

theorem keyRound_shape (f : Functions σ) (interaction : Bool) (labelLength : Nat) (a : Authentication σ) :
    Shape .contextSpecific (fun c => c.isInfo = true) a (keyRound f interaction labelLength a).1
      (keyRound f interaction labelLength a).2 := by
  rw [keyRound]
  split
  case isTrue => exact .cancelled
  case isFalse =>
    dsimp only
    split
    case isTrue hrv => exact .stopped (by simp [Call.isInfo]) hrv
    case isFalse =>
      split
      case isTrue hrv => exact .stopped (by simp [Call.isInfo]) hrv
      case isFalse =>
        split
        case isTrue hpath  => exact protectedLogin_shape (by simp [Call.isInfo]) (fun _ => by exact hpath) _
        case isFalse hpath =>
          exact askAndLogin_shape (by simp [Call.isInfo]) (fun _ => by exact Bool.eq_false_of_not_eq_true hpath) (setLabel_retry _ _)

-- What the calls in front of a login to the token are.
abbrev Needed (c : Call) : Prop :=
  c.isInfo = true ∧ c.authenticates = false

theorem needed_check : Needed (.check false) :=
  ⟨rfl, rfl⟩

theorem needed_tokenInfo {rv : RV} {flags : Nat} (h : rv = ckrOk → flags.testBit ckfLoginRequired = true) :
    Needed (.tokenInfo rv flags) := by
  refine ⟨rfl, decide_eq_false ?_⟩
  rintro ⟨hrv, hflags⟩
  exact Bool.noConfusion (hflags.symm.trans (h hrv))

theorem needed_sessionInfo {rv : RV} {state : Nat} (h : rv = ckrOk → loggedIn state = false) :
    Needed (.sessionInfo rv state) := by
  refine ⟨rfl, decide_eq_false ?_⟩
  rintro ⟨hrv, hstate⟩
  exact Bool.noConfusion ((h hrv).symm.trans hstate)

theorem tokenRound_shape (f : Functions σ) (interaction : Bool) (a : Authentication σ) :
    Shape .user Needed a (tokenRound f interaction a).1 (tokenRound f interaction a).2 := by
  rw [tokenRound]
  split
  case isTrue => exact .cancelled
  case isFalse =>
    generalize f.getTokenInfo none a.module = reply
    obtain ⟨⟨rv, info⟩, module⟩ := reply
    dsimp only
    split
    case isTrue hrv =>
      refine .stopped ?_ hrv
      simpa using ⟨needed_check, needed_tokenInfo fun heq => absurd heq hrv⟩
    case isFalse hrv =>
      have hrv := Classical.not_not.mp hrv
      split
      case isTrue hlogin =>
        exact .exempt (List.forall_mem_singleton.mpr needed_check) rfl rfl (decide_eq_true ⟨hrv, hlogin⟩)
      case isFalse hlogin =>
        have htoken := @needed_tokenInfo rv info.flags fun _ => Bool.eq_true_of_not_eq_false hlogin
        split
        case isTrue hrv' =>
          refine .stopped ?_ hrv'
          simpa using ⟨needed_check, htoken, needed_sessionInfo fun heq => absurd heq hrv'⟩
        case isFalse hrv' =>
          split
          case isTrue hlogged =>
            have hcalls : ∀ c ∈ [Call.check false, .tokenInfo rv info.flags], Needed c := by
              simpa using ⟨needed_check, htoken⟩
            exact .exempt hcalls rfl rfl (decide_eq_true ⟨Classical.not_not.mp hrv', hlogged⟩)
          case isFalse hlogged =>
            have hsession (rv : RV) := @needed_sessionInfo rv _ fun _ => Bool.eq_false_of_not_eq_true hlogged
            split
            case isTrue hpath  =>
              exact protectedLogin_shape (by simpa using ⟨needed_check, htoken, hsession _⟩) (fun _ => by exact hpath) _
            case isFalse hpath =>
              exact askAndLogin_shape (by simpa using ⟨needed_check, htoken, hsession _⟩)
                (fun _ => by exact Bool.eq_false_of_not_eq_true hpath) rfl

end Shape

section Round

variable {type : User} {p : Call → Prop} {a a' : Authentication σ} {calls rest : List Call} {next : RV ⊕ Authentication σ}
variable {w : Watch} {rv : RV}

-- What the monitor knows in front of a round.
structure Good (w : Watch) (a : Authentication σ) : Prop where
  ended : w.ended = false
  again : w.Again
  asked : a.requestRetry = w.asked

theorem good_start (module : σ) : Good {} ({ module := module } : Authentication σ) :=
  ⟨rfl, .inl rfl, rfl⟩

theorem Good.read (hw : Good w a) (path : Bool) : Good { w with path := path } a :=
  ⟨hw.ended, hw.again, hw.asked⟩

theorem after_info (hcalls : ∀ c ∈ calls, c.isInfo = true) :
    Monitor.after watch w calls = { w with path := pathOf w.path calls } := by
  induction calls generalizing w with
  | nil => rfl
  | cons c calls ih =>
    rw [List.forall_mem_cons] at hcalls
    rw [Monitor.after_cons, ih hcalls.2]
    cases c with
    | check cancelled =>
      have hcancelled : cancelled = false := by simpa [Call.isInfo] using hcalls.1
      subst hcancelled
      simp [watch, pathOf, Monitor.after_cons]
    | tokenInfo   => rfl
    | sessionInfo => rfl
    | ask         => cases hcalls.1
    | login       => cases hcalls.1

theorem accepts_info (hover : w.ended = false) (hcalls : ∀ c ∈ calls, c.isInfo = true) :
    Monitor.Accepts watch Allows w calls := by
  rw [Monitor.accepts_iff]
  rintro before c rest rfl
  rw [after_info fun c' hc' => hcalls c' (List.mem_append_left _ hc')]
  have hc := hcalls c (List.mem_append_right _ List.mem_cons_self)
  cases c with
  | check       => exact hover
  | tokenInfo   => exact hover
  | sessionInfo => exact hover
  | ask         => cases hc
  | login       => cases hc

-- Of the calls in front of a login only the path matters to the monitor.
theorem accepts_append_info (hover : w.ended = false) (hcalls : ∀ c ∈ calls, c.isInfo = true) :
    Monitor.Accepts watch Allows w (calls ++ rest) ↔
      Monitor.Accepts watch Allows { w with path := pathOf w.path calls } rest := by
  rw [Monitor.accepts_append, after_info hcalls, and_iff_right (accepts_info hover hcalls)]

theorem undisturbed_info {c : Call} (h : c.isInfo = true) : c.Undisturbed := by
  cases c with
  | check       => trivial
  | tokenInfo   => trivial
  | sessionInfo => trivial
  | ask         => cases h
  | login       => cases h

theorem forall_append_info {q : Call → Prop} (hq : ∀ c, c.isInfo = true → q c) (hcalls : ∀ c ∈ calls, c.isInfo = true) :
    (∀ c ∈ calls ++ rest, q c) ↔ ∀ c ∈ rest, q c := by
  rw [List.forall_mem_append, and_iff_right fun c hc => hq c (hcalls c hc)]

theorem accepts_answered (hw : Good w a) (hpath : w.path = false) {password : Password} {pin : Bytes} {cancelled : Bool}
    (hretry : password.retry = a.requestRetry) :
    Monitor.Accepts watch Allows w [.ask password (.handled pin) cancelled, .login type (some pin) rv] ↔ cancelled = false := by
  have hask : Allows w (.ask password (.handled pin) cancelled) := ⟨hw.ended, hw.again, hretry.trans hw.asked⟩
  rw [Monitor.accepts_cons, Monitor.accepts_cons, and_iff_right hask]
  refine ⟨fun h => (Bool.or_eq_false_iff.mp h.1.1).2, ?_⟩
  rintro rfl
  exact ⟨⟨Bool.or_eq_false_iff.mpr ⟨hw.ended, rfl⟩, hw.again, hpath, rfl⟩, trivial⟩

theorem undisturbed_answered {password : Password} {pin : Bytes} {cancelled : Bool} :
    (∀ c ∈ [Call.ask password (.handled pin) cancelled, .login type (some pin) rv], c.Undisturbed) ↔ cancelled = false := by
  rw [List.forall_mem_cons, List.forall_mem_singleton]
  exact and_iff_left trivial

-- A round is as expected exactly if nothing is cancelled during a question that is answered.
theorem Shape.accepts_iff (h : Shape type p a calls next) (hp : ∀ c, p c → c.isInfo = true) (hw : Good w a) :
    Monitor.Accepts watch Allows w calls ↔ ∀ c ∈ calls, c.Undisturbed := by
  have hinfo {calls : List Call} (hcalls : ∀ c ∈ calls, p c) : ∀ c ∈ calls, c.isInfo = true := fun c hc => hp c (hcalls c hc)
  cases h with
  | cancelled => exact iff_of_true ⟨hw.ended, trivial⟩ (List.forall_mem_singleton.mpr trivial)
  | stopped hcalls _ =>
    exact iff_of_true (accepts_info hw.ended (hinfo hcalls)) fun c hc => undisturbed_info (hinfo hcalls c hc)
  | exempt hcalls _ hc _ =>
    have hall := List.forall_mem_append.mpr ⟨hinfo hcalls, List.forall_mem_singleton.mpr hc⟩
    exact iff_of_true (accepts_info hw.ended hall) fun c hc => undisturbed_info (hall c hc)
  | isProtected hcalls hpath =>
    rw [accepts_append_info hw.ended (hinfo hcalls), forall_append_info (fun _ => undisturbed_info) (hinfo hcalls)]
    exact iff_of_true ⟨⟨hw.ended, hw.again, hpath _⟩, trivial⟩ (List.forall_mem_singleton.mpr trivial)
  | declined hcalls hretry =>
    rw [accepts_append_info hw.ended (hinfo hcalls), forall_append_info (fun _ => undisturbed_info) (hinfo hcalls)]
    exact iff_of_true ⟨⟨hw.ended, hw.again, hretry.trans hw.asked⟩, trivial⟩ (List.forall_mem_singleton.mpr trivial)
  | failed hcalls hretry =>
    rw [accepts_append_info hw.ended (hinfo hcalls), forall_append_info (fun _ => undisturbed_info) (hinfo hcalls)]
    exact iff_of_true ⟨⟨hw.ended, hw.again, hretry.trans hw.asked⟩, trivial⟩ (List.forall_mem_singleton.mpr trivial)
  | answered hcalls hpath hretry | again hcalls hpath hretry _ =>
    rw [accepts_append_info hw.ended (hinfo hcalls), forall_append_info (fun _ => undisturbed_info) (hinfo hcalls),
      accepts_answered (hw.read (pathOf w.path _)) (hpath _) hretry, undisturbed_answered]

-- After a round that was as expected the next one begins as that one did.
theorem Shape.good (h : Shape type p a calls (.inr a')) (hp : ∀ c, p c → c.isInfo = true) (hw : Good w a)
    (haccepts : Monitor.Accepts watch Allows w calls) : Good (Monitor.after watch w calls) a' := by
  cases h with
  | again hcalls hpath hretry hnext =>
    have hinfo := fun c hc => hp c (hcalls c hc)
    rw [accepts_append_info hw.ended hinfo, accepts_answered (hw.read (pathOf w.path _)) (hpath _) hretry] at haccepts
    rw [Monitor.after_append, after_info hinfo, haccepts]
    exact ⟨Bool.or_eq_false_iff.mpr ⟨hw.ended, rfl⟩, .inr ⟨rfl, hpath _⟩, hnext⟩

-- Over a whole run.
theorem attempts_accepts_iff {round : Authentication σ → List Call × (RV ⊕ Authentication σ)}
    (hround : ∀ a, Shape type p a (round a).1 (round a).2) (hp : ∀ c, p c → c.isInfo = true) (hw : Good w a) (fuel : Nat) :
    Monitor.Accepts watch Allows w (attempts round fuel a).1 ↔ ∀ c ∈ (attempts round fuel a).1, c.Undisturbed := by
  induction fuel generalizing w a with
  | zero => exact iff_of_true trivial (List.forall_mem_nil _)
  | succ fuel ih =>
    have hshape := hround a
    rw [attempts]
    generalize round a = r at hshape
    obtain ⟨calls, rv | a'⟩ := r
    · exact hshape.accepts_iff hp hw
    · dsimp only at hshape ⊢
      rw [Monitor.accepts_append, List.forall_mem_append, hshape.accepts_iff hp hw]
      refine and_congr_right fun hcalls => ih (hshape.good hp hw ?_)
      exact (hshape.accepts_iff hp hw).mpr hcalls

end Round

section Result

variable {f interaction} {p : Call → Prop} {a a' : Authentication σ} {calls : List Call} {rv : RV} {type : User}

theorem honest_info {c : Call} (h : c.isInfo = true) : c.Honest := by
  cases c with
  | check       => trivial
  | tokenInfo   => trivial
  | sessionInfo => trivial
  | ask         => cases h
  | login       => cases h

-- What an error of a question is returned as.
theorem rvFromError_eq_ok_iff {error : InteractionError} (password : Password) (cancelled : Bool) :
    rvFromError error ckrUserNotLoggedIn = ckrOk ↔ ¬(Call.ask password (.failed error) cancelled).Honest := by
  cases error with
  | gck rv    => exact Classical.not_not.symm
  | cancelled => exact iff_of_false (by decide) (not_not_intro trivial)
  | other     => exact iff_of_false (by decide) (not_not_intro trivial)

-- The last round of a login to the token.
theorem Shape.authenticated_iff (h : Shape .user Needed a calls (.inl rv)) :
    (rv = ckrOk → ∃ c ∈ calls, c.authenticates = true) ↔ ∀ c ∈ calls, c.Honest := by
  cases h with
  | cancelled => exact iff_of_true (fun h => absurd h (by decide)) (List.forall_mem_singleton.mpr trivial)
  | stopped hcalls hrv => exact iff_of_true (fun h => absurd h hrv) fun c hc => honest_info (hcalls c hc).1
  | exempt hcalls _ hc hauthenticates =>
    refine iff_of_true (fun _ => ⟨_, List.mem_append_right _ (List.mem_singleton_self _), hauthenticates⟩) ?_
    exact List.forall_mem_append.mpr ⟨fun c hc => honest_info (hcalls c hc).1, List.forall_mem_singleton.mpr (honest_info hc)⟩
  | isProtected hcalls _ =>
    refine iff_of_true (fun h => ⟨_, List.mem_append_right _ (List.mem_singleton_self _), decide_eq_true h⟩) ?_
    exact List.forall_mem_append.mpr ⟨fun c hc => honest_info (hcalls c hc).1, List.forall_mem_singleton.mpr trivial⟩
  | declined hcalls _ =>
    refine iff_of_true (fun h => absurd h (by decide)) ?_
    exact List.forall_mem_append.mpr ⟨fun c hc => honest_info (hcalls c hc).1, List.forall_mem_singleton.mpr trivial⟩
  | @failed calls password error cancelled hcalls _ =>
    rw [List.forall_mem_append, and_iff_right fun c hc => honest_info (hcalls c hc).1, List.forall_mem_singleton,
      rvFromError_eq_ok_iff password cancelled]
    refine ⟨fun h => Classical.byContradiction fun hnot => ?_, fun h hnot => absurd h hnot⟩
    obtain ⟨c, hc, hauthenticates⟩ := h hnot
    cases List.mem_append.mp hc with
    | inl hc => exact Bool.noConfusion ((hcalls c hc).2.symm.trans hauthenticates)
    | inr hc =>
      rw [List.mem_singleton.mp hc] at hauthenticates
      cases hauthenticates
  | answered hcalls _ _ =>
    refine iff_of_true (fun h => ⟨_, List.mem_append_right _ (List.mem_cons_of_mem _ List.mem_cons_self), decide_eq_true h⟩) ?_
    refine List.forall_mem_append.mpr ⟨fun c hc => honest_info (hcalls c hc).1, ?_⟩
    exact List.forall_mem_cons.mpr ⟨trivial, List.forall_mem_singleton.mpr trivial⟩

theorem Shape.honest_again (h : Shape .user Needed a calls (.inr a')) :
    (∀ c ∈ calls, c.Honest) ∧ ∀ c ∈ calls, c.authenticates = false := by
  cases h with
  | again hcalls _ _ _ =>
    constructor
    · refine List.forall_mem_append.mpr ⟨fun c hc => honest_info (hcalls c hc).1, ?_⟩
      exact List.forall_mem_cons.mpr ⟨trivial, List.forall_mem_singleton.mpr trivial⟩
    · refine List.forall_mem_append.mpr ⟨fun c hc => (hcalls c hc).2, ?_⟩
      exact List.forall_mem_cons.mpr ⟨rfl, List.forall_mem_singleton.mpr rfl⟩

theorem attempts_authenticated_iff {round : Authentication σ → List Call × (RV ⊕ Authentication σ)}
    (hround : ∀ a, Shape .user Needed a (round a).1 (round a).2) (fuel : Nat) (a : Authentication σ) :
    ((attempts round fuel a).2 = some ckrOk → ∃ c ∈ (attempts round fuel a).1, c.authenticates = true) ↔
      ∀ c ∈ (attempts round fuel a).1, c.Honest := by
  induction fuel generalizing a with
  | zero => exact iff_of_true nofun (List.forall_mem_nil _)
  | succ fuel ih =>
    have hshape := hround a
    rw [attempts]
    generalize round a = r at hshape
    obtain ⟨calls, rv | a'⟩ := r
    · dsimp only at hshape ⊢
      rw [Option.some.injEq]
      exact hshape.authenticated_iff
    · obtain ⟨hhonest, hnot⟩ := hshape.honest_again
      dsimp only at hhonest hnot ⊢
      rw [List.forall_mem_append, and_iff_right hhonest, ← ih a']
      refine imp_congr_right fun _ => ⟨?_, ?_⟩
      · rintro ⟨c, hc, hauthenticates⟩
        cases List.mem_append.mp hc with
        | inl hc => exact Bool.noConfusion ((hnot c hc).symm.trans hauthenticates)
        | inr hc => exact ⟨c, hc, hauthenticates⟩
      · rintro ⟨c, hc, hauthenticates⟩
        exact ⟨c, List.mem_append_right _ hc, hauthenticates⟩

theorem find_append_info {rest : List Call} (hcalls : ∀ c ∈ calls, c.isInfo = true) :
    (calls ++ rest).find? Call.isAsk = rest.find? Call.isAsk := by
  have hnone : calls.find? Call.isAsk = none := by
    rw [List.find?_eq_none]
    intro c hc
    have hinfo := hcalls c hc
    cases c with
    | check       => exact Bool.noConfusion
    | tokenInfo   => exact Bool.noConfusion
    | sessionInfo => exact Bool.noConfusion
    | ask         => cases hinfo
    | login       => cases hinfo
  rw [List.find?_append, hnone, Option.none_or]

-- The last round of a login for a key.
theorem Shape.attempted_iff (h : Shape .contextSpecific (fun c => c.isInfo = true) a calls (.inl rv)) :
    (rv = ckrOk → ∃ c ∈ calls, c.isContextLogin = true) ↔ ∀ c ∈ calls.find? Call.isAsk, c.Honest := by
  cases h with
  | cancelled => exact iff_of_true (fun h => absurd h (by decide)) nofun
  | stopped hcalls hrv =>
    refine iff_of_true (fun h => absurd h hrv) fun c hc => ?_
    exact honest_info (hcalls c (List.mem_of_find?_eq_some hc))
  | exempt _ htype => cases htype
  | isProtected hcalls _ =>
    rw [find_append_info hcalls]
    exact iff_of_true (fun _ => ⟨_, List.mem_append_right _ (List.mem_singleton_self _), rfl⟩) nofun
  | declined hcalls _ =>
    rw [find_append_info hcalls]
    refine iff_of_true (fun h => absurd h (by decide)) fun c hc => ?_
    cases hc
    trivial
  | @failed calls password error cancelled hcalls _ =>
    rw [find_append_info hcalls, rvFromError_eq_ok_iff password cancelled]
    constructor
    case mp =>
      intro h c hc
      cases hc
      refine Classical.byContradiction fun hnot => ?_
      obtain ⟨c, hc, hlogin⟩ := h hnot
      cases List.mem_append.mp hc with
      | inl hc =>
        have hinfo := hcalls c hc
        cases c with
        | login => cases hinfo
        | _     => cases hlogin
      | inr hc =>
        rw [List.mem_singleton.mp hc] at hlogin
        cases hlogin
    case mpr => exact fun h hnot => absurd (h _ rfl) hnot
  | answered hcalls _ _ =>
    rw [find_append_info hcalls]
    refine iff_of_true (fun _ => ⟨_, List.mem_append_right _ (List.mem_cons_of_mem _ List.mem_cons_self), rfl⟩) fun c hc => ?_
    cases hc
    trivial

theorem Shape.attempted_again (h : Shape .contextSpecific (fun c => c.isInfo = true) a calls (.inr a')) :
    (∃ c ∈ calls, c.isContextLogin = true) ∧ ∃ c, calls.find? Call.isAsk = some c ∧ c.Honest := by
  cases h with
  | again hcalls _ _ _ =>
    refine ⟨⟨_, List.mem_append_right _ (List.mem_cons_of_mem _ List.mem_cons_self), rfl⟩, _, find_append_info hcalls, trivial⟩

theorem attempts_attempted_iff {round : Authentication σ → List Call × (RV ⊕ Authentication σ)}
    (hround : ∀ a, Shape .contextSpecific (fun c => c.isInfo = true) a (round a).1 (round a).2) (fuel : Nat)
    (a : Authentication σ) :
    ((attempts round fuel a).2 = some ckrOk → ∃ c ∈ (attempts round fuel a).1, c.isContextLogin = true) ↔
      ∀ c ∈ (attempts round fuel a).1.find? Call.isAsk, c.Honest := by
  cases fuel with
  | zero => exact iff_of_true nofun nofun
  | succ fuel =>
    have hshape := hround a
    rw [attempts]
    generalize round a = r at hshape
    obtain ⟨calls, rv | a'⟩ := r
    · dsimp only at hshape ⊢
      rw [Option.some.injEq]
      exact hshape.attempted_iff
    · obtain ⟨⟨c, hc, hlogin⟩, c', hfind, hhonest⟩ := hshape.attempted_again
      refine iff_of_true (fun _ => ⟨c, List.mem_append_left _ hc, hlogin⟩) fun c'' hc'' => ?_
      dsimp only at hfind hc''
      rw [List.find?_append, hfind, Option.some_or] at hc''
      cases hc''
      exact hhonest

end Result

section Kept

variable {f interaction} {module : σ}

theorem authenticateKey_spared (h : ∀ length, (f.getAttributes module).1 ≠ .filled (some length) (some true)) (fuel : Nat) :
    authenticateKey f interaction fuel module = ([], some ckrOk) := by
  rw [authenticateKey]
  split
  case h_1 => rfl
  case h_2 label always module' hreply =>
    rw [hreply] at h
    cases label with
    | none        => exact if_pos (by simp)
    | some length =>
      cases always with
      | none        => exact if_pos (by simp)
      | some always =>
        cases always with
        | false => exact if_pos (by simp)
        | true  => exact absurd rfl (h length)

theorem authenticateKey_required {length : Nat} (h : (f.getAttributes module).1 = .filled (some length) (some true)) (fuel : Nat) :
    authenticateKey f interaction fuel module =
      attempts (keyRound f interaction length) fuel { module := (f.getAttributes module).2 } := by
  rw [authenticateKey]
  generalize f.getAttributes module = reply at h
  obtain ⟨reply, module'⟩ := reply
  dsimp only at h
  rw [h]
  exact if_neg (by simp)

theorem tokenKept_iff (fuel : Nat) : TokenKept (authenticateToken f interaction fuel module) ↔
    ∀ c ∈ (authenticateToken f interaction fuel module).1, c.Undisturbed ∧ c.Honest := by
  have haccepts := attempts_accepts_iff (tokenRound_shape f interaction)
    (fun _ hc => hc.1) (good_start module) fuel
  have hauthenticated := attempts_authenticated_iff (tokenRound_shape f interaction) fuel
    { module := module }
  constructor
  case mp => exact fun h c hc => ⟨haccepts.mp h.ordered c hc, hauthenticated.mp h.authenticated c hc⟩
  case mpr => exact fun h => ⟨haccepts.mpr fun c hc => (h c hc).1, hauthenticated.mpr fun c hc => (h c hc).2⟩

theorem keyKept_iff (fuel : Nat) : KeyKept (f.getAttributes module).1 (authenticateKey f interaction fuel module) ↔
    (f.getAttributes module).1 ≠ .filled none (some true) ∧
      (∀ c ∈ (authenticateKey f interaction fuel module).1, c.Undisturbed) ∧
      ∀ c ∈ (authenticateKey f interaction fuel module).1.find? Call.isAsk, c.Honest := by
  by_cases hreply : ∃ length, (f.getAttributes module).1 = .filled (some length) (some true)
  case pos =>
    obtain ⟨length, hreply⟩ := hreply
    have haccepts := attempts_accepts_iff (keyRound_shape f interaction length)
      (fun _ hc => hc) (good_start (f.getAttributes module).2) fuel
    have hattempted := attempts_attempted_iff (keyRound_shape f interaction length) fuel
      { module := (f.getAttributes module).2 }
    rw [authenticateKey_required hreply, hreply, and_iff_right (by simp), ← haccepts, ← hattempted]
    exact ⟨fun h => ⟨h.ordered, h.attempted _ rfl⟩, fun h => ⟨h.1, fun _ _ => h.2, fun hne => absurd rfl (hne _)⟩⟩
  case neg =>
    rw [authenticateKey_spared (fun length h => hreply ⟨length, h⟩)]
    constructor
    case mp =>
      intro h
      refine ⟨fun hnone => ?_, List.forall_mem_nil _, nofun⟩
      obtain ⟨_, hc, _⟩ := h.attempted none hnone rfl
      cases hc
    case mpr =>
      rintro ⟨hne, -, -⟩
      refine ⟨trivial, fun label hlabel _ => ?_, fun _ => List.forall_mem_nil _⟩
      cases label with
      | none        => exact absurd hlabel hne
      | some length => exact absurd ⟨length, hlabel⟩ hreply

-- What holds of the logins, whatever the module and the user do.
theorem login_kept_iff (f : Functions σ) (interaction : Bool) (module : σ) :
    Kept f interaction module ↔ Suits f interaction module := by
  constructor
  case mp =>
    intro h
    refine ⟨fun fuel => (tokenKept_iff fuel).mp (h.token fuel), ((keyKept_iff 0).mp (h.key 0)).1, fun fuel => ?_, fun fuel => ?_⟩
    · exact ((keyKept_iff fuel).mp (h.key fuel)).2.1
    · exact ((keyKept_iff fuel).mp (h.key fuel)).2.2
  case mpr =>
    exact fun h => ⟨fun fuel => (tokenKept_iff fuel).mpr (h.token fuel),
      fun fuel => (keyKept_iff fuel).mpr ⟨h.label, h.key fuel, h.first fuel⟩⟩

-- A key that has no label.
def unlabelled : Functions Unit where
  cancelled _        := false
  getTokenInfo _ _   := ((ckrOk, ⟨[], 4⟩), ())
  getSessionInfo _   := ((ckrOk, ⟨0, 0⟩), ())
  getAttributes _    := (.filled none (some true), ())
  getLabel _ _       := ((ckrAttributeTypeInvalid, []), ())
  login _ _ _        := (ckrOk, ())
  askPassword _ _    := (.handled [49], ())

theorem not_login_kept : ¬∀ (f : Functions Unit) (interaction : Bool) (module : Unit), Kept f interaction module := by
  intro h
  obtain ⟨_, hc, _⟩ := ((h unlabelled true ()).key 0).attempted none rfl rfl
  cases hc

end Kept

end Login
