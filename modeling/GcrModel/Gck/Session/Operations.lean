import GcrModel.GLib.Strings
import GcrModel.Library.Transition
import GcrModel.Library.Loop

-- The operations of a PKCS#11 session, as its calls start and end them.
namespace Session

open GLib

-- `CK_RV`
abbrev RV := Nat

def ckrOk : RV := 0x0
def ckrAttributeTypeInvalid : RV := 0x12
def ckrFunctionCanceled : RV := 0x50
def ckrPinIncorrect : RV := 0xA0
def ckrUserNotLoggedIn : RV := 0x101
def ckrBufferTooSmall : RV := 0x150

inductive CryptOperation
  | encrypt
  | decrypt
  | sign
  deriving DecidableEq

inductive Operation
  | crypt (op : CryptOperation)
  | verify
  | search
  deriving DecidableEq

-- A call that starts, completes or ends an operation, with what it returned. A completing call delivers bytes
-- unless it only asks for the length.
inductive Event
  | init (op : Operation) (rv : RV)
  | complete (op : Operation) (asksLength : Bool) (rv : RV) (output : Bytes)
  | findObjects (rv : RV) (handles : List Nat)
  | findObjectsFinal (rv : RV)

-- Whether a call for the length ends the operation as well, when it fails.
structure Rules where
  failedLengthEnds : Bool

def Rules.ends (rules : Rules) (asksLength : Bool) (rv : RV) : Bool :=
  if rv = ckrBufferTooSmall then false
  else if asksLength then rules.failedLengthEnds && rv ≠ ckrOk
  else true

-- The operations that are active.
abbrev Active := Operation → Bool

@[grind =]
def Rules.after (rules : Rules) (active : Active) : Event → Active
  | .init op rv                    => if rv = ckrOk then Function.update active op true else active
  | .complete op asksLength rv _   => if rules.ends asksLength rv then Function.update active op false else active
  | .findObjects _ _               => active
  | .findObjectsFinal _            => Function.update active .search false

def idle : Active := fun _ => false

@[grind =]
def Rules.active (rules : Rules) (calls : List Event) : Active :=
  Monitor.after rules.after idle calls

-- There is no reason to refuse a call with CKR_OPERATION_ACTIVE.
def admits (active : Active) : Event → Prop
  | .init _ _ => active = idle
  | _         => True

@[grind =]
def Rules.Admits (rules : Rules) : Active → List Event → Prop :=
  Monitor.Accepts rules.after admits

-- What the last completing call delivered.
def Event.output : Event → Option Bytes
  | .complete _ _ _ output => some output
  | _                      => none

def lastOutput (calls : List Event) : Option Bytes :=
  (calls.filterMap Event.output).getLast?

def Event.handles : Event → List Nat
  | .findObjects rv handles => if rv = ckrOk then handles else []
  | _                       => []

def found (calls : List Event) : List Nat :=
  calls.flatMap Event.handles

-- The module behind a session and the one who is asked for passwords, and how a key is authenticated.

structure Mechanism where
  type      : Nat
  parameter : Bytes

-- What `g_tls_interaction_invoke_ask_password` is given.
structure Password where
  description : Option Bytes := none
  retry       : Bool := false
  manyTries   : Bool := false
  finalTry    : Bool := false

-- How `g_tls_interaction_invoke_ask_password` fails.
inductive InteractionError
  | gck (rv : RV)
  | cancelled
  | other

inductive InteractionResult
  | handled (pin : Bytes)
  | failed (error : InteractionError)
  | unhandled

-- `_gck_rv_from_error`
def rvFromError (error : InteractionError) (catchAllCode : RV) : RV :=
  match error with
  | .gck rv    => rv
  | .cancelled => ckrFunctionCanceled
  | .other     => catchAllCode

-- What `C_GetAttributeValue` gives for the length of CKA_LABEL and for CKA_ALWAYS_AUTHENTICATE.
structure KeyAttributes where
  labelLength        : Nat
  alwaysAuthenticate : UInt8

-- The functions of a module in a state, with the user. A call for the output gives no more than there is room for.
structure Functions (σ : Type*) where
  init              : Operation → Mechanism → Nat → σ → RV × σ
  lengthOf          : CryptOperation → Bytes → σ → (RV × Nat) × σ
  complete          : CryptOperation → Bytes → Nat → σ → (RV × Bytes) × σ
  verify            : Bytes → Bytes → σ → RV × σ
  findObjectsInit   : Option (List (Nat × Bytes)) → σ → RV × σ
  findObjects       : Nat → σ → (RV × List Nat) × σ
  findObjectsFinal  : σ → RV × σ
  keyAttributes     : Nat → σ → (RV × KeyAttributes) × σ
  keyLabel          : Nat → Nat → σ → (RV × Bytes) × σ
  attributeSizes    : Nat → List Nat → σ → RV × σ
  attributeValues   : Nat → List Nat → σ → (RV × List (Nat × Bytes)) × σ
  getSessionInfo    : σ → (RV × Nat) × σ
  getTokenInfo      : Nat → σ → (RV × Nat) × σ
  login             : Option Bytes → σ → RV × σ
  askPassword       : Password → σ → InteractionResult × σ
  complete_length   : ∀ op input n s, (complete op input n s).1.2.length ≤ n
  findObjects_count : ∀ n s, (findObjects n s).1.2.length ≤ n

-- The bits of `CK_TOKEN_INFO.flags`
def ckfProtectedAuthenticationPath : Nat := 8
def ckfUserPinCountLow : Nat := 16
def ckfUserPinFinalTry : Nat := 17

def gckInvalid : Nat := 0xFFFFFFFFFFFFFFFF

-- `update_password_for_key`
def updatePasswordForKey (password : Password) (flags : Nat) (requestRetry : Bool) : Password :=
  { password with
    retry     := requestRetry
    manyTries := flags.testBit ckfUserPinCountLow
    finalTry  := flags.testBit ckfUserPinFinalTry }

variable {σ : Type*} (f : Functions σ) (interaction : Bool) (handle labelLength : Nat)

-- A round of the loop in `_gck_session_authenticate_key`, with the module.
structure Authentication (σ : Type*) where
  password     : Password := {}
  gotLabel     : Bool := false
  requestRetry : Bool := false
  module       : σ

def setLabel (a : Authentication σ) : Authentication σ :=
  if a.gotLabel then a
  else if labelLength ≠ 0 ∧ labelLength ≠ gckInvalid then
    let ((rv, label), module) := f.keyLabel handle labelLength a.module
    { a with
      password := if rv = ckrOk then { a.password with description := some label } else a.password
      gotLabel := true
      module   := module }
  else { a with gotLabel := true }

-- `g_tls_interaction_invoke_ask_password`, where there is an interaction.
def invokeAskPassword (a : Authentication σ) : InteractionResult × Authentication σ :=
  if interaction then
    let (res, module) := f.askPassword a.password a.module
    (res, { a with module := module })
  else (.unhandled, a)

def loginRound (a : Authentication σ) : (RV × σ) ⊕ Authentication σ :=
  let ((rv, slotId), module) := f.getSessionInfo a.module
  if rv ≠ ckrOk then .inl (rv, module)
  else
    let ((rv, flags), module) := f.getTokenInfo slotId module
    if rv ≠ ckrOk then .inl (rv, module)
    else if flags.testBit ckfProtectedAuthenticationPath then .inl (f.login none module)
    else
      let a := setLabel f handle labelLength
        { a with password := updatePasswordForKey a.password flags a.requestRetry, module := module }
      match invokeAskPassword f interaction a with
      | (.failed error, a)  => .inl (rvFromError error ckrUserNotLoggedIn, a.module)
      | (.unhandled, a)     => .inl (ckrUserNotLoggedIn, a.module)
      | (.handled pin, a)   =>
        let (rv, module) := f.login (some pin) a.module
        if rv = ckrPinIncorrect then .inr { a with requestRetry := true, module := module }
        else .inl (rv, module)

-- `_gck_session_authenticate_key`, which is called without a cancellable. There is no result before the last login.
def authenticateKey (fuel : Nat) (module : σ) : Option (RV × σ) :=
  let ((rv, attrs), module) := f.keyAttributes handle module
  if rv = ckrAttributeTypeInvalid then some (ckrOk, module)
  else if rv ≠ ckrOk then some (ckrOk, module)
  else if attrs.alwaysAuthenticate ≠ 1 then some (ckrOk, module)
  else Loop.run (loginRound f interaction handle attrs.labelLength) fuel { module := module }

end Session
