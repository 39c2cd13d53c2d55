import GcrModel.Gcr.SecretExchange.Theorems.Agreement

-- What a message of anybody does to the secret.
namespace SecretExchange

open GLib

variable {Priv Key : Type*} {c : Crypto Priv Key} {self : Exchange Priv Key} {priv : Priv} {input : KeyFile} {key : Key}

-- Behind the plain text there are as many bytes as each of them says.
def Padded (plain text : Bytes) : Prop :=
  ∃ nPad, 0 < nPad ∧ nPad ≤ 16 ∧ text = plain ++ List.replicate nPad (UInt8.ofNat nPad)

-- The object that goes on with a message, after the key was agreed on.
def derive (c : Crypto Priv Key) (self : Exchange Priv Key) (priv : Priv) (input : KeyFile) : Bool × Exchange Priv Key :=
  let e := if self.generated then self else { self.generateExchangeKey c priv with generated := true }
  if e.derived then (true, e) else e.deriveKey c input

namespace Held

theorem receive_eq {self : Held Priv Key} {exchange : Bytes} (h : KeyFile.loadFromData c.unicharIsalnum exchange = some input) :
    self.receive c priv exchange =
      let (ret, e) := derive c self.toExchange priv input
      if ret = false then (false, { self with toExchange := e })
      else if input.hasKey protocol1 secretField then
        match performDecrypt c e input with
        | none                   => (false, { self with toExchange := e })
        | some (secret, nSecret) => (true, { toExchange := { e with secret := secret }, nSecret := nSecret })
      else
        (true, { toExchange := { e with secret := none }, nSecret := some 0 }) := by
  rw [receive, h]
  rfl

-- Without its length this is the call of the exchange.
theorem receive_toExchange (self : Held Priv Key) (priv : Priv) (exchange : Bytes) :
    ((self.receive c priv exchange).1, (self.receive c priv exchange).2.toExchange) =
      self.toExchange.receive c priv exchange := by
  rw [Exchange.receive]
  cases h : KeyFile.loadFromData c.unicharIsalnum exchange with
  | none =>
    rw [receive, h]
  | some input =>
    rw [receive_eq h, derive]
    dsimp only
    generalize (if self.generated then self.toExchange else _) = e
    generalize (if e.derived then (true, e) else e.deriveKey c input) = x
    obtain ⟨_ | _, e⟩ := x
    · rfl
    · dsimp only
      rw [if_neg (by decide : ¬true = false), if_neg (by decide : ¬true = false)]
      split
      case isFalse => rfl
      case isTrue =>
        rw [performDecrypt]
        cases e.performDecrypt c input with
        | none        => rfl
        | some secret => rfl

end Held

end SecretExchange
