import Mathlib

/-!
# JSON values

What the proxy takes from the JSON library. A number is kept as the library does: an unsigned or a negative integer of
64 bits, or a float.
-/

namespace OpenProxy.Json

/-- `serde_json::Number`. -/
inductive Number where
  | posInt (n : Nat)
  /-- `-(n + 1)`. -/
  | negInt (n : Nat)
  | float (x : ℚ)

inductive Value where
  | null
  | bool (b : Bool)
  | number (n : Number)
  | string (s : String)
  | array (vs : List Value)
  | object (fields : List (String × Value))

/-- `n as f64`: 53 significant bits, ties to even. -/
def asF64 (n : Nat) : ℚ :=
  let e := n.log2 - 52
  let q := n / 2 ^ e
  let r := n % 2 ^ e
  let up := decide (2 ^ e < 2 * r) || (decide (2 * r = 2 ^ e) && decide (q % 2 = 1))
  ((q + up.toNat) * 2 ^ e : Nat)

namespace Value

def get (v : Value) (key : String) : Option Value :=
  match v with
  | object fields => fields.lookup key
  | _ => none

def asArray : Value → Option (List Value)
  | array vs => some vs
  | _ => none

def asStr : Value → Option String
  | string s => some s
  | _ => none

def asBool : Value → Option Bool
  | bool b => some b
  | _ => none

def asU64 : Value → Option Nat
  | number (.posInt n) => some n
  | _ => none

/-- `Value::as_f64`. -/
def asFloat : Value → Option ℚ
  | number (.posInt n) => some (asF64 n)
  | number (.negInt n) => some (-asF64 (n + 1))
  | number (.float x) => some x
  | _ => none

end Value

end OpenProxy.Json
