import Grimace.Action.Token

/-!
# Grimace.Dispatcher

Where the tokens of fired rules go.

A dispatcher is handed one token at a time.  It has a state `σ`, whatever it does to
the world outside, and it may refuse the token; what it answers changes nothing about
the rule that fired.  The dispatchers here read the token as an action
(`console`, `broadcast`), keep a list of what they were handed (`recording`), or
stand in front of another one (`gated`).
-/

namespace Grimace

/-- Why an action was not carried out. -/
inductive DispatchError where
  | invalidToken (token : String) (fault : Action.Fault)
  | rejected (token : String) (reason : String)
deriving Repr, DecidableEq

/-- The wording of a refusal. -/
def DispatchError.message : DispatchError → String
  | invalidToken token fault => s!"malformed action token '{token}': {fault.message}"
  | rejected token reason => s!"actuator rejected '{token}': {reason}"

/-- Takes tokens, one at a time, in a state. -/
structure Dispatcher (σ : Type) where
  dispatch : σ → String → Except DispatchError Unit × σ

namespace Dispatcher

/-- The action of a token, as a dispatcher reads it. -/
def read (token : String) : Except DispatchError Action :=
  (Action.parse token).mapError (.invalidToken token)

/-- Reads the token and is done with it. -/
def console {σ : Type} : Dispatcher σ where
  dispatch s token := ((read token).map fun _ => (), s)

/-- Publishes each action that asks for a step; the state is what was published, oldest
first. -/
def broadcast : Dispatcher (List Action) where
  dispatch published token :=
    match read token with
    | .error e => (.error e, published)
    | .ok action => (.ok (), if action.isEmpty then published else published ++ [action])

/-- Keeps every token it is handed, oldest first, and refuses the token `reject`. -/
def recording (reject : Option String) : Dispatcher (List String) where
  dispatch calls token :=
    (if reject = some token then .error (.rejected token "rejected by test actuator") else .ok (),
      calls ++ [token])

/-- Lets tokens through to `inner` if `allow` holds, and swallows them otherwise. -/
def gated {σ : Type} (allow : Bool) (inner : Dispatcher σ) : Dispatcher σ where
  dispatch s token := if allow then inner.dispatch s token else (.ok (), s)

end Dispatcher

end Grimace
