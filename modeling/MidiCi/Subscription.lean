/-
  Subscriptions. The state moves along `subscribing → subscribed → unsubscribed → subscribing`;
  only a cancellation leads from `subscribing` to `unsubscribed`.
-/

namespace MidiCi

inductive SubscriptionState where
  | subscribing
  | subscribed
  | unsubscribed
deriving DecidableEq, Repr, Inhabited

/-- What a proposed change of state comes to. -/
inductive Transition where
  | apply
  | noop
  | illegal
deriving DecidableEq, Repr

namespace SubscriptionState

def text : SubscriptionState → String
  | .subscribing => "subscribing"
  | .subscribed => "subscribed"
  | .unsubscribed => "unsubscribed"

/-- The report that the state is now `next`. -/
def transition (state next : SubscriptionState) : Transition :=
  if state = next then .noop
  else match state, next with
    | .subscribing, .subscribed | .subscribed, .unsubscribed | .unsubscribed, .subscribing => .apply
    | _, _ => .illegal

/-- An explicit cancellation, which leads to `unsubscribed`. -/
def cancel : SubscriptionState → Transition
  | .subscribing | .subscribed => .apply
  | .unsubscribed => .noop

end SubscriptionState

/-- The state of one property's subscription. -/
structure Subscription where
  propertyId : String
  state : SubscriptionState
deriving DecidableEq, Repr, Inhabited

end MidiCi
