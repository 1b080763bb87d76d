import MidiCi.Proofs.Registry.LastWrite

/-
  Subscriptions over runs of events. `ofEvents_subscription`: the state recorded for a property of
  a connection moves along the reported edges and by cancellation, and is forgotten with its
  connection. A subscription that is accepted was asked for, since it was last absent or
  unsubscribed; and no other event, accepted or refused, changes the state.

  What one event does is read off the cases of `Event.Revises`. The run lemma
  `subscribing_before_subscribed` goes backwards: the last event that changed the state to
  `subscribed` found it at `subscribing`.
-/

namespace MidiCi

open SubscriptionState (Edge)

/-! ## One event -/

/-- The state that a record holds for a property's subscription, if both are there. -/
def recordedState (rec : Option ConnectionRecord) (id : String) : Option SubscriptionState :=
  ((listOf ConnectionRecord.subscriptions rec).get? id).map Subscription.state

theorem recordedState_some (rec : ConnectionRecord) (id : String) :
    (recordedState (some rec) id).getD .unsubscribed = rec.subscriptionState id := by
  show ((rec.subscriptions.get? id).map Subscription.state).getD .unsubscribed = _
  unfold ConnectionRecord.subscriptionState
  cases rec.subscriptions.get? id with
  | none => rfl
  | some s => rfl

theorem recordedState_put (rec : ConnectionRecord) (l id : String) (s : SubscriptionState) :
    recordedState (some { rec with subscriptions := rec.subscriptions.put l ⟨l, s⟩ }) id =
      if l = id then some s else recordedState (some rec) id := by
  unfold recordedState
  rw [get?_listOf_put rfl]
  by_cases hl : l = id
  · rw [if_pos hl, if_pos hl]
    rfl
  · rw [if_neg hl, if_neg hl]

/-- What an event makes of the state that is recorded for a subscription, where it changes it. An
absent state counts as unsubscribed; it comes to be recorded with a request, and a recorded state
goes with its connection alone. -/
inductive Event.MovesSubscription (t : Muid) (id : String) :
    Event → Option SubscriptionState → Option SubscriptionState → Prop
  | reported {s : Option SubscriptionState} {n : SubscriptionState}
      (h : Edge (s.getD .unsubscribed) n) :
      MovesSubscription t id (.subscriptionChanged t id n) s (some n)
  | cancelled {s : SubscriptionState} (h : s ≠ .unsubscribed) :
      MovesSubscription t id (.subscriptionCancelled t id) (some s) (some .unsubscribed)
  | removed (s : SubscriptionState) :
      MovesSubscription t id (.connectionRemoved t) (some s) none

namespace Event.MovesSubscription

variable {t : Muid} {id : String} {e : Event} {s s' : Option SubscriptionState}

/-- Absent counts as unsubscribed: all moves but those out of `subscribing` to the end go along the
reported edges, and forgetting an ended subscription is none. -/
theorem edge (h : e.MovesSubscription t id s s')
    (hne : s'.getD .unsubscribed ≠ s.getD .unsubscribed) :
    Edge (s.getD .unsubscribed) (s'.getD .unsubscribed) ∨
      s.getD .unsubscribed = .subscribing ∧ s'.getD .unsubscribed = .unsubscribed := by
  have ends : ∀ x : SubscriptionState, x ≠ .unsubscribed →
      Edge x .unsubscribed ∨ x = .subscribing := by
    intro x hx
    cases x with
    | subscribing => exact Or.inr rfl
    | subscribed => exact Or.inl .ending
    | unsubscribed => exact absurd rfl hx
  cases h with
  | reported he => exact Or.inl he
  | @cancelled x hx => exact (ends x hx).imp_right (And.intro · rfl)
  | removed x => exact (ends x (Ne.symm hne)).imp_right (And.intro · rfl)

/-- Before its acceptance stands the request. -/
theorem eq_subscribing (h : e.MovesSubscription t id s (some .subscribed)) :
    s = some .subscribing := by
  cases h with
  | reported he =>
    cases s with
    | none => cases he
    | some x =>
      cases he
      rfl

/-- A subscription that is not accepted ends by cancellation. -/
theorem eq_cancelled (h : e.MovesSubscription t id (some .subscribing) (some .unsubscribed)) :
    e = .subscriptionCancelled t id := by
  cases h with
  | reported he => cases he
  | cancelled => rfl

/-- What is forgotten is forgotten with its connection. -/
theorem eq_removed (h : e.MovesSubscription t id s none) : e = .connectionRemoved t := by
  cases h
  rfl

end Event.MovesSubscription

/-- An accepted event leaves the recorded state or moves it. -/
theorem Event.Revises.subscription {t : Muid} {e : Event} {old new : Option ConnectionRecord}
    (h : e.Revises t old new) (id : String) :
    recordedState new id = recordedState old id ∨
      e.MovesSubscription t id (recordedState old id) (recordedState new id) := by
  cases h with
  | discovered ht =>
    left
    cases old with
    | none => rfl
    | some rec => rfl
  | removed =>
    cases hs : recordedState old id with
    | none => exact Or.inl rfl
    | some s => exact Or.inr (.removed s)
  | @moved rec l n hedge =>
    rw [recordedState_put]
    by_cases hl : l = id
    · subst hl
      rw [if_pos rfl]
      rw [← recordedState_some] at hedge
      exact Or.inr (.reported hedge)
    · left
      rw [if_neg hl]
  | @cancelled rec l hne =>
    rw [recordedState_put]
    by_cases hl : l = id
    · subst hl
      rw [if_pos rfl]
      rw [← recordedState_some] at hne
      cases hs : recordedState (some rec) l with
      | none =>
        rw [hs] at hne
        exact absurd rfl hne
      | some s =>
        rw [hs] at hne
        exact Or.inr (.cancelled hne)
    · left
      rw [if_neg hl]
  | profile | profileGone | value | valueGone | metadata | unmoved | uncancelled | elsewhere =>
    exact Or.inl rfl

namespace Registry

theorem subscription?_eq (r : Registry) (t : Muid) (id : String) :
    r.subscription? t id = recordedState (r.connections.get? t) id := by
  unfold subscription? recordedState listOf
  cases r.connections.get? t with
  | none => rfl
  | some rec =>
    show (rec.subscriptions.get? id).bind _ = (rec.subscriptions.get? id).map _
    cases rec.subscriptions.get? id with
    | none => rfl
    | some s => rfl

/-- An event that changes a recorded state was accepted, and is one of those that move it. -/
theorem moves_of_takeOver {r : Registry} (hd : r.Distinct) {e : Event} {t : Muid} {id : String}
    (hne : (r.takeOver e).1.subscription? t id ≠ r.subscription? t id) :
    (∃ c, (r.takeOver e).2 = .ok c) ∧
      e.MovesSubscription t id (r.subscription? t id) ((r.takeOver e).1.subscription? t id) := by
  cases hr : (r.takeOver e).2 with
  | error err =>
    rw [takeOver_fst_of_error hr] at hne
    exact absurd rfl hne
  | ok c =>
    refine ⟨⟨c, rfl⟩, ?_⟩
    rw [subscription?_eq, subscription?_eq] at hne ⊢
    exact ((takeOver_revises hd hr t).subscription id).resolve_left hne

/-- Of a known connection every such move is made. -/
theorem takeOver_of_moves {r : Registry} (hd : r.Distinct) {e : Event} {t : Muid} {id : String}
    {s : Option SubscriptionState} (ht : (r.connections.get? t).isSome)
    (h : e.MovesSubscription t id (r.subscription? t id) s) :
    (r.takeOver e).1.subscription? t id = s := by
  obtain ⟨rec, hrec⟩ := Option.isSome_iff_exists.mp ht
  rw [subscription?_eq, hrec] at h
  rw [subscription?_eq]
  generalize hs : recordedState (some rec) id = old at h
  cases h with
  | @reported _ n hedge =>
    rw [← hs, recordedState_some, ← transition_eq_apply_iff] at hedge
    simp only [takeOver, get?_onConnection, hrec, Option.map_some, hedge]
    rw [subscribe_moved, recordedState_put, if_pos rfl]
  | @cancelled x hx =>
    have hc : (rec.subscriptionState id).cancel = .apply := by
      rw [← recordedState_some, hs]
      cases x with
      | unsubscribed => exact absurd rfl hx
      | subscribing | subscribed => rfl
    simp only [takeOver, get?_onConnection, hrec, Option.map_some, hc]
    rw [subscribe_moved, recordedState_put, if_pos rfl]
  | removed =>
    rw [get?_takeOver_removed hd]
    rfl

/-! ## Runs -/

theorem ofEvents_concat (retention : Retention) (es : List Event) (e : Event) :
    ofEvents retention (es ++ [e]) = ((ofEvents retention es).takeOver e).1 := by
  rw [← next_eq]
  exact List.foldl_append

theorem distinct_ofEvents (retention : Retention) (es : List Event) :
    (ofEvents retention es).Distinct :=
  (distinct_empty retention).after es

theorem subscription?_concat (retention : Retention) (es : List Event) (e : Event) (t : Muid)
    (id : String) :
    (ofEvents retention (es ++ [e])).subscription? t id = (ofEvents retention es).subscription? t id ∨
      e.MovesSubscription t id ((ofEvents retention es).subscription? t id)
        ((ofEvents retention (es ++ [e])).subscription? t id) := by
  rw [ofEvents_concat]
  by_cases h : ((ofEvents retention es).takeOver e).1.subscription? t id =
      (ofEvents retention es).subscription? t id
  · exact Or.inl h
  · exact Or.inr (moves_of_takeOver (distinct_ofEvents retention es) h).2

/-- Events that lead from absent or unsubscribed to `subscribed` lead past `subscribing`. -/
theorem subscribing_before_subscribed {retention : Retention} {es : List Event} {t : Muid}
    {id : String}
    (h : ((ofEvents retention es).subscription? t id).getD .unsubscribed = .unsubscribed)
    (fs : List Event) (hf : (ofEvents retention (es ++ fs)).subscription? t id = some .subscribed) :
    ∃ gs hs, fs = gs ++ hs ∧
      (ofEvents retention (es ++ gs)).subscription? t id = some .subscribing := by
  induction fs using List.reverseRecOn with
  | nil =>
    rw [List.append_nil] at hf
    rw [hf] at h
    cases h
  | append_singleton fs f ih =>
    rw [← List.append_assoc] at hf
    rcases subscription?_concat retention (es ++ fs) f t id with hsame | hmove
    · obtain ⟨gs, hs, rfl, hg⟩ := ih (hsame.symm.trans hf)
      exact ⟨gs, hs ++ [f], List.append_assoc gs hs [f], hg⟩
    · rw [hf] at hmove
      exact ⟨fs, [f], rfl, hmove.eq_subscribing⟩

/-- Over every run and for every property of every connection. Counting an absent state as
unsubscribed, it changes along the reported edges or goes from `subscribing` to the end. Only the
events of `Event.MovesSubscription` change what is recorded, if they are accepted, and they do so
whenever the connection is known. From `subscribing` to `unsubscribed` leads only a cancellation of
that subscription, to nothing at all only the removal of its connection, and to `subscribed` only a
way past `subscribing`, from wherever the state was absent or unsubscribed. -/
theorem ofEvents_subscription (retention : Retention) (t : Muid) (id : String) :
    let state := fun es => (ofEvents retention es).subscription? t id
    let counted := fun es => (state es).getD .unsubscribed
    (∀ es e, counted (es ++ [e]) ≠ counted es →
        Edge (counted es) (counted (es ++ [e])) ∨
          counted es = .subscribing ∧ counted (es ++ [e]) = .unsubscribed) ∧
      (∀ es e, state (es ++ [e]) ≠ state es →
        (∃ c, ((ofEvents retention es).takeOver e).2 = .ok c) ∧
          e.MovesSubscription t id (state es) (state (es ++ [e]))) ∧
      (∀ es e s, ((ofEvents retention es).connections.get? t).isSome →
        e.MovesSubscription t id (state es) s → state (es ++ [e]) = s) ∧
      (∀ es e, state es = some .subscribing → state (es ++ [e]) = some .unsubscribed →
        e = .subscriptionCancelled t id) ∧
      (∀ es e, state es ≠ none → state (es ++ [e]) = none → e = .connectionRemoved t) ∧
      ∀ es fs, counted es = .unsubscribed → state (es ++ fs) = some .subscribed →
        ∃ gs hs, fs = gs ++ hs ∧ state (es ++ gs) = some .subscribing := by
  intro state counted
  have step : ∀ es e, state (es ++ [e]) ≠ state es →
      e.MovesSubscription t id (state es) (state (es ++ [e])) := fun es e hne =>
    (subscription?_concat retention es e t id).resolve_left hne
  refine ⟨fun es e hne => ?_, fun es e hne => ?_, fun es e s ht hs => ?_, fun es e hs hs' => ?_,
    fun es e hs hs' => ?_, fun es fs h hf => ?_⟩
  · have hstate : state (es ++ [e]) ≠ state es := fun h => hne (congrArg (Option.getD · _) h)
    exact (step es e hstate).edge hne
  · have hconcat : state (es ++ [e]) =
        ((ofEvents retention es).takeOver e).1.subscription? t id :=
      congrArg (subscription? · t id) (ofEvents_concat retention es e)
    rw [hconcat] at hne ⊢
    exact moves_of_takeOver (distinct_ofEvents retention es) hne
  · show (ofEvents retention (es ++ [e])).subscription? t id = s
    rw [ofEvents_concat]
    exact takeOver_of_moves (distinct_ofEvents retention es) ht hs
  · have hne : state (es ++ [e]) ≠ state es := by
      rw [hs, hs']
      decide
    have hmove := step es e hne
    rw [hs, hs'] at hmove
    exact hmove.eq_cancelled
  · have hmove := step es e (by rw [hs']; exact hs.symm)
    rw [hs'] at hmove
    exact hmove.eq_removed
  · exact subscribing_before_subscribed h fs hf

end Registry

end MidiCi
