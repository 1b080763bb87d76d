import MidiCi.Proofs.CommandLine.Waiting

/-
  Waiting while others publish. A `Vigil` is a waiter with the value that it waits on, and a record
  of what it looked at in vain and of what waiting returned. The waiter looks, wakes and takes what
  it woke for, each in a move of its own, and anything may be published between any two moves; with
  nothing published in between, that are the steps of the waiter (`waiter_step`).

  `never_sleeps_on_wanted`: a blocked waiter has looked at what is newest, in vain. What carries this
  is that a waiter which waits has looked at a snapshot that is no older than the one it has seen
  (`Sound.looked`), since each look is at the newest one.
-/

namespace MidiCi

structure Vigil (α : Type) where
  watch : Watch α
  waiter : Waiter α
  /-- Whether the waiter woke, and has not yet taken what is newest. -/
  awake : Bool := false
  /-- What was looked at in vain, with its version, the last one first. -/
  missed : List (Nat × α) := []
  /-- What waiting returned, with its version, the last one first. -/
  returned : List (Nat × α) := []
  /-- What the waiter found. -/
  found : Option α := none
deriving Repr

namespace Vigil

variable {α : Type}

/-! ## Moves -/

/-- A waiter that has seen what is published now. -/
def ofWatch (w : Watch α) : Vigil α := { watch := w, waiter := .ofWatch w }

inductive Move (α : Type) where
  | publish (x : α)
  | go

/-- The newest snapshot with its version. -/
def newest (v : Vigil α) : Nat × α := (v.watch.version, v.watch.value)

/-- The waiter looks at the newest snapshot, wakes, or takes what it woke for. Where it is blocked,
and once it has found what is wanted, it stays as it is. -/
def go (wanted : α → Bool) (v : Vigil α) : Vigil α :=
  if v.found.isSome then v
  else if v.awake then
    { v with
      waiter := { stream := v.waiter.stream.take v.watch }
      awake := false
      returned := v.newest :: v.returned }
  else if v.waiter.looking then
    match v.waiter.step wanted v.watch true with
    | (waiter, .missed x) => { v with waiter, missed := (v.watch.version, x) :: v.missed }
    | (_, .found x) => { v with found := some x }
    | _ => v
  else match v.waiter.stream.wake? v.watch with
    | some stream => { v with waiter := { v.waiter with stream }, awake := true }
    | none => v

def move (wanted : α → Bool) (v : Vigil α) : Move α → Vigil α
  | .publish x => { v with watch := v.watch.publish x }
  | .go => v.go wanted

/-- The waiter waits, and there is nothing that it was not told of. -/
def Blocked (wanted : α → Bool) (v : Vigil α) : Prop :=
  v.found = none ∧ v.awake = false ∧ (v.waiter.step wanted v.watch true).2 = .blocked

/-- The versions that waiting returned, down to the one seen at the start. -/
def versions (since : Nat) (v : Vigil α) : List Nat := v.returned.map Prod.fst ++ [since]

variable {wanted : α → Bool} {v : Vigil α} {since : Nat}

theorem go_done {x : α} (h : v.found = some x) : v.go wanted = v := by
  unfold go
  rw [h, Option.isSome_some, if_pos rfl]

theorem go_take (hf : v.found = none) (ha : v.awake = true) :
    v.go wanted = { v with
      waiter := .woken v.watch, awake := false, returned := v.newest :: v.returned } := by
  unfold go
  rw [hf, ha]
  rfl

theorem go_found (hf : v.found = none) (ha : v.awake = false) (hl : v.waiter.looking = true)
    (hw : wanted v.watch.value = true) :
    v.go wanted = { v with found := some v.watch.value } := by
  unfold go
  rw [hf, ha, hl, Waiter.step_found hl hw]
  rfl

theorem go_missed (hf : v.found = none) (ha : v.awake = false) (hl : v.waiter.looking = true)
    (hw : wanted v.watch.value = false) :
    v.go wanted = { v with
      waiter := { v.waiter with looking := false }, missed := v.newest :: v.missed } := by
  unfold go
  rw [hf, ha, hl, Waiter.step_missed hl hw]
  rfl

theorem go_wake (hf : v.found = none) (ha : v.awake = false) (hl : v.waiter.looking = false)
    (hs : v.waiter.stream.seen < v.watch.version) :
    v.go wanted = { v with
      waiter.stream.seen := v.watch.version, waiter.stream.eager := false, awake := true } := by
  unfold go
  rw [hf, ha, hl, SnapshotStream.wake?_unseen hs]
  rfl

theorem go_blocked (hf : v.found = none) (ha : v.awake = false) (hl : v.waiter.looking = false)
    (he : v.waiter.stream.eager = false) (hs : ¬ v.waiter.stream.seen < v.watch.version) :
    v.go wanted = v := by
  unfold go
  rw [hf, ha, hl, SnapshotStream.wake?_seen he hs]
  rfl

/-- Steps are moves with nothing published in between: two for a step that wakes, else one. -/
theorem waiter_step (hf : v.found = none) (ha : v.awake = false) (isOpen : Bool) :
    (v.waiter.step wanted v.watch isOpen).1 =
      if v.waiter.looking = false ∧ (v.waiter.stream.wake? v.watch).isSome then
        ((v.go wanted).go wanted).waiter
      else (v.go wanted).waiter := by
  obtain ⟨watch, ⟨stream, looking⟩, awake, missed, returned, found⟩ := v
  cases hf
  cases ha
  unfold go Waiter.step SnapshotStream.next
  cases looking with
  | true => cases hw : wanted (stream.latest watch) <;> simp [hw]
  | false =>
    cases hs : stream.wake? watch with
    | some woken => simp
    | none => cases isOpen <;> simp

/-! ## What holds after any moves -/

structure Sound (wanted : α → Bool) (since : Nat) (v : Vigil α) : Prop where
  lazy : v.waiter.stream.eager = false
  seen : v.waiter.stream.seen ≤ v.watch.version
  missed : ∀ m ∈ v.missed, wanted m.2 = false
  /-- What was looked at is as it was published. -/
  published : ∀ m ∈ v.missed, m.1 ≤ v.watch.version ∧ (m.1 = v.watch.version → m = v.newest)
  /-- Who waits has looked at something that is no older than what it has seen. -/
  looked : v.waiter.looking = false → v.awake = false → ∃ m ∈ v.missed, v.waiter.stream.seen ≤ m.1
  newer : (v.versions since).Pairwise (· > ·)
  returned : ∀ n ∈ v.versions since, n ≤ v.waiter.stream.seen
  woken : v.awake = true → ∀ n ∈ v.versions since, n < v.waiter.stream.seen
  found : ∀ x, v.found = some x → wanted x = true

theorem sound_ofWatch (wanted : α → Bool) (w : Watch α) : (ofWatch w).Sound wanted w.version where
  lazy := rfl
  seen := Nat.le_refl _
  missed := nofun
  published := nofun
  looked := nofun
  newer := List.pairwise_singleton _ _
  returned _ hn := Nat.le_of_eq (List.mem_singleton.mp hn)
  woken := nofun
  found := nofun

/-- What is published now is newer than all that was looked at. -/
theorem Sound.publish (h : v.Sound wanted since) (x : α) :
    (v.move wanted (.publish x)).Sound wanted since where
  lazy := h.lazy
  seen := Nat.le_succ_of_le h.seen
  missed := h.missed
  published m hm := by
    have hle := (h.published m hm).1
    exact ⟨Nat.le_succ_of_le hle, fun heq => absurd (heq ▸ hle) (Nat.not_succ_le_self _)⟩
  looked := h.looked
  newer := h.newer
  returned := h.returned
  woken := h.woken
  found := h.found

theorem Sound.go (h : v.Sound wanted since) : (v.go wanted).Sound wanted since := by
  cases hf : v.found with
  | some x => rwa [go_done hf]
  | none =>
    cases ha : v.awake with
    | true =>
      rw [go_take hf ha]
      have hnew : ∀ n ∈ v.versions since, n < v.watch.version := fun n hn =>
        Nat.lt_of_lt_of_le (h.woken ha n hn) h.seen
      exact { h with
        lazy := rfl
        seen := Nat.le_refl _
        looked := nofun
        newer := List.pairwise_cons.mpr ⟨hnew, h.newer⟩
        returned := List.forall_mem_cons.mpr ⟨Nat.le_refl _, fun n hn => Nat.le_of_lt (hnew n hn)⟩
        woken := nofun }
    | false =>
      cases hl : v.waiter.looking with
      | true =>
        cases hw : wanted v.watch.value with
        | true =>
          rw [go_found hf ha hl hw]
          exact { h with found := fun x hx => by cases hx; exact hw }
        | false =>
          rw [go_missed hf ha hl hw]
          exact { h with
            missed := List.forall_mem_cons.mpr ⟨hw, h.missed⟩
            published := List.forall_mem_cons.mpr ⟨⟨Nat.le_refl _, fun _ => rfl⟩, h.published⟩
            looked := fun _ _ => ⟨_, List.mem_cons_self, h.seen⟩ }
      | false =>
        by_cases hs : v.waiter.stream.seen < v.watch.version
        · rw [go_wake hf ha hl hs]
          have hnew : ∀ n ∈ v.versions since, n < v.watch.version := fun n hn =>
            Nat.lt_of_le_of_lt (h.returned n hn) hs
          exact { h with
            lazy := rfl
            seen := Nat.le_refl _
            looked := nofun
            returned := fun n hn => Nat.le_of_lt (hnew n hn)
            woken := fun _ => hnew }
        · rwa [go_blocked hf ha hl h.lazy hs]

theorem Sound.moves (h : v.Sound wanted since) (moves : List (Move α)) :
    (moves.foldl (move wanted) v).Sound wanted since := by
  induction moves generalizing v with
  | nil => exact h
  | cons m moves ih =>
    cases m with
    | publish x => exact ih (h.publish x)
    | go => exact ih h.go

/-- Who is blocked has seen the newest snapshot, and so has looked at it. -/
theorem Sound.newest_mem (h : v.Sound wanted since) (hb : v.Blocked wanted) :
    v.newest ∈ v.missed := by
  obtain ⟨-, ha, hstep⟩ := hb
  obtain ⟨hl, -, hseen⟩ := (Waiter.blocked_iff wanted v.waiter v.watch).mp hstep
  obtain ⟨m, hm, hle⟩ := h.looked hl ha
  obtain ⟨hbound, hsame⟩ := h.published m hm
  rwa [← hsame (Nat.le_antisymm hbound (Nat.le_trans hseen hle))]

/-- A waiter that looks finds what is wanted. -/
theorem found_looking (hf : v.found = none) (ha : v.awake = false) (hl : v.waiter.looking = true)
    (hw : wanted v.watch.value = true) : (v.go wanted).found = some v.watch.value := by
  rw [go_found hf ha hl hw]

theorem found_awake (hf : v.found = none) (ha : v.awake = true)
    (hw : wanted v.watch.value = true) :
    ((v.go wanted).go wanted).found = some v.watch.value := by
  rw [go_take hf ha]
  exact found_looking hf rfl rfl hw

/-- What is wanted is found in three moves, if nothing else is published meanwhile. -/
theorem Sound.found_soon (h : v.Sound wanted since) (hf : v.found = none)
    (hw : wanted v.watch.value = true) :
    (((v.go wanted).go wanted).go wanted).found = some v.watch.value := by
  cases ha : v.awake with
  | true =>
    have hfound := found_awake hf ha hw
    rwa [go_done hfound]
  | false =>
    cases hl : v.waiter.looking with
    | true =>
      have hfound := found_looking hf ha hl hw
      rwa [go_done hfound, go_done hfound]
    | false =>
      -- a waiter that waits has looked at nothing that is wanted, so there is something unseen
      have hs : v.waiter.stream.seen < v.watch.version := by
        by_contra hs
        have hmem : v.newest ∈ v.missed := h.newest_mem ⟨hf, ha,
          (Waiter.blocked_iff wanted v.waiter v.watch).mpr ⟨hl, h.lazy, Nat.le_of_not_lt hs⟩⟩
        exact absurd (h.missed _ hmem) (by rw [newest, hw]; exact nofun)
      rw [go_wake hf ha hl hs]
      exact found_awake hf rfl hw

/-- Whatever is published, and whenever: a waiter that is blocked has looked at the newest snapshot,
and what it has looked at is not as wanted; each snapshot that waiting returns is newer than those
before, and than what was seen at the start; what the waiter finds is as wanted; and it does find
what is wanted, in three moves at most, if that stays the newest. -/
theorem never_sleeps_on_wanted (wanted : α → Bool) (w : Watch α) (moves : List (Move α)) :
    let v := moves.foldl (move wanted) (ofWatch w)
    (v.Blocked wanted → v.newest ∈ v.missed) ∧
    (∀ m ∈ v.missed, wanted m.2 = false) ∧
    (v.versions w.version).Pairwise (· > ·) ∧
    (∀ x, v.found = some x → wanted x = true) ∧
    (v.found = none → wanted v.watch.value = true →
      (((v.go wanted).go wanted).go wanted).found = some v.watch.value) := by
  intro v
  have h : v.Sound wanted w.version := (sound_ofWatch wanted w).moves moves
  exact ⟨h.newest_mem, h.missed, h.newer, h.found, h.found_soon⟩

/-- Publications before the first look, after it, and while the waiter wakes: it is blocked on the
third one, which it has looked at, and finds the fourth. -/
theorem published_between_moves :
    let moves : List (Move Nat) := [.publish 1, .go, .publish 2, .go, .publish 3, .go, .go]
    let v := moves.foldl (move (· == 4)) (ofWatch ⟨0, 0⟩)
    let v' := (moves ++ [Move.publish 4]).foldl (move (· == 4)) (ofWatch ⟨0, 0⟩)
    v.Blocked (· == 4) ∧ (3, 3) ∈ v.missed ∧
      (((v'.go (· == 4)).go (· == 4)).go (· == 4)).found = some 4 := by
  intro moves v v'
  have hblocked : v.Blocked (· == 4) := ⟨rfl, rfl, rfl⟩
  obtain ⟨-, -, -, -, hsoon⟩ := never_sleeps_on_wanted (· == 4) ⟨0, 0⟩ (moves ++ [Move.publish 4])
  exact ⟨hblocked, (never_sleeps_on_wanted (· == 4) ⟨0, 0⟩ moves).1 hblocked, hsoon rfl rfl⟩

end Vigil

end MidiCi
