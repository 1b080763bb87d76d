import MidiCi.Channel

/-
  What a channel still holds for a receiver. `waiting_send`: a receiver that does not fall behind
  finds everything that is sent, in order, after what waited for it before. `receive_eq_item`: it
  gets that one by one. `waiting_sent_sendAll`: what is sent at once does not make it fall behind
  if the channel has room for that.
-/

namespace MidiCi.Broadcast

variable {α : Type}

/-- No more is kept than was ever sent. -/
def Sound (b : Broadcast α) : Prop := b.kept.length ≤ b.sent

/-- What the channel holds for a receiver that is to get item number `next`. -/
def waiting (b : Broadcast α) (next : Nat) : List α := b.kept.drop (next - b.oldest)

theorem sound_ofCapacity (n : Nat) : (ofCapacity n : Broadcast α).Sound := Nat.le_refl 0

theorem Sound.send {b : Broadcast α} (h : b.Sound) (x : α) : (b.send x).Sound := by
  unfold Sound at h ⊢
  simp only [Broadcast.send, List.length_drop, List.length_append, List.length_singleton]
  omega

theorem oldest_send (b : Broadcast α) (h : b.Sound) (x : α) :
    (b.send x).oldest = b.oldest + (b.kept.length + 1 - b.capacity) := by
  unfold Sound at h
  simp only [oldest, Broadcast.send, List.length_drop, List.length_append, List.length_singleton]
  omega

theorem oldest_le_send (b : Broadcast α) (h : b.Sound) (x : α) : b.oldest ≤ (b.send x).oldest := by
  rw [oldest_send b h x]
  omega

theorem waiting_sent (b : Broadcast α) (h : b.Sound) : b.waiting b.sent = [] := by
  unfold Sound at h
  unfold waiting oldest
  rw [List.drop_eq_nil_iff]
  omega

/-- What waits for a receiver waits for one that is to get earlier items. -/
theorem waiting_subset (b : Broadcast α) {next later : Nat} (h : next ≤ later) :
    b.waiting later ⊆ b.waiting next := by
  have hsplit : later - b.oldest = (next - b.oldest) + (later - b.oldest - (next - b.oldest)) := by
    omega
  unfold waiting
  rw [hsplit, ← List.drop_drop]
  exact List.drop_subset _ _

/-- What is sent waits behind what waited before. -/
theorem waiting_send {b : Broadcast α} (h : b.Sound) (x : α) {next : Nat} (hn : next ≤ b.sent)
    (ho : (b.send x).oldest ≤ next) : (b.send x).waiting next = b.waiting next ++ [x] := by
  rw [oldest_send b h x] at ho
  unfold Sound at h
  have hl : next - b.oldest ≤ b.kept.length := by
    unfold oldest
    omega
  unfold waiting
  rw [oldest_send b h x]
  simp only [Broadcast.send, List.length_append, List.length_singleton]
  rw [List.drop_drop, ← List.drop_append_of_le_length hl]
  congr 1
  omega

theorem Sound.sendAll {b : Broadcast α} (h : b.Sound) (xs : List α) : (b.sendAll xs).Sound := by
  induction xs generalizing b with
  | nil => exact h
  | cons x xs ih => exact ih (h.send x)

theorem oldest_le_sendAll (b : Broadcast α) (h : b.Sound) (xs : List α) :
    b.oldest ≤ (b.sendAll xs).oldest := by
  induction xs generalizing b with
  | nil => exact Nat.le_refl _
  | cons x xs ih => exact Nat.le_trans (oldest_le_send b h x) (ih (b.send x) (h.send x))

theorem sent_sendAll (b : Broadcast α) (xs : List α) :
    (b.sendAll xs).sent = b.sent + xs.length := by
  induction xs generalizing b with
  | nil => rfl
  | cons x xs ih =>
    rw [show b.sendAll (x :: xs) = (b.send x).sendAll xs from rfl, ih, List.length_cons]
    show b.sent + 1 + xs.length = b.sent + (xs.length + 1)
    omega

theorem mem_kept_sendAll {b : Broadcast α} {xs : List α} {x : α}
    (h : x ∈ (b.sendAll xs).kept) : x ∈ b.kept ∨ x ∈ xs := by
  induction xs generalizing b with
  | nil => exact Or.inl h
  | cons y xs ih =>
    rcases ih h with h | h
    · rcases List.mem_append.mp (List.mem_of_mem_drop h) with h | h
      · exact Or.inl h
      · rw [List.mem_singleton.mp h]
        exact Or.inr List.mem_cons_self
    · exact Or.inr (List.mem_cons_of_mem _ h)

theorem sendAll_append (b : Broadcast α) (xs ys : List α) :
    b.sendAll (xs ++ ys) = (b.sendAll xs).sendAll ys :=
  List.foldl_append

theorem waiting_sendAll {b : Broadcast α} (h : b.Sound) (xs : List α) {next : Nat}
    (hn : next ≤ b.sent) (ho : (b.sendAll xs).oldest ≤ next) :
    (b.sendAll xs).waiting next = b.waiting next ++ xs := by
  induction xs generalizing b with
  | nil => exact (List.append_nil _).symm
  | cons x xs ih =>
    have h1 : (b.send x).oldest ≤ next :=
      Nat.le_trans (oldest_le_sendAll (b.send x) (h.send x) xs) ho
    rw [show b.sendAll (x :: xs) = (b.send x).sendAll xs from rfl,
      ih (h.send x) (Nat.le_succ_of_le hn) ho, waiting_send h x hn h1, List.append_assoc]
    rfl

theorem capacity_sendAll (b : Broadcast α) (xs : List α) :
    (b.sendAll xs).capacity = b.capacity := by
  induction xs generalizing b with
  | nil => rfl
  | cons x xs ih => exact ih (b.send x)

/-- As much is kept as there is room for. -/
theorem le_length_kept_sendAll (b : Broadcast α) (xs : List α) :
    min (b.kept.length + xs.length) b.capacity ≤ (b.sendAll xs).kept.length := by
  induction xs generalizing b with
  | nil => exact Nat.min_le_left _ _
  | cons x xs ih =>
    refine Nat.le_trans ?_ (ih (b.send x))
    simp only [send, List.length_drop, List.length_append, List.length_cons, List.length_nil]
    omega

/-- Of what is sent at once, and fits, a receiver that had everything before loses nothing. -/
theorem oldest_sendAll_le_sent (b : Broadcast α) {xs : List α} (hx : xs.length ≤ b.capacity) :
    (b.sendAll xs).oldest ≤ b.sent := by
  have hkept := le_length_kept_sendAll b xs
  unfold oldest
  rw [sent_sendAll]
  omega

/-- What is sent at once, and fits, is what a receiver gets that had everything before. -/
theorem waiting_sent_sendAll {b : Broadcast α} (h : b.Sound) {xs : List α}
    (hx : xs.length ≤ b.capacity) : (b.sendAll xs).waiting b.sent = xs := by
  rw [waiting_sendAll h xs (Nat.le_refl _) (b.oldest_sendAll_le_sent hx), waiting_sent b h,
    List.nil_append]

/-! ## Receiving -/

/-- What a receiver gets is the first item that waits for it. -/
theorem receive_eq_item {b : Broadcast α} (hb : b.Sound) {next n : Nat} {x : α}
    (h : b.receive next = (.item x, n)) :
    n = next + 1 ∧ b.oldest ≤ next ∧ next < b.sent ∧
      b.waiting next = x :: b.waiting (next + 1) := by
  unfold receive at h
  by_cases ho : next < b.oldest
  · rw [if_pos ho] at h
    cases h
  · rw [if_neg ho] at h
    split at h
    · next y hy =>
      cases h
      obtain ⟨hl, hx⟩ := List.getElem?_eq_some_iff.mp hy
      have hle : b.oldest ≤ next := Nat.le_of_not_lt ho
      refine ⟨rfl, hle, ?_, ?_⟩
      · unfold Sound at hb
        unfold oldest at hl hle
        omega
      · unfold waiting
        rw [Nat.sub_add_comm hle, List.drop_eq_getElem_cons hl, hx]
    · cases h

theorem mem_kept_of_receive {b : Broadcast α} {next n : Nat} {x : α}
    (h : b.receive next = (.item x, n)) : x ∈ b.kept := by
  unfold receive at h
  split at h
  · cases h
  · split at h
    · next y hy =>
      cases h
      exact List.mem_of_getElem? hy
    · cases h

theorem receive_eq_lagged {b : Broadcast α} {next n m : Nat}
    (h : b.receive next = (.lagged m, n)) : next < b.oldest := by
  unfold receive at h
  by_cases ho : next < b.oldest
  · exact ho
  · rw [if_neg ho] at h
    split at h <;> cases h

/-- An item takes the receiver one further. -/
theorem next_of_item {b : Broadcast α} {next n : Nat} {x : α}
    (h : b.receive next = (.item x, n)) : n = next + 1 := by
  unfold receive at h
  split at h
  · cases h
  · split at h
    · cases h
      rfl
    · cases h

/-- A receiver that lost items goes on with the oldest one kept. -/
theorem next_of_lagged {b : Broadcast α} {next n m : Nat}
    (h : b.receive next = (.lagged m, n)) : n = b.oldest := by
  unfold receive at h
  rw [if_pos (receive_eq_lagged h)] at h
  cases h
  rfl

theorem receive_eq_empty {b : Broadcast α} {next n : Nat} (h : b.receive next = (.empty, n)) :
    n = next ∧ b.oldest ≤ next ∧ b.waiting next = [] := by
  unfold receive at h
  by_cases ho : next < b.oldest
  · rw [if_pos ho] at h
    cases h
  · rw [if_neg ho] at h
    split at h
    · cases h
    · next hx =>
      cases h
      refine ⟨rfl, Nat.le_of_not_lt ho, ?_⟩
      unfold waiting
      rw [List.drop_eq_nil_iff]
      exact List.getElem?_eq_none_iff.mp hx

end MidiCi.Broadcast
