import MidiCi.Proofs.Engine.Catalogue

/-
  What all requests have in common. `calls_request`: a request is journaled once, as the call that
  its command makes. `yields_request`: it sends at most four events, and the log entries among them
  are stamped after everything before. `request_eq_none_iff`: nobody answers exactly if a property
  that stands last in the catalogue is to take the name of another one, and at once.
  `request_snd_clock`: what is answered does not depend on the time.
-/

namespace MidiCi

/-! ## Places -/

namespace Keyed

variable {κ α : Type} [DecidableEq κ]

theorem keys_insertAt {c d : Keyed κ α} {i : Nat} {k : κ} {v : α} (h : c.insertAt i k v = some d) :
    d.keys = (c.keys.erase k).take i ++ k :: (c.keys.erase k).drop i := by
  rw [insertAt_eq] at h
  split at h
  · cases h
  · cases h
    unfold keys
    rw [List.map_append, List.map_cons, List.map_take, List.map_drop, keys_drop]

theorem Distinct.insertAt {c d : Keyed κ α} (hc : c.Distinct) {i : Nat} {k : κ} {v : α}
    (h : c.insertAt i k v = some d) : d.Distinct := by
  have hk : k ∉ c.keys.erase k := List.Nodup.not_mem_erase hc
  have hn : (c.keys.erase k).Nodup := List.Nodup.erase k hc
  unfold Distinct
  rw [keys_insertAt h, List.nodup_middle, List.take_append_drop]
  exact List.nodup_cons.mpr ⟨hk, hn⟩

theorem getLast?_of_findIdx? {k : κ} {ks : List κ} (hd : ks.Nodup) {i : Nat}
    (hi : ks.findIdx? (· == k) = some i) : ks.getLast? = some k ↔ i + 1 = ks.length := by
  obtain ⟨hlt, hk, -⟩ := List.findIdx?_eq_some_iff_getElem.mp hi
  have hki : ks[i] = k := beq_iff_eq.mp hk
  rw [List.getLast?_eq_getElem?, List.getElem?_eq_some_iff]
  constructor
  · rintro ⟨hl, hlast⟩
    have hsame := (List.Nodup.getElem_inj_iff hd).mp (hlast.trans hki.symm)
    omega
  · intro hlen
    refine ⟨by omega, ?_⟩
    rw [← hki]
    congr 1
    omega

/-- Put back under another name, an entry finds no place if it was the last and the name is
taken. -/
theorem Distinct.insertAt_eq_none_iff {c : Keyed κ α} (hd : c.Distinct) {old new : κ} {i : Nat}
    (hi : c.indexOf? old = some i) (v : α) :
    (c.erase old).insertAt i new v = none ↔
      old ≠ new ∧ new ∈ c.keys ∧ c.keys.getLast? = some old := by
  have hold : old ∈ c.keys := mem_of_findIdx? hi
  have hlen : (c.erase old).entries.length = c.keys.length - 1 := by
    have h := congrArg List.length (keys_erase c old)
    rw [List.length_erase_of_mem hold] at h
    rw [← h]
    exact (List.length_map _).symm
  have hpos : i < c.keys.length := (List.findIdx?_eq_some_iff_getElem.mp hi).1
  have hkeys : (c.erase old).entries.map Prod.fst = c.keys.erase old := keys_erase c old
  rw [insertAt_eq, length_drop, hlen, hkeys, getLast?_of_findIdx? hd hi]
  by_cases hne : old = new
  · subst hne
    rw [if_neg (List.Nodup.not_mem_erase hd), if_neg (by omega)]
    simp
  · have hmem : new ∈ c.keys.erase old ↔ new ∈ c.keys := List.mem_erase_of_ne (Ne.symm hne)
    by_cases hn : new ∈ c.keys
    · rw [if_pos (hmem.mpr hn)]
      -- the other entry stands among those that are left
      have htwo : 2 ≤ c.keys.length := by
        have := List.length_pos_of_mem (hmem.mpr hn)
        rw [List.length_erase_of_mem hold] at this
        omega
      by_cases hlast : i + 1 = c.keys.length
      · rw [if_pos (by omega)]
        simp [hne, hn, hlast]
      · rw [if_neg (by omega)]
        simp [hlast]
    · rw [if_neg (mt hmem.mp hn), if_neg (by omega)]
      simp [hn]

end Keyed

/-! ## Answers -/

/-- The log entry that an event brings. -/
def Event.entry? : Event → Option LogEntry
  | .logAppended entry => some entry
  | _ => none

/-- An engine that returns answers a command with a reply of its kind, or refuses it. -/
def Answer.Fits (command : Command) : Answer Reply → Prop
  | .ok reply =>
    match command with
    | .getMuid => ∃ m, reply = .muid m
    | _ => reply = .forwarded
  | .refused _ => True
  | .none => False

theorem Answer.refused_ne_none {α : Type} (error : EngineError) :
    (Answer.refused error : Answer α) ≠ .none := nofun

theorem Answer.Fits.ne_none {command : Command} {a : Answer Reply} (h : a.Fits command) :
    a ≠ .none := by
  rintro rfl
  exact h

/-- What the caller of a command is told of the engine's answer. -/
def Answer.outcome : Answer Reply → Except ControlError Reply
  | .ok reply => .ok reply
  | .refused (.unavailable reason) => .error (.engineUnavailable reason)
  | .refused (.rejected reason) => .error (.invalidArgument (.stated reason))
  | .refused .notInitialized => .error .notInitialized
  | .none => .error .notInitialized

theorem Answer.outcome_refused (error : EngineError) :
    (Answer.refused error).outcome = .error (.ofEngine error) := by
  cases error <;> rfl

/-- Whether a confirmation gives a property a new definition. -/
def Confirmation.redefines : Confirmation → Bool
  | .redefinition _ _ => true
  | _ => false

namespace Engine

/-! ## What the engine does besides -/

/-- From one engine to the next without a call, by at most `n` events; log entries among them carry
new stamps. -/
structure Yields (e : Engine) (n : Nat) (e' : Engine) : Prop where
  calls : e'.calls = e.calls
  config : e'.config = e.config
  distinct : e.catalogue.Distinct → e'.catalogue.Distinct
  stamps : e.clock.stamps ≤ e'.clock.stamps
  sends : ∃ es, es.length ≤ n ∧ e'.events = e.events.sendAll es ∧
    ∀ x ∈ es.filterMap Event.entry?,
      e.clock.stamps < x.timestamp.serial ∧ x.timestamp.serial ≤ e'.clock.stamps

namespace Yields

variable {e e' e'' : Engine} {n m : Nat}

theorem trans (h : e.Yields n e') (h' : e'.Yields m e'') : e.Yields (n + m) e'' := by
  obtain ⟨es, hes, hs, hf⟩ := h.sends
  obtain ⟨fs, hfs, hs', hf'⟩ := h'.sends
  refine ⟨h'.calls.trans h.calls, h'.config.trans h.config, fun hd => h'.distinct (h.distinct hd),
    Nat.le_trans h.stamps h'.stamps, es ++ fs, ?_, ?_, fun x hx => ?_⟩
  · rw [List.length_append]
    exact Nat.add_le_add hes hfs
  · rw [hs', hs, Broadcast.sendAll_append]
  · rw [List.filterMap_append] at hx
    rcases List.mem_append.mp hx with hx | hx
    · obtain ⟨hlt, hle⟩ := hf x hx
      exact ⟨hlt, Nat.le_trans hle h'.stamps⟩
    · obtain ⟨hlt, hle⟩ := hf' x hx
      exact ⟨Nat.lt_of_le_of_lt h.stamps hlt, hle⟩

theorem mono (h : e.Yields n e') (hn : n ≤ m) : e.Yields m e' := by
  obtain ⟨es, hes, hs⟩ := h.sends
  exact ⟨h.calls, h.config, h.distinct, h.stamps, es, Nat.le_trans hes hn, hs⟩

/-- A change that calls for no stamp, and events without a log entry that tell of it. -/
theorem emit {d : Engine} {es : List Event} (hc : d.calls = e.calls) (hf : d.config = e.config)
    (hd : e.catalogue.Distinct → d.catalogue.Distinct) (hk : d.clock = e.clock)
    (hv : d.events = e.events) (hn : es.filterMap Event.entry? = []) (hl : es.length ≤ n) :
    e.Yields n (d.emit es) := by
  refine ⟨hc, hf, hd, Nat.le_of_eq (congrArg Clock.stamps hk.symm), es, hl, ?_, fun x hx => ?_⟩
  · rw [← hv]
    rfl
  · rw [hn] at hx
    cases hx

/-- A change that sends nothing. -/
theorem silent (hc : e'.calls = e.calls) (hf : e'.config = e.config)
    (hd : e.catalogue.Distinct → e'.catalogue.Distinct) (hk : e'.clock = e.clock)
    (hv : e'.events = e.events) : e.Yields n e' :=
  emit hc hf hd hk hv List.filterMap_nil (Nat.zero_le n)

theorem refl (e : Engine) : e.Yields n e := silent rfl rfl id rfl rfl

/-- Events that end with a new entry of the log. -/
theorem logged (e : Engine) (d : Direction) (message : String) (es : List Event)
    (hn : es.filterMap Event.entry? = []) (hl : es.length < n) :
    e.Yields n ((e.logged d message).1.emit (es ++ [(e.logged d message).2])) := by
  refine ⟨rfl, rfl, id, Nat.le_succ _, es ++ [(e.logged d message).2], ?_, rfl, fun x hx => ?_⟩
  · rw [List.length_append]
    exact hl
  · rw [List.filterMap_append, hn, List.nil_append] at hx
    rw [List.mem_singleton.mp hx]
    exact ⟨Nat.lt_succ_self _, Nat.le_refl _⟩

theorem announce (e : Engine) (message : String) : e.Yields 1 (e.announce message) :=
  logged e .outgoing message [] rfl Nat.zero_lt_one

/-! ## Confirmations -/

theorem confirmDiscovery (e : Engine) : e.Yields 2 e.confirmDiscovery.sent := by
  have hset : e.Yields 0 { e with responder := some (e.responder.getD .seeded) } :=
    silent rfl rfl id rfl rfl
  exact hset.trans (logged _ .incoming _ [.discovered _] rfl (Nat.lt_succ_self 1))

theorem confirmProfile (e : Engine) (s : ProfileSetting) : e.Yields 2 (e.confirmProfile s).sent := by
  unfold Engine.confirmProfile
  cases e.responder with
  | none => exact refl e
  | some p => exact emit rfl rfl id rfl rfl rfl (Nat.le_succ 1)

theorem confirmSubscription (e : Engine) (target : Muid) (id : String) :
    e.Yields 2 (e.confirmSubscription target id).sent := by
  unfold Engine.confirmSubscription
  cases e.responder with
  | none => exact refl e
  | some p =>
    simp only
    by_cases hs : p.subscription id = .subscribing
    · rw [if_pos hs]
      cases p.properties.get? id with
      | none => exact emit rfl rfl (fun h => h) rfl rfl rfl (Nat.le_succ 1)
      | some v => exact emit rfl rfl (fun h => h) rfl rfl rfl (Nat.le_refl 2)
    · rw [if_neg hs]
      exact refl e

theorem confirmRefresh (e : Engine) (target : Muid) (id : String) :
    e.Yields 2 (e.confirmRefresh target id).sent := by
  unfold Engine.confirmRefresh
  cases e.responder.bind (·.properties.get? id) with
  | none => exact refl e
  | some v => exact logged e .incoming _ [updateOf target v] rfl (Nat.lt_succ_self 1)

theorem confirmRedefinition (e : Engine) (id : String) (m : PropertyMetadata) :
    e.Yields 2 (e.confirmRedefinition id m).sent := by
  unfold Engine.confirmRedefinition
  cases e.catalogue.indexOf? id with
  | none => exact refl e
  | some i =>
    simp only
    cases hk : (e.catalogue.erase id).insertAt i m.resource
        ⟨m, (e.catalogue.get? id).bind LocalProperty.value⟩ with
    | none => exact silent rfl rfl (fun h => h.erase id) rfl rfl
    | some k => exact emit rfl rfl (fun h => (h.erase id).insertAt hk) rfl rfl rfl (Nat.le_succ 1)

theorem confirmValue (e : Engine) (id : String) (body : Bytes) :
    e.Yields 2 (e.confirmValue id body).sent := by
  unfold Engine.confirmValue
  cases e.catalogue.get? id with
  | none => exact refl e
  | some p => exact emit rfl rfl (fun h => h.put _ _) rfl rfl rfl (Nat.le_succ 1)

theorem confirmRemoval (e : Engine) (id : String) : e.Yields 2 (e.confirmRemoval id).sent := by
  unfold Engine.confirmRemoval
  by_cases hk : e.catalogue.contains id = true
  · rw [if_pos hk]
    exact emit rfl rfl (fun h => h.erase id) rfl rfl rfl (Nat.le_succ 1)
  · rw [if_neg hk]
    exact refl e

theorem confirm (e : Engine) (c : Confirmation) : e.Yields 2 (e.confirm c).1 := by
  cases c with
  | discovery => exact confirmDiscovery e
  | profile s => exact confirmProfile e s
  | subscription target id => exact confirmSubscription e target id
  | refreshed target id => exact confirmRefresh e target id
  | creation m => exact emit rfl rfl (fun h => h.put _ _) rfl rfl rfl (Nat.le_succ 1)
  | redefinition id m => exact confirmRedefinition e id m
  | newValue id body => exact confirmValue e id body
  | removal id => exact confirmRemoval e id

theorem respond (e : Engine) (c : Confirmation) : e.Yields 2 (e.respond c).1 := by
  unfold Engine.respond
  by_cases hd : e.config.responseDelay = 0
  · rw [if_pos hd]
    exact confirm e c
  · rw [if_neg hd]
    exact silent rfl rfl (fun h => h) rfl rfl

/-! ## Requests -/

theorem forward (e : Engine) (message : String) (c : Confirmation) :
    e.Yields 4 (e.forward message c).1 :=
  ((announce e message).trans (respond (e.announce message) c)).mono (Nat.le_succ 3)

theorem withResponder (e : Engine) {run : Responder → Engine × Answer Reply}
    (hrun : ∀ p, e.Yields 4 (run p).1) : e.Yields 4 (e.withResponder run).1 := by
  unfold Engine.withResponder
  cases e.responder with
  | none => exact refl e
  | some p => exact hrun p

theorem withLocal (e : Engine) (id : String) {run : Engine × Answer Reply}
    (hrun : e.Yields 4 run.1) : e.Yields 4 (e.withLocal id run).1 := by
  unfold Engine.withLocal
  by_cases hk : e.catalogue.contains id = true
  · rw [if_pos hk]
    exact hrun
  · rw [if_neg hk]
    exact refl e

theorem subscribe (e : Engine) (p : Responder) (id : String) (encoding : Option String) :
    e.Yields 4 (e.subscribe p id encoding).1 := by
  unfold Engine.subscribe
  simp only
  generalize s!"Subscribing to property: {id}" ++ _ = m
  by_cases hs : p.subscription id = .unsubscribed
  · rw [if_pos hs]
    refine (announce e m).trans (Yields.trans (n := 1) ?_ (respond _ _))
    exact emit rfl rfl (fun h => h) rfl rfl rfl (Nat.le_refl 1)
  · rw [if_neg hs]
    exact (announce e m).mono (by decide)

theorem unsubscribe (e : Engine) (p : Responder) (id : String) :
    e.Yields 4 (e.unsubscribe p id).1 := by
  have hd := announce e s!"Unsubscribing from property: {id}"
  unfold Engine.unsubscribe
  simp only
  cases p.subscription id with
  | subscribing =>
    refine hd.trans (m := 3) ?_
    exact emit rfl rfl (fun h => h) rfl rfl rfl (Nat.le_add_left 1 2)
  | subscribed =>
    refine hd.trans (m := 3) ?_
    exact emit rfl rfl (fun h => h) rfl rfl rfl (Nat.le_add_left 1 2)
  | unsubscribed => exact hd.mono (by decide)

theorem carryOut (e : Engine) (r : Request) : e.Yields 4 (e.carryOut r).1 := by
  cases r with
  | sendDiscovery => exact forward e _ _
  | selectConnection target =>
    simp only [Engine.carryOut]
    split
    · exact refl e
    · exact silent rfl rfl (fun h => h) rfl rfl
  | setProfile key enabled channels => exact withResponder e fun _ => forward e _ _
  | subscribe id encoding => exact withResponder e fun p => subscribe e p id encoding
  | unsubscribe id => exact withResponder e fun p => unsubscribe e p id
  | refresh id encoding offset limit =>
    refine withResponder e fun p => ?_
    split
    · exact forward e _ _
    · exact refl e
  | createProperty m =>
    simp only [Engine.carryOut]
    split
    · exact refl e
    · exact forward e _ _
  | updateMetadata id m => exact withLocal e id (forward e _ _)
  | updateValue id resId data => exact withLocal e id (forward e _ _)
  | removeProperty id => exact withLocal e id (forward e _ _)
  | clearLogs => exact silent rfl rfl (fun h => h) rfl rfl
  | getMuid => exact refl e

end Yields

/-- But for the journal, a request sends at most four events. -/
theorem yields_request (e : Engine) (c : Command) :
    (e.journal c.call).Yields 4 (e.request c).1 := by
  rw [request_eq]
  cases (e.journal c.call).refusal? with
  | some error => exact .refl _
  | none => exact .carryOut _ c.route

/-- A request is journaled once, as the call of its command. -/
theorem calls_request (e : Engine) (c : Command) : (e.request c).1.calls = e.calls ++ [c.call] :=
  (yields_request e c).calls

/-! ## Calls of the controller itself -/

/-- Whatever is served is journaled once. -/
theorem calls_serve {α : Type} (e : Engine) (c : EngineCall) {run : Engine → Engine × Answer α}
    (h : ∀ d, (run d).1.calls = d.calls) : (e.serve c run).1.calls = e.calls ++ [c] := by
  unfold Engine.serve
  simp only
  cases (e.journal c).refusal? with
  | some error => rfl
  | none => exact h (e.journal c)

theorem calls_start (e : Engine) : e.start.1.calls = e.calls ++ [.start] := by
  unfold Engine.start
  simp only
  split <;> rfl

theorem calls_shutdown (e : Engine) : e.shutdown.1.calls = e.calls ++ [.shutdown] :=
  e.calls_serve .shutdown fun _ => rfl

theorem calls_getLogs (e : Engine) : e.getLogs.1.calls = e.calls ++ [.getLogs] :=
  e.calls_serve .getLogs fun _ => rfl

/-- The engine answers with the responder, if it was discovered, or refuses to. -/
theorem getConnections_cases (e : Engine) :
    e.getConnections =
        (e.journal .getConnections, .ok (e.responder.map Responder.discovery).toList) ∨
      ∃ error, e.getConnections = (e.journal .getConnections, .refused error) := by
  unfold Engine.getConnections Engine.serve
  cases hr : (e.journal .getConnections).refusal? with
  | some error =>
    right
    exact ⟨error, by simp only [hr]⟩
  | none =>
    left
    simp only [hr]
    rfl

/-- An engine starts if it is there. -/
theorem start_snd (e : Engine) :
    e.start.2 = if e.available then .ok () else .refused (.unavailable "mock port offline") := by
  have ha : (e.journal .start).available = e.available := rfl
  unfold Engine.start
  simp only [ha]
  cases e.available <;> rfl

/-! ## What is answered -/

/-- The property that stands last in the catalogue is to take the name of another one, at once. -/
def Overruns (e : Engine) : Command → Prop
  | .updateMetadata id m =>
    e.config.responseDelay = 0 ∧ e.refusal? = none ∧ id ≠ m.resource ∧
      m.resource ∈ e.catalogue.keys ∧ e.catalogue.keys.getLast? = some id
  | _ => False

/-- Only the handler of a new definition can fail. -/
theorem confirm_done (e : Engine) {c : Confirmation} (h : c.redefines = false) :
    (e.confirm c).2 = true := by
  cases c with
  | redefinition id m => cases h
  | discovery => rfl
  | creation m => rfl
  | profile s =>
    show (e.confirmProfile s).done = true
    unfold confirmProfile
    cases e.responder <;> rfl
  | subscription target id =>
    show (e.confirmSubscription target id).done = true
    unfold confirmSubscription
    cases e.responder with
    | none => rfl
    | some r =>
      simp only
      split <;> rfl
  | refreshed target id =>
    show (e.confirmRefresh target id).done = true
    unfold confirmRefresh
    cases e.responder.bind (·.properties.get? id) <;> rfl
  | newValue id body =>
    show (e.confirmValue id body).done = true
    unfold confirmValue
    cases e.catalogue.get? id <;> rfl
  | removal id =>
    show (e.confirmRemoval id).done = true
    unfold confirmRemoval
    split <;> rfl

/-- A handler that fails answers nobody, if it works within the request. -/
theorem forward_eq_none_iff (e : Engine) (message : String) (c : Confirmation) :
    (e.forward message c).2 = .none ↔
      e.config.responseDelay = 0 ∧ ((e.announce message).confirm c).2 = false := by
  have hsnd : (e.forward message c).2 =
      if ((e.announce message).respond c).2 then .ok .forwarded else .none := rfl
  have hdelay : (e.announce message).config.responseDelay = e.config.responseDelay := rfl
  rw [hsnd]
  unfold Engine.respond
  rw [hdelay]
  by_cases hd : e.config.responseDelay = 0
  · rw [if_pos hd]
    cases ((e.announce message).confirm c).2 <;> simp [hd]
  · rw [if_neg hd]
    simp [hd]

theorem forward_cases (e : Engine) (message : String) (c : Confirmation) :
    (e.forward message c).2 = .none ∨ (e.forward message c).2 = .ok .forwarded := by
  have hsnd : (e.forward message c).2 =
      if ((e.announce message).respond c).2 then .ok .forwarded else .none := rfl
  rw [hsnd]
  cases ((e.announce message).respond c).2
  · exact Or.inl rfl
  · exact Or.inr rfl

theorem forward_fits (e : Engine) (message : String) (k : Confirmation) {command : Command}
    (hk : ((e.announce message).confirm k).2 = true) (h : (Answer.ok Reply.forwarded).Fits command) :
    (e.forward message k).2.Fits command := by
  rcases forward_cases e message k with hf | hf
  · obtain ⟨-, hfails⟩ := (forward_eq_none_iff e message k).mp hf
    cases hk.symm.trans hfails
  · rw [hf]
    exact h

/-- An answer is of the command's kind; only a new definition may be left without one. -/
theorem carryOut_fits (e : Engine) (c : Command) :
    (e.carryOut c.route).2.Fits c ∨
      (e.carryOut c.route).2 = .none ∧ ∃ id m, c = .updateMetadata id m := by
  have hlocal : ∀ {id : String} {run : Engine × Answer Reply},
      run.2.Fits c → (e.withLocal id run).2.Fits c := by
    intro id run h
    unfold Engine.withLocal
    split
    · exact h
    · trivial
  have hresponder : ∀ {run : Responder → Engine × Answer Reply},
      (∀ p, (run p).2.Fits c) → (e.withResponder run).2.Fits c := by
    intro run h
    unfold Engine.withResponder
    split
    · exact h _
    · trivial
  cases c with
  | updateMetadata id m =>
    simp only [Command.route, Engine.carryOut, Engine.withLocal]
    split
    · refine (forward_cases e _ _).symm.imp (fun hf => ?_) fun hf => ⟨hf, id, m, rfl⟩
      rw [hf]
      rfl
    · exact Or.inl trivial
  | sendDiscovery => exact Or.inl (forward_fits e _ _ (confirm_done _ rfl) rfl)
  | selectConnection target =>
    refine Or.inl ?_
    simp only [Command.route, Engine.carryOut]
    split
    · trivial
    · rfl
  | setProfile s => exact Or.inl (hresponder fun _ => forward_fits e _ _ (confirm_done _ rfl) rfl)
  | subscribe id encoding =>
    refine Or.inl (hresponder fun p => ?_)
    unfold Engine.subscribe
    simp only
    split
    · rfl
    · rfl
  | unsubscribe id =>
    refine Or.inl (hresponder fun p => ?_)
    unfold Engine.unsubscribe
    simp only
    cases p.subscription id <;> rfl
  | refresh request =>
    refine Or.inl (hresponder fun p => ?_)
    split
    · exact forward_fits e _ _ (confirm_done _ rfl) rfl
    · trivial
  | createProperty m =>
    refine Or.inl ?_
    simp only [Command.route, Engine.carryOut]
    split
    · trivial
    · exact forward_fits e _ _ (confirm_done _ rfl) rfl
  | updateValue id resId data => exact Or.inl (hlocal (forward_fits e _ _ (confirm_done _ rfl) rfl))
  | removeProperty id => exact Or.inl (hlocal (forward_fits e _ _ (confirm_done _ rfl) rfl))
  | clearLogs => exact Or.inl rfl
  | getMuid => exact Or.inl ⟨e.config.muid, rfl⟩

/-- Unless nobody answers, the answer is of the command's kind. -/
theorem request_fits (e : Engine) (c : Command) :
    (e.request c).2 = .none ∨ (e.request c).2.Fits c := by
  rw [request_eq]
  cases (e.journal c.call).refusal? with
  | some error => exact Or.inr trivial
  | none => exact (carryOut_fits _ c).symm.imp_left And.left

theorem redefinition_fails_iff {e : Engine} (hd : e.catalogue.Distinct) {id : String}
    (hid : id ∈ e.catalogue.keys) (m : PropertyMetadata) :
    (e.confirmRedefinition id m).done = false ↔
      id ≠ m.resource ∧ m.resource ∈ e.catalogue.keys ∧ e.catalogue.keys.getLast? = some id := by
  obtain ⟨i, hi⟩ : ∃ i, e.catalogue.indexOf? id = some i := by
    refine Option.isSome_iff_exists.mp ?_
    unfold Keyed.indexOf?
    rw [List.findIdx?_isSome, List.any_eq_true]
    exact ⟨id, hid, beq_self_eq_true id⟩
  rw [← hd.insertAt_eq_none_iff hi ⟨m, (e.catalogue.get? id).bind LocalProperty.value⟩]
  unfold Engine.confirmRedefinition
  simp only [hi]
  split
  · next hk => simp [hk]
  · next hk => simp [hk]

/-- The handler of a new definition is the only one that can fail. -/
theorem carryOut_eq_none_iff {e : Engine} (hd : e.catalogue.Distinct) (hr : e.refusal? = none)
    (c : Command) : (e.carryOut c.route).2 = .none ↔ e.Overruns c := by
  by_cases hc : ∃ id m, c = .updateMetadata id m
  · obtain ⟨id, m, rfl⟩ := hc
    simp only [Command.route, Engine.carryOut, Engine.withLocal]
    by_cases hk : e.catalogue.contains id = true
    · have hfails := redefinition_fails_iff (e := e.announce s!"Updating property metadata: {id}")
        hd ((Keyed.contains_iff _ _).mp hk) m
      rw [if_pos hk, forward_eq_none_iff]
      refine and_congr_right fun _ => hfails.trans ?_
      rw [hr, eq_self, true_and]
      rfl
    · rw [if_neg hk]
      have hid : id ∉ e.catalogue.keys := mt (Keyed.contains_iff _ _).mpr hk
      refine iff_of_false (Answer.refused_ne_none _) ?_
      exact fun ho => hid (List.mem_of_getLast? ho.2.2.2.2)
  · have hfits := (carryOut_fits e c).resolve_right fun hn => hc hn.2
    refine iff_of_false hfits.ne_none ?_
    cases c with
    | updateMetadata id m => exact absurd ⟨id, m, rfl⟩ hc
    | _ => exact not_false

/-- Nobody answers a request exactly if its new definition finds no place. -/
theorem request_eq_none_iff {e : Engine} (hd : e.catalogue.Distinct) (c : Command) :
    (e.request c).2 = .none ↔ e.Overruns c := by
  have hsame : (e.journal c.call).Overruns c ↔ e.Overruns c := by cases c <;> exact Iff.rfl
  rw [← hsame, request_eq]
  cases hr : (e.journal c.call).refusal? with
  | none =>
    simp only
    exact carryOut_eq_none_iff (e := e.journal c.call) hd hr c
  | some error =>
    refine iff_of_false (Answer.refused_ne_none error) fun h => ?_
    cases c with
    | updateMetadata id m => cases hr.symm.trans h.2.1
    | _ => exact h

/-! ## Engines that answer alike -/

/-- What answers depend on. -/
structure Alike (e e' : Engine) : Prop where
  config : e.config = e'.config
  responder : e.responder = e'.responder
  selected : e.selected = e'.selected
  catalogue : e.catalogue = e'.catalogue

/-- Only a new definition can fail, and that depends on the catalogue. -/
theorem Alike.confirm {e e' : Engine} (h : e.Alike e') (k : Confirmation) :
    (e.confirm k).2 = (e'.confirm k).2 := by
  cases hk : k.redefines with
  | false => rw [confirm_done _ hk, confirm_done _ hk]
  | true =>
    obtain ⟨id, m, rfl⟩ : ∃ id m, k = .redefinition id m := by
      cases k with
      | redefinition id m => exact ⟨id, m, rfl⟩
      | _ => cases hk
    unfold Engine.confirm Engine.effect confirmRedefinition
    simp only [h.catalogue]
    cases e'.catalogue.indexOf? id with
    | none => rfl
    | some i =>
      simp only
      generalize (e'.catalogue.erase id).insertAt i m.resource _ = kept
      cases kept <;> rfl

theorem Alike.forward {e e' : Engine} (h : e.Alike e') (message : String) (k : Confirmation) :
    (e.forward message k).2 = (e'.forward message k).2 := by
  have ha : (e.announce message).Alike (e'.announce message) :=
    ⟨h.config, h.responder, h.selected, h.catalogue⟩
  have hd : ((e.announce message).respond k).2 = ((e'.announce message).respond k).2 := by
    unfold respond
    rw [ha.config]
    split
    · exact ha.confirm k
    · rfl
  have hsnd : ∀ d : Engine, (d.forward message k).2 =
      if ((d.announce message).respond k).2 then .ok .forwarded else .none := fun _ => rfl
  rw [hsnd, hsnd, hd]

theorem Alike.carryOut {e e' : Engine} (h : e.Alike e') (r : Request) :
    (e.carryOut r).2 = (e'.carryOut r).2 := by
  have hresponder : ∀ {run run' : Responder → Engine × Answer Reply},
      (∀ p, (run p).2 = (run' p).2) → (e.withResponder run).2 = (e'.withResponder run').2 := by
    intro run run' hrun
    unfold withResponder
    rw [h.responder]
    cases e'.responder with
    | none => rfl
    | some p => exact hrun p
  have hlocal : ∀ {id : String} {run run' : Engine × Answer Reply},
      run.2 = run'.2 → (e.withLocal id run).2 = (e'.withLocal id run').2 := by
    intro id run run' hrun
    unfold withLocal
    rw [h.catalogue]
    split
    · exact hrun
    · rfl
  have hdest : e.destination = e'.destination := congrArg (Option.getD · responderMuid) h.selected
  cases r with
  | sendDiscovery => exact h.forward _ _
  | selectConnection target =>
    simp only [Engine.carryOut, h.responder]
    split <;> rfl
  | setProfile key enabled channels => exact hresponder fun _ => h.forward _ _
  | subscribe id encoding =>
    refine hresponder fun p => ?_
    unfold Engine.subscribe
    simp only
    split <;> rfl
  | unsubscribe id =>
    refine hresponder fun p => ?_
    unfold Engine.unsubscribe
    simp only
    cases p.subscription id <;> rfl
  | refresh id encoding offset limit =>
    refine hresponder fun p => ?_
    simp only [hdest]
    split
    · exact h.forward _ _
    · rfl
  | createProperty m =>
    simp only [Engine.carryOut, h.catalogue]
    split
    · rfl
    · exact h.forward _ _
  | updateMetadata id m => exact hlocal (h.forward _ _)
  | updateValue id resId data => exact hlocal (h.forward _ _)
  | removeProperty id => exact hlocal (h.forward _ _)
  | clearLogs => rfl
  | getMuid =>
    exact congrArg (fun config : EngineConfig => Answer.ok (Reply.muid config.muid)) h.config

/-- No answer depends on the time. -/
theorem request_snd_clock (e : Engine) (clock : Clock) (c : Command) :
    ({ e with clock }.request c).2 = (e.request c).2 := by
  have hr : ({ e with clock }.journal c.call).refusal? = (e.journal c.call).refusal? := rfl
  have ha : ({ e with clock }.journal c.call).Alike (e.journal c.call) := ⟨rfl, rfl, rfl, rfl⟩
  rw [request_eq, request_eq, hr]
  cases (e.journal c.call).refusal? with
  | some error => rfl
  | none => exact ha.carryOut c.route

end Engine

end MidiCi
