import MidiCi.Proofs.Settings.Document
import MidiCi.Proofs.Settings.Variable
import MidiCi.Settings.Load

/-
  The engine's identifier as settings give it, from a file and from a variable. An identifier is
  spelled in hexadecimal after `0x` or in decimal (`Muid.Spelled`), and either spelling is an
  identifier (`Muid.Spelled.parse`). `Settings.muid_sources`: a file may give any spelling as a text;
  a variable may give the hexadecimal one, and then counts before the file; but a variable that gives
  the decimal one is taken for a number, where a text is expected, and there are no settings.

  Files may hold any other settings that are in order. Other variables that name settings are left
  out.
-/

namespace MidiCi

/-! ## Spellings -/

namespace Muid

/-- `0x` and hexadecimal digits. -/
def HexText (text : String) (n : Nat) : Prop :=
  ∃ ds, text.toList = '0' :: 'x' :: ds ∧ Text.Numeral 16 ds n

/-- Decimal digits. -/
def DecimalText (text : String) (n : Nat) : Prop := Text.Numeral 10 text.toList n

/-- The spellings of an identifier. -/
def Spelled (text : String) (n : Nat) : Prop := HexText text n ∨ DecimalText text n

variable {text : String} {n : Nat}

/-- Every number is spelled in both ways. -/
theorem exists_hexText (n : Nat) : ∃ text, HexText text n :=
  ⟨String.ofList ('0' :: 'x' :: Nat.toDigits 16 n), _, String.toList_ofList,
    Text.numeral_toDigits (by decide) (by decide) n⟩

theorem decimalText_decimal (n : Nat) : DecimalText (String.ofList (Text.decimal n)) n := by
  unfold DecimalText
  rw [String.toList_ofList]
  exact Text.numeral_toDigits (by decide) (by decide) n

theorem HexText.isAlphanum (h : HexText text n) : ∀ c ∈ text.toList, c.isAlphanum = true := by
  obtain ⟨ds, htext, hds⟩ := h
  rw [htext]
  exact List.forall_mem_cons.mpr ⟨rfl, List.forall_mem_cons.mpr ⟨rfl, hds.isAlphanum⟩⟩

theorem Spelled.ne_empty (h : Spelled text n) : text ≠ "" := by
  rintro rfl
  rcases h with ⟨ds, hds, -⟩ | h
  · cases hds
  · exact h.ne_nil rfl

theorem Spelled.hexOrDecimal (h : Spelled text n) :
    Text.HexOrDecimal Text.Numeral text.toList n := by
  rcases h with ⟨ds, htext, hds⟩ | h
  · exact Or.inl ⟨'x', ds, Or.inl rfl, htext, hds⟩
  · exact Or.inr h

/-- Every spelling of a number of 32 bits is read as the identifier. -/
theorem Spelled.parse (h : Spelled text n) (hn : n < 2 ^ 32) :
    ∃ m, Muid.parse text = .ok m ∧ m.value.toNat = n := by
  refine ⟨⟨UInt32.ofNat n⟩, ?_, UInt32.toNat_ofNat_of_lt' hn⟩
  have hread : Text.readHexOrDecimal (Nat.pow 2 32) text.toList = some n := h.hexOrDecimal.read hn
  unfold Muid.parse Muid.read?
  rw [hread]
  rfl

end Muid

/-- A hexadecimal identifier is a text, for a variable. -/
theorem Muid.HexText.ofLine {text : String} {n : Nat} (h : HexText text n) :
    Setting.ofLine text = .text text := by
  have hall := h.isAlphanum
  obtain ⟨ds, htext, hds⟩ := h
  rw [Setting.ofLine_of_word htext (by decide) hall, htext, Inline.word_hex hds.isAlphanum, ← htext,
    String.ofList_toList]

/-- A decimal identifier is a number. -/
theorem Muid.DecimalText.ofLine {text : String} {n : Nat} (h : DecimalText text n)
    (hn : n < 2 ^ 64) : Setting.ofLine text = .natural n := Setting.ofLine_of_numeral h hn

/-! ## Files -/

namespace Settings

/-- The values of a file, if there is one. -/
inductive Holds : Option String → Setting → Prop
  | absent : Holds none (.table [])
  | file {text : String} {below : Setting} (h : Toml.read? text = some below) :
    Holds (some text) below

/-- A file gives these settings, in which nothing is wrong but perhaps the engine's identifier. -/
structure Gives (file : Option String) (s : Settings) : Prop where
  read : ∃ below, Holds file below ∧ Settings.read below = .ok s
  commands : s.core.commandChannelSize ≠ 0
  events : s.core.eventChannelSize ≠ 0
  retention : s.core.logRetention ≠ some 0

variable {file : Option String} {below : Setting} {s : Settings} {env : Environment}

theorem Holds.load_ok (h : Holds file below)
    (hread : Settings.read (env.settings.overlay below) = .ok s)
    (hcheck : s.check = .ok ()) : Settings.load file env = .ok s := by
  unfold Settings.load
  cases h with
  | absent => simp only [hread, hcheck]
  | file h => simp only [h, hread, hcheck]

theorem Holds.load_fault (h : Holds file below) {f : SettingFault}
    (hread : Settings.read (env.settings.overlay below) = .error f) :
    Settings.load file env = .error (.fault f) := by
  unfold Settings.load
  cases h with
  | absent => simp only [hread]
  | file h => simp only [h, hread]

theorem Holds.sorted (h : Holds file below) : ∃ ms, below = .table ms ∧ Setting.Sorted ms ∧
    ∀ key u, Setting.find? key ms = some u → u.Tidy := by
  cases h with
  | absent => exact ⟨[], rfl, .nil, nofun⟩
  | file h => exact Toml.read?_sorted h

/-- Settings are usable if their queues and their log are, and their identifier is one. -/
theorem check_eq_ok (hc : s.core.commandChannelSize ≠ 0) (he : s.core.eventChannelSize ≠ 0)
    (hr : s.core.logRetention ≠ some 0) {m : Muid} (hm : Muid.parse s.engine.muid = .ok m) :
    s.check = .ok () := by
  unfold check
  simp only [if_neg hc, if_neg he, if_neg hr, hm]

theorem engineConfig_eq {m : Muid} (hm : Muid.parse s.engine.muid = .ok m) :
    s.engineConfig = .ok { muid := m, responseDelay := s.engine.responseDelay } := by
  unfold engineConfig
  rw [hm]

/-! ## The identifier laid over -/

/-- An identifier for the engine. -/
def muidSetting (v : Setting) : Setting := .table [("mock", .table [("muid", v)])]

section

open SettingReader

/-- The field of the identifier. -/
def muidField : SettingReader.Field EngineSettings :=
  field "muid" string fun t s => { s with muid := t }

/-- The field of the engine's settings. -/
def engineField : SettingReader.Field Settings :=
  field "mock" EngineSettings.read fun e s => { s with engine := e }

variable {ms : List (String × Setting)} {e : EngineSettings}

/-- A text laid over the engine's settings is its identifier. -/
theorem engine_read_text (hms : Setting.Sorted ms) (h : EngineSettings.read (.table ms) = .ok e)
    (text : String) : EngineSettings.read (.table (Setting.insert "muid" (.text text) ms)) =
      .ok { e with muid := text } := by
  let put (e : EngineSettings) : EngineSettings := { e with muid := text }
  refine fromMembers_insert "muid" muidField put (fun f hf hne u r r' hset => ?_) hms rfl
    (fun _ => rfl) (fun u r r' hset => ?_) h
  · rcases List.mem_cons.mp hf with rfl | hf
    · exact field_comm put hset fun _ _ => rfl
    · cases List.mem_singleton.mp hf
      exact absurd rfl hne
  · obtain ⟨b, -, rfl⟩ := field_set hset
    rfl

/-- A number laid over the engine's settings does not fit. -/
theorem engine_read_number (h : EngineSettings.read (.table ms) = .ok e) (n : Nat) :
    EngineSettings.read (.table (Setting.insert "muid" (.natural n) ms)) =
      .error ⟨["muid"], .wrongType (.natural n) "a string"⟩ := by
  have hset : ∀ r, muidField.set (.natural n) r =
      .error ⟨[], .wrongType (.natural n) "a string"⟩ := fun _ => rfl
  exact fromMembers_insert_error "muid" muidField rfl hset h

/-- Settings of the engine that are laid over others count in their place. -/
theorem read_engine (hms : Setting.Sorted ms) (h : Settings.read (.table ms) = .ok s)
    {v : Setting} (hv : EngineSettings.read v = .ok e) :
    Settings.read (.table (Setting.insert "mock" v ms)) = .ok { s with engine := e } := by
  let put (s : Settings) : Settings := { s with engine := e }
  refine fromMembers_insert "mock" engineField put (fun f hf hne u r r' hset => ?_) hms rfl
    (fun r => field_set_ok hv r) (fun u r r' hset => ?_) h
  · rcases List.mem_cons.mp hf with rfl | hf
    · exact field_comm put hset fun _ _ => rfl
    · rcases List.mem_cons.mp hf with rfl | hf
      · exact absurd rfl hne
      · cases List.mem_singleton.mp hf
        exact field_comm put hset fun _ _ => rfl
  · obtain ⟨b, -, rfl⟩ := field_set hset
    rfl

/-- What is wrong with the engine's settings is wrong with the settings. -/
theorem read_engine_error (h : Settings.read (.table ms) = .ok s) {v : Setting}
    {fault : SettingFault} (hv : EngineSettings.read v = .error fault) :
    Settings.read (.table (Setting.insert "mock" v ms)) = .error (fault.under "mock") :=
  fromMembers_insert_error "mock" engineField rfl (fun r => field_set_error hv r) h

/-- The engine's settings can be read, where they are given among others that can. -/
theorem read_of_find {u : Setting} (h : Settings.read (.table ms) = .ok s)
    (hu : Setting.find? "mock" ms = some u) : ∃ e, EngineSettings.read u = .ok e := by
  obtain ⟨r, r', hset⟩ := fromMembers_find "mock" engineField rfl h hu
  obtain ⟨e, he, -⟩ := field_set hset
  exact ⟨e, he⟩

end

/-- A member laid over a table, of a value that replaces whatever stands in its place. -/
theorem overlay_member {v : Setting} (hv : ∀ u, v.overlay u = v) (key : String)
    (ms : List (String × Setting)) :
    (Setting.table [(key, v)]).overlay (.table ms) = .table (Setting.insert key v ms) := by
  unfold Setting.overlay Setting.membersOver Setting.membersOver
  cases Setting.find? key ms with
  | none => rfl
  | some u => simp only [hv]

/-- An identifier laid over settings is laid over those of the engine, if there are such. -/
theorem overlay_muid (h : Holds file below) (hs : Settings.read below = .ok s) {v : Setting}
    (hv : ∀ u, v.overlay u = v) :
    ∃ ms inner e, below = .table ms ∧ Setting.Sorted ms ∧ Setting.Sorted inner ∧
      EngineSettings.read (.table inner) = .ok e ∧ (muidSetting v).overlay below =
        .table (Setting.insert "mock" (.table (Setting.insert "muid" v inner)) ms) := by
  obtain ⟨ms, rfl, hms, htidy⟩ := h.sorted
  have hlaid : ∀ u, (Setting.find? "mock" ms).elim (.table [("muid", v)])
      (Setting.overlay (.table [("muid", v)])) = u →
      (muidSetting v).overlay (.table ms) = .table (Setting.insert "mock" u ms) := by
    rintro u rfl
    unfold muidSetting Setting.overlay Setting.membersOver Setting.membersOver
    cases Setting.find? "mock" ms <;> rfl
  cases hfind : Setting.find? "mock" ms with
  | none =>
    refine ⟨ms, [], {}, rfl, hms, .nil, rfl, hlaid _ ?_⟩
    rw [hfind]
    rfl
  | some u =>
    obtain ⟨e, he⟩ := read_of_find hs hfind
    by_cases hu : ∃ inner, u = .table inner
    · obtain ⟨inner, rfl⟩ := hu
      refine ⟨ms, inner, e, rfl, hms, htidy _ _ hfind inner rfl, he, hlaid _ ?_⟩
      rw [hfind]
      exact overlay_member hv "muid" inner
    · refine ⟨ms, [], {}, rfl, hms, .nil, rfl, hlaid _ ?_⟩
      rw [hfind]
      cases u with
      | table inner => exact absurd ⟨inner, rfl⟩ hu
      | _ => rfl

/-! ## Both sources -/

/-- The variable of the identifier. -/
def muidVariable : String := "CIVIEW_MOCK__MUID"

section

variable {before after : Environment} {text : String} {n : Nat}

theorem setting?_muid (value : String) :
    Environment.setting? muidVariable value = some (muidSetting (Setting.ofLine value)) := by
  have hkeys : Environment.keys? muidVariable = some ["mock", "muid"] := by decide +kernel
  unfold Environment.setting?
  rw [hkeys]
  rfl

/-- Among variables that name no other setting, that of the identifier is laid over the file. -/
theorem overlay_of_variable (hothers : ∀ v ∈ before ++ after, Environment.setting? v.1 v.2 = none)
    (value : String) (below : Setting) :
    (Environment.settings (before ++ (muidVariable, value) :: after)).overlay below =
      (muidSetting (Setting.ofLine value)).overlay below := by
  rw [Environment.settings_sole before after hothers (setting?_muid value)]
  rfl

theorem overlay_of_none (hothers : ∀ v ∈ before ++ after, Environment.setting? v.1 v.2 = none)
    {ms : List (String × Setting)} :
    (Environment.settings (before ++ after)).overlay (.table ms) = .table ms := by
  rw [Environment.settings_eq, Environment.foldl_layer_none hothers]
  rfl

/-- A file gives any spelling of the identifier. -/
theorem load_file (hothers : ∀ v ∈ before ++ after, Environment.setting? v.1 v.2 = none)
    (h : Gives file s) (ht : Muid.Spelled s.engine.muid n) (hn : n < 2 ^ 32) :
    Settings.load file (before ++ after) = .ok s ∧ ∃ m, s.engineConfig =
      .ok { muid := m, responseDelay := s.engine.responseDelay } ∧ m.value.toNat = n := by
  obtain ⟨below, hbelow, hread⟩ := h.read
  obtain ⟨ms, rfl, -⟩ := hbelow.sorted
  obtain ⟨m, hm, hvalue⟩ := ht.parse hn
  refine ⟨?_, m, engineConfig_eq hm, hvalue⟩
  have hcheck : s.check = .ok () := check_eq_ok h.commands h.events h.retention hm
  refine hbelow.load_ok ?_ hcheck
  rw [overlay_of_none hothers, hread]

/-- A variable gives the hexadecimal spelling, whatever identifier the file gives. -/
theorem load_hex_variable (hothers : ∀ v ∈ before ++ after, Environment.setting? v.1 v.2 = none)
    (h : Gives file s) (ht : Muid.HexText text n) (hn : n < 2 ^ 32) :
    ∃ delay m, Settings.load file (before ++ (muidVariable, text) :: after) =
        .ok { s with engine := ⟨delay, text⟩ } ∧
      Settings.engineConfig { s with engine := ⟨delay, text⟩ } =
        .ok { muid := m, responseDelay := delay } ∧ m.value.toNat = n := by
  obtain ⟨below, hbelow, hread⟩ := h.read
  obtain ⟨ms, inner, e, rfl, hms, hinner, he, hlaid⟩ :=
    overlay_muid (v := .text text) hbelow hread fun _ => rfl
  obtain ⟨m, hm, hvalue⟩ := Muid.Spelled.parse (Or.inl ht) hn
  let laid : Settings := { s with engine := ⟨e.responseDelay, text⟩ }
  have hparse : Muid.parse laid.engine.muid = .ok m := hm
  have hcheck : laid.check = .ok () :=
    check_eq_ok (s := laid) h.commands h.events h.retention hparse
  refine ⟨e.responseDelay, m, hbelow.load_ok ?_ hcheck, engineConfig_eq hparse, hvalue⟩
  rw [overlay_of_variable hothers, ht.ofLine, hlaid]
  exact read_engine hms hread (engine_read_text hinner he text)

/-- A variable does not give the decimal spelling. -/
theorem load_decimal_variable (hothers : ∀ v ∈ before ++ after, Environment.setting? v.1 v.2 = none)
    (h : Gives file s) (ht : Muid.DecimalText text n) (hn : n < 2 ^ 32) :
    Settings.load file (before ++ (muidVariable, text) :: after) =
      .error (.fault ⟨["mock", "muid"], .wrongType (.natural n) "a string"⟩) := by
  obtain ⟨below, hbelow, hread⟩ := h.read
  obtain ⟨ms, inner, e, rfl, -, -, he, hlaid⟩ :=
    overlay_muid (v := .natural n) hbelow hread fun _ => rfl
  refine hbelow.load_fault ?_
  rw [overlay_of_variable hothers, ht.ofLine (Nat.lt_trans hn (by omega)), hlaid]
  exact read_engine_error hread (engine_read_number he n)

/-- A file that gives nothing but an identifier. -/
theorem gives_muid (ht : Muid.Spelled text n) :
    Gives (some (Toml.entry "mock" "muid" text)) { engine := { muid := text } } := by
  have hbare : Toml.Bare "mock" ∧ Toml.Bare "muid" := by
    constructor <;> exact ⟨by decide, List.all_eq_true.mp (by decide +kernel)⟩
  have hread := Toml.read?_entry hbare.1 hbare.2 ht.ne_empty ht.hexOrDecimal.isAlphanum
  refine ⟨⟨_, .file hread, rfl⟩, ?_, ?_, nofun⟩
  · exact Nat.succ_ne_zero 63
  · exact Nat.succ_ne_zero 255

end

/-- Where the identifier of the engine may come from, for each number of 32 bits, each of its
spellings, of which there are some of both kinds, and any file whose other settings are in order. -/
theorem muid_sources {n : Nat} (hn : n < 2 ^ 32) {before after : Environment}
    (hothers : ∀ v ∈ before ++ after, Environment.setting? v.1 v.2 = none) :
    (∀ file s, Gives file s → Muid.Spelled s.engine.muid n →
      Settings.load file (before ++ after) = .ok s ∧ ∃ m, s.engineConfig =
        .ok { muid := m, responseDelay := s.engine.responseDelay } ∧ m.value.toNat = n) ∧
    (∀ text, Muid.Spelled text n →
      Gives (some (Toml.entry "mock" "muid" text)) { engine := { muid := text } }) ∧
    (∀ file s text, Gives file s → Muid.HexText text n →
      ∃ delay m, Settings.load file (before ++ (muidVariable, text) :: after) =
          .ok { s with engine := ⟨delay, text⟩ } ∧
        Settings.engineConfig { s with engine := ⟨delay, text⟩ } =
          .ok { muid := m, responseDelay := delay } ∧ m.value.toNat = n) ∧
    (∀ file s text, Gives file s → Muid.DecimalText text n →
      Settings.load file (before ++ (muidVariable, text) :: after) =
        .error (.fault ⟨["mock", "muid"], .wrongType (.natural n) "a string"⟩)) ∧
    (∃ text, Muid.HexText text n) ∧ ∃ text, Muid.DecimalText text n :=
  ⟨fun _ _ h ht => load_file hothers h ht hn, fun _ ht => gives_muid ht,
    fun _ _ _ h ht => load_hex_variable hothers h ht hn,
    fun _ _ _ h ht => load_decimal_variable hothers h ht hn, Muid.exists_hexText n,
    _, Muid.decimalText_decimal n⟩

/-- A decimal identifier in a file, and a hexadecimal one in a variable before it. -/
theorem muid_in_file_and_variable :
    let file := some (Toml.entry "mock" "muid" "1")
    Settings.load file [] = .ok { engine := { muid := "1" } } ∧
      ∃ delay, Settings.load file [(muidVariable, "0x12345678")] =
        .ok { engine := ⟨delay, "0x12345678"⟩ } := by
  intro file
  have hone : Muid.Spelled "1" 1 := Or.inr (Text.readDigits_eq_some_iff.mp (by decide +kernel))
  have hhex : Muid.HexText "0x12345678" 0x12345678 :=
    ⟨"12345678".toList, rfl, Text.readDigits_eq_some_iff.mp (by decide +kernel)⟩
  have hnone : ∀ v ∈ ([] ++ [] : Environment), Environment.setting? v.1 v.2 = none := nofun
  have hgives : Gives file { engine := { muid := "1" } } :=
    (muid_sources (n := 1) (by omega) hnone).2.1 "1" hone
  have hload := (muid_sources (n := 1) (by omega) hnone).1 file _ hgives hone
  obtain ⟨delay, -, hover, -⟩ :=
    (muid_sources (n := 0x12345678) (by omega) hnone).2.2.1 file _ "0x12345678" hgives hhex
  exact ⟨hload.1, delay, hover⟩

/-- The identifier that there is by default, spelled in decimal, is not taken from a variable. -/
theorem decimal_variable_refused :
    Muid.Spelled "305419896" 305419896 ∧ 305419896 < 2 ^ 32 ∧
      Settings.load none [(muidVariable, "305419896")] =
        .error (.fault ⟨["mock", "muid"], .wrongType (.natural 305419896) "a string"⟩) := by
  have hdecimal : Muid.DecimalText "305419896" 305419896 :=
    Text.readDigits_eq_some_iff.mp (by decide +kernel)
  have hnone : ∀ v ∈ ([] ++ [] : Environment), Environment.setting? v.1 v.2 = none := nofun
  have hgives : Gives none {} :=
    ⟨⟨_, .absent, rfl⟩, Nat.succ_ne_zero 63, Nat.succ_ne_zero 255, nofun⟩
  have hload := load_decimal_variable hnone hgives hdecimal (by omega)
  exact ⟨Or.inr hdecimal, by omega, hload⟩

end Settings

end MidiCi
