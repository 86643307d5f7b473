import BuildProgress.Proofs.FileTree
import BuildProgress.Proofs.Json.Lines
import BuildProgress.Proofs.Json.Record
import BuildProgress.Proofs.SocketAddress
import BuildProgress.Proofs.Text.Utf8
import BuildProgress.Settings

/-!
# Settings that are saved are loaded

Settings are written as a record with a line for each field and are read back from it. So what is saved
to a file is loaded from it, except that settings with an empty buffer are refused.
-/

namespace BuildProgress.Settings

set_option autoImplicit false

open BuildProgress.Text BuildProgress.Json

/-- The counts fit 64 bits, and the address is one. -/
structure Storable (s : Settings) : Prop where
  bufferSize : s.bufferSize ≤ maxUnsigned
  cancelSeconds : s.cancelSeconds ≤ maxUnsigned
  metricsAddress : ∀ address, s.metricsAddress = some address → address.WellFormed

section Text

variable {s : Settings}

theorem plain_ofNat {n : Nat} (h : n ≤ maxUnsigned) : (ofNat n).Plain := by
  have hmax : maxUnsigned < Nat.pow 2 64 := by decide
  simp only [ofNat, Plain, Number.Plain]
  omega

theorem unsigned?_ofNat {n : Nat} (h : n ≤ maxUnsigned) : unsigned? (ofNat n) = some n := by
  simp [unsigned?, ofNat, integer?, h]

theorem builder_ofJson? (b : Builder) : Builder.ofJson? (ofString b.label) = some b := by
  cases b <;> rfl

/-- How the address for metrics is written. -/
def addressJson (address : Option SocketAddress) : Json :=
  match address with
  | some address => ofString address.text
  | none => .null

theorem members_eq (s : Settings) : s.members =
    [("log_level", ofString s.logLevel), ("builder", ofString s.builder.label),
      ("event_buffer_size", ofNat s.bufferSize),
      ("report_context_upload_progress", .bool s.reportsUpload),
      ("cancel_timeout_secs", ofNat s.cancelSeconds), ("color_output", .bool s.color),
      ("metrics_listen_addr", addressJson s.metricsAddress)] :=
  rfl

theorem Storable.plain_members (h : s.Storable) : ∀ member ∈ s.members, member.2.Plain := by
  have haddress : (addressJson s.metricsAddress).Plain := by
    cases s.metricsAddress <;> trivial
  simp [members_eq, ofString, Plain, plain_ofNat h.bufferSize, plain_ofNat h.cancelSeconds, haddress]

theorem Storable.readAddress (h : s.Storable) :
    optionalField Settings.readAddress (some (addressJson s.metricsAddress)) =
      some s.metricsAddress := by
  cases haddress : s.metricsAddress with
  | none => rfl
  | some address =>
    have hread := (h.metricsAddress address haddress).ofText?
    simp [addressJson, optionalField, Settings.readAddress, ofString, text?, hread]

/-- The record of settings is read as the settings. -/
theorem Storable.ofJson? (h : s.Storable) : Settings.ofJson? (ofMembers s.members) = some s := by
  have hfields : fields? keys (ofMembers s.members) =
      some [some (ofString s.logLevel), some (ofString s.builder.label),
        some (ofNat s.bufferSize), some (.bool s.reportsUpload), some (ofNat s.cancelSeconds),
        some (.bool s.color), some (addressJson s.metricsAddress)] := by
    rw [members_eq]
    rfl
  simp [Settings.ofJson?, hfields, fieldOr, text?_ofString, builder_ofJson?,
    unsigned?_ofNat h.bufferSize, unsigned?_ofNat h.cancelSeconds, bool?, h.readAddress]

/-- The text of settings is read as the settings, unless these are refused. -/
theorem Storable.ofText (h : s.Storable) : Settings.ofText s.text = s.check.map fun _ => s := by
  have hread : read? s.text = some (ofMembers s.members) :=
    read?_writeLines h.plain_members (by simp [members_eq])
  rw [Settings.ofText, hread, Option.bind_some, h.ofJson?]

end Text

section Files

variable {s : Settings} {tree later : FileTree} {path : Path}

theorem load_of_content? {text : List Char} (h : tree.content? path = some (Utf8.encode text)) :
    load tree path = ofText text := by
  have hexists : tree.exists? path = true := by
    rw [FileTree.exists?]
    rw [FileTree.content?] at h
    cases hlookup : tree.lookup path with
    | none =>
      rw [hlookup] at h
      cases h
    | some => rfl
  have hread : tree.readText? path = some (String.ofList text) := by
    rw [FileTree.readText?, h, Option.bind_some, Utf8.decode?_encode]
    rfl
  rw [load, hexists, hread]
  simp

/-- The file holds the text of the settings. -/
theorem content?_of_save (h : s.save tree path = .ok later) :
    later.content? path = some (Utf8.encode s.text) := by
  rw [save] at h
  cases hparent : makeParent tree path with
  | error fault =>
    rw [hparent] at h
    cases h
  | ok made =>
    rw [hparent] at h
    cases hwrite : made.write? path (Utf8.encode s.text) with
    | none =>
      simp [hwrite, bind, Except.bind] at h
    | some written =>
      simp only [hwrite, bind, Except.bind, Except.ok.injEq] at h
      exact FileTree.content?_of_write? (h ▸ hwrite)

/-- Saved settings are loaded, unless no message may wait. -/
theorem load_of_save (hstorable : s.Storable) (hsave : s.save tree path = .ok later) :
    (1 ≤ s.bufferSize → load later path = .ok s) ∧
      (s.bufferSize = 0 → load later path = .error (.invalidConfig .emptyBuffer)) := by
  rw [load_of_content? (content?_of_save hsave), hstorable.ofText, check]
  constructor
  · intro hsome
    rw [if_neg (by omega)]
    rfl
  · intro hempty
    rw [if_pos hempty]
    rfl

/-- Settings that differ from the defaults, with an address in which zero groups are left out. -/
def remote : Settings :=
  { logLevel := "debug,\"h2\"=off\n", builder := .buildKit, bufferSize := maxUnsigned,
    metricsAddress := some (.v6 [0x2001, 0xDB8, 0, 0, 0, 0, 0, 1] 3 9100) }

theorem load_of_save_remote : ∃ later, remote.save {} "/etc/settings.json" = .ok later ∧
    load later "/etc/settings.json" = .ok remote := by
  have hstorable : remote.Storable := {
    bufferSize := le_rfl
    cancelSeconds := by decide
    metricsAddress := by
      rintro _ ⟨⟩
      exact ⟨⟨rfl, by decide⟩, by decide, by decide⟩ }
  obtain ⟨later, hsave⟩ : ∃ later, remote.save {} "/etc/settings.json" = .ok later := ⟨_, rfl⟩
  exact ⟨later, hsave, (load_of_save hstorable hsave).1 (by decide)⟩

end Files

end BuildProgress.Settings
