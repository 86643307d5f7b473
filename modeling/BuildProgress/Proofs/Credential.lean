import BuildProgress.Client.Config
import BuildProgress.Proofs.Base64
import BuildProgress.Proofs.Json.Record
import BuildProgress.Proofs.Text.Lines
import BuildProgress.Proofs.Text.Utf8

/-!
# Logins of a client

A login text holds a user and a password exactly if it is what is written for them, but for white
space around it. All other texts are broken, and there are four ways to be so. A client shows the user
and the password that a login text holds, and what is written beside it if the text is broken; all else
it shows as it is kept.
-/

namespace BuildProgress

set_option autoImplicit false

open BuildProgress.Text

theorem Table.get?_map {α β : Type} (f : String → α → β) (table : Table α) (key : String) :
    Table.get? (table.map fun entry => (entry.1, f entry.1 entry.2)) key =
      (table.get? key).map (f key) := by
  induction table with
  | nil => rfl
  | cons entry rest ih =>
    by_cases hkey : entry.1 = key
    · simp [Table.get?, hkey]
    · simpa [Table.get?, hkey] using ih

section Padding

variable {text bare : List Char}

/-- The second text is the first one without the NUL characters that pad it at its end. -/
structure IsUnpadded (text bare : List Char) : Prop where
  padding : ∃ count, text = bare ++ List.replicate count '\x00'
  stops : bare.getLast? ≠ some '\x00'

theorem stopsAt_padding_iff : StopsAt (· == '\x00') bare.reverse ↔ bare.getLast? ≠ some '\x00' := by
  rw [StopsAt, List.head?_reverse]
  cases bare.getLast? <;> simp

theorem isUnpadded_iff : IsUnpadded text bare ↔ bare = dropEndWhile (· == '\x00') text := by
  constructor
  · rintro ⟨⟨count, rfl⟩, hstops⟩
    have hpads : ∀ c ∈ List.replicate count '\x00', (c == '\x00') = true := by
      intro c hc
      rw [List.eq_of_mem_replicate hc]
      rfl
    rw [dropEndWhile_run bare hpads, dropEndWhile_stop (stopsAt_padding_iff.2 hstops)]
  · rintro rfl
    have hpads : ∀ c ∈ text.reverse.takeWhile (· == '\x00'), c = '\x00' := by
      intro c hc
      simpa using List.mem_takeWhile_imp hc
    refine ⟨⟨(text.reverse.takeWhile (· == '\x00')).length, ?_⟩, ?_⟩
    · have hsplit := congrArg List.reverse
        (List.takeWhile_append_dropWhile (p := (· == '\x00')) (l := text.reverse))
      rw [List.reverse_append, List.reverse_reverse] at hsplit
      conv => lhs; rw [← hsplit]
      rw [dropEndWhile, List.eq_replicate_of_mem hpads, List.reverse_replicate,
        List.length_replicate]
    · rw [← stopsAt_padding_iff, dropEndWhile, List.reverse_reverse]
      exact stopsAt_dropWhile _ _

theorem IsUnpadded.eq_of_stops (h : IsUnpadded text bare) (hstops : text.getLast? ≠ some '\x00') :
    bare = text := by
  rw [isUnpadded_iff.1 h, dropEndWhile_stop (stopsAt_padding_iff.2 hstops)]

end Padding

namespace Login

variable {login name secret shown : List Char}

/-- Apart from white space around it, a login text is what is written for a user and a password. -/
structure Holds (login name secret : List Char) : Prop where
  colon : ':' ∉ name
  text : trim login = encode name secret

/-- A login text that holds no user and no password. -/
inductive Broken (login : List Char) : Prop where
  | blank (nothing : trim login = [])
  | noBytes (strange : ∀ bytes, trim login ≠ Base64.encode bytes)
  | noText {bytes : List UInt8} (text : trim login = Base64.encode bytes)
      (strange : ∀ chars, bytes ≠ Utf8.encode chars)
  | noColon {chars : List Char} (text : trim login = Base64.encode (Utf8.encode chars))
      (colon : ':' ∉ chars)

theorem decode?_of_holds (h : Holds login name secret) :
    decode? login = some (name, dropEndWhile (· == '\x00') secret) := by
  simp [decode?, h.text, encode, Base64.decode?_encode, Utf8.decode?_encode,
    splitFirst?_append h.colon]

/-- What is read from a login text is held by it. -/
theorem holds_or_broken (login : List Char) :
    (∃ name secret, Holds login name secret) ∨ (Broken login ∧ decode? login = none) := by
  cases hbytes : Base64.decode? (trim login) with
  | none =>
    refine .inr ⟨.noBytes fun bytes heq => ?_, by simp [decode?, hbytes]⟩
    rw [heq, Base64.decode?_encode] at hbytes
    cases hbytes
  | some bytes =>
    have hlogin := Base64.decode?_eq_some_iff.1 hbytes
    cases htext : Utf8.decode? bytes with
    | none =>
      refine .inr ⟨.noText hlogin fun chars heq => ?_, by simp [decode?, hbytes, htext]⟩
      rw [heq, Utf8.decode?_encode] at htext
      cases htext
    | some chars =>
      obtain rfl := Utf8.decode?_eq_some_iff.1 htext
      cases hsplit : splitFirst? ':' chars with
      | none =>
        refine .inr ⟨.noColon hlogin (splitFirst?_eq_none_iff.1 hsplit), ?_⟩
        simp [decode?, hbytes, htext, hsplit]
      | some parts =>
        obtain ⟨rfl, hcolon⟩ := splitFirst?_eq_some_iff.1 hsplit
        exact .inl ⟨parts.1, parts.2, hcolon, hlogin⟩

example : decode? " dXNlcjpzM2M6cmV0\n".toList = some ("user".toList, "s3c:ret".toList) := by decide

theorem Broken.not_holds (h : Broken login) : ¬ Holds login name secret := by
  intro hholds
  have hencode {bytes : List UInt8} (htext : trim login = Base64.encode bytes) :
      bytes = Utf8.encode (name ++ ':' :: secret) :=
    Base64.encode_injective (htext.symm.trans hholds.text)
  have hcolon {chars : List Char} (htext : trim login = Base64.encode (Utf8.encode chars)) :
      ':' ∈ chars := by
    rw [Utf8.encode_injective (hencode htext)]
    exact List.mem_append_right _ List.mem_cons_self
  cases h with
  | blank nothing => exact absurd (@hcolon [] nothing) List.not_mem_nil
  | noBytes strange => exact strange _ hholds.text
  | noText text strange => exact strange _ (hencode text)
  | noColon text colon => exact colon (hcolon text)

theorem broken_iff : Broken login ↔ ∀ name secret, ¬ Holds login name secret := by
  refine ⟨fun h _ _ => h.not_holds, fun h => ?_⟩
  obtain ⟨name, secret, hholds⟩ | ⟨hbroken, _⟩ := holds_or_broken login
  · exact absurd hholds (h name secret)
  · exact hbroken

theorem Broken.decode? (h : Broken login) : Login.decode? login = none := by
  obtain ⟨name, secret, hholds⟩ | ⟨_, hnone⟩ := holds_or_broken login
  · exact absurd hholds h.not_holds
  · exact hnone

theorem isBlank_letter {value : Nat} (h : value < 64) : isBlank (Base64.letter value) = false := by
  have hall : ∀ v : Fin 64, isBlank (Base64.letter v) = false := by decide
  exact hall ⟨value, h⟩

theorem encode_notBlank (bytes : List UInt8) : ∀ c ∈ Base64.encode bytes, isBlank c = false := by
  induction bytes using Base64.encode.induct with
  | case1 => simp [Base64.encode]
  | case2 a =>
    have ha := a.toNat_lt
    simp only [Base64.encode, List.forall_mem_cons]
    exact ⟨isBlank_letter (by omega), isBlank_letter (by omega), rfl, rfl, by simp⟩
  | case3 a b =>
    have ha := a.toNat_lt
    have hb := b.toNat_lt
    simp only [Base64.encode, List.forall_mem_cons]
    exact ⟨isBlank_letter (by omega), isBlank_letter (by omega), isBlank_letter (by omega), rfl,
      by simp⟩
  | case4 a b c rest ih =>
    have ha := a.toNat_lt
    have hb := b.toNat_lt
    have hc := c.toNat_lt
    simp only [Base64.encode, List.forall_mem_cons]
    exact ⟨isBlank_letter (by omega), isBlank_letter (by omega), isBlank_letter (by omega),
      isBlank_letter (by omega), ih⟩

theorem holds_encode (h : ':' ∉ name) (secret : List Char) :
    Holds (encode name secret) name secret :=
  ⟨h, trim_of_notBlank (encode_notBlank _)⟩

end Login

namespace Credential

/-- What a client shows to a registry of the credential that it keeps for it. -/
structure Presents (registry : String) (kept shown : Credential) : Prop where
  serverAddress : shown.serverAddress = registry
  auth : shown.auth = kept.auth
  identityToken : shown.identityToken = kept.identityToken
  registryToken : shown.registryToken = kept.registryToken
  login : ∀ name secret, Login.Holds kept.auth.toList name secret →
    shown.username.toList = name ∧ IsUnpadded secret shown.password.toList
  broken : Login.Broken kept.auth.toList →
    shown.username = kept.username ∧ shown.password = kept.password

variable {registry : String} {kept shown : Credential}

theorem withLogin_of_holds {name secret : List Char}
    (h : Login.Holds kept.auth.toList name secret) : kept.withLogin = { kept with
      username := String.ofList name
      password := String.ofList (dropEndWhile (· == '\x00') secret) } := by
  rw [withLogin, Login.decode?_of_holds h]

theorem withLogin_of_broken (h : Login.Broken kept.auth.toList) : kept.withLogin = kept := by
  rw [withLogin, h.decode?]

/-- A login text changes the user and the password only. -/
theorem withLogin_keeps (kept : Credential) : kept.withLogin.auth = kept.auth ∧
    kept.withLogin.identityToken = kept.identityToken ∧
    kept.withLogin.registryToken = kept.registryToken := by
  unfold withLogin
  split <;> exact ⟨rfl, rfl, rfl⟩

theorem presents_forRegistry (registry : String) (kept : Credential) :
    Presents registry kept (kept.forRegistry registry) where
  serverAddress := rfl
  auth := (withLogin_keeps kept).1
  identityToken := (withLogin_keeps kept).2.1
  registryToken := (withLogin_keeps kept).2.2
  login := by
    intro name secret hholds
    rw [forRegistry, withLogin_of_holds hholds]
    exact ⟨String.toList_ofList, isUnpadded_iff.2 String.toList_ofList⟩
  broken := by
    intro hbroken
    rw [forRegistry, withLogin_of_broken hbroken]
    exact ⟨rfl, rfl⟩

/-- A user without a colon and a password that does not end in NUL are shown as they were written. -/
theorem Presents.recovers (h : Presents registry kept shown) {name secret : List Char}
    (hcolon : ':' ∉ name) (hstops : secret.getLast? ≠ some '\x00')
    (hauth : kept.auth = String.ofList (Login.encode name secret)) :
    shown.username = String.ofList name ∧ shown.password = String.ofList secret := by
  have hholds : Login.Holds kept.auth.toList name secret := by
    rw [hauth, String.toList_ofList]
    exact Login.holds_encode hcolon secret
  obtain ⟨hname, hsecret⟩ := h.login name secret hholds
  rw [← hname, ← hsecret.eq_of_stops hstops, String.ofList_toList, String.ofList_toList]
  exact ⟨rfl, rfl⟩

end Credential

namespace ClientConfig

variable {config : ClientConfig}

theorem get?_credentials (config : ClientConfig) (registry : String) :
    config.credentials.get? registry = (config.auths.get? registry).map (·.forRegistry registry) :=
  Table.get?_map (fun registry kept => Credential.forRegistry registry kept) config.auths registry

/-- A table that is read from a file has each registry once. -/
theorem nodup_auths {text : List Char} (h : ofText? text = some config) :
    (config.auths.map (·.1)).Nodup := by
  obtain ⟨j, -, hj⟩ := Option.bind_eq_some_iff.1 h
  obtain ⟨fields, -, hfields⟩ := Option.bind_eq_some_iff.1 hj
  split at hfields
  · obtain ⟨auths, hauths, hrest⟩ := Option.bind_eq_some_iff.1 hfields
    obtain ⟨proxies, -, hconfig⟩ := Option.bind_eq_some_iff.1 hrest
    rw [← Option.some.inj hconfig]
    exact Json.nodup_keys_of_fieldOr hauths
  · cases hfields

/-- Of every registry of the table and of no other, a client shows a credential: at the address of the
registry, with the user and the password that the login text holds or, if that is broken, those that are
written beside it, and with all else as it is kept. A login text is broken exactly if no user without a
colon and no password were written in it. -/
theorem credentials_presented (config : ClientConfig) :
    config.credentials.map (·.1) = config.auths.map (·.1) ∧
    (∀ registry kept, config.auths.get? registry = some kept →
      ∃ shown, config.credentials.get? registry = some shown ∧
        Credential.Presents registry kept shown ∧
        ∀ name secret, ':' ∉ name → secret.getLast? ≠ some '\x00' →
          kept.auth = String.ofList (Login.encode name secret) →
          shown.username = String.ofList name ∧ shown.password = String.ofList secret) ∧
    (∀ login, Login.Broken login ↔ ∀ name secret, ¬ Login.Holds login name secret) ∧
    ∀ text, ofText? text = some config → (config.auths.map (·.1)).Nodup := by
  refine ⟨by simp [credentials], ?_, fun _ => Login.broken_iff, fun _ => nodup_auths⟩
  intro registry kept hkept
  have hpresents := Credential.presents_forRegistry registry kept
  refine ⟨_, by rw [get?_credentials, hkept, Option.map_some], hpresents, ?_⟩
  exact fun _ _ => hpresents.recovers

end ClientConfig

end BuildProgress
