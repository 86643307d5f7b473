import BuildProgress.Base64
import BuildProgress.Json.Record
import BuildProgress.Text.Blank
import BuildProgress.Text.Lines
import BuildProgress.Text.Utf8

/-!
# Credentials

What a client shows to a registry. User and password may be kept as one login text: the base64 of
the user, a colon and the password.
-/

namespace BuildProgress

set_option autoImplicit false

open BuildProgress.Text

namespace Login

def encode (user password : List Char) : List Char :=
  Base64.encode (Utf8.encode (user ++ ':' :: password))

/-- The user and the password of a login text: the user ends at the first colon, and NUL characters
that pad the password at its end are not part of it. -/
def decode? (login : List Char) : Option (List Char × List Char) := do
  let bytes ← Base64.decode? (trim login)
  let text ← Utf8.decode? bytes
  let (user, password) ← splitFirst? ':' text
  some (user, dropEndWhile (· == '\x00') password)

end Login

structure Credential where
  username : String := ""
  password : String := ""
  /-- The login text, if user and password are kept as one. -/
  auth : String := ""
  serverAddress : String := ""
  identityToken : String := ""
  registryToken : String := ""
deriving DecidableEq, Repr, Inhabited

namespace Credential

open Json

def keys : List String :=
  ["username", "password", "auth", "serveraddress", "identitytoken", "registrytoken"]

def ofJson? (j : Json) : Option Credential := do
  match ← fields? keys j with
  | [username, password, auth, serverAddress, identityToken, registryToken] =>
    some {
      username := ← fieldOr text? "" username
      password := ← fieldOr text? "" password
      auth := ← fieldOr text? "" auth
      serverAddress := ← fieldOr text? "" serverAddress
      identityToken := ← fieldOr text? "" identityToken
      registryToken := ← fieldOr text? "" registryToken }
  | _ => none

def toJson (c : Credential) : Json :=
  ofMembers (keys.zip ([c.username, c.password, c.auth, c.serverAddress, c.identityToken,
    c.registryToken].map ofString))

/-- Puts the user and the password of the login text in their places. Without a login text that
holds them, those that are written there stay. -/
def withLogin (c : Credential) : Credential :=
  match Login.decode? c.auth.toList with
  | some (user, password) =>
    { c with username := String.ofList user, password := String.ofList password }
  | none => c

def forRegistry (registry : String) (c : Credential) : Credential :=
  { c.withLogin with serverAddress := registry }

end Credential

end BuildProgress
