import BuildProgress.Client.Credential
import BuildProgress.Client.Proxy
import BuildProgress.Error
import BuildProgress.FileTree
import BuildProgress.Json.Reader

/-!
# The configuration of a client

The file in which clients of the daemon keep credentials and proxies. It holds more than that, which
is passed over here.
-/

namespace BuildProgress

set_option autoImplicit false

/-- What a client keeps: credentials by registry as they are written, and proxies by host. -/
structure ClientConfig where
  auths : Table Credential := []
  proxies : Table Proxies := []
deriving DecidableEq, Repr, Inhabited

namespace ClientConfig

open Json

/-- The host whose proxies count for hosts that have none of their own. -/
def defaultHost : String := "default"

def ofJson? (j : Json) : Option ClientConfig := do
  match ← fields? ["auths", "proxies"] j with
  | [auths, proxies] =>
    some {
      auths := ← fieldOr (table? Credential.ofJson?) [] auths
      proxies := ← fieldOr (table? Proxies.ofJson?) [] proxies }
  | _ => none

def ofText? (text : List Char) : Option ClientConfig :=
  (read? text).bind ofJson?

def load (tree : FileTree) (path : Path) : Except BuildError ClientConfig :=
  if !tree.exists? path then .ok {}
  else match tree.readText? path with
    | none => .error (.io path none)
    | some text =>
      match ofText? text.toList with
      | some config => .ok config
      | none => .error (.invalidConfig (.clientMalformed path))

def credentials (config : ClientConfig) : Table Credential :=
  config.auths.map fun (registry, c) => (registry, c.forRegistry registry)

def proxiesFor (config : ClientConfig) (host : String) : Proxies :=
  ((config.proxies.get? host).or (config.proxies.get? defaultHost)).getD {}

end ClientConfig

end BuildProgress
