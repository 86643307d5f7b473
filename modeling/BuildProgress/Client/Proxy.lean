import BuildProgress.Json.Record
import BuildProgress.Table

/-!
# Proxies

The proxies that the steps of a build are to use. They are handed over as build arguments, each
under its name in upper case and in lower case.
-/

namespace BuildProgress

set_option autoImplicit false

/-- The proxies that the steps of a build are to use; an empty text stands for none. -/
structure Proxies where
  http : String := ""
  https : String := ""
  /-- The hosts that are reached without a proxy. -/
  exceptions : String := ""
  ftp : String := ""
  all : String := ""
deriving DecidableEq, Repr, Inhabited

namespace Proxies

open Json

def keys : List String :=
  ["httpProxy", "httpsProxy", "noProxy", "ftpProxy", "allProxy"]

def ofJson? (j : Json) : Option Proxies := do
  match ← fields? keys j with
  | [http, https, exceptions, ftp, all] =>
    some {
      http := ← fieldOr text? "" http
      https := ← fieldOr text? "" https
      exceptions := ← fieldOr text? "" exceptions
      ftp := ← fieldOr text? "" ftp
      all := ← fieldOr text? "" all }
  | _ => none

/-- The values, in the order of `keys`. -/
def values (p : Proxies) : List String :=
  [p.http, p.https, p.exceptions, p.ftp, p.all]

def toJson (p : Proxies) : Json :=
  ofMembers (keys.zip (p.values.map ofString))

/-- The names of the build arguments, in the order of `keys`, in upper case and in lower case. -/
def argumentNames : List (String × String) :=
  [("HTTP_PROXY", "http_proxy"), ("HTTPS_PROXY", "https_proxy"), ("NO_PROXY", "no_proxy"),
    ("FTP_PROXY", "ftp_proxy"), ("ALL_PROXY", "all_proxy")]

def arguments (p : Proxies) : List (String × String) :=
  (argumentNames.zip p.values).flatMap fun ((upper, lower), value) =>
    if value = "" then [] else [(upper, value), (lower, value)]

/-- Adds the proxies to build arguments. Arguments that are there stay as they are. -/
def addTo (p : Proxies) (arguments : Table String) : Table String :=
  p.arguments.foldl (fun table (name, value) => table.setDefault name value) arguments

end Proxies

end BuildProgress
