import Kvist.Galla.Origin
import Kvist.Galla.Protocol

/-!
# The network guard

The proxy through which an acquisition reaches its sources. It reads one request line, compares a
URL that it writes from the line with the allowed origins, and connects to the host and the port
of the line. The request is the text that the bytes decode to.
-/

set_option autoImplicit false

namespace Kvist.Galla

open Text

def splitWhitespace (text : List Char) : List (List Char) :=
  (text.splitOnP isWhitespace).filter fun piece => !piece.isEmpty

def eqIgnoreAsciiCase (left right : List Char) : Bool :=
  toAsciiLowercase left == toAsciiLowercase right

inductive ParsedRequestLine where
  /-- A request that is forwarded with its path. -/
  | httpAbsolute (host : List Char) (port : Nat) (path : List Char)
  | connectTunnel (host : List Char) (port : Nat)
  deriving DecidableEq, Repr

def validateConnectHost (host : List Char) : Bool :=
  !host.isEmpty && !(host.contains '/' || host.contains '@' || host.contains ' ') &&
    !host.contains ':' &&
    host.all (fun character =>
      isAsciiAlphanumeric character || character == '.' || character == '-') &&
    !(host.head? == some '.' || host.getLast? == some '.' || containsText "..".toList host)

def parseConnect (target : List Char) : Option ParsedRequestLine :=
  match splitOnce ':' target with
  | some (host, port) =>
      if host.isEmpty then none
      else
        match parseUnsigned 65535 port with
        | none => none
        | some port =>
            if validateConnectHost host then some (.connectTunnel host port) else none
  | none => if validateConnectHost target then some (.connectTunnel target 443) else none

def absoluteParts (stripped : List Char) : List Char × List Char :=
  match splitOnce '/' stripped with
  | some (authority, path) => (authority, '/' :: path)
  | none => (stripped, ['/'])

/-- The target of a plain request, behind its scheme. -/
def parseAbsolute (stripped : List Char) : Option ParsedRequestLine :=
  let (authority, path) := absoluteParts stripped
  let bare := if authority.isEmpty then none else some (.httpAbsolute authority 80 path)
  match splitOnce ':' authority with
  | some (host, port) =>
      if host.isEmpty then bare
      else (parseUnsigned 65535 port).map fun port => .httpAbsolute host port path
  | none => bare

def parseRequestLine (firstLine : List Char) : Option ParsedRequestLine :=
  match splitWhitespace firstLine with
  | [method, target, _] =>
      if eqIgnoreAsciiCase method "CONNECT".toList then parseConnect target
      else if eqIgnoreAsciiCase method "GET".toList || eqIgnoreAsciiCase method "HEAD".toList then
        (stripLeading "http://".toList target).bind parseAbsolute
      else none
  | _ => none

namespace ParsedRequestLine

def host : ParsedRequestLine → List Char
  | .httpAbsolute host _ _ => host
  | .connectTunnel host _ => host

def port : ParsedRequestLine → Nat
  | .httpAbsolute _ port _ => port
  | .connectTunnel _ port => port

def path : ParsedRequestLine → Option (List Char)
  | .httpAbsolute _ _ path => some path
  | .connectTunnel _ _ => none

def policyTarget : ParsedRequestLine → List Char
  | .connectTunnel host port =>
      "https://".toList ++ host ++ ':' :: (toString port).toList ++ ['/']
  | .httpAbsolute host port path =>
      "http://".toList ++ host ++
        (if port = 80 then [] else ':' :: (toString port).toList) ++ path

def authorized (policy : OriginPolicy) (line : ParsedRequestLine) : Bool :=
  match line with
  | .httpAbsolute _ _ _ => policy.permits line.policyTarget
  | .connectTunnel _ _ => policy.authorizesAuthority line.policyTarget

end ParsedRequestLine

def firstLine (requestText : List Char) : List Char := ((lines requestText).head?).getD []

/-- The line that the guard acts on, if it is authorized. -/
def authorize (policy : OriginPolicy) (requestText : List Char) : Option ParsedRequestLine :=
  (parseRequestLine (firstLine requestText)).filter fun line => line.authorized policy

def allowOrKeep (policy : OriginPolicy) (url : List Char) : OriginPolicy :=
  match policy.allowUrl url with
  | .ok allowed => allowed
  | .error _ => policy

def isLoopbackSource : AllowedSource → Bool
  | .cargoRegistry _ indexOrigin downloadOrigin _ =>
      isLoopbackOriginUrl indexOrigin && isLoopbackOriginUrl downloadOrigin
  | .cargoGit repository _ _ => isLoopbackOriginUrl repository

def allowSource (policy : OriginPolicy) : AllowedSource → OriginPolicy
  | .cargoRegistry _ indexOrigin downloadOrigin _ =>
      match policy.allowUrl indexOrigin with
      | .ok allowed => allowOrKeep allowed downloadOrigin
      | .error _ => policy
  | .cargoGit repository _ _ => allowOrKeep policy repository

def guardPolicy (sources : List AllowedSource) : OriginPolicy :=
  let allLoopback := !sources.isEmpty && sources.all isLoopbackSource
  sources.foldl allowSource (if allLoopback then OriginPolicy.testLoopback else OriginPolicy.new)

end Kvist.Galla
