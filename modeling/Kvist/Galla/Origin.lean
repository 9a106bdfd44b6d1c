import Kvist.Address
import Kvist.Outcome
import Kvist.Paths
import Kvist.Json.Value

/-!
# Package-source origins

URLs are parsed strictly into origins, and a policy compares a request with the origins it allows.
A request has to have the same scheme, host and port, and a path at or below the allowed one.
-/

set_option autoImplicit false

namespace Kvist.Galla

open Address Text

def maxUrlBytes : Nat := 4096

inductive Scheme where
  | https
  | http
  deriving DecidableEq, Repr

inductive TransportPolicyMode where
  | productionRemote
  | testLoopback
  deriving DecidableEq, Repr

inductive RequestKind where
  | cargoRegistryIndex
  | cargoCrateDownload
  | cargoGit
  deriving DecidableEq, Repr

namespace Scheme

def defaultPort : Scheme → Nat
  | .https => 443
  | .http => 80

def asStr : Scheme → List Char
  | .https => "https".toList
  | .http => "http".toList

end Scheme

/-- A parsed origin: the host is in lower case and without brackets, the path absolute. -/
structure Origin where
  scheme : Scheme
  host : List Char
  port : Nat
  path : List Char
  deriving DecidableEq, Repr

def Origin.sameAuthority (origin other : Origin) : Bool :=
  origin.scheme == other.scheme && origin.host == other.host && origin.port == other.port

def isAsciiDigit (character : Char) : Bool := '0' ≤ character && character ≤ '9'

def isAsciiAlphanumeric (character : Char) : Bool :=
  isAsciiDigit character || ('a' ≤ character && character ≤ 'z') ||
    ('A' ≤ character && character ≤ 'Z')

def isAsciiHexdigit (character : Char) : Bool :=
  isAsciiDigit character || ('a' ≤ character && character ≤ 'f') ||
    ('A' ≤ character && character ≤ 'F')

def toAsciiLowercase (text : List Char) : List Char := text.map Char.toLower

def decimalValue (digits : List Char) : Nat :=
  digits.foldl (fun value digit => value * 10 + (digit.toNat - '0'.toNat)) 0

/-- A number as the standard library reads it, also behind a plus sign. -/
def parseUnsigned (limit : Nat) (text : List Char) : Option Nat :=
  let digits := (stripLeading ['+'] text).getD text
  if digits.isEmpty || !digits.all isAsciiDigit || limit < decimalValue digits then none
  else some (decimalValue digits)

/-- The parts before and after the last separator. -/
def rsplitOnce (separator : Char) (text : List Char) : Option (List Char × List Char) :=
  (splitOnce separator text.reverse).map fun parts => (parts.2.reverse, parts.1.reverse)

def parseExplicitPort (port : List Char) : Except String Nat := do
  ensure (!port.isEmpty && port.all isAsciiDigit) "source URL port must be a decimal number"
  ensure (decimalValue port ≤ 65535) "source URL port is out of range"
  return decimalValue port

def parsePort (afterBracket : List Char) (scheme : Scheme) : Except String Nat :=
  if afterBracket.isEmpty then .ok scheme.defaultPort
  else
    match stripLeading [':'] afterBracket with
    | none => .error "source URL has unexpected characters after the IPv6 host"
    | some port => parseExplicitPort port

def splitAuthority (authority : List Char) (scheme : Scheme) : Except String (List Char × Nat) :=
  match stripLeading ['['] authority with
  | some rest =>
      match splitOnce ']' rest with
      | none => .error "source URL IPv6 host is missing a closing bracket"
      | some (host, after) => do
          let port ← parsePort after scheme
          return (toAsciiLowercase host, port)
  | none =>
      match rsplitOnce ':' authority with
      | some (host, port) => do
          let port ← parseExplicitPort port
          return (toAsciiLowercase host, port)
      | none => .ok (toAsciiLowercase authority, scheme.defaultPort)

/-- Four decimal octets without leading zeros. -/
def isCanonicalDottedIpv4 (host : List Char) : Bool :=
  let parts := host.splitOn '.'
  parts.length == 4 && parts.all fun part =>
    !part.isEmpty && part.length ≤ 3 && part.all isAsciiDigit &&
      !(1 < part.length && part.head? == some '0') && (parseUnsigned 255 part).isSome

def isNumericIpv4Alias (host : List Char) : Bool :=
  if isCanonicalDottedIpv4 host then false
  else
    host.any isAsciiDigit &&
      host.all fun character =>
        isAsciiHexdigit character || character == '.' || character == 'x' || character == 'X'

def validateHost (host : List Char) : Except String Unit := do
  ensure (!host.isEmpty) "source URL host must not be empty"
  ensure (host.all fun character =>
      isAsciiAlphanumeric character || character == '.' || character == '-' || character == ':')
    "source URL host contains characters that are not host-legal"
  if host.contains ':' then
    ensure (parseIpv6 host).isSome "source URL IPv6 host is not a valid address literal"
  else
    ensure (!(host.head? == some '.' || host.getLast? == some '.' || containsText "..".toList host))
      "source URL host must not have an empty label"
    ensure (!isNumericIpv4Alias host)
      "source URL host must not use a noncanonical numeric IPv4 alias (single integer, shortened, octal, or hexadecimal)"

def isLoopbackHost (host : List Char) : Bool :=
  if host == "localhost".toList || host == "::1".toList then true
  else
    let octets := host.splitOn '.'
    octets.length == 4 && octets.all (fun octet => (parseUnsigned 255 octet).isSome) &&
      octets.head? == some "127".toList

def canonicalPath (path : List Char) : Except String (List Char) := do
  if path.isEmpty then return ['/']
  ensure (path.head? == some '/') "source URL path must be absolute"
  ensure (!(Paths.split path).any fun component =>
      component == ['.'] || component == ['.', '.'])
    "source URL path must be canonical without `.` or `..` components"
  ensure (!containsText "//".toList path)
    "source URL path must be canonical without duplicate `/` separators"
  let trailing := 1 < path.length && path.getLast? == some '/'
  let canonical := '/' :: ['/'].intercalate (Paths.split path)
  return if trailing && canonical != ['/'] then canonical ++ ['/'] else canonical

def parseRest (scheme : Scheme) (rest : List Char) : Except String Origin := do
  let authority := rest.takeWhile (· != '/')
  let path := if rest.contains '/' then rest.dropWhile (· != '/') else ['/']
  ensure (!authority.isEmpty) "source URL must declare a host"
  ensure (!authority.contains '@') "source URL must not embed credentials (userinfo)"
  let (host, port) ← splitAuthority authority scheme
  validateHost host
  ensure (!(scheme == .http && !isLoopbackHost host))
    "plain `http` is permitted only for a loopback host; every remote source must use `https`"
  let path ← canonicalPath path
  return ⟨scheme, host, port, path⟩

/-- Parses one URL without credentials, query, fragment, percent-encoding or white space. -/
def parse (url : List Char) : Except String Origin := do
  ensure (Json.utf8Bytes url ≤ maxUrlBytes)
    ("source URL of " ++ toString (Json.utf8Bytes url) ++ " bytes exceeds the " ++
      toString maxUrlBytes ++ "-byte limit")
  ensure (!url.contains '\x00') "source URL contains a NUL byte"
  ensure (!url.contains '%')
    "source URL must not use percent-encoding, which could alias a path separator or traversal"
  ensure (!(url.contains '?' || url.contains '#'))
    "source URL must not contain a query string or fragment"
  ensure (!url.any isWhitespace) "source URL must not contain whitespace"
  match stripLeading "https://".toList url with
  | some rest => parseRest .https rest
  | none =>
      match stripLeading "http://".toList url with
      | some rest => parseRest .http rest
      | none =>
          .error "source URL must use the `https://` scheme (or `http://` for a loopback host)"

def isLoopbackAddress : IpAddress → Bool
  | .v4 address => address.isLoopback
  | .v6 address => address.isLoopback

def isPublicIpv4 (address : Ipv4) : Bool :=
  !(address.isPrivate || address.isLoopback || address.isLinkLocal || address.isBroadcast ||
    address.isUnspecified || address.first == 0 ||
    (address.first == 100 && 64 ≤ address.second && address.second ≤ 127) || 224 ≤ address.first)

def isPublicAddress : IpAddress → Bool
  | .v4 address => isPublicIpv4 address
  | .v6 address =>
      match address.toIpv4Mapped with
      | some mapped => isPublicIpv4 mapped
      | none =>
          !(address.isLoopback || address.isUnspecified || address.isMulticast ||
            (0xfc00 ≤ address.firstSegment && address.firstSegment ≤ 0xfdff) ||
            (0xfe80 ≤ address.firstSegment && address.firstSegment ≤ 0xfebf))

def parseProduction (url : List Char) : Except String Origin := do
  let origin ← parse url
  ensure (origin.scheme == .https) "production package-source origins must use https"
  ensure (!(parseIpAddress origin.host).any fun address => !isPublicAddress address)
    "production package-source origins must not use a private, link-local, or loopback address"
  ensure (origin.host != "localhost".toList)
    "production package-source origins must not use localhost"
  return origin

def isLoopbackOriginUrl (url : List Char) : Bool :=
  match parse url with
  | .ok origin => isLoopbackHost origin.host
  | .error _ => false

/-- Whether the candidate is at or below the path, by whole components. -/
def pathWithin (path candidate : List Char) : Bool :=
  let path := (stripTrailing ['/'] path).getD path
  path.isEmpty || candidate == path || (path ++ ['/']).isPrefixOf candidate

structure OriginPolicy where
  allowed : List Origin
  mode : TransportPolicyMode
  deriving DecidableEq, Repr

namespace OriginPolicy

def new : OriginPolicy := ⟨[], .productionRemote⟩

def testLoopback : OriginPolicy := ⟨[], .testLoopback⟩

def allow (policy : OriginPolicy) (origin : Origin) : Except String OriginPolicy := do
  ensure (!(policy.mode == .productionRemote &&
      (origin.scheme != .https || origin.host == "localhost".toList ||
        (parseIpAddress origin.host).any fun address => !isPublicAddress address)))
    "production policy cannot admit a loopback or private origin"
  ensure (!(policy.mode == .testLoopback && !isLoopbackHost origin.host))
    "test-loopback policy can admit only loopback origins"
  return { policy with allowed := policy.allowed ++ [origin] }

def parseInMode (mode : TransportPolicyMode) (url : List Char) : Except String Origin :=
  match mode with
  | .productionRemote => parseProduction url
  | .testLoopback => parse url

def allowUrl (policy : OriginPolicy) (url : List Char) : Except String OriginPolicy := do
  let origin ← parseInMode policy.mode url
  policy.allow origin

def parseRequestTarget (policy : OriginPolicy) (kind : RequestKind) (url : List Char) :
    Except String Origin := do
  ensure (!url.contains '#') "request URL must not contain a fragment"
  match splitOnce '?' url with
  | none => parseInMode policy.mode url
  | some (base, query) =>
      match kind with
      | .cargoGit =>
          ensure (query == "service=git-upload-pack".toList)
            "a Cargo Git request may carry only `?service=git-upload-pack`"
          ensure (stripTrailing "/info/refs".toList base).isSome
            "the `service=git-upload-pack` query is permitted only on `/info/refs`"
          parseInMode policy.mode base
      | .cargoRegistryIndex | .cargoCrateDownload =>
          .error "registry index and crate-download requests must carry no query string"

def authorizesRequest (policy : OriginPolicy) (kind : RequestKind) (url : List Char) : Bool :=
  match policy.parseRequestTarget kind url with
  | .error _ => false
  | .ok request =>
      policy.allowed.any fun allowed =>
        allowed.sameAuthority request && pathWithin allowed.path request.path

def permits (policy : OriginPolicy) (url : List Char) : Bool :=
  policy.authorizesRequest .cargoRegistryIndex url

def authorizesAuthority (policy : OriginPolicy) (url : List Char) : Bool :=
  match parse url with
  | .error _ => false
  | .ok request =>
      match parseIpAddress request.host with
      | none => policy.allowed.any fun allowed => allowed.sameAuthority request
      | some address =>
          policy.allowed.any fun allowed =>
            allowed.sameAuthority request &&
              match policy.mode with
              | .productionRemote => isPublicAddress address
              | .testLoopback => isLoopbackAddress address

end OriginPolicy

def serialize (origin : Origin) : List Char :=
  let host :=
    if origin.host.contains ':' && origin.host.head? != some '[' then
      '[' :: (origin.host ++ [']'])
    else origin.host
  if origin.port = origin.scheme.defaultPort then
    origin.scheme.asStr ++ "://".toList ++ host ++ origin.path
  else
    origin.scheme.asStr ++ "://".toList ++ host ++ ':' :: (toString origin.port).toList ++
      origin.path

def isCanonicalOriginUrl (url : List Char) : Bool :=
  match parse url with
  | .ok origin => serialize origin == url
  | .error _ => false

def originsOverlap (left right : Origin) : Bool :=
  if !left.sameAuthority right then false
  else pathWithin left.path right.path || pathWithin right.path left.path

end Kvist.Galla
