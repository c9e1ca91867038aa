import Ezer.Lib.Split
import Ezer.Permission.Commands
import Mathlib.Data.List.Infix
import Mathlib.Algebra.GroupWithZero.Nat

/-!
# URL rules that deny

A managed policy denies servers by URL. A rule is text that may hold globs, so
it is cut into host and path by hand and brought into canonical form piece by
piece, while the URL of a server goes through the parser of the client. A
denied host is matched on every scheme and port.
-/

namespace Ezer.Permission

open Ezer.Lib

/-- The host of a parsed URL. -/
inductive UrlHost where
  | domain (name : Text)
  | ipv4 (address : BitVec 32)
  | ipv6 (address : BitVec 128)
  deriving DecidableEq

/-- The parts of a parsed URL that a deny looks at. -/
structure ParsedUrl where
  host : Option UrlHost
  path : Text
  deriving DecidableEq

/-- The grammars of URLs, hosts and addresses, which are outside this development. -/
structure UrlGrammar where
  /-- `url::Url::parse`. -/
  parseUrl : Text → Option ParsedUrl
  /-- `url::Host::parse`. -/
  parseHost : Text → Option UrlHost
  /-- `Ipv6Addr::from_str`. -/
  parseIpv6 : Text → Option (BitVec 128)
  showIpv4 : BitVec 32 → Text
  showIpv6 : BitVec 128 → Text

/-- An address a socket connects to. -/
inductive IpAddr where
  | v4 (address : BitVec 32)
  | v6 (address : BitVec 128)
  deriving DecidableEq

/-- An IPv4-mapped IPv6 address becomes the IPv4 address. -/
def IpAddr.toCanonical : IpAddr → IpAddr
  | .v4 address => .v4 address
  | .v6 address => if address >>> 32 = 0xffff#128 then .v4 (address.setWidth 32) else .v6 address

/-- A text in ASCII lower case. -/
def toAsciiLowercase (t : Text) : Text := t.map Char.toLower

/-- Whether a text is all ASCII. -/
def isAsciiText (t : Text) : Bool := t.all fun c => c.toNat < 128

/-- Two texts equal but for ASCII case. -/
def eqIgnoreAsciiCase (a b : Text) : Bool := toAsciiLowercase a == toAsciiLowercase b

/-- A text without the given characters at its end. -/
def trimEndMatches (c : Char) (t : Text) : Text := (t.reverse.dropWhile (· == c)).reverse

/-- The parts before and after the last place of a character. -/
def rsplitOnce (c : Char) (t : Text) : Option (Text × Text) :=
  if c ∈ t then
    some ((t.reverse.dropWhile (· != c)).tail.reverse, (t.reverse.takeWhile (· != c)).reverse)
  else none

/-- The characters that a host label is left alone for. -/
def hasGlobChar (t : Text) : Bool := t.any fun c => c == '*' || c == '?' || c == '['

/-- A rule's host as the parser of the client writes hosts, label by label. -/
def canonicalizePatternHost (grammar : UrlGrammar) (host : Text) : Text :=
  let host := trimEndMatches '.' host
  if isAsciiText host && !host.contains '%' then toAsciiLowercase host
  else
    ['.'].intercalate ((host.splitOn '.').map fun label =>
      if hasGlobChar label || (isAsciiText label && !label.contains '%') then toAsciiLowercase label
      else
        match grammar.parseHost label with
        | some (.domain canonical) => canonical
        | _ => toAsciiLowercase label)

/-- The value of a hexadecimal digit. -/
def hexVal (c : Char) : Option ℕ :=
  if '0' ≤ c ∧ c ≤ '9' then some (c.toNat - 48)
  else if 'a' ≤ c ∧ c ≤ 'f' then some (c.toNat - 87)
  else if 'A' ≤ c ∧ c ≤ 'F' then some (c.toNat - 55)
  else none

/-- The characters whose escape is never needed. -/
def isUnreserved (c : Char) : Bool :=
  isAsciiAlphanumeric c || c == '-' || c == '.' || c == '_' || c == '~'

/-- Decode the escapes of unreserved characters, and write the others in upper case. -/
def decodeUnreservedEscapes : Text → Text
  | [] => []
  | c :: rest =>
    match c, rest with
    | '%', a :: b :: rest =>
      match hexVal a, hexVal b with
      | some hi, some lo =>
        if isUnreserved (Char.ofNat (hi * 16 + lo)) then
          Char.ofNat (hi * 16 + lo) :: decodeUnreservedEscapes rest
        else '%' :: a.toUpper :: b.toUpper :: decodeUnreservedEscapes rest
      | _, _ => '%' :: decodeUnreservedEscapes (a :: b :: rest)
    | c, rest => c :: decodeUnreservedEscapes rest

/-- One segment of a rule's path: `.` stays, `..` goes up, but not above the root. -/
def resolveSegment (out : List Text) (segment : Text) : List Text :=
  if segment = ['.'] then out
  else if segment = ['.', '.'] then if 1 < out.length then out.dropLast else out
  else out ++ [segment]

/-- Resolve `.` and `..` in a rule's path. -/
def resolvePatternDotSegments (path : Text) : Text :=
  if (splitOnce ['/', '.'] path).isNone then path
  else
    let segments := path.splitOn '/'
    let endsDir := segments.getLast? = some ['.'] ∨ segments.getLast? = some ['.', '.']
    let joined := ['/'].intercalate (segments.foldl resolveSegment [])
    let joined := if joined.isEmpty then ['/'] else joined
    if endsDir ∧ joined.getLast? ≠ some '/' then joined ++ ['/'] else joined

/-- The characters that the parser of the client escapes in a path. -/
def needsEncoding (c : Char) : Bool :=
  128 ≤ c.toNat || c.toNat < 32 || c.toNat == 127 ||
    [' ', '"', '#', '<', '>', '`', '\x7b', '\x7d'].contains c

/-- The escape of one byte. -/
def percentEncode (b : UInt8) : Text :=
  ['%', (Nat.digitChar (b.toNat / 16)).toUpper, (Nat.digitChar (b.toNat % 16)).toUpper]

/-- A rule's path as the parser of the client writes paths; `?` stays as it is. -/
def canonicalizePatternPath (path : Text) : Text :=
  (resolvePatternDotSegments (decodeUnreservedEscapes path)).flatMap fun c =>
    if needsEncoding c then (String.utf8EncodeChar c).flatMap percentEncode else [c]

/-- Repeated slashes as one, after a text that ends in a slash or not. -/
def collapseFrom : Bool → Text → Text
  | _, [] => []
  | afterSlash, c :: rest =>
    if c = '/' ∧ afterSlash = true then collapseFrom true rest
    else c :: collapseFrom (c == '/') rest

/-- Repeated slashes as one. -/
def collapseEmptySegments (path : Text) : Text := collapseFrom false path

/-- A host as an address, in any notation. -/
def parseIpHost (grammar : UrlGrammar) (host : Text) : Option IpAddr :=
  match grammar.parseIpv6 host with
  | some address => some (IpAddr.v6 address).toCanonical
  | none =>
    match grammar.parseHost host with
    | some (.ipv4 address) => some (IpAddr.v4 address).toCanonical
    | some (.ipv6 address) => some (IpAddr.v6 address).toCanonical
    | _ => none

/-- Whether a text is a port, in digits. -/
def isPortText (port : Text) : Bool :=
  !port.isEmpty && port.all Char.isDigit && Nat.ofDigitChars 10 port 0 < 2 ^ 16

/-- The address between the brackets an authority opens with. -/
def bracketIpv6 (grammar : UrlGrammar) (authority : Text) : Option Text :=
  match authority with
  | '[' :: rest =>
    let content := rest.takeWhile (· != ']')
    if (grammar.parseIpv6 content).isSome then some content else none
  | _ => none

/-- The host of an authority without its port. -/
def hostOfAuthority (grammar : UrlGrammar) (authority : Text) : Text :=
  match bracketIpv6 grammar authority with
  | some content => content
  | none =>
    let whole := if (grammar.parseIpv6 authority).isSome then authority
      else authority.takeWhile (· != ':')
    match rsplitOnce ':' authority with
    | some (beforePort, port) =>
      if isPortText port && (grammar.parseIpv6 beforePort).isSome then beforePort else whole
    | none => whole

/-- The host and the path of a rule, without scheme, user and port. -/
def splitHostPath (grammar : UrlGrammar) (s : Text) : Option Text × Text :=
  let afterScheme := match splitOnce [':', '/', '/'] s with
    | some (_, rest) => rest
    | none => s
  let authority := afterScheme.takeWhile (· != '/')
  let path := afterScheme.dropWhile (· != '/')
  let authority := match rsplitOnce '@' authority with
    | some (_, rest) => rest
    | none => authority
  let host := toAsciiLowercase (trimEndMatches '.' (hostOfAuthority grammar authority))
  (if host.isEmpty then none else some host, path)

/-- The canonical text of a parsed host. -/
def hostText (grammar : UrlGrammar) : UrlHost → Text
  | .domain name => toAsciiLowercase (trimEndMatches '.' name)
  | .ipv4 address => grammar.showIpv4 address
  | .ipv6 address => grammar.showIpv6 address

/-- What a deny rule asks of a host. -/
inductive DenyHost where
  | glob (matcher : Text → Bool)
  | literal (canonical : Text)

/-- What a deny rule asks of a path. -/
inductive DenyPath where
  | hostOnly
  | glob (matcher : Text → Bool)
  | broken

/-- A compiled deny rule. -/
structure CompiledDeny where
  ip : Option IpAddr
  host : DenyHost
  path : DenyPath

/-- A deny rule; one without a host denies nothing. -/
abbrev DenyUrlMatcher := Option CompiledDeny

section

variable (grammar : UrlGrammar) (glob : GlobCompiler)

/-- The host test of a rule. -/
def DenyHost.compile (canonical : Text) : DenyHost :=
  match glob canonical with
  | some matcher => .glob matcher
  | none => .literal canonical

/-- The path test of a rule. -/
def DenyPath.compile (canonical : Text) : DenyPath :=
  if canonical = [] ∨ canonical = ['/'] then .hostOnly
  else
    match glob canonical with
    | some matcher => .glob matcher
    | none => .broken

/-- Compile a deny rule. Globs ignore ASCII case, and `*` goes over `/`. -/
def DenyUrlMatcher.new (pattern : Text) : DenyUrlMatcher :=
  match splitHostPath grammar pattern with
  | (none, _) => none
  | (some host, path) =>
    some
      { ip := parseIpHost grammar host
        host := .compile glob (canonicalizePatternHost grammar host)
        path := .compile glob (collapseEmptySegments (canonicalizePatternPath path)) }

def DenyHost.accepts (host : DenyHost) (urlHost : Text) : Bool :=
  match host with
  | .glob matcher => matcher urlHost
  | .literal canonical => eqIgnoreAsciiCase canonical urlHost

def DenyPath.accepts (path : DenyPath) (urlPath : Text) : Bool :=
  match path with
  | .hostOnly => true
  | .glob matcher => matcher (collapseEmptySegments urlPath)
  | .broken => true

/-- Whether a compiled rule denies a parsed URL. -/
def CompiledDeny.denies (compiled : CompiledDeny) (host : UrlHost) (path : Text) : Bool :=
  let urlHost := hostText grammar host
  let hostMatches :=
    match compiled.ip, parseIpHost grammar urlHost with
    | some ruleIp, some urlIp => ruleIp == urlIp
    | _, _ => compiled.host.accepts urlHost
  hostMatches && compiled.path.accepts (decodeUnreservedEscapes path)

/-- Whether a rule denies a URL; a URL that the client cannot parse is denied. -/
def DenyUrlMatcher.denies (matcher : DenyUrlMatcher) (url : Text) : Bool :=
  match matcher with
  | none => false
  | some compiled =>
    match grammar.parseUrl url with
    | none => true
    | some parsed =>
      match parsed.host with
      | none => true
      | some host => compiled.denies grammar host parsed.path

end

end Ezer.Permission
