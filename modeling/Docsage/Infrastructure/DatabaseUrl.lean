import Docsage.Library.ConnectionString
import Docsage.Library.PercentEncoding
import Docsage.Store.Tables
import Docsage.Text.Whitespace

/-! # The database URL

`DatabaseConnectionInfo.Parse` takes the parts of the URL apart and decodes the user name
and the password. `ToNpgsqlConnectionString` writes the parts as they are, with the size of
the pool behind them.
-/

namespace Docsage.DotNet
open Text PercentEncoding

structure Uri where
  host : String
  /-- Negative where there is none. -/
  port : ℤ
  userInfo : String
  absolutePath : String

/-- What `System.Uri` does beyond taking a URI of the generic form apart: the forms in which it
keeps hosts and paths, the ports of the schemes it knows, and URIs of other forms. -/
structure UriSystem where
  host : List Char → Option (List Char)
  path : List Char → List Char
  defaultPort : List Char → ℤ
  otherwise : List Char → Option Uri
  /-- A path of one unreserved segment is kept, unless the segment is one or two dots. -/
  path_segment : ∀ segment : List Char, (∀ c ∈ segment, isUnreserved c = true) →
    segment ≠ ['.'] → segment ≠ ['.', '.'] → path ('/' :: segment) = '/' :: segment

def isSchemeChar (c : Char) : Bool := c.isAlphanum || c == '+' || c == '-' || c == '.'

def isScheme (scheme : List Char) : Bool := scheme.head?.any Char.isAlpha && scheme.all isSchemeChar

def endsAuthority (c : Char) : Bool := c == '/' || c == '\\' || c == '?' || c == '#'

/-- The port behind a host: `:` and a number below 2^16, or nothing. -/
def UriSystem.port? (system : UriSystem) (scheme : List Char) : List Char → Option ℤ
  | [] | [':'] => some (system.defaultPort scheme)
  | ':' :: digits =>
    if digits.all Char.isDigit && Nat.ofDigitChars 10 digits 0 < 65536 then
      some (Nat.ofDigitChars 10 digits 0)
    else none
  | _ => none

/-- Up to the closing bracket of an IPv6 address, or else to the colon before the port. -/
def hostPart (hostPort : List Char) : List Char :=
  if hostPort.head? = some '[' then hostPort.takeWhile (· ≠ ']') ++ [']']
  else hostPort.takeWhile (· ≠ ':')

def UriSystem.hierarchical? (system : UriSystem) (scheme rest : List Char) : Option Uri := do
  let authority := rest.takeWhile fun c => !endsAuthority c
  let path := (rest.drop authority.length).takeWhile fun c => c ≠ '?' ∧ c ≠ '#'
  let userInfo := if '@' ∈ authority then authority.takeWhile (· ≠ '@') else []
  let hostPort := if '@' ∈ authority then authority.drop (userInfo.length + 1) else authority
  let port ← system.port? scheme (hostPort.drop (hostPart hostPort).length)
  let host ← system.host (hostPart hostPort)
  return ⟨String.ofList host, port, String.ofList userInfo, String.ofList (system.path path)⟩

/-- `Uri.TryCreate` with `UriKind.Absolute`. -/
def UriSystem.tryCreate (system : UriSystem) (text : List Char) : Option Uri :=
  let scheme := text.takeWhile (· ≠ ':')
  if isScheme scheme && [':', '/', '/'].isPrefixOf (text.drop scheme.length) then
    system.hierarchical? scheme (text.drop (scheme.length + 3))
  else system.otherwise text

def escapeDataString (s : String) : String := String.ofList (encode s.toList)

def unescapeDataString (s : String) : String := String.ofList (decode s.toList)

structure DatabaseConnectionInfo where
  host : String
  port : ℤ
  database : String
  username : String
  password : String
deriving DecidableEq

def DatabaseConnectionInfo.toNpgsqlConnectionString (info : DatabaseConnectionInfo) : String :=
  "Host=" ++ info.host ++ ";Port=" ++ toString info.port ++ ";Database=" ++ info.database ++
    ";Username=" ++ info.username ++ ";Password=" ++ info.password ++ ";Maximum Pool Size=20"

/-- `text.StartsWith(start, StringComparison.OrdinalIgnoreCase)`. -/
def startsWithIgnoreCase (text start : List Char) : Bool :=
  (start.map Char.toLower).isPrefixOf (text.map Char.toLower)

/-- The scheme is `postgresql` for both of its other names. -/
def normalizeScheme (text : List Char) : List Char :=
  let sqlAlchemy := "postgresql+psycopg://".toList
  let short := "postgres://".toList
  if startsWithIgnoreCase text sqlAlchemy then
    "postgresql://".toList ++ text.drop sqlAlchemy.length
  else if startsWithIgnoreCase text short then "postgresql://".toList ++ text.drop short.length
  else text

def DatabaseConnectionInfo.parse (system : UriSystem) (url : String) :
    Except Exc DatabaseConnectionInfo :=
  match system.tryCreate (normalizeScheme (trim url).toList) with
  | none => .error { message := "Cannot parse DOCSAGE_DATABASE_URL: " ++ url }
  | some uri =>
    if uri.host = "" then .error { message := "Cannot parse DOCSAGE_DATABASE_URL: " ++ url }
    else
      let userInfo := uri.userInfo.toList
      -- `Split(':', 2)`: a password is there if a colon is
      let username := userInfo.takeWhile (· ≠ ':')
      .ok {
        host := uri.host
        port := if uri.port ≤ 0 then 5432 else uri.port
        database := String.ofList (uri.absolutePath.toList.dropWhile (· = '/'))
        username := unescapeDataString (String.ofList username)
        password := unescapeDataString (String.ofList (userInfo.drop (username.length + 1))) }

inductive UrlScheme where
  | sqlAlchemy
  | postgres
  | postgresql
deriving DecidableEq

def UrlScheme.text : UrlScheme → String
  | .sqlAlchemy => "postgresql+psycopg://"
  | .postgres => "postgres://"
  | .postgresql => "postgresql://"

def databaseUrl (scheme : UrlScheme) (info : DatabaseConnectionInfo) : String :=
  scheme.text ++ escapeDataString info.username ++ ":" ++ escapeDataString info.password ++ "@" ++
    escapeDataString info.host ++ ":" ++ toString info.port ++ "/" ++
    escapeDataString info.database

def isControl (c : Char) : Bool := c.toNat < 0x20 || (0x7F ≤ c.toNat && c.toNat ≤ 0x9F)

/-- The classes of the reader of connection strings. No key here has a letter beyond ASCII. -/
def connectionClasses : ConnectionString.Classes where
  isBlank := isWhiteSpace
  isControl := isControl
  lower := Char.toLower
  null_control := by decide
  null_not_blank := by decide
  semicolon_not_blank := by decide

/-- The connection string of a URL, read back. -/
def connectionSettings (system : UriSystem) (url : String) :
    Except Exc (Option (List ConnectionString.Pair)) :=
  (DatabaseConnectionInfo.parse system url).map fun info =>
    ConnectionString.read connectionClasses info.toNpgsqlConnectionString.toList

def setting (key value : String) : ConnectionString.Pair :=
  (key.toList, ConnectionString.valueOf value.toList)

def DatabaseConnectionInfo.settings (info : DatabaseConnectionInfo) :
    List ConnectionString.Pair :=
  [setting "host" info.host, setting "port" (toString info.port),
    setting "database" info.database, setting "username" info.username,
    setting "password" info.password]

/-- A `System.Uri` that keeps paths and ASCII hosts but for their case. -/
def asciiUris : UriSystem where
  host cs := some (cs.map Char.toLower)
  path := id
  defaultPort _ := -1
  otherwise _ := none
  path_segment _ _ _ _ := rfl

end Docsage.DotNet
