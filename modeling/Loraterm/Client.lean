import Loraterm.Library.Utf8Text
import Loraterm.Library.Fallible

/-!
# The client of the companion

The bearer token, the requests that carry it and the errors a reply is turned into.  The HTTP
library is outside: what it makes of a header value, and whether it can be set up, are arguments.
-/

namespace Loraterm

open Utf8Text Fallible

/-- The number of a companion identity. -/
abbrev Uuid := BitVec 128

/-- What can go wrong with the client and its requests. -/
inductive ApiError
  | transport (source : Text)
  | unauthorized
  | forbidden (body : Text)
  | notFound
  | conflict
  | serviceUnavailable
  | unexpected (status : Nat) (body : Text)
  | invalidToken (reason : Text)
  | json (source : Text)
  deriving DecidableEq, Repr

/-- A visible ASCII character. -/
def isAsciiGraphic (char : Char) : Bool := 0x21 ≤ char.toNat && char.toNat ≤ 0x7E

/-- A bearer token. -/
structure Token where
  value : Text
  long : 16 ≤ byteLen value
  short : byteLen value ≤ 128
  graphic : value.all isAsciiGraphic = true
  deriving DecidableEq

namespace Token

/-- The token in a text, or what is wrong with it. -/
def new (raw : Text) : Except ApiError Token :=
  let trimmed := trim raw
  if trimmed.isEmpty then .error (.invalidToken "empty".toList)
  else if size : byteLen trimmed < 16 ∨ byteLen trimmed > 128 then
    .error (.invalidToken ("unexpected length ".toList ++ (toString (byteLen trimmed)).toList))
  else if graphic : trimmed.all isAsciiGraphic = true then
    .ok { value := trimmed, long := by omega, short := by omega, graphic }
  else .error (.invalidToken "non-graphic ASCII".toList)

end Token

/-- What the bridge tells of an identity, as far as it is looked at. -/
structure Identity where
  id : Uuid
  name : Text
  deriving DecidableEq, Repr

/-- The form of a direct message. -/
structure SendDmForm where
  identityId : Text
  peerPubkeyHex : Text
  text : Text
  deriving DecidableEq, Repr

/-- A request: its address, its `Authorization` header and its form. -/
inductive Request
  | get (url authorization : Text)
  | post (url authorization : Text) (form : SendDmForm)
  deriving DecidableEq, Repr

/-- A reply, with its body as bytes and as text. -/
structure Reply where
  status : Nat
  bytes : Except Text (List UInt8)
  text : Except Text Text

/-- Whether a reply is a success. -/
def Reply.isSuccess (reply : Reply) : Bool := 200 ≤ reply.status && reply.status < 300

/-- The client: where the bridge is, and the header that goes with every request. -/
structure CompanionClient where
  baseUrl : Text
  authorization : Text
  /-- Paths start with a slash. -/
  unslashed : ∀ rest, baseUrl ≠ rest ++ ['/']

namespace CompanionClient

theorem trimEndMatches_ne_concat (text rest : Text) :
    trimEndMatches (· == '/') text ≠ rest ++ ['/'] := by
  intro same
  have kept : rest ++ ['/'] = trimEndMatches (· == '/') (rest ++ ['/']) := by
    rw [← same, trimEndMatches, trimEndMatches, List.rdropWhile_idempotent]
  rw [trimEndMatches, List.rdropWhile_concat_pos _ _ _ (by decide)] at kept
  have shorter := (List.rdropWhile_prefix (p := (· == '/')) (l := rest)).length_le
  have longer := congrArg List.length kept
  rw [List.length_append, List.length_singleton] at longer
  omega

/-- The header of a token. -/
def bearer (token : Token) : Text := "Bearer ".toList ++ token.value

/-- Set a client up. -/
def new (checkHeader : Text → Except Text Unit) (buildHttp : Except Text Unit) (baseUrl : Text)
    (token : Token) : Except ApiError CompanionClient := do
  (checkHeader (bearer token)).mapError .invalidToken
  buildHttp.mapError .transport
  .ok { baseUrl := trimEndMatches (· == '/') baseUrl
        authorization := bearer token
        unslashed := trimEndMatches_ne_concat baseUrl }

/-- The address of a path. -/
def url (client : CompanionClient) (path : Text) : Text := client.baseUrl ++ path

/-- The request of `list_identities`. -/
def identitiesRequest (client : CompanionClient) : Request :=
  .get (client.url "/api/v1/companion/identities".toList) client.authorization

/-- The request for the event stream of an identity. -/
def streamRequest (client : CompanionClient) (identityId : Text) : Request :=
  .get (client.url ("/api/v1/companion/identities/".toList ++ identityId ++ "/stream".toList))
    client.authorization

/-- The request of `send_dm`. -/
def sendDmRequest (client : CompanionClient) (form : SendDmForm) : Request :=
  .post (client.url "/api/v1/companion/messages/dm".toList) client.authorization form

end CompanionClient

end Loraterm
