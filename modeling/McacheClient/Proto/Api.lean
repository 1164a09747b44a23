import McacheClient.Proto.Binary
import McacheClient.Proto.Text

/-!
# The two apis

`impl` of the client is `txt::api` or `bin::api`: the protocol that builds a command object from a
request.
-/

namespace McacheClient

inductive Api
  | text | binary
  deriving DecidableEq

/-- The command object of a request. -/
def Api.command : Api → Zlib → Request → Except Exn Command
  | text => Text.command
  | binary => Binary.command

/-- The bytes of a request: its command object is constructed and serialized. -/
def Api.serialize (api : Api) (zlib : Zlib) (request : Request) : Except Exn Bytes := do
  let command ← api.command zlib request
  command.serialize

/-- One request over a connection. -/
def Api.exchange (api : Api) (zlib : Zlib) (request : Request) (c : Connection) :
    Except Exn Response × Connection :=
  match api.command zlib request with
  | .error e => (.error e, c)
  | .ok command => commandParserSend command c

theorem Api.exchange_eq {api : Api} {zlib : Zlib} {request : Request} {command : Command}
    (h : api.command zlib request = .ok command) (c : Connection) :
    api.exchange zlib request c = commandParserSend command c := by
  rw [exchange, h]

end McacheClient
