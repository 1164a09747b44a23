import McacheClient.Error

/-!
# Responses

What a parsed response of either protocol gives its caller, and a response whose body is still on
the wire.
-/

namespace McacheClient

/-- The public part of `single_response_t`, `single_body_response_t` and
`single_retrival_response_t`; only the last one has `flags` and `cas`. -/
structure Response where
  code : ResponseCode
  data : Bytes := []
  flags : UInt32 := 0
  cas : UInt64 := 0
  deriving DecidableEq, Repr

/-- `single_response_t::operator bool`: no error occurred. -/
def Response.toBool (response : Response) : Bool := response.code.value / 100 = 2

/-- `single_response_t::exception`. -/
def Response.exception (response : Response) : Exn := .proto response.code response.data

def setBodyDefault (response : Response) (data : Bytes) : Except Exn Response :=
  .ok { response with data }

/-- A response with `expected_body_size()` bytes to read, and what `set_body` makes of them. -/
structure PendingResponse where
  response : Response
  bytes : UInt64 := 0
  setBody : Response → Bytes → Except Exn Response := setBodyDefault

/-- A response without a body. -/
def pending (code : ResponseCode) (aux : String := "") : PendingResponse where
  response := { code, data := ascii aux }

end McacheClient
