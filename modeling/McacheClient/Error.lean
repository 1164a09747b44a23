import Mathlib.Order.Defs.LinearOrder
import Mathlib.Tactic.Common

/-!
# Bytes, error codes and exceptions

* `Bytes`: the contents of a `std::string`; `ascii` gives the bytes of a literal.
* `ErrorCode`, `IoErrorCode`, `ResponseCode`: `mc::err`, `mc::io::err` and `mc::proto::resp`.
* `Exn`: what a call of the library can throw.
-/

/-- The order of `uint32_t`. -/
instance instLinearOrderUInt32 : LinearOrder UInt32 where
  le_refl := UInt32.le_refl
  le_trans _ _ _ := UInt32.le_trans
  le_antisymm _ _ := UInt32.le_antisymm
  le_total := UInt32.le_total
  lt_iff_le_not_ge a b := by grind
  toDecidableLE := inferInstance
  toDecidableEq := inferInstance
  toDecidableLT := inferInstance

namespace McacheClient

/-- The contents of a `std::string`. -/
abbrev Bytes : Type := List UInt8

/-- The bytes of a string literal. -/
def ascii (s : String) : Bytes := s.toUTF8.data.toList

/-- `mc::err::error_code_t`. -/
inductive ErrorCode
  | badRequest | notFound | methodNotAllowed | badArgument | unableCas | internalError
  deriving DecidableEq, Repr

def ErrorCode.value : ErrorCode → ℕ
  | badRequest => 400
  | notFound => 404
  | methodNotAllowed => 405
  | badArgument => 406
  | unableCas => 407
  | internalError => 500

/-- `mc::io::err::error_code_t`. -/
inductive IoErrorCode
  | syntaxError | notFound | timeout | argument | internalError | ioError
  deriving DecidableEq, Repr

def IoErrorCode.value : IoErrorCode → ℕ
  | syntaxError => 400
  | notFound => 404
  | timeout => 408
  | argument => 420
  | internalError => 500
  | ioError => 501

/-- `mc::proto::resp::response_code_t`. -/
inductive ResponseCode
  | ok | stored | deleted | touched
  | notStored | exists | notFound
  | error | clientError | serverError | empty | ioError | syntaxErr | invalid
  | unrecognized
  deriving DecidableEq, Repr

def ResponseCode.value : ResponseCode → ℕ
  | ok => 200
  | stored => 201
  | deleted => 202
  | touched => 203
  | notStored => 400
  | .exists => 401
  | notFound => 404
  | error => 500
  | clientError => 501
  | serverError => 502
  | empty => 503
  | ioError => 504
  | syntaxErr => 505
  | invalid => 506
  | unrecognized => 1000

/-- What a call throws: `mc::error_t`, the classes derived from it, `std::out_of_range`,
`std::length_error` or `boost::system::system_error`.
`undefined` is no exception but the end of a run whose behaviour the language leaves open (a copy
past the end of its buffer). -/
inductive Exn
  | mc (code : ErrorCode) (msg : String)
  | proto (code : ResponseCode) (msg : Bytes)
  | io (code : IoErrorCode) (msg : String)
  | outOfServers
  | outOfRange
  | lengthError
  | system (what : String)
  | undefined
  deriving DecidableEq, Repr

/-- `error_t::code()` of the exceptions derived from `mc::error_t`. -/
def Exn.code : Exn → Option ℕ
  | mc code _ => some code.value
  | proto code _ => some code.value
  | io code _ => some code.value
  | outOfServers => some ErrorCode.internalError.value
  | outOfRange | lengthError | system _ | undefined => none

end McacheClient
