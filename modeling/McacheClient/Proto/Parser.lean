import McacheClient.Lib.Scan
import McacheClient.Proto.Response

/-!
# Sending a command

`command_parser_t` over a connection with a stream of bytes from the server.

* `Command`: what the parser and the proxies use of a command object;
* `Connection`: the bytes sent and the bytes not read yet;
* `commandParserSend`: write the command, read and parse the response header, read the body.
-/

namespace McacheClient

/-- What `header_delimiter` returns: the end of the header or its size. -/
inductive Delimiter
  | text (delimiter : Bytes)
  | count (size : ℕ)

/-- A command object of either protocol. -/
structure Command where
  key : Bytes := []
  headerDelimiter : Delimiter
  serialize : Except Exn Bytes
  deserializeHeader : Bytes → Except Exn PendingResponse

/-- A connection: what was written to it, and what the server sends and was not read yet. -/
structure Connection where
  addr : String := ""
  written : Bytes := []
  input : Bytes := []

namespace Connection

def write (data : Bytes) (c : Connection) : Connection := { c with written := c.written ++ data }

/-- A read of bytes that never come ends with the deadline. -/
def timeout (c : Connection) : Exn :=
  .io .timeout ("can't read due to timeout: dst=" ++ c.addr)

/-- `read` up to a delimiter or of a count of bytes. -/
def read (d : Delimiter) (c : Connection) : Except Exn Bytes × Connection :=
  match d with
  | .text delimiter =>
    match List.cutAfter delimiter c.input with
    | none => (.error c.timeout, c)
    | some (data, input) => (.ok data, { c with input })
  | .count size =>
    if size ≤ c.input.length then
      (.ok (c.input.take size), { c with input := c.input.drop size })
    else (.error c.timeout, c)

end Connection

/-- `command_parser_t::deserialize_body`. -/
def deserializeBody (pending : PendingResponse) (c : Connection) :
    Except Exn Response × Connection :=
  if pending.bytes = 0 then (.ok pending.response, c)
  else
    match c.read (.count pending.bytes.toNat) with
    | (.error e, c) => (.error e, c)
    | (.ok body, c) => (pending.setBody pending.response body, c)

/-- `command_parser_t::deserialize_response`. -/
def deserializeResponse (command : Command) (c : Connection) : Except Exn Response × Connection :=
  match c.read command.headerDelimiter with
  | (.error e, c) => (.error e, c)
  | (.ok header, c) =>
    match command.deserializeHeader header with
    | .error e => (.error e, c)
    | .ok pending => deserializeBody pending c

/-- `command_parser_t::send`. -/
def commandParserSend (command : Command) (c : Connection) : Except Exn Response × Connection :=
  match command.serialize with
  | .error e => (.error e, c)
  | .ok data => deserializeResponse command (c.write data)

/-! ## Reading what is there -/

theorem read_count_append {c : Connection} {data rest : Bytes} (h : c.input = data ++ rest) :
    c.read (.count data.length) = (.ok data, { c with input := rest }) := by
  simp only [Connection.read, h]
  rw [if_pos (by rw [List.length_append]; exact Nat.le_add_right _ _), List.take_left,
    List.drop_left]

theorem read_text_append {c : Connection} {d : UInt8} {l delimiter rest : Bytes} (hd : d ∉ l)
    (h : c.input = l ++ d :: delimiter ++ rest) :
    c.read (.text (d :: delimiter)) = (.ok (l ++ d :: delimiter), { c with input := rest }) := by
  simp only [Connection.read, h]
  rw [List.cutAfter_append hd]

theorem deserializeBody_append {pending : PendingResponse} {c : Connection} {body rest : Bytes}
    (h : c.input = body ++ rest) (hsize : pending.bytes.toNat = body.length)
    (hne : body ≠ []) :
    deserializeBody pending c =
      (pending.setBody pending.response body, { c with input := rest }) := by
  have hbytes : pending.bytes ≠ 0 := fun h0 =>
    hne (List.length_eq_zero_iff.mp (hsize.symm.trans (by rw [h0]; rfl)))
  rw [deserializeBody, if_neg hbytes, hsize, read_count_append h]

theorem commandParserSend_eq {command : Command} {c c' : Connection} {data header : Bytes}
    {pending : PendingResponse} (hdata : command.serialize = .ok data)
    (hread : (c.write data).read command.headerDelimiter = (.ok header, c'))
    (hheader : command.deserializeHeader header = .ok pending) :
    commandParserSend command c = deserializeBody pending c' := by
  simp only [commandParserSend, hdata, deserializeResponse, hread, hheader]

end McacheClient
