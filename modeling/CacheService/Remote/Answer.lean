import CacheService.Bytes

/-!
# CacheService.Remote.Answer

What a client asks of a memcached server over one connection (`Request`), what the
server may answer (`Answer`), and what the client makes of an answer (`Reply`). A
request has one regular answer; every other answer is a `Fault`, and a fault of the
connection is told apart from a fault of the answer.

`Request.read` is the reading of an answer. It is the only place that knows which answer
belongs to which request: a read takes what it is given as its value, and the others
take one word each.
-/

namespace CacheService.Remote

/-! ## Requests -/

/-- One command of the text protocol. -/
inductive Request
  | get (key : String)
  | set (key : String) (value : ByteArray) (expiration : Int)
  | delete (key : String)
  | flushAll
  deriving DecidableEq

/-- The command line of a request, without its end and without data. -/
def Request.line : Request → String
  | .get key => "get " ++ key
  | .set key value expiration =>
    "set " ++ key ++ " 0 " ++ toString expiration ++ " " ++ toString value.size
  | .delete key => "delete " ++ key
  | .flushAll => "flush_all"

/-! ## Answers -/

/-- The one-word answers of the protocol. -/
inductive Status
  | stored
  | notStored
  | exists
  | notFound
  | deleted
  | touched
  deriving DecidableEq, Repr

def Status.text : Status → String
  | .stored => "stored"
  | .notStored => "not stored"
  | .exists => "exists"
  | .notFound => "not found"
  | .deleted => "deleted"
  | .touched => "touched"

/-- What comes back for a request. -/
inductive Answer
  /-- `VALUE` blocks, closed by `END`; none of them is a plain `END`. -/
  | values (data : List ByteArray)
  | status (status : Status)
  /-- The `OK` of a flush. -/
  | ok
  /-- A bare number. -/
  | number (line : String)
  /-- `ERROR`. -/
  | error
  | clientError (text : String)
  | serverError (text : String)
  /-- A line that is none of the others. -/
  | other (line : String)
  /-- The connection ends instead. -/
  | lost
  /-- Nothing comes back in time. -/
  | silence
  deriving DecidableEq

/-- Why an exchange did not end with its regular answer. -/
inductive Fault
  /-- The connection is gone. -/
  | lost
  | status (status : Status)
  | unknownCommand
  | client (text : String)
  | server (text : String)
  /-- An answer of a shape the command has no use for. -/
  | shape
  /-- An answer that is none of the protocol. -/
  | unreadable
  /-- An answer to a flush that is not its regular one. -/
  | flush (line : String)
  deriving DecidableEq

def Fault.message : Fault → String
  | .lost => "io"
  | .status s => "protocol: " ++ s.text
  | .unknownCommand => "protocol: error: command does not exist"
  | .client text => "protocol: error: client: " ++ text
  | .server text => "protocol: error: server: " ++ text
  | .shape => "protocol: error: protocol"
  | .unreadable => "protocol: error: protocol: Tag"
  | .flush line =>
    "protocol: error: protocol: Invalid response for \x60flush_all\x60 command: \x60" ++
      line ++ "\x60"

/-- How an exchange ends for the client. -/
inductive Reply
  | data (value : ByteArray)
  | absent
  | done
  | fault (fault : Fault)
  | timeout
  deriving DecidableEq

/-! ## Reading an answer -/

/-- The line of an answer as it stands on the wire, for the message of a flush. -/
def Answer.line : Answer → String
  | .values data => if data.isEmpty then "END\r\n" else "VALUE\r\n"
  | .status s => s.text.toUpper.replace " " "_" ++ "\r\n"
  | .ok => "OK\r\n"
  | .number line => line ++ "\r\n"
  | .error => "ERROR\r\n"
  | .clientError text => "CLIENT_ERROR " ++ text ++ "\r\n"
  | .serverError text => "SERVER_ERROR " ++ text ++ "\r\n"
  | .other line => line ++ "\r\n"
  | .lost | .silence => ""

/-- The fault of an answer that is not the regular one of any command but a
flush. -/
def Answer.fault : Answer → Fault
  | .values _ | .number _ => .shape
  | .status s => .status s
  | .error => .unknownCommand
  | .clientError text => .client text
  | .serverError text => .server text
  | .ok | .other _ => .unreadable
  | .lost | .silence => .lost

/-- What the client makes of the answer to a request. A read takes a single
value, whatever its key, and reads `END` or `NOT_FOUND` as an absent one. -/
def Request.read : Request → Answer → Reply
  | _, .silence => .timeout
  | .get _, .values [] => .absent
  | .get _, .values [value] => .data value
  | .get _, .status .notFound => .absent
  | .set .., .status .stored => .done
  | .delete _, .status .deleted => .done
  | .flushAll, .ok => .done
  | .flushAll, answer => .fault (.flush answer.line)
  | _, answer => .fault answer.fault

end CacheService.Remote
