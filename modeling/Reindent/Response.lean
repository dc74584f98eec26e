import Reindent.Formatter

/-! Reindentation of responses on their way to a client. -/
namespace Reindent

/-- Header fields with their values, looked up by their exact name. -/
abbrev Headers := List (Bytes × List Bytes)

def Headers.first (headers : Headers) (name : Bytes) : Bytes :=
  (headers.lookup name).bind List.head? |>.getD []

/-- The fields of a response that already has others: a name has its new values only. -/
def Headers.over (headers outer : Headers) : Headers :=
  headers ++ outer.filter fun field => (headers.lookup field.1).isNone

inductive Action where
  | status (code : Int64)
  | write (body : Bytes)
  deriving DecidableEq, Repr

structure Recording where
  status : Int64 := 200
  /-- The status is set, either by the handler or by its first write. -/
  committed : Bool := false
  body : Bytes := []
  deriving DecidableEq, Repr

namespace Recording

def setStatus (r : Recording) (code : Int64) : Recording :=
  if r.committed then r else { r with status := code, committed := true }

def apply (r : Recording) : Action → Recording
  | .status code => r.setStatus code
  | .write body => let r := r.setStatus 200; { r with body := r.body ++ body }

def ofActions (actions : List Action) : Recording := actions.foldl apply {}

end Recording

/-- What is handed on to the writer of the response, and the messages that were logged meanwhile. -/
structure Sent where
  status : Int64
  headers : Headers
  body : Bytes
  log : List Bytes
  deriving DecidableEq, Repr

namespace Response

def contentType : Bytes := Bytes.ascii "text/html; charset=utf-8"

/-- The body to send. A body that cannot be reindented is sent as it is, with a message. -/
def reindent (f : Formatter) (path : Bytes) (headers : Headers) (body : Bytes) :
    Except Overrun (Bytes × List Bytes) :=
  if headers.first (Bytes.ascii "Content-Type") != contentType then .ok (body, [])
  else if !(headers.first (Bytes.ascii "Content-Length")).isEmpty then
    .ok (body, [Bytes.ascii "djhtml: response for " ++ path ++ Bytes.ascii
      " sets Content-Length; install the middleware before the handler that sets it"])
  else match f.indent body with
    | .ok result => .ok (result, [])
    | .error (.error e) =>
      .ok (body, [Bytes.ascii "djhtml: " ++ path ++ Bytes.ascii ": " ++ e.message])
    | .error .overrun => .error {}

/-- The response to a request for `path`, whose writer has the fields `outer` already. If the writer
does not take the body, the reason is logged. -/
def serve (f : Formatter) (path : Bytes) (headers : Headers) (actions : List Action)
    (refusal? : Option Bytes) (outer : Headers := []) : Except Overrun Sent := do
  let recording := Recording.ofActions actions
  let (body, log) ← reindent f path headers recording.body
  let headers := headers.over outer
  match refusal? with
  | none => .ok { status := recording.status, headers, body, log }
  | some reason =>
    let failed := Bytes.ascii "djhtml: writing response for " ++ path ++ Bytes.ascii ": " ++ reason
    .ok { status := recording.status, headers, body := [], log := log ++ [failed] }

end Response

end Reindent
