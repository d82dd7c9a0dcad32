import RemoteEval.Response.Datum

/-!
Response events. An event tells how one request ended: `(success "id")` or
`(failure "id" "message" ("frame" ...))`. Whatever else arrives is kept as unrecognized, with
the reason, and is never evaluated.
-/
namespace RemoteEval

abbrev RequestId := String

inductive Response where
  | success (id : RequestId)
  | failure (id : RequestId) (message : String) (stack : List String)
  | unrecognized (raw : String) (reason : Response.Reason)

namespace Response

open Text

def id? : Response → Option RequestId
  | .success id => some id
  | .failure id _ _ => some id
  | .unrecognized _ _ => none

def frame : Datum → Except Reason String
  | .string text => .ok text
  | found => .error (.frameNotString found)

def ofDatum : Datum → Except Reason Response
  | .list [.symbol "success", .string id] => .ok (.success id)
  | .list [.symbol "failure", .string id, .string message, .list frames] =>
    (frames.mapM frame).map (.failure id message)
  | .list (.symbol tag :: _) => .error (.shape tag)
  | .list _ => .error .noTag
  | found => .error (.notList found)

def read (text : List Char) : Except Reason Response :=
  let (tokens, unfinished) := tokenize text
  match readDatum unfinished [] tokens with
  | .error reason => .error reason
  | .ok (_, token :: _) => .error (.trailing token)
  | .ok (datum, []) =>
    match unfinished with
    | some what => .error (.unfinished what)
    | none => ofDatum datum

def parse (text : List Char) : Response :=
  match read text with
  | .ok response => response
  | .error reason => .unrecognized (String.ofList text) reason

def ofStray (bytes : List UInt8) (reason : Reason) : Response :=
  .unrecognized (String.ofList (Utf8.lossy bytes)) reason

def ofFrame (bytes : List UInt8) : Response :=
  match Utf8.decode bytes with
  | .ok text => parse text
  | .error fault => ofStray bytes (.badEncoding fault)

end Response

end RemoteEval
