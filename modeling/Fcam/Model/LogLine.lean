import Fcam.Model.Redact

/-!
# The log of the process

`logging.py`: what the formatter writes for a record, and the stream a handler makes of the lines.
The level, the name and the message are those of the record, the request id is that of the context,
and the timestamp is the text of the clock. Which characters beyond ASCII are word characters, and
what `str.lower` makes of a text, is left open.
-/

namespace Fcam

/-! ### Records -/

/-- A record as a formatter finds it. -/
structure LogRecord where
  timestamp : PyStr
  levelName : PyStr
  name : PyStr
  message : PyStr
  requestId : Option PyStr
  fields : Option (List (PyStr × Json))

/-- `get_request_id() or "-"`. -/
def LogRecord.shownRequestId (record : LogRecord) : PyStr :=
  if record.requestId.getD [] = [] then PyStr.ofString "-" else record.requestId.getD []

/-- A formatter: the configured fields in lower case, and what is left open. -/
structure LogFormatter where
  unicodeWord : Nat → Bool
  lower : PyStr → PyStr
  redactFields : List PyStr

namespace LogFormatter

variable (formatter : LogFormatter)

/-- `str(k).lower() in sensitive_keys`. -/
def sensitive (key : PyStr) : Bool :=
  (formatter.redactFields.map formatter.lower).contains (formatter.lower key)

/-- The payload of `JsonFormatter.format`. -/
def payload (record : LogRecord) : Json :=
  let member (key : String) (value : Json) : PyStr × Json := (PyStr.ofString key, value)
  .obj
    ([member "timestamp" (.str record.timestamp),
      member "level" (.str record.levelName),
      member "logger" (.str record.name),
      member "message" (.str (redactText formatter.unicodeWord record.message)),
      member "request_id" (.str record.shownRequestId)] ++
      (record.fields.map fun fields =>
        member "fields"
          (redactWith formatter.unicodeWord formatter.sensitive (.obj fields))).toList)

/-- `JsonFormatter.format`. -/
def jsonLine (record : LogRecord) : PyStr := (formatter.payload record).dumpsSpaced

/-- `PlainFormatter.format`. -/
def plainLine (record : LogRecord) : PyStr :=
  let head :=
    record.levelName ++ [32] ++ record.name ++ PyStr.ofString " request_id=" ++
      record.shownRequestId ++ [32] ++ redactText formatter.unicodeWord record.message
  match record.fields with
  | none => head
  | some [] => head
  | some (first :: rest) =>
    head ++ [32] ++
      (redactWith formatter.unicodeWord formatter.sensitive (.obj (first :: rest))).dumpsSpaced

end LogFormatter

/-- What a stream handler writes for the records, with its terminator, to a stream of text. On a
stream of bytes it writes nothing for a record whose line cannot be encoded. -/
def logStream (format : LogRecord → PyStr) (records : List LogRecord) : PyStr :=
  records.flatMap fun record => format record ++ [10]

/-- The lines of a stream. -/
def linesOf (stream : PyStr) : List PyStr := (stream.splitOn 10).dropLast

end Fcam
