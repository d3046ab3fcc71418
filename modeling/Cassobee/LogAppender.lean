import Cassobee.Support.BoundedQueue

/-! `async_appender` of `log/log_appender.cpp`: log calls of any threads, the writer thread and `stop()`. What
is done under `_locker` is one step. -/

namespace Cassobee
open Support

/-- Where the writer is: at its test of `_running`, at the lock behind it, in `wait_for`, or at its end. -/
inductive WriterPlace where
  | testing | locking | waiting | exited
  deriving DecidableEq, Repr

/-- `joining` lasts from the store to `_running` until `join` returns. -/
inductive StopPhase where
  | notCalled | joining | returned
  deriving DecidableEq, Repr

def bufferSize : Nat := 4096 * 128

/-- `file` has the bytes that the file stream received. `pending` has the texts of the calls
`log(level, event)` that have seen the appender run and did not come to the lock yet. `stored` lists all bytes
that were stored in `_buf`, and `owed` those from before `stop()`. -/
structure AsyncAppender where
  running : Bool
  writer : WriterPlace
  buf : BoundedQueue UInt8 bufferSize
  pending : List (List UInt8)
  file : List UInt8
  phase : StopPhase
  stored : List UInt8
  owed : List UInt8

/-- `wake` is the end of `wait_for`: its time may be over whenever it waits. -/
inductive AppenderAction where
  | log (content : List UInt8)
  | format (msg : List UInt8)
  | logEvent (index : Nat)
  | test | lock | wake
  | stop | join
  deriving DecidableEq, Repr

namespace AsyncAppender

/-- The constructor with `start()`. -/
def create : AsyncAppender := ⟨true, .testing, .empty, [], [], .notCalled, [], []⟩

/-- The bytes of `content` that `_buf.write` takes. The rest is lost, with a message. -/
def accepted (appender : AsyncAppender) (content : List UInt8) : List UInt8 :=
  content.take (bufferSize - appender.buf.items.length)

def write (appender : AsyncAppender) (content : List UInt8) : AsyncAppender :=
  { appender with buf := appender.buf.write content, stored := appender.stored ++ appender.accepted content }

/-- The writer with the lock: it goes on waiting while there is nothing, and else it writes everything. -/
def drain (appender : AsyncAppender) : AsyncAppender :=
  if appender.buf.items = [] then { appender with writer := .waiting }
  else
    let length := appender.buf.items.length
    { appender with
      writer := .testing
      buf := appender.buf.read length
      file := appender.file ++ appender.buf.items.take length }

def step (appender : AsyncAppender) : AppenderAction → Option AsyncAppender
  | .log content => some (appender.write content)
  | .format msg => some (if appender.running then { appender with pending := appender.pending ++ [msg] } else appender)
  | .logEvent index =>
    match appender.pending[index]? with
    | some msg => some { appender.write msg with pending := appender.pending.eraseIdx index }
    | none => none
  | .test =>
    match appender.writer with
    | .testing => some { appender with writer := if appender.running then .locking else .exited }
    | _ => none
  | .lock =>
    match appender.writer with
    | .locking => some appender.drain
    | _ => none
  | .wake =>
    match appender.writer with
    | .waiting => some appender.drain
    | _ => none
  | .stop =>
    some (if appender.running then { appender with running := false, phase := .joining, owed := appender.stored } else appender)
  | .join =>
    match appender.phase, appender.writer with
    | .joining, .exited => some { appender with phase := .returned }
    | _, _ => none

end AsyncAppender
end Cassobee
