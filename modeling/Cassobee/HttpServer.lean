import Cassobee.Octets
import Mathlib.Data.Finset.Basic

/-! The tasks of `http/httpserver.cpp` and what the servlets of `http/internal/servlet.cpp` make of
them. A servlet may do anything to its response, reply at any time, and return when it likes. -/

namespace Cassobee

structure HttpReply where
  status : Nat
  body : String
  deriving DecidableEq, Repr

/-- `http_status_to_string` makes a string of the message with its quotation marks. -/
def HttpReply.internalServerError : HttpReply := ⟨500, "\"Internal Server Error\""⟩

def HttpReply.serviceUnavailable : HttpReply := ⟨503, "\"Service Unavailable\""⟩

/-- What the servlet that the dispatcher has for other paths makes of a response. -/
def HttpReply.notFound : HttpReply :=
  ⟨404, "<html><head><title>404 Not Found</title></head><body><center><h1>404 Not Found</h1></center><hr><center>cassobee/1.0.0</center></body></html>"⟩

/-- `request` numbers the requests of the server. -/
structure ServletTask where
  request : Nat
  taskid : Nat
  timeout : Int
  sid : Nat
  rsp : HttpReply
  deriving DecidableEq, Repr

/-- The paths and patterns that have a servlet. -/
structure ServletDispatcher where
  servlets : List String
  globServlets : List String

def ServletDispatcher.getMatchedServlet (fnmatch : String → String → Bool) (dispatcher : ServletDispatcher) (uri : String) :
    Option String :=
  match dispatcher.servlets.find? fun path => path = uri with
  | some path => some path
  | none => dispatcher.globServlets.find? fun pattern => fnmatch pattern uri

/-- `room` says whether a response fits into the write buffer of its session. -/
structure HttpServerSetting where
  dispatcher : ServletDispatcher
  fnmatch : String → String → Bool
  taskTimeout : Int
  room : Nat → HttpReply → Bool

/-- `tasks` has the ids of `_http_tasks` with the objects they refer to, and `objects` those that are
not destroyed. `unmatched` and `responses` say what has come about: the requests for which there was no
servlet, and what was written for which request. -/
structure HttpServer where
  clock : Int
  nextTaskid : Nat
  tasks : List (Nat × Nat)
  objects : List ServletTask
  sessions : Finset Nat
  requests : Nat
  unmatched : List Nat
  responses : List (Nat × HttpReply)

/-- `accepted` says whether the thread pool takes the task; it destroys those it refuses. -/
inductive HttpServerAction where
  | addSession (sid : Nat)
  | delSession (sid : Nat)
  | advance (seconds : Nat)
  | request (sid : Nat) (path : String) (accepted : Bool)
  | edit (request : Nat) (rsp : HttpReply)
  | reply (taskid : Nat) (result : String)
  | handled (request : Nat) (retcode : Int)
  | checkTimeouts
  deriving DecidableEq, Repr

namespace HttpServer

def initial (now : Int) : HttpServer := ⟨now, 0, [], [], ∅, 0, [], []⟩

/-- What a pointer to the servlet of a request refers to. -/
def object (server : HttpServer) (request : Nat) : Option ServletTask :=
  server.objects.find? fun task => task.request = request

variable (setting : HttpServerSetting)

/-- `send_response_nolock`, when the session is found. -/
def send (server : HttpServer) (task : ServletTask) (rsp : HttpReply) : HttpServer :=
  if task.sid ∈ server.sessions ∧ setting.room task.request rsp then
    { server with responses := (task.request, rsp) :: server.responses }
  else
    server

def onFinish (server : HttpServer) (task : ServletTask) (result : String) : HttpServer :=
  server.send setting task (if result = "" then task.rsp else { task.rsp with body := result })

def onError (server : HttpServer) (task : ServletTask) : HttpServer := server.send setting task .internalServerError

def onTimeout (server : HttpServer) (task : ServletTask) : HttpServer := server.send setting task .serviceUnavailable

def startTask (server : HttpServer) (sid : Nat) (path : String) (accepted : Bool) : HttpServer :=
  match setting.dispatcher.getMatchedServlet setting.fnmatch path with
  | none => { server with requests := server.requests + 1, unmatched := server.requests :: server.unmatched }
  | some _ =>
    let taskid := (server.nextTaskid + 1) % wordSize
    let task : ServletTask := ⟨server.requests, taskid, server.clock + setting.taskTimeout, sid, ⟨200, ""⟩⟩
    { server with
      nextTaskid := taskid
      requests := server.requests + 1
      tasks := if server.tasks.any fun entry => entry.1 = taskid then server.tasks else (taskid, server.requests) :: server.tasks
      objects := if accepted then task :: server.objects else server.objects }

/-- `none` is the use of an object that is destroyed. -/
def finishTask (server : HttpServer) (taskid : Nat) (result : String) : Option HttpServer :=
  match server.tasks.find? fun entry => entry.1 = taskid with
  | none => some server
  | some entry => (server.object entry.2).map fun task =>
    { server with tasks := server.tasks.erase entry }.onFinish setting task result

def checkTimeout (server : HttpServer) (entry : Nat × Nat) : Option HttpServer :=
  (server.object entry.2).map fun task =>
    if server.clock ≥ task.timeout then
      { server.onTimeout setting task with tasks := server.tasks.erase entry }
    else
      server

/-- The servlet has run, and the task is destroyed. -/
def run (server : HttpServer) (request : Nat) (retcode : Int) : HttpServer :=
  match server.object request with
  | none => server
  | some task =>
    let server := if retcode ≠ 0 then server.onError setting task else server
    { server with objects := server.objects.filter fun other => other.request ≠ request }

def step (server : HttpServer) : HttpServerAction → Option HttpServer
  | .addSession sid => some { server with sessions := insert sid server.sessions }
  | .delSession sid => some { server with sessions := server.sessions.erase sid }
  | .advance seconds => some { server with clock := server.clock + seconds }
  | .request sid path accepted => some (server.startTask setting sid path accepted)
  | .edit request rsp => some { server with
      objects := server.objects.map fun task => if task.request = request then { task with rsp } else task }
  | .reply taskid result => server.finishTask setting taskid result
  | .handled request retcode => some (server.run setting request retcode)
  | .checkTimeouts => server.tasks.foldlM (checkTimeout setting) server

end HttpServer
end Cassobee
