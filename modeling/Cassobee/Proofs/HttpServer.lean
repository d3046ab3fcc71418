import Cassobee.HttpServer
import Cassobee.Support.Run

/-! When `httpserver` answers a request once. -/

namespace Cassobee
open Support

structure HttpServer.AnswersOnce (server : HttpServer) : Prop where
  once : (server.responses.map Prod.fst).Nodup
  gone {request : Nat} (answered : request ∈ server.responses.map Prod.fst) : request ∉ server.tasks.map Prod.snd
  default {request : Nat} (missed : request ∈ server.unmatched) : (request, .notFound) ∈ server.responses

/-- There is a servlet for the path. A servlet that returns an error has left `_http_tasks` unanswered,
or nothing can be written for it. Nothing is looked for in `_http_tasks` that is destroyed. -/
def HttpServer.Orderly (setting : HttpServerSetting) (server : HttpServer) : HttpServerAction → Prop
  | .request _ path _ => (setting.dispatcher.getMatchedServlet setting.fnmatch path).isSome
  | .reply taskid _ => ∀ entry, server.tasks.find? (fun entry => entry.1 = taskid) = some entry → (server.object entry.2).isSome
  | .handled request retcode => retcode = 0 ∨ ∀ task, server.object request = some task →
      ¬ (task.sid ∈ server.sessions ∧ setting.room request .internalServerError) ∨
        request ∉ server.tasks.map Prod.snd ++ server.responses.map Prod.fst
  | .checkTimeouts => ∀ entry ∈ server.tasks, (server.object entry.2).isSome
  | _ => True

instance (setting : HttpServerSetting) (server : HttpServer) : ∀ action, Decidable (server.Orderly setting action)
  | .request _ path _ => inferInstanceAs (Decidable ((setting.dispatcher.getMatchedServlet setting.fnmatch path).isSome))
  | .reply taskid _ =>
    match found : server.tasks.find? fun entry => entry.1 = taskid with
    | none => isTrue (by simp [HttpServer.Orderly, found])
    | some entry => decidable_of_iff (server.object entry.2).isSome (by simp [HttpServer.Orderly, found])
  | .handled request retcode =>
    match found : server.object request with
    | none => isTrue (by simp [HttpServer.Orderly, found])
    | some task => decidable_of_iff (retcode = 0 ∨ ¬ (task.sid ∈ server.sessions ∧ setting.room request .internalServerError) ∨
        request ∉ server.tasks.map Prod.snd ++ server.responses.map Prod.fst) (by simp [HttpServer.Orderly, found])
  | .checkTimeouts => inferInstanceAs (Decidable (∀ entry ∈ server.tasks, (server.object entry.2).isSome))
  | .addSession _ | .delSession _ | .advance _ | .edit .. => isTrue trivial

namespace Proofs

/-- A request is waiting or answered, and not both. -/
structure Answering (server : HttpServer) : Prop where
  distinct : (server.tasks.map Prod.snd ++ server.responses.map Prod.fst).Nodup
  bound {request : Nat} (named : request ∈ server.tasks.map Prod.snd ++ server.responses.map Prod.fst) : request < server.requests
  created {task : ServletTask} (member : task ∈ server.objects) : task.request < server.requests
  matched : server.unmatched = []

theorem answering_initial (now : Int) : Answering (.initial now) := by
  constructor <;> simp [HttpServer.initial]

theorem object_request {server : HttpServer} {request : Nat} {task : ServletTask} (found : server.object request = some task) :
    task.request = request := by
  have matched := List.find?_some found
  rwa [decide_eq_true_eq] at matched

namespace Answering
variable {setting : HttpServerSetting} {server after : HttpServer}

theorem answersOnce (answering : Answering server) : server.AnswersOnce where
  once := (List.nodup_append.mp answering.distinct).2.1
  gone answered waits := (List.nodup_append.mp answering.distinct).2.2 _ waits _ answered rfl
  default missed := by simp [answering.matched] at missed

/-- A response to a request that is neither waiting nor answered. -/
theorem send (answering : Answering server) {task : ServletTask} (rsp : HttpReply) (lt : task.request < server.requests)
    (fresh : task.request ∉ server.tasks.map Prod.snd ++ server.responses.map Prod.fst) : Answering (server.send setting task rsp) := by
  rw [HttpServer.send]
  split
  next =>
    have moved : (server.tasks.map Prod.snd ++ task.request :: server.responses.map Prod.fst).Perm
        (task.request :: (server.tasks.map Prod.snd ++ server.responses.map Prod.fst)) := List.perm_middle
    refine ⟨moved.nodup_iff.mpr (List.nodup_cons.mpr ⟨fresh, answering.distinct⟩), fun named => ?_, answering.created,
      answering.matched⟩
    rcases List.mem_cons.mp (moved.mem_iff.mp named) with rfl | old
    · exact lt
    · exact answering.bound old
  next => exact answering

/-- The task is taken out of the table. -/
theorem remove (answering : Answering server) {entry : Nat × Nat} (member : entry ∈ server.tasks) :
    Answering { server with tasks := server.tasks.erase entry } ∧
      entry.2 ∉ (server.tasks.erase entry).map Prod.snd ++ server.responses.map Prod.fst := by
  have moved : (server.tasks.map Prod.snd ++ server.responses.map Prod.fst).Perm
      (entry.2 :: ((server.tasks.erase entry).map Prod.snd ++ server.responses.map Prod.fst)) :=
    ((List.perm_cons_erase member).map Prod.snd).append_right _
  obtain ⟨gone, rest⟩ := List.nodup_cons.mp (moved.nodup_iff.mp answering.distinct)
  exact ⟨⟨rest, fun named => answering.bound (moved.mem_iff.mpr (.tail _ named)), answering.created, answering.matched⟩, gone⟩

theorem startTask (answering : Answering server) {path : String}
    (matched : (setting.dispatcher.getMatchedServlet setting.fnmatch path).isSome) (sid : Nat) (accepted : Bool) :
    Answering (server.startTask setting sid path accepted) := by
  obtain ⟨servlet, found⟩ := Option.isSome_iff_exists.mp matched
  simp only [HttpServer.startTask, found]
  have later {request : Nat} (lt : request < server.requests) : request < server.requests + 1 := lt.trans (Nat.lt_succ_self _)
  constructor
  · split
    next => exact answering.distinct
    next => exact List.nodup_cons.mpr ⟨fun named => Nat.lt_irrefl _ (answering.bound named), answering.distinct⟩
  · intro request named
    split at named
    next => exact later (answering.bound named)
    next =>
      rcases List.mem_cons.mp named with rfl | old
      · exact Nat.lt_succ_self _
      · exact later (answering.bound old)
  · intro task member
    have queued : task ∈ if accepted then _ :: server.objects else server.objects := member
    split at queued
    next =>
      rcases List.mem_cons.mp queued with rfl | old
      · exact Nat.lt_succ_self _
      · exact later (answering.created old)
    next => exact later (answering.created queued)
  · exact answering.matched

theorem finishTask (answering : Answering server) {taskid : Nat} {result : String}
    (orderly : server.Orderly setting (.reply taskid result)) :
    ∃ after, server.finishTask setting taskid result = some after ∧ Answering after := by
  rw [HttpServer.finishTask]
  split
  next => exact ⟨server, rfl, answering⟩
  next entry found =>
    obtain ⟨task, object⟩ := Option.isSome_iff_exists.mp (orderly entry found)
    obtain ⟨removed, gone⟩ := answering.remove (List.mem_of_find?_eq_some found)
    have same := object_request object
    refine ⟨_, Option.map_eq_some_iff.mpr ⟨task, object, rfl⟩, removed.send _ ?_ ?_⟩
    · rw [same]
      exact answering.bound (List.mem_append_left _ (List.mem_map_of_mem (List.mem_of_find?_eq_some found)))
    · rw [same]
      exact gone

/-- One turn of the loop over `_http_tasks`: the entries that are left are still there, with their
objects. -/
theorem checkTimeout (answering : Answering server) {entry : Nat × Nat} {rest : List (Nat × Nat)}
    (distinct : (entry :: rest).Nodup) (there : ∀ other ∈ entry :: rest, other ∈ server.tasks ∧ (server.object other.2).isSome) :
    ∃ after, server.checkTimeout setting entry = some after ∧ Answering after ∧ rest.Nodup ∧
      ∀ other ∈ rest, other ∈ after.tasks ∧ (after.object other.2).isSome := by
  obtain ⟨member, present⟩ := there entry (.head _)
  obtain ⟨task, object⟩ := Option.isSome_iff_exists.mp present
  obtain ⟨absent, distinct'⟩ := List.nodup_cons.mp distinct
  obtain ⟨after, checked⟩ : ∃ after, server.checkTimeout setting entry = some after :=
    ⟨_, Option.map_eq_some_iff.mpr ⟨task, object, rfl⟩⟩
  refine ⟨after, checked, ?_⟩
  simp only [HttpServer.checkTimeout, object, Option.map_some, Option.some.injEq] at checked
  split at checked
  next =>
    obtain ⟨removed, gone⟩ := answering.remove member
    have same := object_request object
    -- the response is written before the entry is erased, which makes no difference
    have shape : after = HttpServer.send setting { server with tasks := server.tasks.erase entry } task .serviceUnavailable := by
      rw [← checked, HttpServer.onTimeout, HttpServer.send, HttpServer.send]
      split <;> rfl
    have kept : after.objects = server.objects ∧ after.tasks = server.tasks.erase entry := by
      rw [shape, HttpServer.send]
      split <;> exact ⟨rfl, rfl⟩
    refine ⟨?_, distinct', fun other left => ?_⟩
    · rw [shape]
      refine removed.send _ ?_ ?_
      · rw [same]
        exact answering.bound (List.mem_append_left _ (List.mem_map_of_mem member))
      · rw [same]
        exact gone
    · obtain ⟨old, live⟩ := there other (.tail _ left)
      rw [kept.2, HttpServer.object, kept.1]
      refine ⟨(List.mem_erase_of_ne ?_).mpr old, live⟩
      rintro rfl
      exact absent left
  next =>
    subst checked
    exact ⟨answering, distinct', fun other left => there other (.tail _ left)⟩

theorem checkTimeouts (answering : Answering server) (orderly : server.Orderly setting .checkTimeouts) :
    ∃ after, server.step setting .checkTimeouts = some after ∧ Answering after := by
  have distinct : server.tasks.Nodup := List.Nodup.of_map _ (List.nodup_append.mp answering.distinct).1
  obtain ⟨after, looped, final⟩ : ∃ after, server.tasks.foldlM (HttpServer.checkTimeout setting) server = some after ∧
      Answering after ∧ _ := foldlM_keeps
    (fun rest now => Answering now ∧ rest.Nodup ∧ ∀ other ∈ rest, other ∈ now.tasks ∧ (now.object other.2).isSome)
    (fun entry rest now ⟨answering', distinct', there⟩ => answering'.checkTimeout distinct' there)
    ⟨answering, distinct, fun other member => ⟨member, orderly other member⟩⟩
  exact ⟨after, looped, final.1⟩

theorem run (answering : Answering server) {request : Nat} {retcode : Int} (orderly : server.Orderly setting (.handled request retcode)) :
    Answering (server.run setting request retcode) := by
  rw [HttpServer.run]
  split
  next => exact answering
  next task object =>
    have same := object_request object
    have written : Answering (if retcode ≠ 0 then server.onError setting task else server) := by
      split
      next failed =>
        rcases orderly.resolve_left failed task object with silent | fresh
        · rw [HttpServer.onError, HttpServer.send, same, if_neg silent]
          exact answering
        · refine answering.send _ ?_ ?_
          · exact answering.created (List.mem_of_find?_eq_some object)
          · rw [same]
            exact fresh
      next => exact answering
    exact ⟨written.distinct, written.bound, fun member => written.created (List.mem_of_mem_filter member), written.matched⟩

theorem edit (answering : Answering server) (request : Nat) (rsp : HttpReply) :
    Answering { server with objects := server.objects.map fun task => if task.request = request then { task with rsp } else task } := by
  refine ⟨answering.distinct, answering.bound, fun {task} member => ?_, answering.matched⟩
  obtain ⟨old, was, rfl⟩ := List.mem_map.mp member
  have lt := answering.created was
  split <;> exact lt

theorem step (answering : Answering server) {action : HttpServerAction} (orderly : server.Orderly setting action) :
    ∃ after, server.step setting action = some after ∧ Answering after := by
  obtain ⟨distinct, bound, created, matched⟩ := answering
  cases action with
  | addSession sid => exact ⟨_, rfl, distinct, bound, created, matched⟩
  | delSession sid => exact ⟨_, rfl, distinct, bound, created, matched⟩
  | advance seconds => exact ⟨_, rfl, distinct, bound, created, matched⟩
  | request sid path accepted => exact ⟨_, rfl, startTask ⟨distinct, bound, created, matched⟩ orderly sid accepted⟩
  | edit request rsp => exact ⟨_, rfl, edit ⟨distinct, bound, created, matched⟩ request rsp⟩
  | reply taskid result => exact finishTask ⟨distinct, bound, created, matched⟩ orderly
  | handled request retcode => exact ⟨_, rfl, run ⟨distinct, bound, created, matched⟩ orderly⟩
  | checkTimeouts => exact checkTimeouts ⟨distinct, bound, created, matched⟩ orderly

end Answering

theorem answers_once_while_orderly (setting : HttpServerSetting) (now : Int) {actions : List HttpServerAction}
    (each : EachStep (HttpServer.step setting) (HttpServer.Orderly setting) (.initial now) actions) :
    Throughout (HttpServer.step setting) HttpServer.AnswersOnce (.initial now) actions ∧
      (actions.foldlM (HttpServer.step setting) (.initial now)).isSome := by
  exact completes_of_eachStep Answering.answersOnce (fun answering orderly => answering.step orderly) (answering_initial now) each

/-- The dispatcher as `init` makes it. -/
def serverSetting : HttpServerSetting := ⟨⟨["/_/config"], []⟩, fun _ _ => false, 30, fun _ _ => true⟩

/-- Two requests: one is answered at once, twice, and the other one too late. -/
def orderlyActions : List HttpServerAction :=
  [.addSession 1, .request 1 "/_/config" true, .edit 0 ⟨200, ""⟩, .reply 1 "value", .reply 1 "value", .handled 0 0,
    .request 1 "/_/config" true, .advance 30, .checkTimeouts, .reply 2 "late", .handled 1 0]

theorem answers_once_of_two :
    Throughout (HttpServer.step serverSetting) HttpServer.AnswersOnce (.initial 0) orderlyActions ∧
      (orderlyActions.foldlM (HttpServer.step serverSetting) (.initial 0)).isSome :=
  answers_once_while_orderly serverSetting 0 (by decide)

/-- A servlet that replies and returns an error, and a path that has no servlet. -/
theorem answers_twice_or_never :
    ¬ Throughout (HttpServer.step serverSetting) HttpServer.AnswersOnce (.initial 0)
        [.addSession 1, .request 1 "/_/config" true, .reply 1 "value", .handled 0 1] ∧
      ¬ Throughout (HttpServer.step serverSetting) HttpServer.AnswersOnce (.initial 0) [.addSession 1, .request 1 "/" true] := by
  constructor
  · intro right
    obtain ⟨server, computed, twice⟩ : ∃ server : HttpServer, [HttpServerAction.addSession 1, .request 1 "/_/config" true,
        .reply 1 "value", .handled 0 1].foldlM (HttpServer.step serverSetting) (.initial 0) = some server ∧
        server.responses.map Prod.fst = [0, 0] := ⟨_, rfl, by decide⟩
    have once := (right.last computed).once
    rw [twice] at once
    exact absurd once (by decide)
  · intro right
    obtain ⟨server, computed, missed, silent⟩ : ∃ server : HttpServer, [HttpServerAction.addSession 1, .request 1 "/" true].foldlM
        (HttpServer.step serverSetting) (.initial 0) = some server ∧ server.unmatched = [0] ∧ server.responses = [] :=
      ⟨_, rfl, by decide, by decide⟩
    have answered := (right.last computed).default (missed ▸ List.mem_singleton.mpr rfl)
    rw [silent] at answered
    cases answered
end Proofs
end Cassobee
