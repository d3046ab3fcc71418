import Cassobee.Relay
import Cassobee.Support.Run

/-! Who owns an rpc object: `_rpcs`, the task or the handler that will delete it, or nobody. -/

namespace Cassobee
open Support

structure RpcObjects.Safe (objects : RpcObjects) : Prop where
  live {traceid object : Nat} (held : objects.rpcs traceid = some object) : objects.live object
  once : objects.deleted.Nodup

/-- `server()` returns true for a request only where `_rpcs` does not take the object that was decoded:
its next trace id is in use. -/
def RpcObjects.NotRelayed (objects : RpcObjects) : ObjectAction → Prop
  | .serve true => (objects.rpcs ((objects.nextTraceid + 1) % wordSize)).isSome
  | _ => True

namespace Proofs

/-- Every object has at most one owner, and none once it is deleted. -/
structure OwnedOnce (objects : RpcObjects) : Prop where
  held_lt {traceid object : Nat} (held : objects.rpcs traceid = some object) : object < objects.created
  held_once {one other object : Nat} (held : objects.rpcs one = some object) (also : objects.rpcs other = some object) :
    one = other
  held_kept {traceid object : Nat} (held : objects.rpcs traceid = some object) :
    object ∉ objects.doomed ++ objects.deleted
  doomed_lt {object : Nat} (member : object ∈ objects.doomed ++ objects.deleted) : object < objects.created
  once : (objects.doomed ++ objects.deleted).Nodup

theorem ownedOnce_initial : OwnedOnce .initial := by
  constructor <;> simp [RpcObjects.initial]

namespace OwnedOnce
variable {objects : RpcObjects}

theorem safe (owned : OwnedOnce objects) : objects.Safe where
  live held := ⟨owned.held_lt held, fun gone => owned.held_kept held (List.mem_append_right _ gone)⟩
  once := (List.nodup_append.mp owned.once).2.1

/-- An object that nothing refers to. -/
theorem create (owned : OwnedOnce objects) : OwnedOnce { objects with created := objects.created + 1 } where
  held_lt held := (owned.held_lt held).trans (Nat.lt_succ_self _)
  held_once := owned.held_once
  held_kept := owned.held_kept
  doomed_lt member := (owned.doomed_lt member).trans (Nat.lt_succ_self _)
  once := owned.once

theorem doom (owned : OwnedOnce objects) {object : Nat} (lt : object < objects.created)
    (free : ∀ traceid, objects.rpcs traceid ≠ some object) (kept : object ∉ objects.doomed ++ objects.deleted) :
    OwnedOnce { objects with doomed := object :: objects.doomed } where
  held_lt := owned.held_lt
  held_once := owned.held_once
  held_kept {traceid other} held := by
    rw [List.cons_append, List.mem_cons, not_or]
    refine ⟨?_, owned.held_kept held⟩
    rintro rfl
    exact free traceid held
  doomed_lt {other} member := by
    rcases List.mem_cons.mp member with rfl | old
    · exact lt
    · exact owned.doomed_lt old
  once := List.nodup_cons.mpr ⟨kept, owned.once⟩

theorem fresh (owned : OwnedOnce objects) : (∀ traceid, objects.rpcs traceid ≠ some objects.created) ∧
    objects.created ∉ objects.doomed ++ objects.deleted :=
  ⟨fun _ held => Nat.lt_irrefl _ (owned.held_lt held), fun member => Nat.lt_irrefl _ (owned.doomed_lt member)⟩

theorem decoded (owned : OwnedOnce objects) : OwnedOnce objects.decoded :=
  owned.create.doom (Nat.lt_succ_self _) owned.fresh.1 owned.fresh.2

/-- The table takes an object that nobody else owns, or leaves it where it is. -/
theorem setRequest (owned : OwnedOnce objects) {object : Nat} (lt : object < objects.created)
    (free : ∀ traceid, objects.rpcs traceid ≠ some object)
    (kept : objects.rpcs ((objects.nextTraceid + 1) % wordSize) = none → object ∉ objects.doomed ++ objects.deleted) :
    OwnedOnce (objects.setRequest object) := by
  cases slot : objects.rpcs ((objects.nextTraceid + 1) % wordSize) with
  | some other =>
    simp only [RpcObjects.setRequest, slot]
    exact ⟨owned.held_lt, owned.held_once, owned.held_kept, owned.doomed_lt, owned.once⟩
  | none =>
    simp only [RpcObjects.setRequest, slot]
    have cases_held {traceid other : Nat}
        (held : Function.update objects.rpcs ((objects.nextTraceid + 1) % wordSize) (some object) traceid = some other) :
        traceid = (objects.nextTraceid + 1) % wordSize ∧ other = object ∨ objects.rpcs traceid = some other := by
      by_cases same : traceid = (objects.nextTraceid + 1) % wordSize
      · rw [same, Function.update_self, Option.some.injEq] at held
        exact .inl ⟨same, held.symm⟩
      · rw [Function.update_of_ne same] at held
        exact .inr held
    refine ⟨fun held => ?_, fun held also => ?_, fun held => ?_, owned.doomed_lt, owned.once⟩
    · rcases cases_held held with ⟨-, rfl⟩ | old
      · exact lt
      · exact owned.held_lt old
    · rcases cases_held held with ⟨rfl, rfl⟩ | old <;> rcases cases_held also with ⟨rfl, same⟩ | old'
      · rfl
      · exact absurd old' (free _)
      · exact absurd (same ▸ old) (free _)
      · exact owned.held_once old old'
    · rcases cases_held held with ⟨-, rfl⟩ | old
      · exact kept slot
      · exact owned.held_kept old

/-- The handler that has found the object owns it now. -/
theorem take (owned : OwnedOnce objects) (traceid : Nat) : OwnedOnce (objects.take traceid) := by
  unfold RpcObjects.take
  cases slot : objects.rpcs traceid with
  | none => exact owned
  | some object =>
    have old {one other : Nat} (held : Function.update objects.rpcs traceid none one = some other) :
        one ≠ traceid ∧ objects.rpcs one = some other := by
      by_cases same : one = traceid
      · rw [same, Function.update_self] at held
        cases held
      · rw [Function.update_of_ne same] at held
        exact ⟨same, held⟩
    have removed : OwnedOnce { objects with rpcs := Function.update objects.rpcs traceid none } :=
      ⟨fun held => owned.held_lt (old held).2, fun held also => owned.held_once (old held).2 (old also).2,
        fun held => owned.held_kept (old held).2, owned.doomed_lt, owned.once⟩
    refine removed.doom (owned.held_lt slot) (fun one held => ?_) (owned.held_kept slot)
    exact (old held).1 (owned.held_once (old held).2 slot)

theorem delete (owned : OwnedOnce objects) {object : Nat} (doomed : object ∈ objects.doomed) :
    OwnedOnce { objects with doomed := objects.doomed.erase object, deleted := object :: objects.deleted } := by
  have same : (objects.doomed.erase object ++ object :: objects.deleted).Perm (objects.doomed ++ objects.deleted) := by
    apply List.perm_middle.trans
    rw [← List.cons_append]
    exact (List.perm_cons_erase doomed).symm.append_right _
  refine ⟨owned.held_lt, owned.held_once, fun held => ?_, fun member => ?_, same.nodup_iff.mpr owned.once⟩
  · rw [same.mem_iff]
    exact owned.held_kept held
  · exact owned.doomed_lt (same.mem_iff.mp member)

theorem step (owned : OwnedOnce objects) {action : ObjectAction} (met : objects.NotRelayed action) {after : RpcObjects}
    (stepped : objects.step action = some after) : OwnedOnce after := by
  cases action with
  | call =>
    cases stepped
    exact owned.create.setRequest (Nat.lt_succ_self _) owned.fresh.1 fun _ => owned.fresh.2
  | serve more =>
    cases more with
    | false =>
      cases stepped
      exact owned.decoded
    | true =>
      -- the decoded object is the task's, so the table may not have it
      obtain ⟨other, taken⟩ := Option.isSome_iff_exists.mp met
      cases stepped
      refine owned.decoded.setRequest (Nat.lt_succ_self _) owned.fresh.1 fun slot => ?_
      cases taken.symm.trans slot
  | respond traceid =>
    cases stepped
    exact owned.decoded.take traceid
  | timeout traceid =>
    cases stepped
    exact owned.take traceid
  | delete object =>
    rw [RpcObjects.step] at stepped
    split at stepped
    next doomed =>
      cases stepped
      exact owned.delete doomed
    next => cases stepped

end OwnedOnce

theorem objects_safe_while_not_relayed {actions : List ObjectAction}
    (each : EachStep RpcObjects.step RpcObjects.NotRelayed .initial actions) :
    Throughout RpcObjects.step RpcObjects.Safe .initial actions :=
  throughout_of_eachStep OwnedOnce.safe (fun owned met stepped => owned.step met stepped) ownedOnce_initial each

/-- A call that is answered while another is served and a third one runs out of time. -/
def ownedActions : List ObjectAction := [.call, .call, .serve false, .respond 1, .delete 2, .delete 0, .timeout 2, .delete 1, .delete 3]

theorem objects_safe_of_calls :
    (ownedActions.foldlM RpcObjects.step .initial).isSome ∧ Throughout RpcObjects.step RpcObjects.Safe .initial ownedActions := by
  refine ⟨rfl, objects_safe_while_not_relayed ?_⟩
  simp [ownedActions, EachStep, RpcObjects.NotRelayed]

/-- The task deletes the request that it has put into `_rpcs`. -/
theorem relayed_request_dangles : ¬ Throughout RpcObjects.step RpcObjects.Safe .initial [.serve true, .delete 0] := by
  intro safe
  obtain ⟨objects, computed, held, gone⟩ : ∃ objects, [ObjectAction.serve true, .delete 0].foldlM RpcObjects.step .initial = some objects ∧
      objects.rpcs 1 = some 0 ∧ 0 ∈ objects.deleted := ⟨_, rfl, by decide, by decide⟩
  exact ((safe.last computed).live held).2 gone

end Proofs
end Cassobee
