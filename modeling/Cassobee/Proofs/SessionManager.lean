import Cassobee.SessionManager
import Cassobee.Support.Run

/-! Whose session an id names. Ids from the counter are never given twice before it wraps; every
session that `httpsession::dup` makes has the id 0. -/

namespace Cassobee
open Support

namespace SessionManager

/-- Every open session is the one the table has under its id, and no id was found taken. -/
structure Identified (manager : SessionManager) : Prop where
  distinct (a b : Nat) (one other : ManagedSession) (first : manager.objects a = some one)
    (second : manager.objects b = some other) (opened : one.phase = .opened) (opened' : other.phase = .opened)
    (same : one.sid = other.sid) : a = b
  mapped (a : Nat) (object : ManagedSession) (here : manager.objects a = some object) (opened : object.phase = .opened) :
    manager.sessions object.sid = some a
  unclashed : manager.clashed = false

/-- The object was made by `httpsession::dup`. -/
def Unnumbered (manager : SessionManager) (object : ManagedSession) : Prop := manager.kind = .http ∧ object.accepted = true

/-- A session of `httpsession::dup` is opened, or closed before it was, only when no other such one
is open. -/
def Apart (manager : SessionManager) : ManagerAction → Prop
  | .setOpen session | .close session => ∀ object, manager.objects session = some object → object.phase = .created →
    manager.Unnumbered object → ∀ other object', manager.objects other = some object' → object'.phase = .opened →
    ¬ manager.Unnumbered object'
  | _ => True

/-- The counter does not wrap. -/
def Counts (manager : SessionManager) : ManagerAction → Prop
  | .createSession | .dup => manager.nextSessionid + 1 < 2 ^ 64
  | _ => True

end SessionManager

namespace Proofs
open SessionManager
variable {manager next : SessionManager} {action : ManagerAction}

structure Indexed (manager : SessionManager) : Prop where
  fresh (a : Nat) (unmade : manager.made ≤ a) : manager.objects a = none
  zero (a : Nat) (object : ManagedSession) (here : manager.objects a = some object) (live : object.phase ≠ .gone)
    (unnumbered : manager.Unnumbered object) : object.sid = 0
  range (a : Nat) (object : ManagedSession) (here : manager.objects a = some object) (live : object.phase ≠ .gone)
    (indexed : ¬ manager.Unnumbered object) : 0 < object.sid ∧ object.sid ≤ manager.nextSessionid
  single (a b : Nat) (one other : ManagedSession) (first : manager.objects a = some one)
    (second : manager.objects b = some other) (live : one.phase ≠ .gone) (live' : other.phase ≠ .gone)
    (indexed : ¬ manager.Unnumbered one) (same : one.sid = other.sid) : a = b
  table (sid a : Nat) : manager.sessions sid = some a ↔
    ∃ object, manager.objects a = some object ∧ object.phase = .opened ∧ object.sid = sid
  unclashed : manager.clashed = false

theorem Indexed.identified (indexed : Indexed manager) : manager.Identified where
  distinct := by
    intro a b one other first second opened opened' same
    have mine := (indexed.table one.sid a).2 ⟨one, first, opened, rfl⟩
    have yours := (indexed.table one.sid b).2 ⟨other, second, opened', same.symm⟩
    exact Option.some.inj (mine.symm.trans yours)
  mapped := fun a object here opened => (indexed.table object.sid a).2 ⟨object, here, opened, rfl⟩
  unclashed := indexed.unclashed

/-- A new object joins, with an id that no object of its kind has. -/
theorem Indexed.add (indexed : Indexed manager) {object : ManagedSession} {counter : Nat}
    (created : object.phase = .created) (grown : manager.nextSessionid ≤ counter)
    (zero : manager.Unnumbered object → object.sid = 0)
    (beyond : ¬ manager.Unnumbered object → manager.nextSessionid < object.sid ∧ object.sid ≤ counter) :
    Indexed { manager with
      nextSessionid := counter
      objects := Function.update manager.objects manager.made (some object)
      made := manager.made + 1 } := by
  have lookup (a : Nat) (found : ManagedSession) :
      Function.update manager.objects manager.made (some object) a = some found ↔
        a = manager.made ∧ found = object ∨ a ≠ manager.made ∧ manager.objects a = some found := by
    by_cases same : a = manager.made <;> simp [same, eq_comm]
  have unmade (found : ManagedSession) : manager.objects manager.made ≠ some found := by
    rw [indexed.fresh _ (Nat.le_refl _)]
    exact fun none => nomatch none
  refine ⟨?_, ?_, ?_, ?_, ?_, indexed.unclashed⟩
  · intro a later
    have after : manager.made ≤ a := Nat.le_of_succ_le later
    have other : a ≠ manager.made := by
      rintro rfl
      exact Nat.not_succ_le_self _ later
    simp only [Function.update_apply, other, if_false]
    exact indexed.fresh a after
  · intro a found here live unnumbered
    rcases (lookup a found).1 here with ⟨-, rfl⟩ | ⟨-, old⟩
    · exact zero unnumbered
    · exact indexed.zero a found old live unnumbered
  · intro a found here live counted
    rcases (lookup a found).1 here with ⟨-, rfl⟩ | ⟨-, old⟩
    · exact ⟨Nat.lt_of_le_of_lt (Nat.zero_le _) (beyond counted).1, (beyond counted).2⟩
    · obtain ⟨positive, within⟩ := indexed.range a found old live counted
      exact ⟨positive, Nat.le_trans within grown⟩
  · intro a b one other first second live live' counted same
    rcases (lookup a one).1 first with ⟨rfl, rfl⟩ | ⟨-, old⟩ <;> rcases (lookup b other).1 second with ⟨rfl, rfl⟩ | ⟨-, old'⟩
    · rfl
    · -- the new id is above those of the numbered objects, and theirs is 0 for the others
      by_cases kind : manager.Unnumbered other
      · have := indexed.zero b other old' live' kind
        have := beyond counted
        omega
      · have := indexed.range b other old' live' kind
        have := beyond counted
        omega
    · obtain ⟨positive, within⟩ := indexed.range a one old live counted
      by_cases kind : manager.Unnumbered other
      · have := zero kind
        omega
      · have := beyond kind
        omega
    · exact indexed.single a b one other old old' live live' counted same
  · intro sid a
    rw [indexed.table]
    constructor
    · rintro ⟨found, here, opened, same⟩
      have other : a ≠ manager.made := by
        rintro rfl
        exact unmade found here
      exact ⟨found, (lookup a found).2 (.inr ⟨other, here⟩), opened, same⟩
    · rintro ⟨found, here, opened, same⟩
      rcases (lookup a found).1 here with ⟨-, rfl⟩ | ⟨-, old⟩
      · rw [created] at opened
        cases opened
      · exact ⟨found, old, opened, same⟩

/-- An open session under the id of one that is not yet open: both are of `httpsession::dup`. -/
theorem Indexed.shared (indexed : Indexed manager) {a b : Nat} {object : ManagedSession}
    (here : manager.objects a = some object) (created : object.phase = .created)
    (taken : manager.sessions object.sid = some b) :
    manager.Unnumbered object ∧ ∃ other, manager.objects b = some other ∧ other.phase = .opened ∧ manager.Unnumbered other := by
  obtain ⟨other, there, opened, same⟩ := (indexed.table _ b).1 taken
  have live : object.phase ≠ .gone := by simp [created]
  have live' : other.phase ≠ .gone := by simp [opened]
  have kind : manager.Unnumbered object := by
    by_contra counted
    obtain rfl := indexed.single a b object other here there live live' counted same.symm
    rw [here] at there
    cases there
    rw [created] at opened
    cases opened
  have zero := indexed.zero a object here live kind
  refine ⟨kind, other, there, opened, ?_⟩
  by_contra counted
  have := indexed.range b other there live' counted
  omega

private theorem lookup_set {objects : Nat → Option ManagedSession} {session a : Nat} {object found : ManagedSession} :
    Function.update objects session (some object) a = some found ↔
      a = session ∧ found = object ∨ a ≠ session ∧ objects a = some found := by
  by_cases same : a = session <;> simp [same, eq_comm]

/-- An object goes on to another phase, keeping its id while it lives; the table follows. -/
theorem Indexed.set (indexed : Indexed manager) {session : Nat} {object after : ManagedSession} {sessions : Nat → Option Nat}
    (here : manager.objects session = some object) (live : object.phase ≠ .gone) (origin : after.accepted = object.accepted)
    (sid : after.phase ≠ .gone → after.sid = object.sid)
    (table : ∀ sid a, sessions sid = some a ↔
      a = session ∧ after.phase = .opened ∧ after.sid = sid ∨ a ≠ session ∧ manager.sessions sid = some a) :
    Indexed { manager with sessions, objects := Function.update manager.objects session (some after) } := by
  have kind : manager.Unnumbered after ↔ manager.Unnumbered object := by rw [Unnumbered, Unnumbered, origin]
  refine ⟨?_, ?_, ?_, ?_, ?_, indexed.unclashed⟩
  · intro a unmade
    have other : a ≠ session := by
      rintro rfl
      rw [indexed.fresh a unmade] at here
      cases here
    simp only [Function.update_apply, other, if_false]
    exact indexed.fresh a unmade
  · intro a found there living unnumbered
    rcases lookup_set.1 there with ⟨-, rfl⟩ | ⟨-, old⟩
    · rw [sid living]
      exact indexed.zero session object here live (kind.1 unnumbered)
    · exact indexed.zero a found old living unnumbered
  · intro a found there living counted
    rcases lookup_set.1 there with ⟨-, rfl⟩ | ⟨-, old⟩
    · rw [sid living]
      exact indexed.range session object here live fun unnumbered => counted (kind.2 unnumbered)
    · exact indexed.range a found old living counted
  · intro a b one other first second living living' counted same
    rcases lookup_set.1 first with ⟨rfl, rfl⟩ | ⟨-, old⟩ <;> rcases lookup_set.1 second with ⟨rfl, rfl⟩ | ⟨-, old'⟩
    · rfl
    · rw [sid living] at same
      exact indexed.single a b object other here old' live living' (fun unnumbered => counted (kind.2 unnumbered)) same
    · rw [sid living'] at same
      exact indexed.single a b one object old here living live counted same
    · exact indexed.single a b one other old old' living living' counted same
  · intro key a
    rw [table]
    constructor
    · rintro (⟨rfl, opened, same⟩ | ⟨other, before⟩)
      · exact ⟨after, lookup_set.2 (.inl ⟨rfl, rfl⟩), opened, same⟩
      · obtain ⟨found, there, opened, same⟩ := (indexed.table key a).1 before
        exact ⟨found, lookup_set.2 (.inr ⟨other, there⟩), opened, same⟩
    · rintro ⟨found, there, opened, same⟩
      rcases lookup_set.1 there with ⟨rfl, rfl⟩ | ⟨other, old⟩
      · exact .inl ⟨rfl, opened, same⟩
      · exact .inr ⟨other, (indexed.table key a).2 ⟨found, old, opened, same⟩⟩

theorem Indexed.open (indexed : Indexed manager) {session : Nat} {object : ManagedSession}
    (here : manager.objects session = some object) (created : object.phase = .created)
    (apart : manager.Apart (.setOpen session)) : Indexed (manager.addSession session object) := by
  have untaken : manager.sessions object.sid = none := by
    rw [Option.eq_none_iff_forall_ne_some]
    intro b taken
    obtain ⟨kind, other, there, opened, kind'⟩ := indexed.shared here created taken
    exact apart object here created kind b other there opened kind'
  rw [addSession, untaken]
  refine indexed.set here (by simp [created]) rfl (fun _ => rfl) fun key a => ?_
  have absent : manager.sessions key ≠ some session := by
    intro taken
    obtain ⟨found, there, opened, -⟩ := (indexed.table key session).1 taken
    rw [here] at there
    cases there
    rw [created] at opened
    cases opened
  by_cases same : key = object.sid
  · subst same
    simp [untaken, eq_comm]
  · have same' : object.sid ≠ key := fun equal => same equal.symm
    simp only [Function.update_apply, same, if_false, same', and_false, false_or]
    refine ⟨fun before => ⟨?_, before⟩, And.right⟩
    rintro rfl
    exact absent before

theorem Indexed.close (indexed : Indexed manager) {session : Nat} {object : ManagedSession}
    (here : manager.objects session = some object) (live : object.phase ≠ .gone)
    (apart : manager.Apart (.close session)) : Indexed (manager.closeSession session object) := by
  refine indexed.set here live rfl (fun alive => absurd rfl alive) fun key a => ?_
  simp only [Function.update_apply, reduceCtorEq, false_and, and_false, false_or]
  by_cases same : key = object.sid
  · subst same
    simp only [if_true, reduceCtorEq, false_iff, not_and]
    intro other taken
    cases phase : object.phase with
    | gone => exact live phase
    | opened =>
      have mine := (indexed.table object.sid session).2 ⟨object, here, phase, rfl⟩
      rw [mine] at taken
      exact other (Option.some.inj taken).symm
    | created =>
      obtain ⟨kind, found, there, opened, kind'⟩ := indexed.shared here phase taken
      exact apart object here phase kind a found there opened kind'
  · simp only [same, if_false]
    refine ⟨fun before => ⟨?_, before⟩, And.right⟩
    rintro rfl
    obtain ⟨found, there, -, sid⟩ := (indexed.table key a).1 before
    rw [here] at there
    cases there
    exact same sid.symm

theorem Indexed.makeNumbered (indexed : Indexed manager) (counts : manager.nextSessionid + 1 < 2 ^ 64) (accepted : Bool)
    (kind : manager.kind = .http → accepted = false) : Indexed (manager.makeNumbered accepted) := by
  have next : manager.getNextSessionid = manager.nextSessionid + 1 := Nat.mod_eq_of_lt counts
  refine indexed.add rfl (by omega) (fun unnumbered => ?_) fun _ => ?_
  · have wrong := kind unnumbered.1
    rw [show accepted = true from unnumbered.2] at wrong
    cases wrong
  · simp only [next]
    omega

theorem Indexed.step (indexed : Indexed manager) (counts : manager.Counts action) (apart : manager.Apart action)
    (stepped : manager.step action = some next) : Indexed next := by
  cases action with
  | createSession =>
    cases stepped
    exact indexed.makeNumbered counts false fun _ => rfl
  | dup =>
    cases stepped
    unfold SessionManager.dup
    split
    next kind => exact indexed.makeNumbered counts true fun http => by rw [kind] at http; cases http
    next kind =>
      have unnumbered : manager.Unnumbered ⟨0, true, .created⟩ := ⟨kind, rfl⟩
      exact indexed.add rfl (Nat.le_refl _) (fun _ => rfl) fun counted => absurd unnumbered counted
  | setOpen session =>
    simp only [SessionManager.step] at stepped
    split at stepped
    next => cases stepped
    next object here =>
      rw [Option.ite_none_right_eq_some, Option.some.injEq] at stepped
      obtain ⟨created, rfl⟩ := stepped
      exact indexed.open here created apart
  | close session =>
    simp only [SessionManager.step] at stepped
    split at stepped
    next => cases stepped
    next object here =>
      rw [Option.ite_none_left_eq_some, Option.some.injEq] at stepped
      obtain ⟨live, rfl⟩ := stepped
      exact indexed.close here live apart

/-- Two sessions of `httpsession::dup` at once: the second cannot be added, and closing it unopened
takes the first out of the table. -/
theorem Indexed.apart (indexed : Indexed manager) (kept : ∀ after, manager.step action = some after → after.Identified) :
    manager.Apart action := by
  cases action with
  | createSession | dup => trivial
  | setOpen session =>
    intro object here created kind other object' there opened kind'
    have zero := indexed.zero session object here (by simp [created]) kind
    have zero' := indexed.zero other object' there (by simp [opened]) kind'
    have taken := (indexed.table object.sid other).2 ⟨object', there, opened, zero'.trans zero.symm⟩
    have unclashed := (kept (manager.addSession session object) (by simp [SessionManager.step, here, created])).unclashed
    rw [addSession, taken] at unclashed
    cases unclashed
  | close session =>
    intro object here created kind other object' there opened kind'
    have zero := indexed.zero session object here (by simp [created]) kind
    have zero' := indexed.zero other object' there (by simp [opened]) kind'
    have apart : other ≠ session := by
      rintro rfl
      rw [here] at there
      cases there
      rw [created] at opened
      cases opened
    have mapped := (kept (manager.closeSession session object) (by simp [SessionManager.step, here, created])).mapped other
      object' (by simp [closeSession, apart, there]) opened
    simp [closeSession, zero, zero'] at mapped

theorem new_indexed (kind : ManagerKind) : Indexed { kind } := by
  refine ⟨fun _ _ => rfl, ?_, ?_, ?_, ?_, rfl⟩
  · intro a object here
    cases here
  · intro a object here
    cases here
  · intro a b one other first
    cases first
  · intro sid a
    simp

/-- As long as the counter has not wrapped, every open session is the one its id names exactly when
the sessions of `httpsession::dup` keep apart. -/
theorem identified_iff_apart (kind : ManagerKind) (actions : List ManagerAction)
    (counts : EachStep SessionManager.step Counts { kind } actions) :
    Throughout SessionManager.step Identified { kind } actions ↔ EachStep SessionManager.step Apart { kind } actions :=
  throughout_iff_of_allowed Indexed.identified Indexed.step Indexed.apart (new_indexed kind) counts

/-- Two accepted connections of a plain manager. -/
theorem identified_of_two_accepted :
    Throughout SessionManager.step Identified { kind := .plain } [.createSession, .dup, .setOpen 1, .dup, .setOpen 2] := by
  refine (identified_iff_apart .plain _ ?_).2 ?_
  · refine ⟨by simp only [Counts]; decide, fun next stepped => ?_⟩
    cases stepped
    refine ⟨by simp only [Counts]; decide, fun next stepped => ?_⟩
    cases stepped
    refine ⟨trivial, fun next stepped => ?_⟩
    cases stepped
    exact ⟨by simp only [Counts]; decide, fun _ _ => ⟨trivial, fun _ _ => trivial⟩⟩
  · refine ⟨trivial, fun next stepped => ?_⟩
    cases stepped
    refine ⟨trivial, fun next stepped => ?_⟩
    cases stepped
    refine ⟨(fun object here created unnumbered => nomatch unnumbered.1), fun next stepped => ?_⟩
    cases stepped
    refine ⟨trivial, fun next stepped => ?_⟩
    cases stepped
    exact ⟨(fun object here created unnumbered => nomatch unnumbered.1), fun _ _ => trivial⟩

/-- Two accepted connections of an http manager: the second is deleted in `add_session`. -/
theorem second_http_session_clashes :
    ∃ manager, List.foldlM SessionManager.step { kind := .http } [.createSession, .dup, .setOpen 1, .dup, .setOpen 2] =
        some manager ∧ manager.clashed = true ∧
      ¬ Throughout SessionManager.step Identified { kind := .http } [.createSession, .dup, .setOpen 1, .dup, .setOpen 2] := by
  obtain ⟨manager, ran, clashed⟩ : ∃ manager,
      List.foldlM SessionManager.step { kind := .http } [.createSession, .dup, .setOpen 1, .dup, .setOpen 2] = some manager ∧
      manager.clashed = true := ⟨_, rfl, rfl⟩
  refine ⟨manager, ran, clashed, fun every => ?_⟩
  have unclashed := (every.last ran).unclashed
  rw [clashed] at unclashed
  cases unclashed

end Proofs
end Cassobee
