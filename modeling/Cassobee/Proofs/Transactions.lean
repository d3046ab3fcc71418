import Cassobee.Proofs.HttpLines
import Cassobee.Proofs.Rollback
import Cassobee.Support.Run

/-! When a rollback restores what was unread at its `BEGIN`. There is one saved position, so an inner
`BEGIN` replaces the outer one's, and a `COMMIT` drops what is before the cursor once the cursor has
passed 1 MiB. Both are harmless only as long as nothing has been consumed. -/

namespace Cassobee
open Support

/-- An action that ends normally. An exception ends the sequence. -/
def StreamAction.step (os : Octetsstream) (action : StreamAction) : Option Octetsstream :=
  match action.perform os with
  | .ok () after => some after
  | .error _ _ => none

/-- Where a position is saved or the stream is cut, nothing has been consumed yet. -/
def StreamAction.Undisturbing (unread : List UInt8) (os : Octetsstream) : StreamAction → Prop
  | .transaction .begin => os.unread = unread
  | .transaction .commit => os.pos > 0x100000 → os.unread = unread
  | _ => True

/-- What is left of the stream when `httpprotocol::decode` has looked at the start line: its own rollback
or, after an exception, the one at its end. -/
def peekStartLine (os : Octetsstream) : Octetsstream :=
  match HttpM.newMessage ⟨os, .getRequest⟩ with
  | .ok () parse => parse.os
  | .error _ parse => left (popTransaction .rollback parse.os)

/-- The commit of `getline` does not cut off what it has passed: there is no line, its exception comes
before the commit, the line is empty, or the cursor is still within the first 1 MiB behind it. -/
def PeeksSafely (os : Octetsstream) : Prop :=
  ∀ line rest, os.unread = line ++ 10 :: rest → 10 ∉ line →
    line = [] ∨ 128 ≤ line.headD 10 ∨ os.pos + line.length ≤ 0x100000

namespace Proofs
open Octetsstream

/-- The bytes from the saved position on. -/
def saved (os : Octetsstream) : List UInt8 := os.bytes.drop os.transpos

theorem unread_eq_drop {os : Octetsstream} (behind : os.transpos ≤ os.pos) : os.unread = (saved os).drop (os.pos - os.transpos) := by
  rw [saved, List.drop_drop, Nat.add_sub_cancel' behind]
  rfl

/-- What every action keeps. -/
structure Saving (os : Octetsstream) : Prop where
  bounded : os.Bounded
  behind : os.transpos ≤ os.pos

theorem Saving.unread_length {os : Octetsstream} (saving : Saving os) : os.unread.length ≤ (saved os).length := by
  rw [unread_eq_drop saving.behind, List.length_drop]
  exact Nat.sub_le ..

/-- A cursor that has left the saved position has consumed something. -/
theorem Saving.shorter {os : Octetsstream} (saving : Saving os) (consumed : os.unread ≠ saved os) :
    os.unread.length < (saved os).length := by
  rw [unread_eq_drop saving.behind] at consumed ⊢
  rw [List.length_drop]
  by_contra same
  have length := Nat.le_of_not_lt same
  apply consumed
  by_cases nothing : os.pos - os.transpos = 0
  · rw [nothing, List.drop_zero]
  · have empty : saved os = [] := List.length_eq_zero_iff.1 (by omega)
    rw [empty, List.drop_nil]

/-- A `COMMIT` beyond 1 MiB: the unread bytes become the whole stream. -/
theorem tryShrink_far {os : Octetsstream} (saving : Saving os) (far : os.pos > 0x100000) :
    Saving os.tryShrink ∧ saved os.tryShrink = os.unread ∧ os.tryShrink.unread = os.unread := by
  obtain ⟨valid, content, length⟩ := erase_unread saving.bounded.valid
  rw [tryShrink, if_pos far]
  refine ⟨⟨⟨valid, Nat.le_trans length saving.bounded.bound, Nat.zero_le _⟩, Nat.le_refl _⟩, ?_, ?_⟩
  · rw [saved, Octetsstream.bytes, content]
    rfl
  · rw [Octetsstream.unread, content]
    rfl

/-- One action: what is saved stays, unless the action disturbs it. Then it becomes what is unread at
the time. -/
theorem step_saves {os after : Octetsstream} {action : StreamAction} (saving : Saving os)
    (stepped : action.step os = some after) :
    Saving after ∧ (action.Undisturbing (saved os) os → saved after = saved os) ∧
      (¬ action.Undisturbing (saved os) os → saved after = os.unread) := by
  cases action with
  | pop call =>
    obtain ⟨pos, moved, within⟩ := PopsOnly.moves call.property os
    obtain ⟨low, high⟩ := within saving.bounded
    rw [StreamAction.step, StreamAction.perform] at stepped
    cases popped : call.val os with
    | error thrown stopped => simp [popped] at stepped
    | ok value stopped =>
      simp only [popped, Option.some.injEq] at stepped
      rw [popped] at moved
      obtain rfl : stopped = { os with pos } := moved
      subst stepped
      exact ⟨⟨Bounded.moved saving.bounded high, Nat.le_trans saving.behind low⟩, fun _ => rfl, fun wrong => absurd trivial wrong⟩
  | transaction kind =>
    cases kind with
    | begin =>
      cases stepped
      exact ⟨⟨⟨saving.bounded.valid, saving.bounded.bound, saving.bounded.cursor⟩, Nat.le_refl _⟩, id, fun _ => rfl⟩
    | rollback =>
      rw [StreamAction.step, StreamAction.perform, rollback_eq] at stepped
      by_cases outside : os.transpos > os.size
      · simp [outside] at stepped
      · simp only [outside, if_false, Option.some.injEq] at stepped
        subst stepped
        have cursor := Nat.le_trans saving.behind saving.bounded.cursor
        exact ⟨⟨⟨saving.bounded.valid, saving.bounded.bound, cursor⟩, Nat.le_refl _⟩, fun _ => rfl, fun wrong => absurd trivial wrong⟩
    | commit =>
      cases stepped
      by_cases far : os.pos > 0x100000
      · obtain ⟨kept, content, -⟩ := tryShrink_far saving far
        exact ⟨kept, fun undisturbing => content.trans (undisturbing far), fun _ => content⟩
      · rw [tryShrink, if_neg far]
        exact ⟨saving, fun _ => rfl, fun wrong => absurd (fun here => absurd here far) wrong⟩

theorem undisturbing_of_unread {os : Octetsstream} {unread : List UInt8} (untouched : os.unread = unread)
    (action : StreamAction) : action.Undisturbing unread os := by
  cases action with
  | pop call => trivial
  | transaction kind =>
    cases kind with
    | begin => exact untouched
    | rollback => trivial
    | commit => exact fun _ => untouched

/-- An action that throws leaves what is saved. -/
theorem step_throws {os stopped : Octetsstream} {thrown : Thrown} {action : StreamAction} (saving : Saving os)
    (failed : action.perform os = .error thrown stopped) :
    Saving stopped ∧ saved stopped = saved os ∧ action.Undisturbing (saved os) os := by
  cases action with
  | pop call =>
    obtain ⟨pos, moved, within⟩ := PopsOnly.moves call.property os
    obtain ⟨low, high⟩ := within saving.bounded
    rw [show call.val os = .error thrown stopped from failed] at moved
    obtain rfl : stopped = { os with pos } := moved
    exact ⟨⟨Bounded.moved saving.bounded high, Nat.le_trans saving.behind low⟩, rfl, trivial⟩
  | transaction kind =>
    cases kind with
    | begin => cases failed
    | rollback =>
      rw [StreamAction.perform, rollback_eq] at failed
      by_cases outside : os.transpos > os.size
      · simp only [outside, if_true] at failed
        cases failed
        exact ⟨saving, rfl, trivial⟩
      · simp [outside] at failed
    | commit => cases failed

theorem performAll_cons {os : Octetsstream} {action : StreamAction} {actions : List StreamAction} :
    left (performAll (action :: actions) os) =
      match action.perform os with
      | .ok () after => left (performAll actions after)
      | .error _ stopped => stopped := by
  rw [performAll]
  cases performed : action.perform os with
  | ok value after => rw [run_bind performed]
  | error thrown stopped =>
    rw [run_bind_error performed]
    rfl

/-- What is saved does not grow. -/
theorem performAll_saving {os : Octetsstream} (saving : Saving os) (actions : List StreamAction) :
    Saving (left (performAll actions os)) ∧ (saved (left (performAll actions os))).length ≤ (saved os).length := by
  induction actions generalizing os with
  | nil => exact ⟨saving, Nat.le_refl _⟩
  | cons action actions ih =>
    rw [performAll_cons]
    cases performed : action.perform os with
    | error thrown stopped =>
      obtain ⟨kept, same, -⟩ := step_throws saving performed
      exact ⟨kept, Nat.le_of_eq (congrArg List.length same)⟩
    | ok value after =>
      obtain ⟨kept, undisturbed, disturbed⟩ := step_saves saving (show action.step os = some after by
        rw [StreamAction.step, performed])
      obtain ⟨last, shorter⟩ := ih kept
      refine ⟨last, Nat.le_trans shorter ?_⟩
      by_cases undisturbing : action.Undisturbing (saved os) os
      · exact Nat.le_of_eq (congrArg List.length (undisturbed undisturbing))
      · rw [disturbed undisturbing]
        exact saving.unread_length

/-- What is saved survives exactly the sequences that never disturb it. -/
theorem performAll_saved_iff {os : Octetsstream} {unread : List UInt8} (saving : Saving os) (start : saved os = unread)
    (actions : List StreamAction) :
    saved (left (performAll actions os)) = unread ↔
      EachStep StreamAction.step (StreamAction.Undisturbing unread) os actions := by
  induction actions generalizing os with
  | nil => exact iff_of_true start trivial
  | cons action actions ih =>
    subst start
    rw [performAll_cons]
    cases performed : action.perform os with
    | error thrown stopped =>
      obtain ⟨-, same, undisturbing⟩ := step_throws saving performed
      refine iff_of_true same ⟨undisturbing, fun next stepped => ?_⟩
      simp [StreamAction.step, performed] at stepped
    | ok value after =>
      have stepped : action.step os = some after := by rw [StreamAction.step, performed]
      obtain ⟨kept, undisturbed, disturbed⟩ := step_saves saving stepped
      by_cases undisturbing : action.Undisturbing (saved os) os
      · refine (ih kept (undisturbed undisturbing)).trans ⟨fun later => .cons undisturbing stepped later, fun each => ?_⟩
        exact each.2 after stepped
      · -- what is saved from here on is shorter, and it stays so
        refine iff_of_false (fun same => ?_) fun each => undisturbing each.1
        have consumed := saving.shorter fun untouched => undisturbing (undisturbing_of_unread untouched action)
        have shorter := (performAll_saving kept actions).2
        rw [disturbed undisturbing, same] at shorter
        exact Nat.not_lt.2 shorter consumed

/-- A rollback, whether it throws or not, shows what was saved. -/
theorem unread_rollback {os : Octetsstream} (saving : Saving os) : (left (popTransaction .rollback os)).unread = saved os := by
  rw [rollback_eq]
  split
  next outside =>
    have nothing {count : Nat} (far : os.size ≤ count) : os.bytes.drop count = [] := by
      apply List.drop_eq_nil_of_le
      rw [Octetsstream.bytes, length_bytes saving.bounded.valid]
      exact far
    have behind := saving.behind
    rw [saved, nothing (Nat.le_of_lt outside)]
    exact nothing (show os.size ≤ os.pos by omega)
  next => rfl

theorem attempt_restores_iff {os : Octetsstream} (bounded : os.Bounded) (actions : List StreamAction) :
    (attempt os actions).unread = os.unread ↔
      EachStep StreamAction.step (StreamAction.Undisturbing os.unread) { os with transpos := os.pos } actions := by
  have saving : Saving { os with transpos := os.pos } := ⟨⟨bounded.valid, bounded.bound, bounded.cursor⟩, Nat.le_refl _⟩
  rw [attempt, unread_rollback (performAll_saving saving actions).1]
  exact performAll_saved_iff saving rfl actions

/-! ## The start line -/

theorem newMessage_error {os : Octetsstream} {thrown : HttpThrown} {stopped : HttpParse}
    (failed : HttpM.getline 10 (lineBegun ⟨os, .getRequest⟩) = .error thrown stopped) :
    peekStartLine os = left (popTransaction .rollback stopped.os) := by
  have begun : HttpM.ofStream (popTransaction .begin) ⟨os, .getRequest⟩ = .ok () (lineBegun ⟨os, .getRequest⟩) := rfl
  rw [peekStartLine, HttpM.newMessage, run_bind begun, run_bind_error failed]

/-- A rollback that throws is followed by another one, which changes nothing. -/
theorem newMessage_some {os : Octetsstream} {line : Option (List UInt8)} {stopped : HttpParse}
    (returned : HttpM.getline 10 (lineBegun ⟨os, .getRequest⟩) = .ok line stopped) :
    peekStartLine os = left (popTransaction .rollback stopped.os) := by
  have begun : HttpM.ofStream (popTransaction .begin) ⟨os, .getRequest⟩ = .ok () (lineBegun ⟨os, .getRequest⟩) := rfl
  rw [peekStartLine, HttpM.newMessage, run_bind begun, run_bind returned]
  by_cases outside : stopped.os.transpos > stopped.os.size
  · have thrown := rollback_eq stopped.os
    rw [if_pos outside] at thrown
    simp only [bind, EStateM.bind, HttpM.setMessage, HttpM.ofStream, thrown, left]
  · have back := rollback_eq stopped.os
    rw [if_neg outside] at back
    simp only [bind, EStateM.bind, HttpM.setMessage, HttpM.ofStream, back, left]

theorem peek_restores_iff {os : Octetsstream} (bounded : os.Bounded) :
    (peekStartLine os).unread = os.unread ↔ PeeksSafely os := by
  have saving {pos : Nat} (low : os.pos ≤ pos) (high : pos ≤ max os.pos os.size) : Saving ⟨os.data, pos, os.pos⟩ :=
    ⟨⟨bounded.valid, bounded.bound, (Bounded.moved bounded high).cursor⟩, low⟩
  by_cases present : (10 : UInt8) ∈ os.unread
  · obtain ⟨line, rest, content, clean⟩ := List.eq_append_cons_of_mem present
    have only {line' rest' : List UInt8} (content' : os.unread = line' ++ 10 :: rest') (clean' : 10 ∉ line') : line' = line := by
      rw [← takeWhile_of_split clean', ← content', content, takeWhile_of_split clean]
    have passed : os.pos + line.length ≤ max os.pos os.size := by
      have total := unread_length bounded.valid
      rw [content, List.length_append, List.length_cons] at total
      omega
    have here := saving (Nat.le_add_right os.pos line.length) passed
    by_cases negative : 128 ≤ lineHead line 10
    · rw [newMessage_error (getline_negative bounded.valid (lt_wordSize bounded.bound) content clean negative)]
      refine iff_of_true (unread_rollback here) fun line' rest' content' clean' => .inr (.inl ?_)
      rw [only content' clean']
      exact negative
    · rw [newMessage_some (getline_some bounded.valid (lt_wordSize bounded.bound) content clean negative)]
      by_cases far : os.pos + line.length > 0x100000
      · obtain ⟨kept, cut, -⟩ := tryShrink_far here far
        have shown := (unread_rollback kept).trans (cut.trans (unread_behind content os.pos))
        constructor
        · intro same line' rest' content' clean'
          refine .inl ?_
          rw [only content' clean']
          have length := congrArg List.length (shown.symm.trans (same.trans content))
          rw [List.length_append] at length
          exact List.length_eq_zero_iff.1 (by omega)
        · intro safe
          rcases safe line rest content clean with rfl | above | near
          · exact shown.trans content.symm
          · exact absurd above negative
          · exact absurd near (Nat.not_le.2 far)
      · have uncut : (⟨os.data, os.pos + line.length, os.pos⟩ : Octetsstream).tryShrink = ⟨os.data, os.pos + line.length, os.pos⟩ :=
          if_neg far
        refine iff_of_true ?_ fun line' rest' content' clean' => .inr (.inr ?_)
        · exact (congrArg (fun stream => (left (popTransaction .rollback stream)).unread) uncut).trans (unread_rollback here)
        · rw [only content' clean']
          exact Nat.le_of_not_lt far
  · have failed : HttpM.getline 10 (lineBegun ⟨os, .getRequest⟩) = .error .outOfRange (lineBegun ⟨os, .getRequest⟩) :=
      getline_missing present
    rw [newMessage_error failed]
    refine iff_of_true (unread_rollback (saving (Nat.le_refl _) (Nat.le_max_left ..))) fun line rest content _ => ?_
    exact absurd (by rw [content]; simp) present

/-- A rollback restores what was unread exactly after the sequences that save no position and cut no
stream once something has been consumed. For the start line of an HTTP message this is a question of
where it ends. -/
theorem rollbacks_restore_iff {os : Octetsstream} (bounded : os.Bounded) :
    (∀ actions, (attempt os actions).unread = os.unread ↔
      EachStep StreamAction.step (StreamAction.Undisturbing os.unread) { os with transpos := os.pos } actions) ∧
    ((peekStartLine os).unread = os.unread ↔ PeeksSafely os) :=
  ⟨attempt_restores_iff bounded, peek_restores_iff bounded⟩

/-- Two bytes, which are popped one by one. -/
def twoBytes : Octetsstream := ⟨⟨[1, 2], 2⟩, 0, 0⟩

def popByte : StreamAction :=
  .pop ⟨do let _ ← (Ty.scalar (.raw Pod.byte)).pop 0, (PopsOnly.pop _ 0).bind fun _ => .pure ()⟩

/-- A pop and an empty transaction. -/
def savedAgain : List StreamAction := [popByte, .transaction .begin, .transaction .commit]

theorem savedAgain_not_restored : twoBytes.Bounded ∧ Nested savedAgain ∧
    (attempt twoBytes savedAgain).unread ≠ twoBytes.unread := by
  have restored : (attempt twoBytes savedAgain).unread = [2] := rfl
  refine ⟨⟨Nat.le_refl 2, by decide, by decide⟩, .pop _ (.commit .nil .nil), ?_⟩
  rw [restored]
  decide

/-- An empty transaction, and then a pop. -/
theorem rollbacks_restore_of_two :
    (attempt twoBytes [.transaction .begin, .transaction .commit, popByte]).unread = twoBytes.unread ∧
      (peekStartLine twoBytes).unread = twoBytes.unread := by
  obtain ⟨sequences, peek⟩ := @rollbacks_restore_iff twoBytes ⟨Nat.le_refl 2, by decide, by decide⟩
  constructor
  · refine (sequences _).2 (.cons rfl rfl (.cons (fun _ => rfl) rfl ⟨trivial, fun _ _ => trivial⟩))
  · refine peek.2 fun line rest content _ => ?_
    have absent : (10 : UInt8) ∉ twoBytes.unread := by decide
    exact absurd (by rw [content]; simp) absent

end Proofs
end Cassobee
