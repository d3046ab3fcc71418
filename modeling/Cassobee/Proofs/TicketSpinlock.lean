import Cassobee.TicketSpinlock
import Cassobee.Support.Run
import Mathlib.Data.Fintype.Card

/-! The threads in `lock` are a queue as long as `try_lock` does not return `true`. -/

namespace Cassobee.Proofs
open Support TicketThreads

variable {ρ : Type}

/-- One thread at most is in the lock; who was admitted had the ticket that was served, and a ticket is served again
only `2 ^ 32` releases later. -/
structure MutuallyExclusive (state : TicketThreads ρ) : Prop where
  one : ∀ thread other, state.threads thread = .holding → state.threads other = .holding → thread = other
  served : ∀ entry ∈ state.admitted, entry.1 = UInt32.ofNat entry.2
  rounds : state.admitted.Pairwise fun before after => before.1 = after.1 → before.2 + 2 ^ 32 ≤ after.2

/-- This step is not a `try_lock` that returns `true`. -/
def TryFails (state : TicketThreads ρ) : TicketAction ρ → Prop
  | .tryCompare thread => state.threads thread ≠ .trying state.lock.serving
  | _ => True

instance (state : TicketThreads ρ) : (action : TicketAction ρ) → Decidable (TryFails state action)
  | .tryCompare thread => inferInstanceAs (Decidable (state.threads thread ≠ .trying state.lock.serving))
  | .lock _ | .spin _ | .tryLoad _ | .unlock _ => inferInstanceAs (Decidable True)

/-- The queue of the threads that have a ticket: the head is served, or about to be. -/
structure InLine (state : TicketThreads ρ) (queue : List ρ) : Prop where
  distinct : queue.Nodup
  serving : state.lock.serving = UInt32.ofNat state.released
  next : state.lock.nextTicket = UInt32.ofNat (state.released + queue.length)
  placed : ∀ place thread, queue[place]? = some thread →
    state.threads thread = .waiting (UInt32.ofNat (state.released + place)) ∨ place = 0 ∧ state.threads thread = .holding
  others : ∀ thread, thread ∉ queue → state.threads thread = .idle ∨ ∃ ticket, state.threads thread = .trying ticket
  served : ∀ entry ∈ state.admitted, entry.1 = UInt32.ofNat entry.2
  past : ∀ entry ∈ state.admitted, entry.2 < state.released ∨
    entry.2 = state.released ∧ ∃ thread, queue.head? = some thread ∧ state.threads thread = .holding
  increasing : state.admitted.Pairwise fun before after => before.2 < after.2

variable {state next : TicketThreads ρ} {queue : List ρ} {thread : ρ} {action : TicketAction ρ}

theorem ofNat_inj {one two : Nat} (same : UInt32.ofNat one = UInt32.ofNat two) : one % 2 ^ 32 = two % 2 ^ 32 := by
  have values := congrArg UInt32.toNat same
  rwa [UInt32.toNat_ofNat', UInt32.toNat_ofNat'] at values

namespace InLine

theorem initial : InLine (.initial : TicketThreads ρ) [] := by
  constructor <;> simp [TicketThreads.initial]

/-- Who holds the lock is the head of the queue. -/
theorem holder (queued : InLine state queue) (holds : state.threads thread = .holding) : queue.head? = some thread := by
  by_cases member : thread ∈ queue
  · obtain ⟨place, found⟩ := List.mem_iff_getElem?.1 member
    obtain waits | ⟨rfl, -⟩ := queued.placed place thread found
    · rw [holds] at waits
      exact absurd waits (by simp)
    · rwa [List.head?_eq_getElem?]
  · obtain idle | ⟨ticket, trying⟩ := queued.others thread member
    · rw [holds] at idle
      exact absurd idle (by simp)
    · rw [holds] at trying
      exact absurd trying (by simp)

theorem exclusive (queued : InLine state queue) : MutuallyExclusive state := by
  refine ⟨fun thread other holds also => ?_, queued.served, ?_⟩
  · have same := (queued.holder holds).symm.trans (queued.holder also)
    exact Option.some.inj same
  · apply queued.increasing.imp_of_mem
    intro before after member member' later same
    have modulo := ofNat_inj ((queued.served before member).symm.trans (same.trans (queued.served after member')))
    omega

/-- The ticket of a waiting thread is served when it is the head. -/
theorem head_of_served [Fintype ρ] (few : Fintype.card ρ < 2 ^ 32) (queued : InLine state queue)
    (waits : state.threads thread = .waiting state.lock.serving) : queue.head? = some thread := by
  by_cases member : thread ∈ queue
  · obtain ⟨place, found⟩ := List.mem_iff_getElem?.1 member
    have short := queued.distinct.length_le_card
    obtain ⟨inside, -⟩ := List.getElem?_eq_some_iff.1 found
    obtain ticket | ⟨-, holds⟩ := queued.placed place thread found
    · rw [waits, queued.serving] at ticket
      have modulo := ofNat_inj (TicketStage.waiting.inj ticket)
      obtain rfl : place = 0 := by omega
      rwa [List.head?_eq_getElem?]
    · rw [waits] at holds
      exact absurd holds (by simp)
  · obtain idle | ⟨ticket, trying⟩ := queued.others thread member
    · rw [waits] at idle
      exact absurd idle (by simp)
    · rw [waits] at trying
      exact absurd trying (by simp)

theorem unqueued (queued : InLine state queue) (off : state.threads thread = .idle ∨ ∃ ticket, state.threads thread = .trying ticket) :
    thread ∉ queue := by
  intro member
  obtain ⟨place, found⟩ := List.mem_iff_getElem?.1 member
  obtain waits | ⟨-, holds⟩ := queued.placed place thread found
  · simp [waits] at off
  · simp [holds] at off

variable [DecidableEq ρ]

/-- A thread outside of the queue stays there. -/
theorem setThread_off {stage : TicketStage} (queued : InLine state queue) (outside : thread ∉ queue)
    (off : stage = .idle ∨ ∃ ticket, stage = .trying ticket) : InLine (state.setThread thread stage) queue := by
  have same {other : ρ} (member : other ∈ queue) : (state.setThread thread stage).threads other = state.threads other :=
    setThread_of_ne (ne_of_mem_of_not_mem member outside) ..
  refine { queued with placed := ?_, others := ?_, past := ?_ }
  · intro place other found
    rw [same (List.mem_of_getElem? found)]
    exact queued.placed place other found
  · intro other outside'
    by_cases here : other = thread
    · subst here
      rwa [setThread_self]
    · rw [setThread_of_ne here]
      exact queued.others other outside'
  · intro entry member
    obtain before | ⟨now, head, first, holds⟩ := queued.past entry member
    · exact .inl before
    · refine .inr ⟨now, head, first, ?_⟩
      rwa [same (List.mem_of_head? first)]

theorem lock (queued : InLine state queue) (idle : state.threads thread = .idle) :
    InLine (TicketThreads.setThread { state with lock.nextTicket := state.lock.nextTicket + 1 } thread
      (.waiting state.lock.nextTicket)) (queue ++ [thread]) := by
  have outside := queued.unqueued (.inl idle)
  refine ⟨?_, queued.serving, ?_, ?_, ?_, queued.served, ?_, queued.increasing⟩
  · exact List.nodup_append.2 ⟨queued.distinct, List.nodup_singleton _, by grind⟩
  · rw [List.length_append, List.length_singleton, ← Nat.add_assoc, UInt32.ofNat_add]
    exact congrArg (· + 1) queued.next
  · intro place other found
    by_cases last : place < queue.length
    · rw [List.getElem?_append_left last] at found
      rw [setThread_of_ne (ne_of_mem_of_not_mem (List.mem_of_getElem? found) outside)]
      exact queued.placed place other found
    · obtain ⟨rfl, rfl⟩ : place = queue.length ∧ thread = other := by
        rw [List.getElem?_append_right (by omega), List.getElem?_singleton] at found
        split at found
        · exact ⟨by omega, Option.some.inj found⟩
        · cases found
      rw [setThread_self, queued.next]
      exact .inl rfl
  · intro other outside'
    obtain ⟨before, away⟩ := not_or.1 (List.mem_append.not.1 outside')
    rw [setThread_of_ne (by simpa using away)]
    exact queued.others other before
  · intro entry member
    obtain before | ⟨now, head, first, holds⟩ := queued.past entry member
    · exact .inl before
    · refine .inr ⟨now, head, ?_, ?_⟩
      · rw [List.head?_append, first]
        rfl
      · rwa [setThread_of_ne (ne_of_mem_of_not_mem (List.mem_of_head? first) outside)]

theorem enter [Fintype ρ] (few : Fintype.card ρ < 2 ^ 32) (queued : InLine state queue)
    (waits : state.threads thread = .waiting state.lock.serving) :
    InLine (TicketThreads.setThread { state with admitted := state.admitted ++ [(state.lock.serving, state.released)] } thread
      .holding) queue := by
  have head := queued.head_of_served few waits
  have before {entry : UInt32 × Nat} (member : entry ∈ state.admitted) : entry.2 < state.released := by
    obtain before | ⟨-, other, first, holds⟩ := queued.past entry member
    · exact before
    · obtain rfl := Option.some.inj (head.symm.trans first)
      rw [waits] at holds
      cases holds
  refine ⟨queued.distinct, queued.serving, queued.next, ?_, ?_, ?_, ?_, ?_⟩
  · intro place other found
    by_cases here : other = thread
    · subst here
      rw [List.head?_eq_getElem?] at head
      obtain ⟨inside, -⟩ := List.getElem?_eq_some_iff.1 found
      obtain rfl : place = 0 := (List.getElem?_inj inside queued.distinct).1 (found.trans head.symm)
      exact .inr ⟨rfl, setThread_self ..⟩
    · rw [setThread_of_ne here]
      exact queued.placed place other found
  · intro other outside
    rw [setThread_of_ne (ne_of_mem_of_not_mem (List.mem_of_head? head) outside).symm]
    exact queued.others other outside
  · intro entry member
    obtain old | new := List.mem_append.1 member
    · exact queued.served entry old
    · rw [List.mem_singleton.1 new]
      exact queued.serving
  · intro entry member
    obtain old | new := List.mem_append.1 member
    · exact .inl (before old)
    · exact .inr ⟨by rw [List.mem_singleton.1 new]; rfl, thread, head, setThread_self ..⟩
  · refine List.pairwise_append.2 ⟨queued.increasing, List.pairwise_singleton .., fun entry old new member => ?_⟩
    rw [List.mem_singleton.1 member]
    exact before old

theorem unlock (queued : InLine state queue) (holds : state.threads thread = .holding) :
    InLine (TicketThreads.setThread
      { state with lock.serving := state.lock.serving + 1, released := state.released + 1 } thread .idle) queue.tail := by
  obtain ⟨rest, rfl⟩ := List.head?_eq_some_iff.1 (queued.holder holds)
  obtain ⟨outside, distinct⟩ := List.nodup_cons.1 queued.distinct
  refine ⟨distinct, ?_, ?_, ?_, ?_, queued.served, ?_, queued.increasing⟩
  · exact (congrArg (· + 1) queued.serving).trans (UInt32.ofNat_add ..).symm
  · have next := queued.next
    rwa [List.length_cons, Nat.add_comm rest.length, ← Nat.add_assoc] at next
  · intro place other found
    rw [List.tail_cons] at found
    have away := ne_of_mem_of_not_mem (List.mem_of_getElem? found) outside
    rw [setThread_of_ne away]
    obtain waits | ⟨later, -⟩ := queued.placed (place + 1) other found
    · rw [Nat.add_comm place, ← Nat.add_assoc] at waits
      exact .inl waits
    · omega
  · intro other outside'
    by_cases here : other = thread
    · subst here
      exact .inl (setThread_self ..)
    · rw [setThread_of_ne here]
      exact queued.others other (by simpa [here] using outside')
  · intro entry member
    obtain before | ⟨now, -⟩ := queued.past entry member
    · exact .inl (Nat.lt_succ_of_lt before)
    · exact .inl (Nat.lt_succ_of_le (Nat.le_of_eq now))

theorem step [Fintype ρ] (few : Fintype.card ρ < 2 ^ 32) (queued : InLine state queue) (fails : TryFails state action)
    (stepped : state.step action = some next) : ∃ queue', InLine next queue' := by
  cases action with
  | lock thread =>
    simp only [TicketThreads.step] at stepped
    split at stepped
    next idle =>
      cases stepped
      exact ⟨_, queued.lock idle⟩
    next => cases stepped
  | spin thread =>
    simp only [TicketThreads.step] at stepped
    split at stepped
    next ticket waits =>
      split at stepped
      next =>
        cases stepped
        exact ⟨queue, queued⟩
      next served =>
        obtain rfl := not_not.1 served
        cases stepped
        exact ⟨queue, queued.enter few waits⟩
    next => cases stepped
  | tryLoad thread =>
    simp only [TicketThreads.step] at stepped
    split at stepped
    next idle =>
      cases stepped
      exact ⟨queue, queued.setThread_off (queued.unqueued (.inl idle)) (.inr ⟨_, rfl⟩)⟩
    next => cases stepped
  | tryCompare thread =>
    simp only [TicketThreads.step] at stepped
    split at stepped
    next ticket trying =>
      have other : state.lock.serving ≠ ticket := by
        rintro rfl
        exact fails trying
      rw [if_neg other] at stepped
      cases stepped
      exact ⟨queue, queued.setThread_off (queued.unqueued (.inr ⟨ticket, trying⟩)) (.inl rfl)⟩
    next => cases stepped
  | unlock thread =>
    simp only [TicketThreads.step] at stepped
    split at stepped
    next holds =>
      cases stepped
      exact ⟨_, queued.unlock holds⟩
    next => cases stepped

end InLine

theorem not_exclusive {other : ρ} (holds : state.threads thread = .holding) (also : state.threads other = .holding)
    (away : other ≠ thread) : ¬ MutuallyExclusive state :=
  fun exclusive => away (exclusive.one other thread also holds)

section
variable [DecidableEq ρ]

theorem step_ticket (idle : state.threads thread = .idle) : state.step (.lock thread) =
    some (setThread { state with lock.nextTicket := state.lock.nextTicket + 1 } thread (.waiting state.lock.nextTicket)) := by
  simp only [TicketThreads.step, idle]

theorem step_admit (waits : state.threads thread = .waiting state.lock.serving) : state.step (.spin thread) =
    some (setThread { state with admitted := state.admitted ++ [(state.lock.serving, state.released)] } thread .holding) := by
  simp only [TicketThreads.step, waits, ne_eq, not_true_eq_false, if_false]

theorem admitted_beside {other : ρ} (holds : state.threads thread = .holding)
    (waits : state.threads other = .waiting state.lock.serving) (away : other ≠ thread) :
    ∃ final, state.step (.spin other) = some final ∧ ¬ MutuallyExclusive final := by
  refine ⟨_, step_admit waits, not_exclusive ?_ (setThread_self ..) away⟩
  rwa [setThread_of_ne away.symm]

/-- The thread that is served, or the next one to call `lock`, enters beside a `try_lock` that has returned `true`. -/
theorem InLine.broken (queued : InLine state queue) {other : ρ} (compares : state.threads thread = .trying state.lock.serving)
    (away : other ≠ thread) (idle : state.threads other = .idle) :
    ∃ (actions : List (TicketAction ρ)) (final : TicketThreads ρ), actions.length ≤ 2 ∧
      actions.foldlM TicketThreads.step (state.setThread thread .holding) = some final ∧ ¬ MutuallyExclusive final := by
  have holds := setThread_self state thread .holding
  cases queue with
  | nil =>
    have free := (setThread_of_ne away state .holding).trans idle
    have ticket : (state.setThread thread .holding).lock.nextTicket = state.lock.serving := queued.next.trans queued.serving.symm
    obtain ⟨locked, taken, waits, still⟩ : ∃ locked, (state.setThread thread .holding).step (.lock other) = some locked ∧
        locked.threads other = .waiting locked.lock.serving ∧ locked.threads thread = .holding := by
      refine ⟨_, step_ticket free, ?_, ?_⟩
      · rw [setThread_self, ticket]
        rfl
      · rwa [setThread_of_ne away.symm]
    obtain ⟨final, admitted, two⟩ := admitted_beside still waits away
    refine ⟨[.lock other, .spin other], final, Nat.le_refl _, ?_, two⟩
    rw [List.foldlM_cons, taken, Option.bind_eq_bind, Option.bind_some, List.foldlM_cons, admitted]
    rfl
  | cons head rest =>
    have differs : head ≠ thread := by
      rintro rfl
      exact queued.unqueued (.inr ⟨_, compares⟩) (List.mem_cons_self ..)
    have same := setThread_of_ne differs state .holding
    obtain waits | ⟨-, also⟩ := queued.placed 0 head rfl
    · rw [Nat.add_zero, ← queued.serving] at waits
      obtain ⟨final, admitted, two⟩ := admitted_beside holds (same.trans waits) differs
      refine ⟨[.spin head], final, Nat.le_succ 1, ?_, two⟩
      rw [List.foldlM_cons, admitted]
      rfl
    · exact ⟨[], _, Nat.zero_le _, rfl, not_exclusive holds (same.trans also) differs⟩

end

/-- As long as no `try_lock` returns `true` the lock is exclusive. Once one has, another thread needs two accesses to
enter beside it. -/
theorem exclusive_of_tryFails [Fintype ρ] [DecidableEq ρ] (few : Fintype.card ρ < 2 ^ 32) (actions : List (TicketAction ρ))
    (each : EachStep TicketThreads.step TryFails .initial actions) :
    Throughout TicketThreads.step MutuallyExclusive .initial actions ∧
    ∀ state thread other, actions.foldlM TicketThreads.step .initial = some state → ¬ TryFails state (.tryCompare thread) →
      other ≠ thread → state.threads other = .idle →
      ∃ (next : TicketThreads ρ) (later : List (TicketAction ρ)) (final : TicketThreads ρ),
        state.step (.tryCompare thread) = some next ∧ later.length ≤ 2 ∧
        later.foldlM TicketThreads.step next = some final ∧ ¬ MutuallyExclusive final := by
  have start : ∃ queue, InLine (.initial : TicketThreads ρ) queue := ⟨[], .initial⟩
  have kept {state next : TicketThreads ρ} {action : TicketAction ρ} (queued : ∃ queue, InLine state queue)
      (fails : TryFails state action) (stepped : state.step action = some next) : ∃ queue, InLine next queue := by
    obtain ⟨queue, queued⟩ := queued
    exact queued.step few fails stepped
  have every : Throughout TicketThreads.step (fun state => ∃ queue, InLine state queue) .initial actions :=
    throughout_of_eachStep id kept start each
  refine ⟨every.imp fun ⟨queue, queued⟩ => queued.exclusive, fun state thread other ran returns away idle => ?_⟩
  obtain ⟨queue, queued⟩ := every.last ran
  have compares : state.threads thread = .trying state.lock.serving := not_not.1 returns
  obtain ⟨later, final, short, ran', broken⟩ := queued.broken compares away idle
  refine ⟨_, later, final, ?_, short, ran', broken⟩
  simp only [TicketThreads.step, compares, if_true]

theorem exclusive_of_tryFails_sample :
    Throughout TicketThreads.step MutuallyExclusive (.initial : TicketThreads (Fin 2))
      [.lock 0, .lock 1, .spin 0, .spin 1, .unlock 0, .spin 1, .tryLoad 0, .tryCompare 0, .unlock 1] :=
  (exclusive_of_tryFails (by decide) _ (by decide)).1

theorem entered_beside :
    ∃ state : TicketThreads (Fin 2),
      [.tryLoad 0, .tryCompare 0, .lock 1, .spin 1].foldlM TicketThreads.step .initial = some state ∧
      state.threads 0 = .holding ∧ state.threads 1 = .holding ∧ ¬ MutuallyExclusive state :=
  ⟨_, rfl, rfl, rfl, fun exclusive => absurd (exclusive.one 0 1 rfl rfl) (by decide)⟩

end Cassobee.Proofs
