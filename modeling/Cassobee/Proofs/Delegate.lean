import Cassobee.Delegate
import Cassobee.Support.Refinement
import Mathlib.Data.List.Nodup

/-! The three storages of a `multicast_delegate` are one list of handlers. -/

namespace Cassobee.Proofs
open Support DelegateStorage MulticastDelegate

variable {η ρ : Type}

/-- What a delegate is for: the handlers in the order of their binds, and the ids that were given. -/
structure Bindings (η : Type) where
  handlers : List (Int × η) := []
  issued : List Int := []

def Bindings.perform (throws : η → ρ → Bool) (bindings : Bindings η) : DelegateAction η ρ → DelegateAnswer η × Bindings η
  | .bind executor =>
    let id : Int := bindings.issued.length
    (.id id, ⟨bindings.handlers ++ [(id, executor)], bindings.issued ++ [id]⟩)
  | .unbind id => (.done, { bindings with handlers := bindings.handlers.filter fun kv => ¬ kv.1 = id })
  | .isbound => (.bound (!bindings.handlers.isEmpty), bindings)
  | .broadcast params =>
    (.called (bindings.handlers.map Prod.snd) (bindings.handlers.countP fun kv => throws kv.2 params), bindings)

/-- The delegate has the handlers that are bound, and no id was given twice. -/
def HasHandlers (delegate : MulticastDelegate η) (bindings : Bindings η) : Prop :=
  delegate.data = bindings.handlers ∧ bindings.issued.Nodup

def IsBind : DelegateAction η ρ → Bool
  | .bind _ => true
  | _ => false

variable {delegate : MulticastDelegate η} {bindings : Bindings η} {throws : η → ρ → Bool} {action : DelegateAction η ρ}
  {actions : List (DelegateAction η ρ)} {data : List (Int × η)}

/-! ## The storages -/

theorem mapInsert_last {kv : Int × η} (last : ∀ item ∈ data, item.1 < kv.1) : mapInsert kv data = data ++ [kv] := by
  induction data with
  | nil => rfl
  | cons item data ih =>
    have less := last item (List.mem_cons_self ..)
    rw [mapInsert, if_neg (by omega), if_pos less, ih fun other member => last other (List.mem_cons_of_mem _ member)]
    rfl

theorem mapErase_eq (increasing : data.Pairwise fun one two => one.1 < two.1) (key : Int) :
    mapErase key data = data.filter fun kv => ¬ kv.1 = key := by
  induction data with
  | nil => rfl
  | cons item data ih =>
    obtain ⟨first, rest⟩ := List.pairwise_cons.1 increasing
    rw [mapErase]
    split
    next same =>
      -- The others have larger keys.
      have others : ∀ kv ∈ data, ¬ kv.1 = key := fun kv member => by
        have larger := first kv member
        omega
      rw [List.filter_cons_of_neg (by simpa using same), List.filter_eq_self.2 (by simpa using others)]
    next other => rw [List.filter_cons_of_pos (by simpa using other), ih rest]

theorem add_eq (storage : DelegateStorage) {kv : Int × η} (last : ∀ item ∈ data, item.1 < kv.1) :
    storage.add data kv = data ++ [kv] := by
  cases storage with
  | vector | list => rfl
  | map => exact mapInsert_last last

theorem del_eq (storage : DelegateStorage) (increasing : data.Pairwise fun one two => one.1 < two.1) (key : Int) :
    storage.del data key = data.filter fun kv => ¬ kv.1 = key := by
  cases storage with
  | vector | list => rfl
  | map => exact mapErase_eq increasing key

theorem broadcastLoop_eq (throws : η → ρ → Bool) (params : ρ) (data : List (Int × η)) :
    broadcastLoop throws params data = (data.map Prod.snd, data.countP fun kv => throws kv.2 params) := by
  induction data with
  | nil => rfl
  | cons kv data ih =>
    obtain ⟨id, executor⟩ := kv
    rw [broadcastLoop, ih, List.map_cons, List.countP_cons]
    cases throws executor params <;> rfl

theorem broadcast_eq (throws : η → ρ → Bool) (delegate : MulticastDelegate η) (params : ρ) :
    delegate.broadcast throws params = (delegate.data.map Prod.snd, delegate.data.countP fun kv => throws kv.2 params) := by
  rw [broadcast]
  split
  next empty => simp [List.isEmpty_iff.1 empty]
  next => exact broadcastLoop_eq ..

/-! ## One step -/

/-- The keys are given in increasing order, and the map keeps that order. -/
structure BoundInOrder (delegate : MulticastDelegate η) (bindings : Bindings η) : Prop where
  data : delegate.data = bindings.handlers
  issued : bindings.issued = (List.range bindings.issued.length).map Int.ofNat
  maxid : delegate.maxid = bindings.issued.length
  increasing : bindings.handlers.Pairwise fun one two => one.1 < two.1
  below : ∀ kv ∈ bindings.handlers, kv.1 < delegate.maxid
  fits : bindings.issued.length ≤ 2 ^ 31 - 1

/-- The id fits into an `int`, and the caller does not ask whether a handler is bound. -/
def AsksNot (bindings : Bindings η) : DelegateAction η ρ → Prop
  | .bind _ => bindings.issued.length < 2 ^ 31 - 1
  | .isbound => False
  | _ => True

namespace BoundInOrder

theorem new (storage : DelegateStorage) : BoundInOrder (.new storage : MulticastDelegate η) {} := by
  constructor <;> simp [MulticastDelegate.new]

theorem hasHandlers (numbered : BoundInOrder delegate bindings) : HasHandlers delegate bindings := by
  refine ⟨numbered.data, ?_⟩
  rw [numbered.issued]
  exact List.Nodup.map (fun _ _ same => Int.ofNat.inj same) List.nodup_range

theorem bind (numbered : BoundInOrder delegate bindings) (executor : η) (room : bindings.issued.length < 2 ^ 31 - 1) :
    ∃ next, delegate.perform throws (.bind executor) = some ((bindings.perform throws (.bind executor)).1, next) ∧
      BoundInOrder next (bindings.perform throws (.bind executor)).2 := by
  have fits : delegate.maxid ≠ 2 ^ 31 - 1 := by
    rw [numbered.maxid]
    omega
  have below : ∀ item ∈ delegate.data, item.1 < delegate.maxid := by
    rw [numbered.data]
    exact numbered.below
  have added : delegate.storage.add delegate.data (delegate.maxid, executor) = delegate.data ++ [(delegate.maxid, executor)] := add_eq _ below
  have increasing : (bindings.handlers ++ [((bindings.issued.length : Int), executor)]).Pairwise fun one two => one.1 < two.1 := by
    refine List.pairwise_append.2 ⟨numbered.increasing, List.pairwise_singleton .., fun kv member other last => ?_⟩
    rw [List.mem_singleton.1 last, ← numbered.maxid]
    exact numbered.below kv member
  have bound : delegate.bind executor = some (delegate.maxid,
      { delegate with data := delegate.data ++ [(delegate.maxid, executor)], maxid := delegate.maxid + 1 }) := by
    rw [MulticastDelegate.bind, if_neg fits]
    dsimp only
    rw [added]
  have given : (bindings.perform throws (.bind executor)).1 = .id delegate.maxid := by
    rw [numbered.maxid]
    rfl
  refine ⟨{ delegate with data := delegate.data ++ [(delegate.maxid, executor)], maxid := delegate.maxid + 1 }, ?_, ?_⟩
  · rw [given, MulticastDelegate.perform, bound]
    rfl
  · refine ⟨?_, ?_, ?_, increasing, fun kv member => ?_, ?_⟩
    · rw [numbered.data, numbered.maxid]
      rfl
    · have more := congrArg (· ++ [(bindings.issued.length : Int)]) numbered.issued
      simpa [Bindings.perform, List.range_succ] using more
    · simp [Bindings.perform, numbered.maxid]
    · obtain old | new := List.mem_append.1 member
      · exact Int.lt_trans (numbered.below kv old) (Int.lt_succ _)
      · rw [List.mem_singleton.1 new, ← numbered.maxid]
        exact Int.lt_succ _
    · rw [Bindings.perform, List.length_append, List.length_singleton]
      omega

theorem overflows (numbered : BoundInOrder delegate bindings) (throws : η → ρ → Bool) (executor : η)
    (full : ¬ bindings.issued.length < 2 ^ 31 - 1) : delegate.perform throws (.bind executor) = none := by
  have fits := numbered.fits
  have last : delegate.maxid = 2 ^ 31 - 1 := by
    rw [numbered.maxid]
    omega
  rw [MulticastDelegate.perform, MulticastDelegate.bind, if_pos last]
  rfl

theorem unbind (numbered : BoundInOrder delegate bindings) (id : Int) :
    BoundInOrder (delegate.unbind id) (bindings.perform throws (.unbind id)).2 := by
  have increasing := numbered.increasing
  rw [← numbered.data] at increasing
  refine ⟨?_, numbered.issued, numbered.maxid, numbered.increasing.filter _, fun kv member => ?_, numbered.fits⟩
  · rw [MulticastDelegate.unbind, del_eq _ increasing, numbered.data]
    rfl
  · exact numbered.below kv (List.mem_filter.1 member).1

theorem perform (numbered : BoundInOrder delegate bindings) (throws : η → ρ → Bool) (meets : AsksNot bindings action) :
    ∃ next, delegate.perform throws action = some ((bindings.perform throws action).1, next) ∧
      BoundInOrder next (bindings.perform throws action).2 := by
  cases action with
  | bind executor => exact numbered.bind executor meets
  | unbind id => exact ⟨_, rfl, numbered.unbind id⟩
  | isbound => exact meets.elim
  | broadcast params =>
    refine ⟨delegate, ?_, numbered⟩
    rw [MulticastDelegate.perform, broadcast_eq, numbered.data]
    rfl

/-- Whoever asks is told the opposite. -/
theorem needs (numbered : BoundInOrder delegate bindings)
    (answers : SameAnswer (MulticastDelegate.perform throws) (Bindings.perform throws) (delegate, bindings) action) :
    AsksNot bindings action := by
  cases action with
  | bind executor =>
    by_contra full
    rw [SameAnswer, numbered.overflows throws executor full] at answers
    cases answers
  | unbind => trivial
  | broadcast => trivial
  | isbound =>
    have told : DelegateAnswer.bound delegate.data.isEmpty = .bound (!bindings.handlers.isEmpty) := Option.some.inj answers
    rw [numbered.data] at told
    cases empty : bindings.handlers.isEmpty <;> simp [empty] at told

end BoundInOrder

/-! ## Runs -/

theorem refines_asksNot (throws : η → ρ → Bool) (storage : DelegateStorage) (actions : List (DelegateAction η ρ)) :
    Refines (MulticastDelegate.perform throws) (Bindings.perform throws) HasHandlers (.new storage, {}) actions ↔
      EachBeside (MulticastDelegate.perform throws) (Bindings.perform throws) (fun _ bindings action => AsksNot bindings action)
        (.new storage, {}) actions := by
  apply refines_iff_eachStep BoundInOrder.hasHandlers
  · exact fun numbered => numbered.perform throws
  · exact fun numbered answers _ => numbered.needs answers
  · exact BoundInOrder.new storage

theorem issued_perform (throws : η → ρ → Bool) (bindings : Bindings η) (action : DelegateAction η ρ) :
    (bindings.perform throws action).2.issued.length = bindings.issued.length + if IsBind action then 1 else 0 := by
  cases action with
  | bind => exact List.length_append
  | unbind | isbound | broadcast => rfl

/-- With few enough binds only the question is left. -/
theorem each_asksNot (numbered : BoundInOrder delegate bindings)
    (few : bindings.issued.length + actions.countP IsBind ≤ 2 ^ 31 - 1) :
    EachBeside (MulticastDelegate.perform throws) (Bindings.perform throws) (fun _ bindings action => AsksNot bindings action)
      (delegate, bindings) actions ↔ .isbound ∉ actions := by
  induction actions generalizing delegate bindings with
  | nil => exact iff_of_true trivial List.not_mem_nil
  | cons action actions ih =>
    rw [List.countP_cons] at few
    have here : AsksNot bindings action ↔ action ≠ .isbound := by
      cases action with
      | bind =>
        rw [IsBind, if_pos rfl] at few
        exact iff_of_true (show bindings.issued.length < 2 ^ 31 - 1 by omega) (by simp)
      | unbind | isbound | broadcast => simp [AsksNot]
    have later (asks : AsksNot bindings action) : ∃ next,
        beside (MulticastDelegate.perform throws) (Bindings.perform throws) (delegate, bindings) action =
          some (next, (bindings.perform throws action).2) ∧ BoundInOrder next (bindings.perform throws action).2 := by
      obtain ⟨next, performed, after⟩ := numbered.perform throws asks
      exact ⟨next, by simp [beside, performed], after⟩
    have issued := issued_perform throws bindings action
    constructor
    · rintro ⟨asks, rest⟩
      obtain ⟨next, performed, after⟩ := later asks
      have others := (ih after (by omega)).1 (rest _ performed)
      exact List.not_mem_cons_of_ne_of_not_mem (here.1 asks).symm others
    · intro absent
      obtain ⟨first, others⟩ := not_or.1 (List.mem_cons.not.1 absent)
      have asks := here.2 (Ne.symm first)
      obtain ⟨next, performed, after⟩ := later asks
      exact .cons asks performed ((ih after (by omega)).2 others)

/-- Two storages with the same handlers answer alike. -/
theorem BoundInOrder.together {other : MulticastDelegate η} (numbered : BoundInOrder delegate bindings) (also : BoundInOrder other bindings)
    (throws : η → ρ → Bool) (action : DelegateAction η ρ) :
    delegate.perform throws action = none ∧ other.perform throws action = none ∨
    ∃ answer next next' bindings', delegate.perform throws action = some (answer, next) ∧
      other.perform throws action = some (answer, next') ∧ BoundInOrder next bindings' ∧ BoundInOrder next' bindings' := by
  by_cases asks : AsksNot bindings action
  · obtain ⟨next, performed, after⟩ := numbered.perform throws asks
    obtain ⟨next', performed', after'⟩ := also.perform throws asks
    exact .inr ⟨_, next, next', _, performed, performed', after, after'⟩
  · cases action with
    | bind executor => exact .inl ⟨numbered.overflows throws executor asks, also.overflows throws executor asks⟩
    | isbound =>
      have same : other.isbound = delegate.isbound := congrArg List.isEmpty (also.data.trans numbered.data.symm)
      exact .inr ⟨.bound delegate.isbound, delegate, other, bindings, rfl, by rw [← same]; rfl, numbered, also⟩
    | unbind | broadcast => exact absurd trivial asks

theorem results_eq {other : MulticastDelegate η} (numbered : BoundInOrder delegate bindings) (also : BoundInOrder other bindings) :
    delegate.results throws actions = other.results throws actions := by
  induction actions generalizing delegate other bindings with
  | nil => rfl
  | cons action actions ih =>
    rw [results, results]
    obtain ⟨none, none'⟩ | ⟨answer, next, next', bindings', performed, performed', after, after'⟩ :=
      numbered.together also throws action
    · rw [none, none']
    · rw [performed, performed']
      have rest := ih after after'
      simp only [Option.bind_eq_bind, Option.bind_some, rest]

/-- Each storage does what a delegate is for exactly as long as nobody asks whether a handler is bound, and all three
give the same results. -/
theorem delegate_refines_iff (throws : η → ρ → Bool) (actions : List (DelegateAction η ρ)) (few : actions.countP IsBind < 2 ^ 31) :
    (∀ storage : DelegateStorage,
      Refines (MulticastDelegate.perform throws) (Bindings.perform throws) HasHandlers (.new storage, {}) actions ↔
        .isbound ∉ actions) ∧
    ∀ one two : DelegateStorage,
      (MulticastDelegate.new one).results throws actions = (MulticastDelegate.new two).results throws actions := by
  constructor
  · intro storage
    rw [refines_asksNot]
    apply each_asksNot (BoundInOrder.new storage)
    simp only [List.length_nil, Nat.zero_add]
    omega
  · intro one two
    exact results_eq (BoundInOrder.new one) (BoundInOrder.new two)

theorem delegate_refines_iff_sample :
    Refines (MulticastDelegate.perform fun n (_ : Unit) => n == 1) (Bindings.perform fun n _ => n == 1) HasHandlers
      (.new .map, {}) [.bind 1, .bind 2, .broadcast (), .unbind 0, .unbind 7, .broadcast ()] :=
  ((delegate_refines_iff (fun n (_ : Unit) => n == 1) _ (by decide)).1 .map).2 (by simp)

/-- A handler is bound, and the answer is no. -/
theorem bound_not_told :
    ¬ Refines (MulticastDelegate.perform fun (_ : Nat) (_ : Unit) => false) (Bindings.perform fun _ _ => false) HasHandlers
      (.new .list, {}) [.bind 1, .isbound] := by
  rintro ⟨answers, -⟩
  have told := (answers.2 _ rfl).1
  revert told
  unfold SameAnswer
  decide

end Cassobee.Proofs
