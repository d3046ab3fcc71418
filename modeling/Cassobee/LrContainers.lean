import Cassobee.LeftRight

/-! `lr_vector`, `lr_list` and `lr_map`: a container in two instances. An operation is complete before
the next one begins. -/

namespace Cassobee

/-- The member functions of a container. `apply` is what one does to one instance, `none` where the
standard leaves it undefined; `consumed` is the same call with its arguments as it has left them; `reads`
tells which are done through `apply_read`. -/
structure LrMethods (γ ο : Type) where
  apply : ο → γ → Option γ
  consumed : ο → γ → ο
  reads : ο → Bool

/-- `plain` is a container of the standard library to which the same is done. -/
structure LrContainer (γ : Type) where
  inst : Side → γ
  leftRight : Side
  plain : γ

namespace LrContainer
variable {γ ο : Type} (methods : LrMethods γ ο)

def new (content : γ) : LrContainer γ := ⟨fun _ => content, .left, content⟩

def applyRead (lr : LrContainer γ) (op : ο) : Option (LrContainer γ) :=
  (methods.apply op (lr.inst lr.leftRight)).map fun content =>
    { lr with inst := Function.update lr.inst lr.leftRight content }

/-- The function is called twice, with the same references. -/
def applyWrite (lr : LrContainer γ) (op : ο) : Option (LrContainer γ) :=
  let other := lr.leftRight.other
  (methods.apply op (lr.inst other)).bind fun first =>
    (methods.apply (methods.consumed op (lr.inst other)) (lr.inst lr.leftRight)).map fun second =>
      { lr with inst := Function.update (Function.update lr.inst other first) lr.leftRight second, leftRight := other }

def step (lr : LrContainer γ) (op : ο) : Option (LrContainer γ) :=
  (methods.apply op lr.plain).bind fun plain =>
    (if methods.reads op then lr.applyRead methods op else lr.applyWrite methods op).map fun lr => { lr with plain }

end LrContainer

/-! ## Sequences -/

/-- The calls of `lr_list`, and among them those of `lr_vector`. `moving` tells a call with an rvalue. -/
inductive SequenceCall (τ : Type) where
  | pushFront (value : τ) (moving : Bool)
  | pushBack (value : τ) (moving : Bool)
  | emplaceFront (value : τ) (moving : Bool)
  | emplaceBack (value : τ) (moving : Bool)
  | popFront
  | popBack
  | clear
  | size
  | front
  deriving DecidableEq, Repr

namespace SequenceCall
variable {τ : Type}

def apply : SequenceCall τ → List τ → Option (List τ)
  | .pushFront value _, list | .emplaceFront value _, list => some (value :: list)
  | .pushBack value _, list | .emplaceBack value _, list => some (list ++ [value])
  | .popFront, [] | .popBack, [] | .front, [] => none
  | .popFront, _ :: list => some list
  | .popBack, list => some list.dropLast
  | .clear, _ => some []
  | .size, list | .front, list => some list

/-- A value of the type `τ` that was moved from is `moved` of it. -/
def consumed (moved : τ → τ) : SequenceCall τ → SequenceCall τ
  | .pushFront value true => .pushFront (moved value) true
  | .pushBack value true => .pushBack (moved value) true
  | .emplaceFront value true => .emplaceFront (moved value) true
  | .emplaceBack value true => .emplaceBack (moved value) true
  | call => call

def reads : SequenceCall τ → Bool
  | .size | .front => true
  | _ => false

def methods (moved : τ → τ) : LrMethods (List τ) (SequenceCall τ) := ⟨apply, fun call _ => call.consumed moved, reads⟩

end SequenceCall

/-! ## Maps -/

inductive MapCall (κ ν : Type) where
  | emplace (key : κ) (value : ν) (movingKey movingValue : Bool)
  | erase (key : κ)
  | clear
  | find (key : κ)
  | index (key : κ)
  | contains (key : κ)
  | count (key : κ)
  | empty
  deriving DecidableEq, Repr

/-- How keys and values are moved and made. `eager` tells whether `std::map::emplace` makes the element
before it looks for the key. -/
structure MapSetting (κ ν : Type) where
  movedKey : κ → κ
  movedValue : ν → ν
  defaultValue : ν
  eager : Bool

namespace MapCall
variable {κ ν : Type} [DecidableEq κ] (setting : MapSetting κ ν)

def insertAbsent (map : κ → Option ν) (key : κ) (value : ν) : κ → Option ν :=
  match map key with
  | some _ => map
  | none => Function.update map key (some value)

/-- `operator[]` makes the element that it does not find. -/
def apply : MapCall κ ν → (κ → Option ν) → Option (κ → Option ν)
  | .emplace key value _ _, map => some (insertAbsent map key value)
  | .erase key, map => some (Function.update map key none)
  | .clear, _ => some fun _ => none
  | .index key, map => some (insertAbsent map key setting.defaultValue)
  | .find _, map | .contains _, map | .count _, map | .empty, map => some map

def consumed : MapCall κ ν → (κ → Option ν) → MapCall κ ν
  | .emplace key value movingKey movingValue, map =>
    if setting.eager ∨ map key = none then
      .emplace (if movingKey then setting.movedKey key else key) (if movingValue then setting.movedValue value else value)
        movingKey movingValue
    else
      .emplace key value movingKey movingValue
  | call, _ => call

def reads : MapCall κ ν → Bool
  | .find _ | .index _ | .contains _ | .count _ | .empty => true
  | .emplace .. | .erase _ | .clear => false

def methods : LrMethods (κ → Option ν) (MapCall κ ν) := ⟨apply setting, consumed setting, reads⟩

end MapCall
end Cassobee
