import Cassobee.Proofs.Stream

/-! What popping makes of pushed bytes, for every type of the stream at once. Popping never fails
on them, and it returns the pushed value merged into the destination, since `octets` and every
container but a contiguous one are added to. A round trip is therefore a question about the
objects that a pop starts from. -/

namespace Cassobee

def compactIntBytes : (signed : Bool) → (w : IntWidth) → BitVec w.bits → List UInt8
  | true, .w16, value => writeVarint (encodeZigzag16 value).toNat
  | true, .w32, value => writeVarint (encodeZigzag32 value).toNat
  | true, .w64, value => writeVarint (encodeZigzag64 value).toNat
  | false, .w16, value => writeVarint (BitVec.toNat value)
  | false, .w32, value => writeVarint (BitVec.toNat value)
  | false, .w64, value => writeVarint (BitVec.toNat value)

def scalarBytes {α : Type} : Scalar α → α → List UInt8
  | .int signed w, value => compactIntBytes signed w value
  | .raw pod, value => hostToNetwork (pod.toBytes value)

namespace Ty
variable {b : Bool} {α : Type}

/-- The bytes that `push` is meant to append. -/
def encode {b : Bool} {α : Type} : Ty b α → α → List UInt8
  | .bool, value => hostToNetwork (Pod.bool.toBytes value)
  | .scalar kind, value => scalarBytes kind value
  | .octets, value => writeVarint value.length ++ value
  | .pair first second, value => first.encode value.1 ++ second.encode value.2
  | .contiguous kind, value => writeVarint value.length ++ value.flatMap kind.scalar.pod.toBytes
  | .vector _ element, value => writeVarint value.length ++ value.flatMap element.encode
  | .container kind element, value =>
    writeVarint (kind.elements value).length ++ (kind.elements value).flatMap element.encode
  | .struct, _ => []
  | .field type _ rest, value => type.encode value.1 ++ rest.encode value.2

/-- No container in the value is longer than its `max_size()`, nor than there is memory for. -/
def Fits {b : Bool} {α : Type} : Ty b α → α → Prop
  | .bool, _ => True
  | .scalar _, _ => True
  | .octets, value => value.length < 2 ^ 63
  | .pair first second, value => first.Fits value.1 ∧ second.Fits value.2
  | .contiguous kind, value => value.length ≤ kind.maxSize.room
  | .vector maxSize element, value => value.length ≤ maxSize.room ∧ ∀ one ∈ value, element.Fits one
  | .container kind element, value =>
    (kind.elements value).length ≤ kind.maxSize.room ∧ ∀ one ∈ kind.elements value, element.Fits one
  | .struct, _ => True
  | .field type _ rest, value => type.Fits value.1 ∧ rest.Fits value.2

/-- What is left in a destination after popping the encoding of a value into it. -/
def merge {b : Bool} {α : Type} : Ty b α → α → α → α
  | .bool, _, value => value
  | .scalar _, _, value => value
  | .octets, destination, value => destination ++ value
  | .pair first second, destination, value =>
    (first.merge destination.1 value.1, second.merge destination.2 value.2)
  | .contiguous _, _, value => value
  | .vector maxSize element, destination, value =>
    (value.map (element.merge element.default)).foldl (Container.vector maxSize).insert destination
  | .container kind element, destination, value =>
    ((kind.elements value).map (element.merge element.default)).foldl kind.insert destination
  | .struct, _, _ => ()
  | .field type _ rest, destination, value =>
    (type.merge destination.1 value.1, rest.merge destination.2 value.2)

/-- Nothing is stored where popping would add to it. -/
def Fresh {b : Bool} {α : Type} : Ty b α → α → Prop
  | .bool, _ => True
  | .scalar _, _ => True
  | .octets, destination => destination = []
  | .pair first second, destination => first.Fresh destination.1 ∧ second.Fresh destination.2
  | .contiguous _, _ => True
  | .vector _ _, destination => destination = []
  | .container kind _, destination => destination = kind.empty
  | .struct, _ => True
  | .field type _ rest, destination => type.Fresh destination.1 ∧ rest.Fresh destination.2

/-- The elements that `pop_container` constructs before it pops into them are fresh. -/
def FreshElements {b : Bool} {α : Type} : Ty b α → Prop
  | .bool => True
  | .scalar _ => True
  | .octets => True
  | .pair first second => first.FreshElements ∧ second.FreshElements
  | .contiguous _ => True
  | .vector _ element => element.Fresh element.default ∧ element.FreshElements
  | .container _ element => element.Fresh element.default ∧ element.FreshElements
  | .struct => True
  | .field type _ rest => type.FreshElements ∧ rest.FreshElements

/-- Every object that is default-constructed on the way of a pop is fresh. A type can fail this
only through the initializer of a field of a marshal struct. -/
def Clean (type : Ty b α) : Prop := type.Fresh type.default ∧ type.FreshElements

end Ty

namespace Proofs
variable {b : Bool} {α : Type}

/-! ## Pushing -/

theorem compactIntPack_appends (signed : Bool) (w : IntWidth) (value : BitVec w.bits) :
    Appends (compactIntPack signed w value) (compactIntBytes signed w value) := by
  cases signed <;> cases w <;> exact appendData_appends _

private theorem pushScalar_appends (kind : Scalar α) (value : α) :
    Appends (pushScalar kind value) (scalarBytes kind value) := by
  cases kind with
  | int signed w => exact compactIntPack_appends signed w value
  | raw pod => exact appendData_appends _

private theorem pushContainer_appends (kind : Container α) {push : α → StreamM Unit} {encode : α → List UInt8}
    {content : kind.Content} (fits : (kind.elements content).length ≤ kind.maxSize.room)
    (each : ∀ element ∈ kind.elements content, Appends (push element) (encode element)) :
    Appends (pushContainer kind push content)
      (writeVarint (kind.elements content).length ++ (kind.elements content).flatMap encode) := by
  have word : (kind.elements content).length < wordSize := by
    have bound := kind.maxSize.lt_of_le_room fits
    simp only [wordSize]
    omega
  exact (pushSize_appends word).bind (pushEach_appends each)

/-- Every overload appends the encoding of its value. -/
theorem push_appends (type : Ty b α) {value : α} (fits : type.Fits value) :
    Appends (type.push value) (type.encode value) := by
  induction type with
  | bool => exact appendData_appends _
  | scalar kind => exact pushScalar_appends kind value
  | octets => exact (pushSize_appends (Nat.lt_trans fits (by decide))).bind (appendData_appends _)
  | pair first second one two => exact (one fits.1).bind (two fits.2)
  | contiguous kind =>
    have word : value.length < wordSize := Nat.lt_trans (kind.maxSize.lt_of_le_room fits) (by decide)
    exact (pushSize_appends word).bind (appendData_appends _)
  | vector maxSize element ih =>
    exact pushContainer_appends (.vector maxSize) fits.1 fun one member => ih (fits.2 one member)
  | container kind element ih => exact pushContainer_appends kind fits.1 fun one member => ih (fits.2 one member)
  | struct => exact pure_appends
  | field type init rest one others => exact (one fits.1).bind (others fits.2)

/-! ## Popping -/

theorem compactIntUnpack_reads (signed : Bool) (w : IntWidth) (value : BitVec w.bits) :
    Reads (compactIntUnpack signed w) (compactIntBytes signed w value) value := by
  cases signed <;> cases w
  · exact popCompactu16_reads value
  · exact popCompactu32_reads value
  · exact popCompactu64_reads value
  · exact popCompact16_reads value
  · exact popCompact32_reads value
  · exact popCompact64_reads value

private theorem popPod_reads (pod : Pod α) (value : α) :
    Reads (popPod pod) (hostToNetwork (pod.toBytes value)) value := by
  have size : (hostToNetwork (pod.toBytes value)).length = pod.size := by
    rw [hostToNetwork, List.length_reverse, pod.length_toBytes]
  have restored : (if pod.size > 1 then networkToHost (hostToNetwork (pod.toBytes value))
      else hostToNetwork (pod.toBytes value)) = pod.toBytes value := by
    split
    · exact List.reverse_reverse _
    next short =>
      have length := pod.length_toBytes value
      match stored : pod.toBytes value with
      | [] => rfl
      | [byte] => rfl
      | first :: second :: rest => simp [stored] at length; omega
  have read := (popRaw_reads (hostToNetwork (pod.toBytes value))).map
    fun bytes => pod.ofBytes (if pod.size > 1 then networkToHost bytes else bytes)
  rwa [restored, pod.ofBytes_toBytes, size] at read

private theorem popScalar_reads (kind : Scalar α) (value : α) :
    Reads (popScalar kind) (scalarBytes kind value) value := by
  cases kind with
  | int signed w => exact compactIntUnpack_reads signed w value
  | raw pod => exact popPod_reads pod value

private theorem splitElements_flatMap (pod : Pod α) (content : List α) :
    splitElements pod content.length (content.flatMap pod.toBytes) = content := by
  induction content with
  | nil => rfl
  | cons element rest ih =>
    have size := pod.length_toBytes element
    simp only [List.length_cons, splitElements, List.flatMap_cons, List.take_left' size, List.drop_left' size,
      pod.ofBytes_toBytes, ih]

private theorem length_flatMap_toBytes (pod : Pod α) (content : List α) :
    (content.flatMap pod.toBytes).length = content.length * pod.size := by
  simp [List.length_flatMap, pod.length_toBytes]

private theorem popContiguous_reads {kind : Contiguous α} {content : List α}
    (fits : content.length ≤ kind.maxSize.room) :
    Reads (popContiguous kind) (writeVarint content.length ++ content.flatMap kind.scalar.pod.toBytes) content := by
  have bounded : content.length * kind.scalar.pod.size < wordSize := Nat.lt_trans (kind.bytes_lt fits) (by decide)
  have word : content.length < wordSize := Nat.lt_trans (kind.maxSize.lt_of_le_room fits) (by decide)
  apply (popSize_reads word).bind
  rw [reserve_accepts (fun large => Nat.not_lt.2 fits large.2), pure_bind]
  simp only [Nat.mod_eq_of_lt bounded]
  have read := (popRaw_reads (content.flatMap kind.scalar.pod.toBytes)).map
    (splitElements kind.scalar.pod content.length)
  rw [splitElements_flatMap, length_flatMap_toBytes] at read
  simpa using read

private theorem popOctets_reads {value : List UInt8} (fits : value.length < 2 ^ 63) (destination : List UInt8) :
    Reads (popOctets destination) (writeVarint value.length ++ value) (destination ++ value) := by
  apply (popSize_reads (Nat.lt_trans fits (by decide))).bind
  intro os rest valid bound inside content
  have short := unread_length valid
  rw [content, List.length_append] at short
  have nowrap : os.pos + value.length < wordSize := by
    simp only [wordSize]
    omega
  have within : ¬ (os.pos + value.length) % wordSize > os.data.len := by
    rw [Nat.mod_eq_of_lt nowrap]
    simp only [Octetsstream.size] at short inside
    omega
  rw [popAppend, if_neg within, if_neg (Nat.not_le.2 nowrap), take_of_unread valid inside content]

private theorem popContainer_reads (kind : Container α) {pop : StreamM α} {encode : α → List UInt8}
    {popped : α → α} {content : kind.Content} (fits : (kind.elements content).length ≤ kind.maxSize.room)
    (each : ∀ element ∈ kind.elements content, Reads pop (encode element) (popped element))
    (destination : kind.Content) :
    Reads (popContainer kind pop destination)
      (writeVarint (kind.elements content).length ++ (kind.elements content).flatMap encode)
      (((kind.elements content).map popped).foldl kind.insert destination) := by
  have word : (kind.elements content).length < wordSize := Nat.lt_trans (kind.maxSize.lt_of_le_room fits) (by decide)
  apply (popSize_reads word).bind
  rw [reserve_accepts (fun large => Nat.not_lt.2 fits large.2), pure_bind]
  simpa using popEach_reads kind.insert each destination

/-- Every overload reads back what its counterpart appended, merged into the destination. -/
theorem pop_reads (type : Ty b α) {value : α} (fits : type.Fits value) (destination : α) :
    Reads (type.pop destination) (type.encode value) (type.merge destination value) := by
  induction type with
  | bool => exact popPod_reads Pod.bool value
  | scalar kind => exact popScalar_reads kind value
  | octets => exact popOctets_reads fits destination
  | pair first second one two =>
    exact (one fits.1 destination.1).bind ((two fits.2 destination.2).map fun other => (_, other))
  | contiguous kind => exact popContiguous_reads fits
  | vector maxSize element ih =>
    exact popContainer_reads (.vector maxSize) fits.1
      (fun one member => ih (fits.2 one member) element.default) destination
  | container kind element ih =>
    exact popContainer_reads kind fits.1 (fun one member => ih (fits.2 one member) element.default) destination
  | struct => exact pure_reads ()
  | field type init rest one others =>
    exact (one fits.1 destination.1).bind ((others fits.2 destination.2).map fun other => (_, other))

/-! ## Round trips -/

/-- A fresh destination is overwritten by the merge. -/
theorem merge_fresh (type : Ty b α) (elements : type.FreshElements) {destination : α}
    (fresh : type.Fresh destination) (value : α) : type.merge destination value = value := by
  induction type with
  | bool | scalar _ | contiguous _ | struct => rfl
  | octets => exact (congrArg (· ++ value) fresh).trans (List.nil_append value)
  | pair first second one two =>
    exact Prod.ext (one elements.1 fresh.1 value.1) (two elements.2 fresh.2 value.2)
  | vector maxSize element ih =>
    have each : value.map (element.merge element.default) = value := by
      conv_rhs => rw [← List.map_id value]
      exact List.map_congr_left fun one _ => ih elements.2 elements.1 one
    simp only [Ty.merge, each, show destination = [] from fresh]
    exact (Container.vector maxSize).rebuild value
  | container kind element ih =>
    have each : (kind.elements value).map (element.merge element.default) = kind.elements value := by
      conv_rhs => rw [← List.map_id (kind.elements value)]
      exact List.map_congr_left fun one _ => ih elements.2 elements.1 one
    simp only [Ty.merge, each, show destination = kind.empty from fresh]
    exact kind.rebuild value
  | field type init rest one others =>
    exact Prod.ext (one elements.1 fresh.1 value.1) (others elements.2 fresh.2 value.2)

theorem exists_fits (type : Ty b α) : ∃ value, type.Fits value := by
  induction type with
  | bool => exact ⟨false, trivial⟩
  | scalar kind => exact ⟨(Ty.scalar kind).default, trivial⟩
  | octets => exact ⟨[], by simp [Ty.Fits]⟩
  | pair first second one two | field first _ second one two =>
    obtain ⟨left, fitsLeft⟩ := one
    obtain ⟨right, fitsRight⟩ := two
    exact ⟨(left, right), fitsLeft, fitsRight⟩
  | contiguous kind => exact ⟨[], by simp [Ty.Fits]⟩
  | vector maxSize element ih => exact ⟨[], by simp [Ty.Fits]⟩
  | container kind element ih => exact ⟨kind.empty, by simp [Ty.Fits, kind.elements_empty]⟩
  | struct => exact ⟨(), trivial⟩

/-- The empty container shows what its destination held, a container of one element shows what its
element started from. -/
private theorem container_fresh (kind : Container α) {fits : α → Prop} {merge : α → α} {destination : kind.Content}
    (same : ∀ content, (kind.elements content).length ≤ kind.maxSize.room →
      (∀ one ∈ kind.elements content, fits one) →
      ((kind.elements content).map merge).foldl kind.insert destination = content) :
    destination = kind.empty ∧ ∀ one, fits one → merge one = one := by
  have fresh : destination = kind.empty := by
    have nothing := same kind.empty (by simp [kind.elements_empty]) (by simp [kind.elements_empty])
    simpa [kind.elements_empty] using nothing
  refine ⟨fresh, ?_⟩
  intro one fitting
  have single := kind.elements_single one
  have alone := same (kind.insert kind.empty one) (by rw [single]; exact kind.maxSize.positive)
    (by simpa [single] using fitting)
  rw [single, fresh] at alone
  have shown := congrArg kind.elements alone
  simpa [single, kind.elements_single] using shown

/-- A destination that no value shows through is fresh, and so is every element. -/
theorem fresh_of_merge (type : Ty b α) {destination : α}
    (same : ∀ value, type.Fits value → type.merge destination value = value) :
    type.Fresh destination ∧ type.FreshElements := by
  induction type with
  | bool | scalar _ | contiguous _ | struct => exact ⟨trivial, trivial⟩
  | octets =>
    have nothing : destination ++ [] = [] := same [] (by simp [Ty.Fits])
    exact ⟨(List.append_nil destination).symm.trans nothing, trivial⟩
  | pair first second one two | field first _ second one two =>
    obtain ⟨left, fitsLeft⟩ := exists_fits first
    obtain ⟨right, fitsRight⟩ := exists_fits second
    have lefts : first.Fresh destination.1 ∧ first.FreshElements :=
      one fun value fits => congrArg Prod.fst (same (value, right) ⟨fits, fitsRight⟩)
    have rights : second.Fresh destination.2 ∧ second.FreshElements :=
      two fun value fits => congrArg Prod.snd (same (left, value) ⟨fitsLeft, fits⟩)
    exact ⟨⟨lefts.1, rights.1⟩, lefts.2, rights.2⟩
  | vector maxSize element ih =>
    obtain ⟨fresh, each⟩ := container_fresh (.vector maxSize) fun content short fits => same content ⟨short, fits⟩
    exact ⟨fresh, ih each⟩
  | container kind element ih =>
    obtain ⟨fresh, each⟩ := container_fresh kind fun content short fits => same content ⟨short, fits⟩
    exact ⟨fresh, ih each⟩

/-- After `push(value)` and with `suffix` appended, popping from the first byte of the encoding
into a default-constructed object gives the value back and stops at the suffix. -/
def RoundTrips (type : Ty b α) (value : α) (os : Octetsstream) (suffix : List UInt8) : Prop :=
  ∃ pushed appended popped, type.push value os = .ok () pushed ∧ appendData suffix pushed = .ok () appended ∧
    type.pop type.default { appended with pos := os.size } = .ok value popped ∧
    popped.data = appended.data ∧ popped.pos = pushed.size

/-- The same three calls always end, and they end with the merged value. -/
theorem pop_after_push (type : Ty b α) {value : α} {os : Octetsstream} {suffix : List UInt8} (valid : os.data.Valid)
    (fits : type.Fits value) (room : os.size + (type.encode value).length + suffix.length ≤ 2 ^ 63) :
    ∃ pushed appended, type.push value os = .ok () pushed ∧ appendData suffix pushed = .ok () appended ∧
      type.pop type.default { appended with pos := os.size } =
        .ok (type.merge type.default value) { appended with pos := pushed.size } := by
  obtain ⟨data, pushed, kept, content⟩ := push_appends type fits os valid (by omega)
  have size := appended_size valid kept content
  obtain ⟨final, appended, still, result⟩ := appendData_appends suffix { os with data } kept
    (by simp only [Octetsstream.size] at size room ⊢; omega)
  have total : final.len = data.len + suffix.length := appended_size kept still result
  refine ⟨{ os with data }, { os with data := final }, pushed, appended, ?_⟩
  have unread : ({ os with data := final, pos := os.size } : Octetsstream).unread = type.encode value ++ suffix := by
    have start : os.bytes.length = os.size := length_bytes valid
    simp only [Octetsstream.unread, result, Octetsstream.bytes] at content start ⊢
    rw [content, List.append_assoc, List.drop_left' start]
  have read := pop_reads type fits type.default { os with data := final, pos := os.size } suffix still
    (by simp only [Octetsstream.size] at size room ⊢; omega)
    (by simp only [Octetsstream.size] at size ⊢; omega) unread
  simpa only [Octetsstream.size, size] using read

/-- A value that its own default object shows through does not come back. -/
theorem not_roundTrips_of_merge {type : Ty b α} {value : α} {os : Octetsstream} {suffix : List UInt8}
    (valid : os.data.Valid) (fits : type.Fits value)
    (room : os.size + (type.encode value).length + suffix.length ≤ 2 ^ 63)
    (changed : type.merge type.default value ≠ value) : ¬ RoundTrips type value os suffix := by
  rintro ⟨pushed, appended, popped, first, second, third, -, -⟩
  obtain ⟨pushed', appended', first', second', third'⟩ := pop_after_push type valid fits room
  obtain rfl : pushed = pushed' := by simpa using first.symm.trans first'
  obtain rfl : appended = appended' := by simpa using second.symm.trans second'
  have equal := third.symm.trans third'
  simp only [EStateM.Result.ok.injEq] at equal
  exact changed equal.1.symm

/-- A type whose pop starts from fresh objects round-trips, whatever the value, the stream before it
and the bytes behind it. Any other type has a value that comes back changed from every stream. -/
theorem roundTrips_exactly_when_clean (type : Ty b α) :
    (type.Clean → ∀ value os suffix, os.data.Valid → type.Fits value →
      os.size + (type.encode value).length + suffix.length ≤ 2 ^ 63 → RoundTrips type value os suffix) ∧
    (¬ type.Clean → ∃ value, type.Fits value ∧ ∀ os suffix, os.data.Valid →
      os.size + (type.encode value).length + suffix.length ≤ 2 ^ 63 → ¬ RoundTrips type value os suffix) := by
  constructor
  · rintro ⟨fresh, elements⟩ value os suffix valid fits room
    obtain ⟨pushed, appended, first, second, third⟩ := pop_after_push type valid fits room
    rw [merge_fresh type elements fresh value] at third
    exact ⟨pushed, appended, _, first, second, third, rfl, rfl⟩
  · intro unclean
    obtain ⟨value, fits, changed⟩ : ∃ value, type.Fits value ∧ type.merge type.default value ≠ value := by
      by_contra none
      push Not at none
      exact unclean (fresh_of_merge type none)
    exact ⟨value, fits, fun os suffix valid room => not_roundTrips_of_merge valid fits room changed⟩

/-- A struct with one field `std::list<int32_t> items{1}`. -/
def initializedStruct : Ty false (List (BitVec 32) × Unit) :=
  .field (.container (.list .thousand) (.scalar (.int true .w32))) [1#32] .struct

/-- Popped into its own default object, the list `{2}` comes back as `{1, 2}`. -/
theorem initializedStruct_not_roundTrips :
    Octetsstream.new.data.Valid ∧ initializedStruct.Fits ([2#32], ()) ∧
      Octetsstream.new.size + (initializedStruct.encode ([2#32], ())).length + ([] : List UInt8).length ≤ 2 ^ 63 ∧
      ¬ RoundTrips initializedStruct ([2#32], ()) Octetsstream.new [] := by
  have fits : initializedStruct.Fits ([2#32], ()) := by
    simp [initializedStruct, Ty.Fits, Container.list, Container.sequence, MaxSize.thousand]
  have room : Octetsstream.new.size + (initializedStruct.encode ([2#32], ())).length +
      ([] : List UInt8).length ≤ 2 ^ 63 := by decide +kernel
  have merged : initializedStruct.merge initializedStruct.default ([2#32], ()) = ([1#32, 2#32], ()) := rfl
  exact ⟨new_valid, fits, room, not_roundTrips_of_merge new_valid fits room (by rw [merged]; decide)⟩

end Proofs
end Cassobee
