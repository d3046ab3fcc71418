import Cassobee.HttpParams
import Cassobee.Proofs.Text

/-! What `parse_param` binds. The loop returns at the first segment without `=`, so what comes behind it
is lost unless it says nothing new. -/

namespace Cassobee.Proofs
open Support

/-- The non-empty segments of a text. -/
noncomputable def segments (flag : UInt8) (str : List UInt8) : List (List UInt8) :=
  (str.splitOn flag).filter fun segment => segment ≠ []

def trimmed (trimFunc : Option (List UInt8 → List UInt8)) (key : List UInt8) : List UInt8 :=
  match trimFunc with
  | some trimFunc => trimFunc key
  | none => key

/-- The part before the first `=` is the key, and the part behind it is the coded value. -/
def SegmentBinds (trimFunc : Option (List UInt8 → List UInt8)) (segment k v : List UInt8) : Prop :=
  ∃ key value, segment = key ++ 61 :: value ∧ 61 ∉ key ∧ trimmed trimFunc key = k ∧ urlDecode value = v

/-- The last segment with the key says so. -/
def LastBinds (trimFunc : Option (List UInt8 → List UInt8)) (list : List (List UInt8)) (k v : List UInt8) : Prop :=
  ∃ before segment after, list = before ++ segment :: after ∧ SegmentBinds trimFunc segment k v ∧
    ∀ other ∈ after, ∀ v', ¬ SegmentBinds trimFunc other k v'

/-- A key that no segment has keeps what the map has for it. -/
def ParamBound (trimFunc : Option (List UInt8 → List UInt8)) (params : StringMap) (list : List (List UInt8))
    (k v : List UInt8) : Prop :=
  LastBinds trimFunc list k v ∨ params k = some v ∧ ∀ segment ∈ list, ∀ v', ¬ SegmentBinds trimFunc segment k v'

/-- What comes behind the first segment without `=` says nothing that the map would not say without it. -/
def NothingBehind (trimFunc : Option (List UInt8 → List UInt8)) (params : StringMap) (list : List (List UInt8)) : Prop :=
  ∀ before bare behind, list = before ++ bare :: behind → (∀ segment ∈ before, 61 ∈ segment) → 61 ∉ bare →
    ∀ k v, LastBinds trimFunc behind k v → ParamBound trimFunc params before k v

/-- After the text the map is the one that its segments say, if and only if nothing new is said behind the first
segment without `=`. -/
def Binds (trimFunc : Option (List UInt8 → List UInt8)) (flag : UInt8) (text : List UInt8) (before after : StringMap) : Prop :=
  (∀ k v, after k = some v ↔ ParamBound trimFunc before (segments flag text) k v) ↔
    NothingBehind trimFunc before (segments flag text)

/-- The callers: the query and a form are parsed into the parameters, and the header into the cookies, each once. -/
structure ParsesOnce (request : HttpRequestParams) : Prop where
  query (fresh : request.parsedQuery = false) : Binds none 38 request.query request.params request.initQueryParam.params
  body (fresh : request.parsedBody = false)
    (form : HttpRequestParams.strcasestr (request.message.getHeader "content-type") "application/x-www-form-urlencoded") :
    Binds none 38 request.message.body request.params request.initBodyParam.params
  cookies (fresh : request.parsedCookies = false) (given : request.message.getHeader "cookie" ≠ []) :
    Binds (some HttpRequestParams.trimCookie) 59 (request.message.getHeader "cookie") request.cookies
      request.initCookies.cookies
  again (key key' : List UInt8) : ((request.getParam key).2.getParam key').1 = (request.getParam key').1
  cookiesAgain (key key' : List UInt8) : ((request.getCookie key).2.getCookie key').1 = (request.getCookie key').1

/-! ## Segments -/

theorem splitFrom_eq (flag : UInt8) (str segment : List UInt8) :
    splitFrom [flag] segment str =
      (List.splitOnPPrepend (· == flag) str segment.reverse).filter fun segment => segment ≠ [] := by
  induction str generalizing segment with
  | nil =>
    rw [splitFrom, List.splitOnPPrepend_nil, List.reverse_reverse]
    by_cases empty : segment = []
    · simp [empty]
    · simp [empty]
  | cons c str ih =>
    rw [splitFrom]
    by_cases hit : c = flag
    · rw [if_pos (by simp [hit]), List.splitOnPPrepend_cons_pos (by simp [hit]), List.reverse_reverse, ih]
      by_cases empty : segment = []
      · simp [empty]
      · simp [empty]
    · rw [if_neg (by simp [hit]), List.splitOnPPrepend_cons_neg (by simp [hit]), ih]
      simp

theorem split_eq_segments (str : List UInt8) (flag : UInt8) : split str [flag] = segments flag str :=
  splitFrom_eq flag str []

/-! ## One segment -/

variable {trimFunc : Option (List UInt8 → List UInt8)}

theorem SegmentBinds.equals {segment k v : List UInt8} (binds : SegmentBinds trimFunc segment k v) : 61 ∈ segment := by
  obtain ⟨key, value, rfl, -⟩ := binds
  simp

theorem SegmentBinds.unique {segment k k' v v' : List UInt8} (one : SegmentBinds trimFunc segment k v)
    (two : SegmentBinds trimFunc segment k' v') : k = k' ∧ v = v' := by
  obtain ⟨key, value, rfl, clean, rfl, rfl⟩ := one
  obtain ⟨key', value', same, clean', rfl, rfl⟩ := two
  obtain ⟨rfl, -, rfl⟩ := cut_unique (clean_iff.2 clean) (clean_iff.2 clean') (by simp) (by simp) same
  exact ⟨rfl, rfl⟩

theorem parseSegments_bare {bare : List UInt8} (absent : 61 ∉ bare) (rest : List (List UInt8)) (params : StringMap) :
    parseSegments trimFunc (bare :: rest) params = params := by
  rw [parseSegments, findByte_absent absent]

theorem parseSegments_binds {segment k v : List UInt8} (binds : SegmentBinds trimFunc segment k v)
    (rest : List (List UInt8)) (params : StringMap) :
    parseSegments trimFunc (segment :: rest) params = parseSegments trimFunc rest (Function.update params k (some v)) := by
  obtain ⟨key, value, rfl, clean, rfl, rfl⟩ := binds
  rw [parseSegments, findByte_first clean]
  simp only [take_first, drop_first]
  rfl

/-- With `=` in it a segment binds something. -/
theorem exists_segmentBinds (trimFunc : Option (List UInt8 → List UInt8)) {segment : List UInt8} (equals : 61 ∈ segment) : ∃ k v, SegmentBinds trimFunc segment k v := by
  obtain absent | ⟨key, value, same, clean⟩ := cut_byte segment 61
  · exact absurd equals absent
  · exact ⟨_, _, key, value, same, clean, rfl, rfl⟩

/-! ## What a list of segments says -/

theorem lastBinds_nil {k v : List UInt8} : ¬ LastBinds trimFunc [] k v := by
  rintro ⟨before, segment, after, same, -⟩
  simp at same

/-- A later segment with the key, or else this one. -/
theorem lastBinds_cons {segment : List UInt8} {list : List (List UInt8)} {k v : List UInt8} :
    LastBinds trimFunc (segment :: list) k v ↔
      LastBinds trimFunc list k v ∨
        SegmentBinds trimFunc segment k v ∧ ∀ other ∈ list, ∀ v', ¬ SegmentBinds trimFunc other k v' := by
  constructor
  · rintro ⟨before, last, after, same, binds, none⟩
    cases before with
    | nil =>
      obtain ⟨rfl, rfl⟩ := List.cons.inj same
      exact .inr ⟨binds, none⟩
    | cons first before =>
      obtain ⟨rfl, rfl⟩ := List.cons.inj same
      exact .inl ⟨before, last, after, rfl, binds, none⟩
  · rintro (⟨before, last, after, rfl, binds, none⟩ | ⟨binds, none⟩)
    · exact ⟨segment :: before, last, after, rfl, binds, none⟩
    · exact ⟨[], segment, list, rfl, binds, none⟩

theorem exists_lastBinds {list : List (List UInt8)} {k : List UInt8}
    (named : ∃ segment ∈ list, ∃ v, SegmentBinds trimFunc segment k v) : ∃ v, LastBinds trimFunc list k v := by
  induction list with
  | nil => simp at named
  | cons segment list ih =>
    by_cases later : ∃ other ∈ list, ∃ v, SegmentBinds trimFunc other k v
    · obtain ⟨v, last⟩ := ih later
      exact ⟨v, lastBinds_cons.2 (.inl last)⟩
    · have here : ∃ v, SegmentBinds trimFunc segment k v := by
        obtain ⟨other, member, binds⟩ := named
        obtain rfl | later' := List.mem_cons.1 member
        · exact binds
        · exact absurd ⟨other, later', binds⟩ later
      obtain ⟨v, binds⟩ := here
      refine ⟨v, lastBinds_cons.2 (.inr ⟨binds, ?_⟩)⟩
      intro other member v' binds'
      exact later ⟨other, member, v', binds'⟩

theorem LastBinds.named {list : List (List UInt8)} {k v : List UInt8} (last : LastBinds trimFunc list k v) :
    ∃ segment ∈ list, ∃ v, SegmentBinds trimFunc segment k v := by
  obtain ⟨before, segment, after, rfl, binds, -⟩ := last
  exact ⟨segment, by simp, v, binds⟩

theorem paramBound_nil {params : StringMap} {k v : List UInt8} : ParamBound trimFunc params [] k v ↔ params k = some v := by
  simp [ParamBound, lastBinds_nil]

/-- A segment is as good as a map in which its key has been set. -/
theorem paramBound_cons {params : StringMap} {segment key value : List UInt8} {list : List (List UInt8)} {k v : List UInt8}
    (binds : SegmentBinds trimFunc segment key value) :
    ParamBound trimFunc params (segment :: list) k v ↔
      ParamBound trimFunc (Function.update params key (some value)) list k v := by
  rw [ParamBound, ParamBound, lastBinds_cons, List.forall_mem_cons]
  by_cases same : k = key
  · subst same
    have here : SegmentBinds trimFunc segment k v ↔ value = v := by
      constructor
      · intro binds'
        exact (binds.unique binds').2
      · rintro rfl
        exact binds
    have never : ¬ ∀ v', ¬ SegmentBinds trimFunc segment k v' := fun none => none value binds
    rw [Function.update_self, Option.some_inj, here]
    tauto
  · have never : ∀ v', ¬ SegmentBinds trimFunc segment k v' := fun v' binds' => same (binds.unique binds').1.symm
    rw [Function.update_of_ne same]
    have := never v
    tauto

/-- Behind a segment without `=` the segments go on. -/
theorem paramBound_append {params : StringMap} {before behind : List (List UInt8)} {bare k v : List UInt8}
    (equals : ∀ segment ∈ before, 61 ∈ segment) (absent : 61 ∉ bare) :
    ParamBound trimFunc params (before ++ bare :: behind) k v ↔
      LastBinds trimFunc behind k v ∨
        ParamBound trimFunc params before k v ∧ ∀ segment ∈ behind, ∀ v', ¬ SegmentBinds trimFunc segment k v' := by
  induction before generalizing params with
  | nil =>
    have silent : ∀ v', ¬ SegmentBinds trimFunc bare k v' := fun v' binds => absent binds.equals
    rw [List.nil_append, paramBound_nil, ParamBound, lastBinds_cons, List.forall_mem_cons]
    have := silent v
    tauto
  | cons segment before ih =>
    rw [List.forall_mem_cons] at equals
    obtain ⟨key, value, binds⟩ := exists_segmentBinds trimFunc equals.1
    rw [List.cons_append, paramBound_cons binds, paramBound_cons binds]
    apply ih equals.2

/-! ## The loop -/

/-- As long as every segment has `=`, the loop reads them all. -/
theorem parseSegments_eq_some_iff {list : List (List UInt8)} (equals : ∀ segment ∈ list, 61 ∈ segment) {params : StringMap}
    {k v : List UInt8} : parseSegments trimFunc list params k = some v ↔ ParamBound trimFunc params list k v := by
  induction list generalizing params with
  | nil => rw [parseSegments, paramBound_nil]
  | cons segment list ih =>
    rw [List.forall_mem_cons] at equals
    obtain ⟨key, value, binds⟩ := exists_segmentBinds trimFunc equals.1
    rw [parseSegments_binds binds, paramBound_cons binds]
    apply ih equals.2

theorem parseSegments_stops {before : List (List UInt8)} {bare : List UInt8} (equals : ∀ segment ∈ before, 61 ∈ segment)
    (absent : 61 ∉ bare) (behind : List (List UInt8)) (params : StringMap) :
    parseSegments trimFunc (before ++ bare :: behind) params = parseSegments trimFunc before params := by
  induction before generalizing params with
  | nil => rw [List.nil_append, parseSegments_bare absent, parseSegments]
  | cons segment before ih =>
    rw [List.forall_mem_cons] at equals
    obtain ⟨key, value, binds⟩ := exists_segmentBinds trimFunc equals.1
    rw [List.cons_append, parseSegments_binds binds, parseSegments_binds binds]
    apply ih equals.2

theorem parseParam_binds (str : List UInt8) (flag : UInt8) (trimFunc : Option (List UInt8 → List UInt8)) (params : StringMap) :
    Binds trimFunc flag str params (parseParam str params flag trimFunc) := by
  rw [Binds, parseParam, split_eq_segments]
  generalize segments flag str = list
  constructor
  · intro bound before bare behind same equals absent k v last
    subst same
    rw [← parseSegments_eq_some_iff equals, ← parseSegments_stops equals absent behind]
    apply (bound k v).2
    exact (paramBound_append equals absent).2 (.inl last)
  · intro nothing k v
    obtain clean | ⟨before, bare, behind, same, equals, absent⟩ := cut_first (fun segment => decide (61 ∉ segment)) list
    · exact parseSegments_eq_some_iff (by simpa using clean)
    · simp only [decide_eq_false_iff_not, not_not, decide_eq_true_eq] at equals absent
      have behindSays := nothing before bare behind same equals absent
      subst same
      rw [parseSegments_stops equals absent, paramBound_append equals absent, parseSegments_eq_some_iff equals]
      constructor
      · intro bound
        by_cases named : ∃ segment ∈ behind, ∃ v, SegmentBinds trimFunc segment k v
        · -- both values are what the loop leaves in the map
          obtain ⟨v', last⟩ := exists_lastBinds named
          have bound' := parseSegments_eq_some_iff equals |>.2 (behindSays k v' last)
          have agree := (parseSegments_eq_some_iff equals).2 bound
          obtain rfl : v' = v := Option.some.inj (bound'.symm.trans agree)
          exact .inl last
        · exact .inr ⟨bound, by simpa using named⟩
      · rintro (last | ⟨bound, -⟩)
        · exact behindSays k v last
        · exact bound

/-- To ask for one parameter does not change what another one is. -/
theorem getParam_getParam (request : HttpRequestParams) (key key' : List UInt8) :
    ((request.getParam key).2.getParam key').1 = (request.getParam key').1 := by
  cases query : request.parsedQuery <;> cases body : request.parsedBody <;>
    simp [HttpRequestParams.getParam, HttpRequestParams.initQueryParam, HttpRequestParams.initBodyParam, query, body]

theorem getCookie_getCookie (request : HttpRequestParams) (key key' : List UInt8) :
    ((request.getCookie key).2.getCookie key').1 = (request.getCookie key').1 := by
  by_cases idle : request.parsedCookies || request.message.getHeader "cookie" = []
  · simp [HttpRequestParams.getCookie, HttpRequestParams.initCookies, idle]
  · simp [HttpRequestParams.getCookie, HttpRequestParams.initCookies, idle]

theorem parsesOnce (request : HttpRequestParams) : ParsesOnce request where
  query fresh := by
    rw [HttpRequestParams.initQueryParam, fresh]
    exact parseParam_binds _ _ _ _
  body fresh form := by
    rw [HttpRequestParams.initBodyParam, fresh]
    simp only [Bool.false_eq_true, if_false, form, if_true]
    exact parseParam_binds _ _ _ _
  cookies fresh given := by
    simp only [HttpRequestParams.initCookies, fresh, given, decide_false, Bool.or_false, Bool.false_eq_true, if_false]
    exact parseParam_binds _ _ _ _
  again := getParam_getParam request
  cookiesAgain := getCookie_getCookie request

/-- The map is the one that the segments say, if and only if nothing new is said behind the first segment
without `=`; and so for the query, the body and the cookies of a request. -/
theorem params_bound_iff (str : List UInt8) (flag : UInt8) (trimFunc : Option (List UInt8 → List UInt8)) (params : StringMap) :
    ((∀ k v, parseParam str params flag trimFunc k = some v ↔ ParamBound trimFunc params (segments flag str) k v) ↔
      NothingBehind trimFunc params (segments flag str)) ∧ ∀ request, ParsesOnce request :=
  ⟨parseParam_binds str flag trimFunc params, parsesOnce⟩

/-- `a&b=1` has a segment for `b`, and the map has nothing for it. -/
theorem behind_bare_lost :
    ¬ ∀ k v, parseParam (asciiBytes "a&b=1") (fun _ => none) 38 none k = some v ↔
      ParamBound none (fun _ => none) (segments 38 (asciiBytes "a&b=1")) k v := by
  intro bound
  have lost : parseParam (asciiBytes "a&b=1") (fun _ => none) 38 none [98] = none := by decide
  have cut : segments 38 (asciiBytes "a&b=1") = [[97], [98, 61, 49]] := by
    rw [← split_eq_segments]
    decide
  have said : ParamBound none (fun _ => none) (segments 38 (asciiBytes "a&b=1")) [98] [49] := by
    rw [cut]
    exact .inl ⟨[[97]], [98, 61, 49], [], rfl, ⟨[98], [49], rfl, by decide, rfl, by decide⟩, by simp⟩
  have found := (bound [98] [49]).2 said
  rw [lost] at found
  cases found

end Cassobee.Proofs
