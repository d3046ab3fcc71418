import Mathlib.Data.List.Chain
import Mathlib.Data.List.Nodup

/-! Circular doubly linked lists, read as the sequence of their nodes. Linking a node in at the end
and taking one out are the two edits; both write only to their own ring, so that every other ring
stays as it is. -/

namespace Cassobee.Support

variable {ν : Type} {prev next prev' next' : ν → Option ν}

def Linked (prev next : ν → Option ν) (a b : ν) : Prop := next a = some b ∧ prev b = some a

/-- Neighbours are linked both ways, and so are the last node and the first. -/
def Ring (prev next : ν → Option ν) (nodes : List ν) : Prop :=
  nodes.IsChain (Linked prev next) ∧ ∀ a ∈ nodes.getLast?, ∀ b ∈ nodes.head?, Linked prev next a b

theorem ring_nil : Ring prev next [] := ⟨.nil, by simp⟩

/-- Links are read only from the nodes themselves: `next` of all but the last, `prev` of all but the
first. -/
theorem chain_frame {nodes : List ν} (chain : nodes.IsChain (Linked prev next))
    (forward : ∀ a ∈ nodes.dropLast, next' a = next a) (backward : ∀ b ∈ nodes.tail, prev' b = prev b) :
    nodes.IsChain (Linked prev' next') := by
  induction nodes with
  | nil => exact .nil
  | cons a rest ih =>
    cases rest with
    | nil => exact .singleton a
    | cons b rest =>
      rw [List.isChain_cons_cons] at chain ⊢
      refine ⟨⟨?_, ?_⟩, ih chain.2 (fun c member => forward c ?_) (fun c member => backward c (List.mem_of_mem_tail member))⟩
      · rw [forward a (by simp)]
        exact chain.1.1
      · rw [backward b (by simp)]
        exact chain.1.2
      · rw [List.dropLast_cons_cons]
        exact .tail _ member

theorem ring_frame {nodes : List ν} (ring : Ring prev next nodes) (forward : ∀ a ∈ nodes, next' a = next a)
    (backward : ∀ b ∈ nodes, prev' b = prev b) : Ring prev' next' nodes := by
  refine ⟨chain_frame ring.1 (fun a member => forward a (List.dropLast_subset _ member))
    (fun b member => backward b (List.mem_of_mem_tail member)), ?_⟩
  intro a last b first
  obtain ⟨onward, back⟩ := ring.2 a last b first
  exact ⟨(forward a (List.mem_of_mem_getLast? last)).trans onward, (backward b (List.mem_of_mem_head? first)).trans back⟩

/-- A ring has no distinguished beginning. -/
theorem ring_rotate {front back : List ν} (ring : Ring prev next (front ++ back)) : Ring prev next (back ++ front) := by
  cases front with
  | nil => simpa using ring
  | cons a front =>
    cases back with
    | nil => simpa using ring
    | cons b back =>
      obtain ⟨chain, close⟩ := ring
      rw [List.isChain_append] at chain
      obtain ⟨one, two, seam⟩ := chain
      refine ⟨List.isChain_append.mpr ⟨two, one, ?_⟩, ?_⟩
      · intro c last d first
        refine close c ?_ d (by simpa using first)
        rwa [List.getLast?_append_of_ne_nil _ (List.cons_ne_nil b back)]
      · intro c last d first
        refine seam c ?_ d (by simpa using first)
        rwa [List.getLast?_append_of_ne_nil _ (List.cons_ne_nil a front)] at last

theorem Ring.chain_of_suffix {front back : List ν} (ring : Ring prev next (front ++ back)) :
    back.IsChain (Linked prev next) :=
  (List.isChain_append.mp ring.1).2.1

private theorem ne_last {nodes : List ν} (distinct : nodes.Nodup) {last a : ν} (final : nodes.getLast? = some last)
    (member : a ∈ nodes.dropLast) : a ≠ last := by
  rintro rfl
  obtain ⟨front, rfl⟩ := List.getLast?_eq_some_iff.mp final
  rw [List.dropLast_concat] at member
  exact (List.nodup_append.mp distinct).2.2 a member a (by simp) rfl

private theorem ne_head {nodes : List ν} (distinct : nodes.Nodup) {first b : ν} (start : nodes.head? = some first)
    (member : b ∈ nodes.tail) : b ≠ first := by
  rintro rfl
  obtain ⟨back, rfl⟩ := List.head?_eq_some_iff.mp start
  exact (List.nodup_cons.mp distinct).1 member

section Edit
variable [DecidableEq ν]

theorem ring_single (t : ν) : Ring (Function.update prev t (some t)) (Function.update next t (some t)) [t] := by
  refine ⟨.singleton t, ?_⟩
  intro a last b first
  simp only [List.getLast?_singleton, List.head?_cons, Option.mem_def, Option.some.injEq] at last first
  subst last first
  simp [Linked]

/-- The four writes that link a node in behind the last one. -/
theorem ring_push {nodes : List ν} {t first last : ν} (ring : Ring prev next nodes) (distinct : nodes.Nodup)
    (outside : t ∉ nodes) (start : nodes.head? = some first) (final : nodes.getLast? = some last) :
    Ring (Function.update (Function.update prev t (some last)) first (some t))
      (Function.update (Function.update next t (some first)) last (some t)) (nodes ++ [t]) := by
  have first_ne : t ≠ first := fun same => outside (same ▸ List.mem_of_mem_head? start)
  have last_ne : t ≠ last := fun same => outside (same ▸ List.mem_of_mem_getLast? final)
  have ne_of_mem {a : ν} (member : a ∈ nodes) : a ≠ t := fun same => outside (same ▸ member)
  refine ⟨List.isChain_append.mpr ⟨?_, .singleton t, ?_⟩, ?_⟩
  · refine chain_frame ring.1 (fun a member => ?_) (fun b member => ?_)
    · rw [Function.update_of_ne (ne_last distinct final member),
        Function.update_of_ne (ne_of_mem (List.dropLast_subset _ member))]
    · rw [Function.update_of_ne (ne_head distinct start member),
        Function.update_of_ne (ne_of_mem (List.mem_of_mem_tail member))]
  · intro a last' b first'
    rw [final, Option.mem_some_iff] at last'
    simp only [List.head?_cons, Option.mem_some_iff] at first'
    subst last' first'
    exact ⟨by simp, by simp [first_ne]⟩
  · intro a last' b first'
    rw [List.head?_append, start] at first'
    simp only [List.getLast?_append, List.getLast?_singleton, Option.some_or, Option.mem_some_iff] at last' first'
    subst last' first'
    exact ⟨by simp [last_ne], by simp⟩

/-- What a node of a ring of several nodes points to, and the ring that is left when its neighbours
have been linked to each other. -/
theorem ring_pop {front back : List ν} {t : ν} (ring : Ring prev next (front ++ t :: back))
    (distinct : (front ++ t :: back).Nodup) (several : back ++ front ≠ []) :
    ∃ before after, (back ++ front).head? = some after ∧ (back ++ front).getLast? = some before ∧
      next t = some after ∧ prev t = some before ∧
      Ring (Function.update (Function.update prev after (some before)) t none)
        (Function.update (Function.update next before (some after)) t none) (front ++ back) := by
  have turned : Ring prev next (t :: back ++ front) := ring_rotate ring
  have apart : (t :: back ++ front).Nodup := List.perm_append_comm.nodup_iff.mp distinct
  rw [List.cons_append] at turned apart
  obtain ⟨outside, apart⟩ := List.nodup_cons.mp apart
  obtain ⟨chain, close⟩ := turned
  rw [List.isChain_cons] at chain
  obtain ⟨after, start⟩ := Option.ne_none_iff_exists'.mp (fun none => several (List.head?_eq_none_iff.mp none))
  obtain ⟨before, final⟩ := Option.ne_none_iff_exists'.mp (fun none => several (List.getLast?_eq_none_iff.mp none))
  have onward := chain.1 after start
  have back_link := close before (by rw [List.getLast?_cons, final]; rfl) t (by simp)
  have after_ne : after ≠ t := fun same => outside (same ▸ List.mem_of_mem_head? start)
  have before_ne : before ≠ t := fun same => outside (same ▸ List.mem_of_mem_getLast? final)
  have ne_of_mem {a : ν} (member : a ∈ back ++ front) : a ≠ t := fun same => outside (same ▸ member)
  refine ⟨before, after, start, final, onward.1, back_link.2, ring_rotate ⟨?_, ?_⟩⟩
  · refine chain_frame chain.2 (fun a member => ?_) (fun b member => ?_)
    · rw [Function.update_of_ne (ne_of_mem (List.dropLast_subset _ member)),
        Function.update_of_ne (ne_last apart final member)]
    · rw [Function.update_of_ne (ne_of_mem (List.mem_of_mem_tail member)),
        Function.update_of_ne (ne_head apart start member)]
  · intro a last b first
    rw [final, Option.mem_some_iff] at last
    rw [start, Option.mem_some_iff] at first
    subst last first
    exact ⟨by simp [before_ne], by simp [after_ne]⟩

end Edit

/-! A ring that is walked once around. What has been passed and not been taken out is still linked
in, but its own links are no longer relied on. -/

/-- The links of the nodes that are left. -/
def Arc (prev next : ν → Option ν) (passed rest : List ν) : Prop :=
  ∀ front t back, rest = front ++ t :: back →
    next t = (back ++ passed ++ front ++ [t]).head? ∧ prev t = (t :: back ++ passed ++ front).getLast?

theorem ring_arc {nodes : List ν} (ring : Ring prev next nodes) : Arc prev next [] nodes := by
  rintro front t back rfl
  have turned : Ring prev next (t :: back ++ front) := ring_rotate ring
  obtain ⟨chain, close⟩ := turned
  rw [List.cons_append, List.isChain_cons] at chain
  refine ⟨?_, ?_⟩
  · cases shape : back ++ front with
    | nil =>
      obtain ⟨rfl, rfl⟩ := List.append_eq_nil_iff.mp shape
      exact (close t rfl t rfl).1
    | cons a rest =>
      rw [List.append_nil, List.head?_append, shape]
      exact (chain.1 a (by rw [shape]; rfl)).1
  · obtain ⟨last, final⟩ : ∃ last, (t :: back ++ front).getLast? = some last :=
      Option.ne_none_iff_exists'.mp (by simp)
    rw [List.append_nil, final]
    exact (close last final t rfl).2

theorem arc_next {passed rest : List ν} {t u : ν} (arc : Arc prev next passed (t :: u :: rest)) : next t = some u := by
  simpa using (arc [] t (u :: rest) rfl).1

theorem arc_frame {passed rest : List ν} (arc : Arc prev next passed rest) (forward : ∀ t ∈ rest, next' t = next t)
    (backward : ∀ t ∈ rest, prev' t = prev t) : Arc prev' next' passed rest := by
  rintro front t back rfl
  rw [forward t (by simp), backward t (by simp)]
  exact arc front t back rfl

/-- The walk goes on, and the node stays linked in. -/
theorem arc_pass {passed rest : List ν} {t : ν} (arc : Arc prev next passed (t :: rest)) :
    Arc prev next (passed ++ [t]) rest := by
  rintro front u back rfl
  have links := arc (t :: front) u back rfl
  simpa [List.append_assoc] using links

/-- The walk goes on, and the node is taken out. -/
theorem arc_pop [DecidableEq ν] {passed rest : List ν} {t : ν} (arc : Arc prev next passed (t :: rest))
    (distinct : (t :: rest ++ passed).Nodup) {before after : ν} (start : (rest ++ passed).head? = some after)
    (final : (rest ++ passed).getLast? = some before) :
    Arc (Function.update (Function.update prev after (some before)) t none)
      (Function.update (Function.update next before (some after)) t none) passed rest := by
  rintro front u back rfl
  obtain ⟨forward, backward⟩ := arc (t :: front) u back rfl
  simp only [List.append_assoc, List.cons_append, List.nodup_cons, List.mem_append, List.mem_cons, not_or] at distinct
  obtain ⟨⟨-, different, -⟩, distinct⟩ := distinct
  obtain ⟨-, tail, apart⟩ := List.nodup_append.mp distinct
  have outside : u ∉ back ++ passed := (List.nodup_cons.mp tail).1
  simp only [List.append_assoc, List.cons_append] at start final forward backward ⊢
  rw [Function.update_of_ne (Ne.symm different), Function.update_of_ne (Ne.symm different)]
  refine ⟨?_, ?_⟩
  · cases shape : back ++ passed with
    | nil =>
      -- The last node that is left: behind it the first one comes again.
      obtain ⟨rfl, rfl⟩ := List.append_eq_nil_iff.mp shape
      obtain rfl : u = before := by simpa using final
      simpa using start.symm
    | cons a more =>
      have different : u ≠ before := by
        rintro rfl
        apply outside
        rw [List.getLast?_append_of_ne_nil _ (List.cons_ne_nil _ _), List.getLast?_cons_of_ne_nil (by simp [shape])] at final
        exact List.mem_of_mem_getLast? final
      rw [Function.update_of_ne different, forward, ← List.append_assoc, ← List.append_assoc back, shape]
      rfl
  · cases front with
    | nil =>
      obtain rfl : u = after := by simpa using start
      simpa using final.symm
    | cons a front =>
      have different : u ≠ after := by
        rintro rfl
        obtain rfl : a = u := by simpa using start
        exact apart a (.head _) a (.head _) rfl
      rw [Function.update_of_ne different, backward]
      simp [List.getLast?_append, List.getLast?_cons]

end Cassobee.Support
