import Cassobee.Proofs.Sequences
import Cassobee.Support.Ring

/-! The lists as the source has them, against the sequences of their nodes. Every list that owns the
links of its nodes is a ring, no node is in two rings, and so an edit of one list leaves the others
as they are. -/

namespace Cassobee
open Support

namespace Links
variable {links : Links} {name : ListName} {t : Nat}

/-- These nodes keep their links. -/
def Frame (kept : Nat → Prop) (before after : Links) : Prop :=
  ∀ u, kept u → after.prev u = before.prev u ∧ after.next u = before.next u

theorem pushBack_ring {nodes : List Nat} (head : links.head name = nodes.head?) (ring : Ring links.prev links.next nodes)
    (distinct : nodes.Nodup) (outside : t ∉ nodes) :
    ∃ links', links.pushBack name t = some links' ∧
      links'.head = Function.update links.head name (nodes ++ [t]).head? ∧
      links'.count = Function.update links.count name (links.count name + 1) ∧
      Ring links'.prev links'.next (nodes ++ [t]) ∧ Frame (fun u => u ≠ t ∧ u ∉ nodes) links links' := by
  cases nodes with
  | nil =>
    have empty : links.head name = none := head
    refine ⟨_, by rw [pushBack, empty], rfl, rfl, ring_single t, ?_⟩
    rintro u ⟨different, -⟩
    exact ⟨Function.update_of_ne different _ _, Function.update_of_ne different _ _⟩
  | cons first rest =>
    have found : links.head name = some first := head
    obtain ⟨last, final⟩ : ∃ last, (first :: rest).getLast? = some last := Option.ne_none_iff_exists'.mp (by simp)
    have tail : links.prev first = some last := (ring.2 last final first rfl).2
    refine ⟨_, by rw [pushBack, found]; simp only [tail, Option.bind_eq_bind, Option.bind_some]; rfl, ?_, rfl,
      ring_push ring distinct outside rfl final, ?_⟩
    · rw [List.cons_append, List.head?_cons, ← found, Function.update_eq_self]
    · rintro u ⟨different, other⟩
      have notFirst : u ≠ first := fun same => other (same ▸ List.mem_cons_self)
      have notLast : u ≠ last := fun same => other (same ▸ List.mem_of_mem_getLast? final)
      exact ⟨by simp [notFirst, different], by simp [notLast, different]⟩

theorem pop_single (head : links.head name = some t) (count : links.count name = 1) :
    links.pop name t = some { links with
      head := Function.update links.head name none
      count := Function.update links.count name 0 } := by
  rw [pop, head, Option.bind_eq_bind, Option.bind_some, if_pos ⟨rfl, count⟩]
  rfl

theorem pop_several {head before after : Nat} (start : links.head name = some head)
    (several : ¬(t = head ∧ links.count name = 1)) (forward : links.next t = some after)
    (backward : links.prev t = some before) :
    links.pop name t = some {
      prev := Function.update (Function.update links.prev after (some before)) t none
      next := Function.update (Function.update links.next before (some after)) t none
      head := if t = head then Function.update links.head name (some after) else links.head
      count := Function.update links.count name ((links.count name + wordSize - 1) % wordSize) } := by
  rw [pop, start, Option.bind_eq_bind, Option.bind_some, if_neg several, forward, Option.bind_some, backward, Option.bind_some]
  rfl

theorem count_pred {n : Nat} (small : n < wordSize) (positive : 0 < n) : (n + wordSize - 1) % wordSize = n - 1 := by
  rw [show n + wordSize - 1 = n - 1 + wordSize by omega, Nat.add_mod_right, Nat.mod_eq_of_lt (by omega)]

/-- Only a list that begins with the node begins with its neighbour afterwards. -/
theorem head_of_pop {front back : List Nat} {first after : Nat} (begins : links.head name = some first)
    (head : links.head name = (front ++ t :: back).head?) (distinct : t ∉ front) (start : (back ++ front).head? = some after) :
    (if t = first then Function.update links.head name (some after) else links.head) =
      Function.update links.head name (front ++ back).head? := by
  rw [begins] at head
  cases front with
  | nil =>
    obtain rfl : first = t := by simpa using head
    rw [List.append_nil] at start
    rw [if_pos rfl, List.nil_append, start]
  | cons a front =>
    obtain rfl : first = a := by simpa using head
    have different : t ≠ first := by
      rintro rfl
      exact distinct (.head _)
    rw [if_neg different, List.cons_append, List.head?_cons, ← begins, Function.update_eq_self]

theorem pop_ring {front back : List Nat} (head : links.head name = (front ++ t :: back).head?)
    (count : links.count name = (front ++ t :: back).length) (small : (front ++ t :: back).length < wordSize)
    (ring : Ring links.prev links.next (front ++ t :: back)) (distinct : (front ++ t :: back).Nodup) :
    ∃ links', links.pop name t = some links' ∧ links'.head = Function.update links.head name (front ++ back).head? ∧
      links'.count = Function.update links.count name (front ++ back).length ∧
      Ring links'.prev links'.next (front ++ back) ∧ Frame (fun u => u ∉ front ++ t :: back) links links' := by
  by_cases several : back ++ front = []
  · obtain ⟨rfl, rfl⟩ := List.append_eq_nil_iff.mp several
    refine ⟨_, pop_single head count, rfl, rfl, ring_nil, ?_⟩
    intro u _
    exact ⟨rfl, rfl⟩
  · obtain ⟨before, after, start, final, forward, backward, rest⟩ := ring_pop ring distinct several
    have many : links.count name ≠ 1 := by
      intro one
      rw [count] at one
      apply several
      rw [← List.length_eq_zero_iff]
      simp only [List.length_append, List.length_cons] at one ⊢
      omega
    obtain ⟨first, begins⟩ : ∃ first, links.head name = some first := by
      rw [head]
      exact Option.ne_none_iff_exists'.mp (by simp)
    have apart : t ∉ front := fun member => (List.nodup_cons.1 (List.nodup_middle.1 distinct)).1 (List.mem_append_left _ member)
    refine ⟨_, pop_several begins (fun both => many both.2) forward backward, ?_, ?_, rest, ?_⟩
    · exact head_of_pop begins head apart start
    · have shorter : (front ++ t :: back).length = (front ++ back).length + 1 := by
        simp only [List.length_append, List.length_cons]
        omega
      rw [count, count_pred small (by omega), shorter, Nat.add_sub_cancel]
    · intro u outside
      have other {v : Nat} (member : v ∈ back ++ front) : u ≠ v := by
        rintro rfl
        apply outside
        simp only [List.mem_append, List.mem_cons] at member ⊢
        exact member.elim (fun behind => .inr (.inr behind)) .inl
      have self : u ≠ t := by
        rintro rfl
        exact outside (by simp)
      exact ⟨by simp [self, other (List.mem_of_mem_head? start)], by simp [self, other (List.mem_of_mem_getLast? final)]⟩

/-- `active_list.pop` in a walk. It writes to the nodes on both sides, which may have been passed. -/
theorem pop_arc {passed rest : List Nat} (head : links.head name = (passed ++ t :: rest).head?)
    (count : links.count name = (passed ++ t :: rest).length) (small : (passed ++ t :: rest).length < wordSize)
    (arc : Arc links.prev links.next passed (t :: rest)) (distinct : (t :: rest ++ passed).Nodup) :
    ∃ links', links.pop name t = some links' ∧ links'.head = Function.update links.head name (passed ++ rest).head? ∧
      links'.count = Function.update links.count name (passed ++ rest).length ∧ Arc links'.prev links'.next passed rest ∧
      Frame (fun u => u ∉ t :: rest ∧ u ∉ passed.getLast? ∧ (rest = [] → u ∉ passed.head?)) links links' := by
  obtain ⟨forward, backward⟩ := arc [] t rest rfl
  simp only [List.append_nil] at forward backward
  by_cases several : rest ++ passed = []
  · obtain ⟨rfl, rfl⟩ := List.append_eq_nil_iff.mp several
    refine ⟨_, pop_single head count, rfl, rfl, ?_, ?_⟩
    · intro front u back shape
      simp at shape
    · intro u _
      exact ⟨rfl, rfl⟩
  · obtain ⟨after, start⟩ := Option.ne_none_iff_exists'.mp fun empty => several (List.head?_eq_none_iff.mp empty)
    obtain ⟨before, final⟩ := Option.ne_none_iff_exists'.mp fun empty => several (List.getLast?_eq_none_iff.mp empty)
    rw [List.head?_append, start, Option.some_or] at forward
    rw [List.cons_append, List.getLast?_cons, final, Option.getD_some] at backward
    have shorter : (passed ++ t :: rest).length = (passed ++ rest).length + 1 := by
      simp only [List.length_append, List.length_cons]
      omega
    have many : links.count name ≠ 1 := by
      intro one
      rw [count, shorter] at one
      apply several
      rw [← List.length_eq_zero_iff]
      simp only [List.length_append] at one ⊢
      omega
    obtain ⟨first, begins⟩ : ∃ first, links.head name = some first := by
      rw [head]
      exact Option.ne_none_iff_exists'.mp (by simp)
    refine ⟨_, pop_several begins (fun both => many both.2) forward backward, ?_, ?_, arc_pop arc distinct start final, ?_⟩
    · exact head_of_pop begins head (fun member => (List.nodup_cons.mp distinct).1 (List.mem_append_right _ member)) start
    · rw [count, count_pred small (by omega), shorter, Nat.add_sub_cancel]
    · rintro u ⟨outside, notLast, notFirst⟩
      have self : u ≠ t := by
        rintro rfl
        exact outside (.head _)
      have notAfter : u ≠ after := by
        rintro rfl
        cases rest with
        | nil => exact notFirst rfl start
        | cons a rest =>
          obtain rfl : a = u := by simpa using start
          exact outside (.tail _ (.head _))
      have notBefore : u ≠ before := by
        rintro rfl
        by_cases none : passed = []
        · subst none
          rw [List.append_nil] at final
          exact outside (.tail _ (List.mem_of_mem_getLast? final))
        · rw [List.getLast?_append_of_ne_nil _ none] at final
          exact notLast final
      exact ⟨by simp [self, notAfter], by simp [self, notBefore]⟩

end Links

/-- These nodes keep their links, and the local list of `handle_timer` stays as it is. -/
structure Links.Keeps (kept : Nat → Prop) (before after : Links) : Prop where
  links : Links.Frame kept before after
  head : after.head .active = before.head .active
  count : after.count .active = before.count .active

theorem Links.Keeps.trans {kept : Nat → Prop} {one two three : Links} (first : Links.Keeps kept one two)
    (second : Links.Keeps kept two three) : Links.Keeps kept one three := by
  refine ⟨?_, second.head.trans first.head, second.count.trans first.count⟩
  intro u member
  obtain ⟨prev, next⟩ := first.links u member
  obtain ⟨prev', next'⟩ := second.links u member
  exact ⟨prev'.trans prev, next'.trans next⟩

theorem Links.Keeps.mono {kept fewer : Nat → Prop} {before after : Links} (keeps : Links.Keeps kept before after)
    (less : ∀ u, fewer u → kept u) : Links.Keeps fewer before after :=
  ⟨fun u member => keeps.links u (less u member), keeps.head, keeps.count⟩

/-- `rings` are the lists that own the links of their nodes. The list that is walked is not read here,
and neither is the local one. -/
structure Mirror (walked : ListName) (links : Links) (lists rings : Sequences) : Prop where
  head {name : ListName} (global : name ≠ .active) (read : name ≠ walked) : links.head name = (lists name).head?
  count {name : ListName} (global : name ≠ .active) (read : name ≠ walked) : links.count name = (lists name).length
  ring (name : ListName) : Ring links.prev links.next (rings name)
  apart : Apart rings

namespace Mirror
open Proofs Links
variable {walked name : ListName} {links links' : Links} {lists rings : Sequences} {t : Nat}

/-- One list changes, and its nodes' links with it. -/
theorem edit (mirror : Mirror walked links lists rings) {list nodes : List Nat}
    (head : links'.head = Function.update links.head name list.head?)
    (count : links'.count = Function.update links.count name list.length) (ring : Ring links'.prev links'.next nodes)
    (frame : Frame (fun u => ∃ other, other ≠ name ∧ u ∈ rings other) links links')
    (apart : Apart (Function.update rings name nodes)) :
    Mirror walked links' (Function.update lists name list) (Function.update rings name nodes) := by
  refine ⟨?_, ?_, ?_, apart⟩
  · intro other global read
    rw [head]
    by_cases same : other = name
    · subst same
      simp
    · rw [Function.update_of_ne same, Function.update_of_ne same]
      exact mirror.head global read
  · intro other global read
    rw [count]
    by_cases same : other = name
    · subst same
      simp
    · rw [Function.update_of_ne same, Function.update_of_ne same]
      exact mirror.count global read
  · intro other
    by_cases same : other = name
    · subst same
      simpa using ring
    · rw [Function.update_of_ne same]
      exact ring_frame (mirror.ring other) (fun u member => (frame u ⟨other, same, member⟩).2)
        (fun u member => (frame u ⟨other, same, member⟩).1)

private theorem keeps {kept : Nat → Prop} (global : name ≠ .active) (frame : Frame kept links links') {first : Option Nat}
    {number : Nat} (head : links'.head = Function.update links.head name first)
    (count : links'.count = Function.update links.count name number) : Keeps kept links links' := by
  refine ⟨frame, ?_, ?_⟩
  · rw [head, Function.update_of_ne (Ne.symm global)]
  · rw [count, Function.update_of_ne (Ne.symm global)]

theorem push (mirror : Mirror walked links lists rings) (global : name ≠ .active) (read : name ≠ walked)
    (own : rings name = lists name) (outside : ∀ other, t ∉ rings other) :
    ∃ links', links.pushBack name t = some links' ∧ Mirror walked links' (lists.pushBack name t) (rings.pushBack name t) ∧
      Keeps (fun u => u ≠ t ∧ u ∉ rings name) links links' := by
  obtain ⟨links', pushed, head, count, ring, frame⟩ := pushBack_ring (own ▸ mirror.head global read) (mirror.ring name)
    (mirror.apart.nodup name) (outside name)
  refine ⟨links', pushed, ?_, keeps global frame head count⟩
  refine mirror.edit (own ▸ head) ?_ ring ?_ ⟨?_, ?_⟩
  · rw [count, mirror.count global read, List.length_append]
    rfl
  · rintro u ⟨other, different, member⟩
    refine frame u ⟨?_, fun here => different (mirror.apart.only member here)⟩
    rintro rfl
    exact outside other member
  · intro other
    by_cases same : other = name
    · subst same
      rw [Function.update_self]
      exact List.nodup_append.mpr ⟨mirror.apart.nodup other, List.nodup_singleton t, by
        intro u member v single
        rw [List.mem_singleton.mp single]
        rintro rfl
        exact outside other member⟩
    · rw [Function.update_of_ne same]
      exact mirror.apart.nodup other
  · intro one two u first second
    have origin {other : ListName} (member : u ∈ Function.update rings name (rings name ++ [t]) other) :
        u ∈ rings other ∨ u = t ∧ other = name := by
      by_cases same : other = name
      · subst same
        simpa using member
      · rw [Function.update_of_ne same] at member
        exact .inl member
    rcases origin first with before | ⟨rfl, rfl⟩
    · rcases origin second with before' | ⟨rfl, -⟩
      · exact mirror.apart.only before before'
      · exact absurd before (outside one)
    · rcases origin second with before' | ⟨-, rfl⟩
      · exact absurd before' (outside two)
      · rfl

private theorem apart_shrink (apart : Apart rings) {nodes : List Nat} (fewer : nodes.Sublist (rings name)) :
    Apart (Function.update rings name nodes) := by
  have less (other : ListName) : (Function.update rings name nodes other).Sublist (rings other) := by
    by_cases same : other = name
    · subst same
      simpa using fewer
    · rw [Function.update_of_ne same]
  exact ⟨fun other => (apart.nodup other).sublist (less other),
    fun one two => apart.only ((less _).subset one) ((less _).subset two)⟩

theorem pop (mirror : Mirror walked links lists rings) (global : name ≠ .active) (read : name ≠ walked)
    (own : rings name = lists name) (small : (lists name).length < wordSize) (member : t ∈ lists name) :
    ∃ links', links.pop name t = some links' ∧
      Mirror walked links' (Function.update lists name ((lists name).erase t))
        (Function.update rings name ((rings name).erase t)) ∧
      Keeps (fun u => u ∉ rings name) links links' := by
  obtain ⟨front, back, shape⟩ := List.append_of_mem member
  have head := mirror.head global read
  have count := mirror.count global read
  have ring := mirror.ring name
  have distinct := mirror.apart.nodup name
  have erased : (lists name).erase t = front ++ back := by
    rw [own, shape] at distinct
    rw [shape, List.erase_append_right _ fun here => (List.nodup_append.mp distinct).2.2 t here t (.head _) rfl,
      List.erase_cons_head]
  rw [own] at ring distinct
  rw [shape] at head count small ring distinct
  obtain ⟨links', popped, head', count', ring', frame⟩ := pop_ring head count small ring distinct
  rw [own, erased]
  refine ⟨links', popped, mirror.edit head' count' ring' ?_ (apart_shrink mirror.apart ?_), ?_⟩
  · rintro u ⟨other, different, there⟩
    apply frame
    rw [← shape, ← own]
    exact fun here => different (mirror.apart.only there here)
  · rw [own, ← erased]
    exact List.erase_sublist
  · rw [shape]
    exact keeps global frame head' count'

/-- A list may give its nodes' links away. -/
theorem release (mirror : Mirror walked links lists rings) (name : ListName) :
    Mirror walked links lists (Function.update rings name []) := by
  refine ⟨mirror.head, mirror.count, ?_, apart_shrink mirror.apart (List.nil_sublist _)⟩
  intro other
  by_cases same : other = name
  · subst same
    simpa using ring_nil
  · rw [Function.update_of_ne same]
    exact mirror.ring other

theorem frame (mirror : Mirror walked links lists rings)
    (head : ∀ name, name ≠ .active → links'.head name = links.head name)
    (count : ∀ name, name ≠ .active → links'.count name = links.count name)
    (frame : Frame (fun u => ∃ other, u ∈ rings other) links links') : Mirror walked links' lists rings := by
  refine ⟨fun global read => (head _ global).trans (mirror.head global read),
    fun global read => (count _ global).trans (mirror.count global read), ?_, mirror.apart⟩
  intro other
  exact ring_frame (mirror.ring other) (fun u member => (frame u ⟨other, member⟩).2)
    (fun u member => (frame u ⟨other, member⟩).1)

end Mirror
end Cassobee
