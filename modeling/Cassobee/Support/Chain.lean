/-! Singly linked lists ended by a null link, and what they keep when links are written elsewhere. -/

namespace Cassobee.Support

variable {α : Type} {next other : α → Option α} {head : Option α} {nodes : List α}

/-- Following `next` from `head` passes the nodes in order and then ends. -/
def Chain (next : α → Option α) : Option α → List α → Prop
  | head, [] => head = none
  | head, node :: nodes => head = some node ∧ Chain next (next node) nodes

theorem Chain.ends (chain : Chain next none nodes) : nodes = [] := by
  cases nodes with
  | nil => rfl
  | cons node nodes => cases chain.1

theorem Chain.starts {node : α} (chain : Chain next (some node) nodes) :
    ∃ rest, nodes = node :: rest ∧ Chain next (next node) rest := by
  cases nodes with
  | nil => cases chain
  | cons first rest =>
    obtain ⟨same, linked⟩ := chain
    cases same
    exact ⟨rest, rfl, linked⟩

theorem Chain.frame (chain : Chain next head nodes) (same : ∀ node ∈ nodes, other node = next node) :
    Chain other head nodes := by
  induction nodes generalizing head with
  | nil => exact chain
  | cons node nodes ih =>
    obtain ⟨first, linked⟩ := chain
    rw [← same node (List.mem_cons_self ..)] at linked
    exact ⟨first, ih linked fun later member => same later (List.mem_cons_of_mem _ member)⟩

theorem Chain.unique {nodes' : List α} (chain : Chain next head nodes) (again : Chain next head nodes') :
    nodes = nodes' := by
  induction nodes generalizing head nodes' with
  | nil =>
    cases chain
    exact (Chain.ends again).symm
  | cons node nodes ih =>
    obtain ⟨rfl, linked⟩ := chain
    obtain ⟨rest, rfl, linked'⟩ := Chain.starts again
    rw [ih linked linked']

theorem Chain.head_eq (chain : Chain next head nodes) : head = nodes.head? := by
  cases nodes with
  | nil => exact chain
  | cons node nodes => exact chain.1

/-- What follows a node of the chain is a chain from the node's link. -/
theorem Chain.behind {front back : List α} {node : α} (chain : Chain next head (front ++ node :: back)) :
    Chain next (next node) back := by
  induction front generalizing head with
  | nil => exact chain.2
  | cons first front ih => exact ih chain.2

/-- A chain that starts within another one is its end. -/
theorem Chain.suffix {node : α} {rest : List α} (chain : Chain next head nodes) (member : node ∈ nodes)
    (within : Chain next (some node) rest) : rest <:+ nodes := by
  obtain ⟨front, back, rfl⟩ := List.append_of_mem member
  have from_node : Chain next (some node) (node :: back) := ⟨rfl, chain.behind⟩
  rw [within.unique from_node]
  exact List.suffix_append front (node :: back)

/-- A link that is written cuts off what was behind the node, and the chain goes on where the link points. -/
theorem Chain.relink {front back rest : List α} {node : α} (chain : Chain next head (front ++ node :: back))
    (same : ∀ place ∈ front ++ rest, other place = next place) (target : Chain next (other node) rest) :
    Chain other head (front ++ node :: rest) := by
  induction front generalizing head with
  | nil => exact ⟨chain.1, target.frame same⟩
  | cons first front ih =>
    obtain ⟨start, linked⟩ := chain
    rw [← same first (List.mem_cons_self ..)] at linked
    exact ⟨start, ih linked fun later member => same later (List.mem_cons_of_mem _ member)⟩

/-- Where a node does not link to a chain within its own, that chain starts behind what it links to. -/
theorem Chain.shorter {front back rest : List α} {node : α} {start : Option α} (chain : Chain next head (front ++ node :: back))
    (inner : Chain next start rest) (within : rest ⊆ front ++ node :: back) (apart : node ∉ rest)
    (differs : next node ≠ start) : rest.length < back.length := by
  have whole : rest <:+ front ++ node :: back := by
    cases rest with
    | nil => exact List.nil_suffix
    | cons first rest =>
      obtain rfl := inner.1
      exact chain.suffix (within (List.mem_cons_self ..)) inner
  have behind : back <:+ front ++ node :: back := (List.suffix_cons node back).trans (List.suffix_append front (node :: back))
  have fits : rest.length ≤ back.length := by
    refine Nat.le_of_lt_succ (Nat.lt_of_not_le fun longer => ?_)
    have inside := List.suffix_of_suffix_length_le (List.suffix_append front (node :: back)) whole longer
    exact apart (inside.subset (List.mem_cons_self ..))
  refine Nat.lt_of_le_of_ne fits fun equal => ?_
  have same : rest = back := (List.suffix_of_suffix_length_le whole behind fits).eq_of_length equal
  rw [same] at inner
  exact differs (chain.behind.head_eq.trans inner.head_eq.symm)

private theorem chain_from {next : Nat → Option Nat} {capacity : Nat}
    (links : ∀ index, index < capacity - 1 → next index = some (index + 1)) (last : next (capacity - 1) = none)
    (count start : Nat) (reaches : start + count + 1 = capacity) :
    Chain next (some start) (List.range' start (count + 1)) := by
  induction count generalizing start with
  | zero =>
    obtain rfl : start = capacity - 1 := by omega
    exact ⟨rfl, last⟩
  | succ count ih =>
    rw [List.range'_succ]
    refine ⟨rfl, ?_⟩
    rw [links start (by omega)]
    exact ih (start + 1) (by omega)

/-- Every node links to its neighbour, and the last one ends the list. -/
theorem Chain.range {next : Nat → Option Nat} {capacity : Nat} (positive : 0 < capacity)
    (links : ∀ index, index < capacity - 1 → next index = some (index + 1)) (last : next (capacity - 1) = none) :
    Chain next (some 0) (List.range capacity) := by
  obtain ⟨count, rfl⟩ : ∃ count, capacity = count + 1 := ⟨capacity - 1, by omega⟩
  rw [List.range_eq_range']
  exact chain_from links last count 0 (by omega)

end Cassobee.Support
