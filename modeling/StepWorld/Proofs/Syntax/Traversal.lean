import Mathlib.Data.List.Forall2
import StepWorld.Proofs.World.Parts

/-! The traversal of a program. A place in a program is a path from part to part, and places are
ordered like the words of a dictionary. The traversal goes through all of them in this order. -/

namespace StepWorld

namespace Node

/-- The nodes in the fields of a node, in the order of the fields and of their lists. -/
def children : Node → List Node
  | .program p => p.entities.map .entity ++ p.rules.map .rule
  | .entity e => e.properties.map .property ++ e.events.map .event
  | .property p => [.type p.type]
  | .type _ => []
  | .event e =>
    e.condition.toList.map .expr ++ e.effect.toList.map .expr ++ e.weighted.map .weighted
  | .weighted w => [.expr w.effect]
  | .rule r =>
    r.condition.toList.map .expr ++ r.effect.toList.map .expr ++
      r.temporal.map (.expr ·.toExpr) ++ r.probability.map (.expr ·.toExpr)
  | .expr e => e.children.map .expr

/-- The node at a place. Each number of a place tells which child to go to. -/
def at? : Node → List Nat → Option Node
  | n, [] => some n
  | n, i :: place => n.children[i]?.bind fun m => m.at? place

def nodes : Node → List Node
  | .program p => p.nodes
  | .entity e => e.nodes
  | .property p => p.nodes
  | .type t => [.type t]
  | .event e => e.nodes
  | .weighted w => w.nodes
  | .rule r => r.nodes
  | .expr e => e.asNodes

variable {n m : Node} {i : Nat} {place : List Nat} {places : List (List Nat)}
  {rows : List (List (List Nat))}

theorem nodes_eq (n : Node) : n.nodes = n :: n.children.flatMap nodes := by
  cases n with
  | expr e =>
    have hparts : e.asNodes = .expr e :: e.children.flatMap Expr.asNodes := by
      rw [Expr.asNodes, e.nodes_eq, List.map_cons, List.map_flatMap]
      rfl
    simpa [nodes, children, List.flatMap_map] using hparts
  | event e =>
    cases hcondition : e.condition <;> cases heffect : e.effect <;>
      simp [nodes, children, EventDecl.nodes, optionalNodes, List.flatMap_map, hcondition, heffect]
  | rule r =>
    cases hcondition : r.condition <;> cases heffect : r.effect <;>
      simp [nodes, children, RuleDecl.nodes, optionalNodes, List.flatMap_map, hcondition, heffect]
  | program p => simp [nodes, children, Program.nodes, List.flatMap_map]
  | entity e => simp [nodes, children, EntityDecl.nodes, List.flatMap_map]
  | property p => simp [nodes, children, PropertyDecl.nodes]
  | type t => rfl
  | weighted w => simp [nodes, children, WeightedEffect.nodes]

theorem length_nodes_lt (h : m ∈ n.children) : m.nodes.length < n.nodes.length := by
  have hsublist : m.nodes.Sublist (n.children.flatMap nodes) :=
    List.sublist_flatten_of_mem (List.mem_map_of_mem h)
  rw [n.nodes_eq, List.length_cons]
  exact Nat.lt_succ_of_le hsublist.length_le

structure Visits (n : Node) (places : List (List Nat)) : Prop where
  visited : places.map n.at? = n.nodes.map some
  complete : ∀ place, (n.at? place).isSome → place ∈ places
  ordered : places.Pairwise (· < ·)

/-! ### A row of children -/

def placesFrom (i : Nat) : List (List (List Nat)) → List (List Nat)
  | [] => []
  | row :: rows => row.map (i :: ·) ++ placesFrom (i + 1) rows

theorem mem_placesFrom : place ∈ placesFrom i rows ↔
    ∃ j row rest, rows[j]? = some row ∧ rest ∈ row ∧ place = (i + j) :: rest := by
  induction rows generalizing i with
  | nil => simp [placesFrom]
  | cons row rows ih =>
    rw [placesFrom, List.mem_append, ih, List.mem_map]
    constructor
    · rintro (⟨rest, hrest, rfl⟩ | ⟨j, row', rest, hrow, hrest, rfl⟩)
      · exact ⟨0, row, rest, rfl, hrest, rfl⟩
      · exact ⟨j + 1, row', rest, hrow, hrest, by rw [Nat.add_right_comm, Nat.add_assoc]⟩
    · rintro ⟨j, row', rest, hrow, hrest, rfl⟩
      cases j with
      | zero =>
        obtain rfl : row = row' := Option.some.inj hrow
        exact .inl ⟨rest, hrest, rfl⟩
      | succ j => exact .inr ⟨j, row', rest, hrow, hrest, by rw [Nat.add_right_comm, Nat.add_assoc]⟩

theorem ordered_placesFrom (h : ∀ row ∈ rows, row.Pairwise (· < ·)) :
    (placesFrom i rows).Pairwise (· < ·) := by
  induction rows generalizing i with
  | nil => exact .nil
  | cons row rows ih =>
    refine List.pairwise_append.mpr ⟨?_, ih fun row' hrow => h row' (List.mem_cons_of_mem _ hrow), ?_⟩
    · refine List.pairwise_map.mpr ((h row List.mem_cons_self).imp fun hlt => ?_)
      exact List.cons_lt_cons_iff.mpr (.inr ⟨rfl, hlt⟩)
    · intro a ha b hb
      obtain ⟨rest, -, rfl⟩ := List.mem_map.mp ha
      obtain ⟨j, -, rest', -, -, rfl⟩ := mem_placesFrom.mp hb
      exact List.cons_lt_cons_iff.mpr (.inl (by omega))

theorem visited_placesFrom {earlier later : List Node} (hchildren : n.children = earlier ++ later)
    (h : List.Forall₂ Visits later rows) :
    (placesFrom earlier.length rows).map n.at? = (later.flatMap nodes).map some := by
  induction h generalizing earlier with
  | nil => rfl
  | @cons child row later rows hrow _ ih =>
    have hchild : n.children[earlier.length]? = some child := by simp [hchildren]
    have hat : n.at? ∘ (earlier.length :: ·) = child.at? := by
      funext place
      simp [at?, hchild]
    have hlater := @ih (earlier ++ [child]) (by simp [hchildren])
    rw [List.length_append, List.length_singleton] at hlater
    rw [placesFrom, List.map_append, List.map_map, hat, hrow.visited, hlater, List.flatMap_cons,
      List.map_append]

theorem Visits.of_children (h : List.Forall₂ Visits n.children rows) :
    n.Visits ([] :: placesFrom 0 rows) where
  visited := by
    rw [n.nodes_eq, List.map_cons, List.map_cons, at?]
    exact congrArg _ (visited_placesFrom (List.nil_append n.children).symm h)
  complete := by
    intro place hplace
    cases place with
    | nil => exact List.mem_cons_self
    | cons i place =>
      obtain ⟨node, hnode⟩ := Option.isSome_iff_exists.mp hplace
      obtain ⟨child, hchild, hnode⟩ := Option.bind_eq_some_iff.mp hnode
      obtain ⟨hi, rfl⟩ := List.getElem?_eq_some_iff.mp hchild
      have hi' : i < rows.length := h.length_eq ▸ hi
      have hrow := h.get hi hi'
      refine List.mem_cons_of_mem _ (mem_placesFrom.mpr ⟨i, rows[i], place, ?_, ?_, ?_⟩)
      · exact List.getElem?_eq_getElem hi'
      · exact hrow.complete place (Option.isSome_iff_exists.mpr ⟨node, hnode⟩)
      · rw [Nat.zero_add]
  ordered := by
    refine List.pairwise_cons.mpr ⟨fun place hplace => ?_, ordered_placesFrom fun row hrow => ?_⟩
    · obtain ⟨j, -, rest, -, -, rfl⟩ := mem_placesFrom.mp hplace
      exact List.nil_lt_cons _ _
    · obtain ⟨i, hi, rfl⟩ := List.getElem_of_mem hrow
      exact (h.get (h.length_eq ▸ hi) hi).ordered

/-! ### The whole traversal -/

theorem exists_rows {ms : List Node} (h : ∀ m ∈ ms, ∃ places, m.Visits places) :
    ∃ rows, List.Forall₂ Visits ms rows := by
  induction ms with
  | nil => exact ⟨[], .nil⟩
  | cons m ms ih =>
    obtain ⟨row, hrow⟩ := h m List.mem_cons_self
    obtain ⟨rows, hrows⟩ := ih fun m' hm => h m' (List.mem_cons_of_mem _ hm)
    exact ⟨row :: rows, .cons hrow hrows⟩

theorem exists_visits (n : Node) : ∃ places, n.Visits places := by
  obtain ⟨rows, hrows⟩ := exists_rows fun m hm => exists_visits m
  exact ⟨_, .of_children hrows⟩
termination_by n.nodes.length
decreasing_by exact length_nodes_lt hm

theorem mem_nodes_iff : m ∈ n.nodes ↔ ∃ place, n.at? place = some m := by
  obtain ⟨places, hvisits⟩ := n.exists_visits
  have hsome : some m ∈ places.map n.at? ↔ m ∈ n.nodes := by simp [hvisits.visited]
  rw [← hsome, List.mem_map]
  constructor
  · rintro ⟨place, -, hplace⟩
    exact ⟨place, hplace⟩
  · rintro ⟨place, hplace⟩
    exact ⟨place, hvisits.complete place (by simp [hplace]), hplace⟩

theorem isTemporal_iff : n.isTemporal = true ↔ ∃ op operands, n = .expr (.temporal op operands) := by
  cases n with
  | expr e => cases e <;> simp [isTemporal, Expr.isTemporal]
  | _ => simp [isTemporal]

theorem isProbability_iff : n.isProbability = true ↔
    ∃ event comparison threshold, n = .expr (.probability event comparison threshold) := by
  cases n with
  | expr e => cases e <;> simp [isProbability, Expr.isProbability]
  | _ => simp [isProbability]

end Node

theorem Program.any_nodes_iff {p : Program} {q : Node → Bool} : p.nodes.any q = true ↔
    ∃ place m, (Node.program p).at? place = some m ∧ q m = true := by
  rw [List.any_eq_true]
  constructor
  · rintro ⟨m, hm, hq⟩
    obtain ⟨place, hplace⟩ := Node.mem_nodes_iff (n := .program p).mp hm
    exact ⟨place, m, hplace, hq⟩
  · rintro ⟨place, m, hplace, hq⟩
    exact ⟨m, Node.mem_nodes_iff (n := .program p).mpr ⟨place, hplace⟩, hq⟩

/-- A program is traversed in the order of its places, each of them once: nothing stands behind a
node that is the node itself or has it as a part. The operators and the weighted effects that a
program is said to hold are those at any place in it. -/
theorem Program.traversal_in_order (p : Program) :
    (∃ places : List (List Nat),
      places.map (Node.program p).at? = p.nodes.map some ∧
      (∀ place, place ∈ places ↔ ((Node.program p).at? place).isSome) ∧
      places.Pairwise fun a b => a < b ∧ ¬ b <+: a) ∧
    (p.hasTemporal = true ↔ ∃ place op operands,
      (Node.program p).at? place = some (.expr (.temporal op operands))) ∧
    (p.hasProbability = true ↔
      (∃ place event comparison threshold,
        (Node.program p).at? place = some (.expr (.probability event comparison threshold))) ∨
      ∃ entity ∈ p.entities, ∃ event ∈ entity.events, event.weighted ≠ []) := by
  refine ⟨?_, ?_, ?_⟩
  · obtain ⟨places, hvisits⟩ := (Node.program p).exists_visits
    refine ⟨places, hvisits.visited, fun place => ⟨fun hplace => ?_, hvisits.complete place⟩, ?_⟩
    · have hnode := List.mem_map_of_mem (f := (Node.program p).at?) hplace
      rw [hvisits.visited] at hnode
      obtain ⟨m, -, hm⟩ := List.mem_map.mp hnode
      exact Option.isSome_iff_exists.mpr ⟨m, hm.symm⟩
    · exact hvisits.ordered.imp fun hlt => ⟨hlt, fun hprefix => hprefix.le hlt⟩
  · rw [hasTemporal, any_nodes_iff]
    constructor
    · rintro ⟨place, m, hplace, hm⟩
      obtain ⟨op, operands, rfl⟩ := Node.isTemporal_iff.mp hm
      exact ⟨place, op, operands, hplace⟩
    · rintro ⟨place, op, operands, hplace⟩
      exact ⟨place, _, hplace, rfl⟩
  · rw [hasProbability, Bool.or_eq_true, any_nodes_iff]
    refine or_congr ⟨?_, ?_⟩ (by simp)
    · rintro ⟨place, m, hplace, hm⟩
      obtain ⟨event, comparison, threshold, rfl⟩ := Node.isProbability_iff.mp hm
      exact ⟨place, event, comparison, threshold, hplace⟩
    · rintro ⟨place, event, comparison, threshold, hplace⟩
      exact ⟨place, _, hplace, rfl⟩

end StepWorld
