import StepWorld.Program

/-! What a program is made of. The nodes of a part are nodes of the whole. -/

namespace StepWorld

namespace Expr

theorem mem_nodes (e : Expr) : e ∈ e.nodes := by
  cases e <;> exact List.mem_cons_self

theorem nodesOf_eq_flatMap (es : List Expr) : nodesOf es = es.flatMap nodes := by
  induction es with
  | nil => rfl
  | cons e es ih => rw [nodesOf, ih, List.flatMap_cons]

theorem nodesOf_append (es fs : List Expr) : nodesOf (es ++ fs) = nodesOf es ++ nodesOf fs := by
  simp only [nodesOf_eq_flatMap, List.flatMap_append]

theorem nodesOf_singleton (e : Expr) : nodesOf [e] = e.nodes := List.append_nil _

theorem nodes_eq (e : Expr) : e.nodes = e :: e.children.flatMap nodes := by
  cases e <;> simp [nodes, children, nodesOf_eq_flatMap]

theorem mem_asNodes {e part : Expr} (h : part ∈ e.nodes) : Node.expr part ∈ e.asNodes :=
  List.mem_map_of_mem h

theorem length_nodes_lt {e child : Expr} (h : child ∈ e.children) :
    child.nodes.length < e.nodes.length := by
  have hsublist : child.nodes.Sublist (e.children.flatMap nodes) :=
    List.sublist_flatten_of_mem (List.mem_map_of_mem h)
  rw [e.nodes_eq, List.length_cons]
  exact Nat.lt_succ_of_le hsublist.length_le

theorem nodes_subset (e : Expr) {part : Expr} (h : part ∈ e.nodes) : part.nodes ⊆ e.nodes := by
  rw [e.nodes_eq, List.mem_cons, List.mem_flatMap] at h
  rcases h with rfl | ⟨child, hchild, hpart⟩
  · exact List.Subset.refl _
  · rw [e.nodes_eq]
    exact fun node hnode => List.mem_cons_of_mem _
      (List.mem_flatMap.mpr ⟨child, hchild, child.nodes_subset hpart hnode⟩)
termination_by e.nodes.length
decreasing_by exact length_nodes_lt hchild

theorem nodes_subset_of_child {e child : Expr} (h : child ∈ e.children) :
    child.nodes ⊆ e.nodes := by
  rw [e.nodes_eq]
  exact fun node hnode => List.mem_cons_of_mem _ (List.mem_flatMap.mpr ⟨child, h, hnode⟩)

end Expr

namespace EventDecl

variable {event : EventDecl} {e : Expr}

theorem nodes_of_condition (h : event.condition = some e) : e.asNodes ⊆ event.nodes :=
  fun node hnode => by simp [nodes, optionalNodes, h, hnode]

theorem nodes_of_effect (h : event.effect = some e) : e.asNodes ⊆ event.nodes :=
  fun node hnode => by simp [nodes, optionalNodes, h, hnode]

theorem nodes_of_weighted {w : WeightedEffect} (h : w ∈ event.weighted) :
    w.effect.asNodes ⊆ event.nodes := fun node hnode => by
  have hmem : node ∈ event.weighted.flatMap WeightedEffect.nodes :=
    List.mem_flatMap.mpr ⟨w, h, List.mem_cons_of_mem _ hnode⟩
  simp [nodes, hmem]

end EventDecl

namespace RuleDecl

variable {rule : RuleDecl} {e : Expr}

theorem nodes_of_condition (h : rule.condition = some e) : e.asNodes ⊆ rule.nodes :=
  fun node hnode => by simp [nodes, optionalNodes, h, hnode]

theorem nodes_of_effect (h : rule.effect = some e) : e.asNodes ⊆ rule.nodes :=
  fun node hnode => by simp [nodes, optionalNodes, h, hnode]

theorem nodes_of_temporal {c : TemporalClause} (h : c ∈ rule.temporal) :
    c.toExpr.asNodes ⊆ rule.nodes := fun node hnode => by
  have hmem : node ∈ rule.temporal.flatMap (·.toExpr.asNodes) :=
    List.mem_flatMap.mpr ⟨c, h, hnode⟩
  simp [nodes, hmem]

end RuleDecl

namespace Program

variable {p : Program} {entity : EntityDecl}

theorem nodes_of_entity (h : entity ∈ p.entities) : entity.nodes ⊆ p.nodes := fun _ hnode =>
  List.mem_cons_of_mem _ (List.mem_append_left _ (List.mem_flatMap.mpr ⟨entity, h, hnode⟩))

theorem nodes_of_event (h : entity ∈ p.entities) {event : EventDecl}
    (hevent : event ∈ entity.events) : event.nodes ⊆ p.nodes := fun _ hnode =>
  nodes_of_entity h (List.mem_cons_of_mem _
    (List.mem_append_right _ (List.mem_flatMap.mpr ⟨event, hevent, hnode⟩)))

theorem nodes_of_property (h : entity ∈ p.entities) {property : PropertyDecl}
    (hproperty : property ∈ entity.properties) : property.nodes ⊆ p.nodes := fun _ hnode =>
  nodes_of_entity h (List.mem_cons_of_mem _
    (List.mem_append_left _ (List.mem_flatMap.mpr ⟨property, hproperty, hnode⟩)))

theorem nodes_of_rule {rule : RuleDecl} (h : rule ∈ p.rules) : rule.nodes ⊆ p.nodes := fun _ hnode =>
  List.mem_cons_of_mem _ (List.mem_append_right _ (List.mem_flatMap.mpr ⟨rule, h, hnode⟩))

end Program

end StepWorld
