import StepWorld.Document.Expr
import StepWorld.Proofs.Tables
import StepWorld.Proofs.World.Parts

/-! Documents of expressions in which some tags stand under `type`. Whatever nodes have theirs
there, the document is read as the expression that it was made of. -/

namespace StepWorld

/-! ### Free-form values -/

mutual

/-- Whether every map in a value that has an entry `type` has an entry `kind`, too. -/
def Value.isUntyped : Value → Bool
  | .list _ items => itemsUntyped items
  | .map fields => (!Table.has "type" fields || Table.has "kind" fields) && fieldsUntyped fields
  | _ => true

def itemsUntyped : List Value → Bool
  | [] => true
  | v :: rest => v.isUntyped && itemsUntyped rest

def fieldsUntyped : List (String × Value) → Bool
  | [] => true
  | (_, v) :: rest => v.isUntyped && fieldsUntyped rest

end

def Expr.freeForm? : Expr → Option Value
  | .literal value => some value
  | .create _ properties => some (.map properties)
  | _ => none

/-- No free-form value in an expression holds a map that looks like a node with its tag under
`type`. -/
def Expr.Untyped (e : Expr) : Prop :=
  ∀ part ∈ e.nodes, ∀ v, part.freeForm? = some v → v.isUntyped = true

/-! ### Respelled documents -/

/-- A map of a tag, under `kind` or under `type`, and of some fields, in any order. -/
inductive Tagged (tag : String) (fields : Record) : Value → Prop
  | intro {spelling : String} {entries : Record} : spelling = "kind" ∨ spelling = "type" →
      entries.Perm ((spelling, .str tag) :: fields) → Tagged tag fields (.map entries)

mutual

/-- A document of an expression, each node of which has its tag under `kind` or under `type`. -/
inductive Respelled : Expr → Value → Prop
  | literal {value doc : Value} : Tagged "literal" [("value", value)] doc →
      Respelled (.literal value) doc
  | identifier {name : String} {doc : Value} : Tagged "identifier" [("name", .str name)] doc →
      Respelled (.identifier name) doc
  | property {owner name : String} {doc : Value} :
      Tagged "property_access" [("owner", .str owner), ("name", .str name)] doc →
      Respelled (.property owner name) doc
  | call {function : String} {args : List Expr} {items : List Value} {doc : Value} :
      RespelledAll args items →
      Tagged "function_call" [("name", .str function), ("args", .ofItems items)] doc →
      Respelled (.call function args) doc
  | unary {op : String} {operand : Expr} {v doc : Value} : Respelled operand v →
      Tagged "unary" [("op", .str op), ("operand", v)] doc → Respelled (.unary op operand) doc
  | binary {op : String} {left right : Expr} {v w doc : Value} : Respelled left v →
      Respelled right w → Tagged "binary" [("op", .str op), ("left", v), ("right", w)] doc →
      Respelled (.binary op left right) doc
  | assignment {op : String} {target value : Expr} {v w doc : Value} : Respelled target v →
      Respelled value w →
      Tagged "assignment" [("op", .str op), ("target", v), ("value", w)] doc →
      Respelled (.assignment op target value) doc
  | temporal {op : TemporalOp} {operands : List Expr} {items : List Value} {doc : Value} :
      RespelledAll operands items →
      Tagged "temporal" [("operator", .str op.name), ("operands", .ofItems items)] doc →
      Respelled (.temporal op operands) doc
  | probability {event : Expr} {comparison : String} {threshold : Float} {v doc : Value} :
      Respelled event v →
      Tagged "probability" [("expression", v), ("comparison", .str comparison),
        ("threshold", .float threshold)] doc →
      Respelled (.probability event comparison threshold) doc
  | create {entityType : String} {properties : Record} {doc : Value} :
      Tagged "create_entity" [("entity_type", .str entityType), ("properties", .map properties)]
        doc →
      Respelled (.create entityType properties) doc
  | remove {entityType instanceId : String} {doc : Value} :
      Tagged "remove_entity" [("entity_type", .str entityType), ("instance_id", .str instanceId)]
        doc →
      Respelled (.remove entityType instanceId) doc
  | sequence {parts : List Expr} {items : List Value} {doc : Value} : RespelledAll parts items →
      Tagged "modify_multiple" [("modifications", .ofItems items)] doc →
      Respelled (.sequence parts) doc

inductive RespelledAll : List Expr → List Value → Prop
  | nil : RespelledAll [] []
  | cons {e : Expr} {v : Value} {rest : List Expr} {items : List Value} : Respelled e v →
      RespelledAll rest items → RespelledAll (e :: rest) (v :: items)

end

variable {e : Expr} {es : List Expr} {v w doc : Value} {items : List Value} {fields : Record}
  {tag : String}

theorem Tagged.kind (tag : String) (fields : Record) :
    Tagged tag fields (.map (("kind", .str tag) :: fields)) :=
  .intro (.inl rfl) (.refl _)

mutual

theorem respelled_toDocument (e : Expr) : Respelled e e.toDocument := by
  match e with
  | .literal value => exact .literal (.kind _ _)
  | .identifier name => exact .identifier (.kind _ _)
  | .property owner name => exact .property (.kind _ _)
  | .call function args => exact .call (respelledAll_toDocuments args) (.kind _ _)
  | .unary op operand => exact .unary (respelled_toDocument operand) (.kind _ _)
  | .binary op left right =>
    exact .binary (respelled_toDocument left) (respelled_toDocument right) (.kind _ _)
  | .assignment op target value =>
    exact .assignment (respelled_toDocument target) (respelled_toDocument value) (.kind _ _)
  | .temporal op operands => exact .temporal (respelledAll_toDocuments operands) (.kind _ _)
  | .probability event comparison threshold =>
    exact .probability (respelled_toDocument event) (.kind _ _)
  | .create entityType properties => exact .create (.kind _ _)
  | .remove entityType instanceId => exact .remove (.kind _ _)
  | .sequence parts => exact .sequence (respelledAll_toDocuments parts) (.kind _ _)

theorem respelledAll_toDocuments (es : List Expr) : RespelledAll es (Expr.toDocuments es) := by
  match es with
  | [] => exact .nil
  | e :: rest => exact .cons (respelled_toDocument e) (respelledAll_toDocuments rest)

end

/-! ### What is left alone -/

theorem retag_of_untyped (h : (!fields.has "type" || fields.has "kind") = true) :
    retag fields = fields := by
  unfold retag
  split
  · rfl
  · next hkind =>
    have htype : Table.has "type" fields = false := by simpa [hkind] using h
    rw [Option.not_isSome_iff_eq_none.mp (Bool.eq_false_iff.mp htype)]

mutual

theorem retagged_of_isUntyped (v : Value) (h : v.isUntyped = true) : v.retagged = v := by
  cases v with
  | list origin items =>
    rw [Value.isUntyped] at h
    rw [Value.retagged, retaggedItems_of_untyped items h]
  | map fields =>
    obtain ⟨hfields, hall⟩ := Bool.and_eq_true_iff.mp h
    rw [Value.retagged, retaggedFields_of_untyped fields hall, retag_of_untyped hfields]
  | _ => rfl

theorem retaggedItems_of_untyped (items : List Value) (h : itemsUntyped items = true) :
    retaggedItems items = items := by
  match items with
  | [] => rfl
  | v :: rest =>
    obtain ⟨hv, hrest⟩ := Bool.and_eq_true_iff.mp h
    rw [retaggedItems, retagged_of_isUntyped v hv, retaggedItems_of_untyped rest hrest]

theorem retaggedFields_of_untyped (fields : Record) (h : fieldsUntyped fields = true) :
    retaggedFields fields = fields := by
  match fields with
  | [] => rfl
  | (k, v) :: rest =>
    obtain ⟨hv, hrest⟩ := Bool.and_eq_true_iff.mp h
    rw [retaggedFields, retagged_of_isUntyped v hv, retaggedFields_of_untyped rest hrest]

end

/-! ### Reading a node -/

theorem exprOfFields?_congr {f g : Table FieldReading}
    (h : ∀ name, name ≠ "kind" → name ≠ "type" → f.get? name = g.get? name) :
    exprOfFields? tag path f = exprOfFields? tag path g := by
  have hfield (name : String) (hne : name ≠ "kind" ∧ name ≠ "type") : f.get? name = g.get? name :=
    h name hne.1 hne.2
  unfold exprOfFields?
  simp (disch := decide) only [requiredField, optionalField, hfield]

theorem get?_fieldReadings (fields : Record) (name : String) :
    (fieldReadings fields).get? name =
      (fields.get? name).map fun v => ⟨v, v.asExpr, v.asExprs⟩ := by
  induction fields with
  | nil => rfl
  | cons entry rest ih =>
    obtain ⟨k, v⟩ := entry
    rw [fieldReadings, Table.get?, Table.get?, ih]
    split <;> rfl

theorem get?_retag {tag : Value} (hkind : fields.get? "kind" = none)
    (htype : fields.get? "type" = some tag) :
    (retag fields).get? "kind" = some tag ∧
      ∀ name, name ≠ "kind" → name ≠ "type" → (retag fields).get? name = fields.get? name := by
  have hretag : retag fields = fields.remove "type" ++ [("kind", tag)] := by
    simp [retag, Table.has, hkind, htype]
  have hget (name : String) (hne : name ≠ "type") :
      (retag fields).get? name =
        (fields.get? name).or (if "kind" = name then some tag else none) := by
    rw [hretag, Table.get?_append, Table.get?_remove, if_neg hne]
    rfl
  refine ⟨?_, fun name hne htype => ?_⟩
  · rw [hget "kind" (by decide), hkind]
    rfl
  · rw [hget name htype, if_neg (Ne.symm hne), Option.or_none]

/-- What names the kind of a node: the entry `kind`, or `type` where there is none. -/
def tagOf? (entries : Record) : Option Value := (entries.get? "kind").or (entries.get? "type")

theorem get?_retaggedFields (fields : Record) (name : String) :
    Table.get? name (retaggedFields fields) = (fields.get? name).map Value.retagged := by
  induction fields with
  | nil => rfl
  | cons entry rest ih =>
    obtain ⟨k, v⟩ := entry
    rw [retaggedFields, Table.get?, Table.get?, ih]
    split <;> rfl

theorem asExpr_of_tag {entries : Record} (h : tagOf? entries = some (.str tag))
    (path : List String) : (Value.map entries).retagged.asExpr path =
      (exprOfFields? tag (path ++ [tag]) (fieldReadings (retaggedFields entries))).getD
        (Checked.fail path .badTag) := by
  have hretag : (retag (retaggedFields entries)).get? "kind" = some (.str tag) ∧
      ∀ name, name ≠ "kind" → name ≠ "type" →
        (retag (retaggedFields entries)).get? name = Table.get? name (retaggedFields entries) := by
    unfold tagOf? at h
    cases hkind : entries.get? "kind" with
    | some found =>
      rw [hkind] at h
      obtain rfl := Option.some.inj h
      have htag : Table.get? "kind" (retaggedFields entries) = some (.str tag) := by
        rw [get?_retaggedFields, hkind]
        rfl
      have hkeep : retag (retaggedFields entries) = retaggedFields entries :=
        if_pos (Option.isSome_of_eq_some htag)
      rw [hkeep]
      exact ⟨htag, fun _ _ _ => rfl⟩
    | none =>
      rw [hkind] at h
      have htype : entries.get? "type" = some (.str tag) := h
      refine get?_retag ?_ ?_
      · rw [get?_retaggedFields, hkind]
        rfl
      · rw [get?_retaggedFields, htype]
        rfl
  have hsame : exprOfFields? tag (path ++ [tag]) (fieldReadings (retag (retaggedFields entries))) =
      exprOfFields? tag (path ++ [tag]) (fieldReadings (retaggedFields entries)) :=
    exprOfFields?_congr fun name hne hne' => by
      rw [get?_fieldReadings, get?_fieldReadings, hretag.2 name hne hne']
  change exprOfRecord path (fieldReadings (retag (retaggedFields entries))) = _
  unfold exprOfRecord
  rw [get?_fieldReadings, hretag.1]
  exact congrArg (·.getD (Checked.fail path .badTag)) hsame

theorem Tagged.asExpr (h : Tagged tag fields doc)
    (hnodup : ("kind" :: "type" :: Table.keys fields).Nodup) (path : List String) :
    doc.retagged.asExpr path =
      (exprOfFields? tag (path ++ [tag]) (fieldReadings (retaggedFields fields))).getD
        (Checked.fail path .badTag) := by
  obtain ⟨hkind, hrest⟩ := List.nodup_cons.mp hnodup
  obtain @⟨spelling, entries, hspelling, hperm⟩ := h
  have hkeys : (Table.keys ((spelling, .str tag) :: fields)).Nodup := by
    change (spelling :: Table.keys fields).Nodup
    rcases hspelling with rfl | rfl
    · exact List.nodup_cons.mpr
        ⟨fun hmem => hkind (List.mem_cons_of_mem _ hmem), (List.nodup_cons.mp hrest).2⟩
    · exact hrest
  have hget (name : String) : Table.get? name ((spelling, .str tag) :: fields) =
      Table.get? name entries := Table.get?_of_perm hperm.symm hkeys name
  have htag : tagOf? entries = some (.str tag) := by
    unfold tagOf?
    rcases hspelling with rfl | rfl
    · rw [← hget "kind"]
      rfl
    · -- No field is called `kind`, so the tag under `type` counts.
      have hnone : entries.get? "kind" = none := by
        rw [← Option.not_isSome_iff_eq_none, Table.isSome_get?_iff]
        exact fun hmem => hkind ((hperm.map Prod.fst).mem_iff.mp hmem)
      rw [hnone, ← hget "type"]
      rfl
  rw [asExpr_of_tag htag]
  refine congrArg (·.getD (Checked.fail path .badTag)) (exprOfFields?_congr fun name hne hne' => ?_)
  have hother : Table.get? name entries = Table.get? name fields := by
    rw [← hget name]
    exact if_neg (by rcases hspelling with rfl | rfl <;> [exact hne.symm; exact hne'.symm])
  rw [get?_fieldReadings, get?_fieldReadings, get?_retaggedFields, get?_retaggedFields, hother]

/-! ### Reading a document -/

mutual

theorem asExpr_of_respelled (e : Expr) {doc : Value} (h : Respelled e doc) (he : e.Untyped)
    (path : List String) : doc.retagged.asExpr path = .ok e := by
  -- In each case the tag leads to the reader of the constructor, and the parts follow by induction.
  match e, h with
  | .literal value, .literal htag =>
    rw [htag.asExpr (by simp [Table.keys])]
    change Expr.literal <$> Except.ok value.retagged = _
    rw [retagged_of_isUntyped value (he _ (Expr.mem_nodes _) value rfl)]
    rfl
  | .identifier name, .identifier htag =>
    rw [htag.asExpr (by simp [Table.keys])]
    rfl
  | .property owner name, .property htag =>
    rw [htag.asExpr (by simp [Table.keys])]
    rfl
  | .call function args, .call hargs htag =>
    have ih := items_of_respelledAll args hargs
      fun part hpart => he part (List.mem_cons_of_mem _ hpart)
    rw [htag.asExpr (by simp [Table.keys])]
    change Checked.both Expr.call (.ok function) (Checked.items _ _ 0 _) = _
    rw [ih]
    rfl
  | .unary op operand, .unary hoperand htag =>
    have ih := asExpr_of_respelled operand hoperand
      fun part hpart => he part (List.mem_cons_of_mem _ hpart)
    rw [htag.asExpr (by simp [Table.keys])]
    change Checked.both Expr.unary (.ok op) ((Value.retagged _).asExpr _) = _
    rw [ih]
    rfl
  | .binary op left right, .binary hleft hright htag =>
    have ihleft := asExpr_of_respelled left hleft fun part hpart =>
      he part (List.mem_cons_of_mem _ (List.mem_append_left _ hpart))
    have ihright := asExpr_of_respelled right hright fun part hpart =>
      he part (List.mem_cons_of_mem _ (List.mem_append_right _ hpart))
    rw [htag.asExpr (by simp [Table.keys])]
    change Checked.ap (Checked.both Expr.binary (.ok op) ((Value.retagged _).asExpr _))
      ((Value.retagged _).asExpr _) = _
    rw [ihleft, ihright]
    rfl
  | .assignment op target value, .assignment htarget hvalue htag =>
    have ihtarget := asExpr_of_respelled target htarget fun part hpart =>
      he part (List.mem_cons_of_mem _ (List.mem_append_left _ hpart))
    have ihvalue := asExpr_of_respelled value hvalue fun part hpart =>
      he part (List.mem_cons_of_mem _ (List.mem_append_right _ hpart))
    rw [htag.asExpr (by simp [Table.keys])]
    change Checked.ap (Checked.both Expr.assignment (.ok op) ((Value.retagged _).asExpr _))
      ((Value.retagged _).asExpr _) = _
    rw [ihtarget, ihvalue]
    rfl
  | .temporal op operands, .temporal hoperands htag =>
    have ih := items_of_respelledAll operands hoperands
      fun part hpart => he part (List.mem_cons_of_mem _ hpart)
    rw [htag.asExpr (by simp [Table.keys])]
    change Checked.both Expr.temporal (temporalOp _ (.str op.name)) (Checked.items _ _ 0 _) = _
    rw [ih, temporalOp, TemporalOp.ofName?_name]
    rfl
  | .probability event comparison threshold, .probability hevent htag =>
    have ih := asExpr_of_respelled event hevent
      fun part hpart => he part (List.mem_cons_of_mem _ hpart)
    rw [htag.asExpr (by simp [Table.keys])]
    change Checked.ap (Checked.both Expr.probability ((Value.retagged _).asExpr _)
      (.ok comparison)) (.ok threshold) = _
    rw [ih]
    rfl
  | .create entityType properties, .create htag =>
    have hfree := retagged_of_isUntyped _ (he _ (Expr.mem_nodes _) (.map properties) rfl)
    rw [htag.asExpr (by simp [Table.keys])]
    change Checked.both Expr.create (.ok entityType)
      (Reader.fields (path ++ ["create_entity"] ++ ["properties"])
        (Value.map properties).retagged) = _
    rw [hfree]
    rfl
  | .remove entityType instanceId, .remove htag =>
    rw [htag.asExpr (by simp [Table.keys])]
    rfl
  | .sequence parts, .sequence hparts htag =>
    have ih := items_of_respelledAll parts hparts
      fun part hpart => he part (List.mem_cons_of_mem _ hpart)
    rw [htag.asExpr (by simp [Table.keys])]
    change Expr.sequence <$> Checked.items _ _ 0 _ = _
    rw [ih]
    rfl

theorem items_of_respelledAll (es : List Expr) {items : List Value} (h : RespelledAll es items)
    (he : ∀ part ∈ Expr.nodesOf es, ∀ v, part.freeForm? = some v → v.isUntyped = true)
    (path : List String) (n : Nat) :
    Checked.items (fun p read => read p) path n (itemReadings (retaggedItems items)) = .ok es := by
  match es, h with
  | [], .nil => rfl
  | e :: rest, .cons hfirst hrest =>
    have ih := asExpr_of_respelled e hfirst
      fun part hpart => he part (List.mem_append_left _ hpart)
    have ihrest := items_of_respelledAll rest hrest
      fun part hpart => he part (List.mem_append_right _ hpart)
    rw [retaggedItems, itemReadings, Checked.items, ih, ihrest]
    rfl

end

/-- A document in which any tags stand under `type` is read as the expression it was made of. -/
theorem ofDocument_respelled (h : Respelled e doc) (he : e.Untyped) :
    Expr.ofDocument doc = .ok e := asExpr_of_respelled e h he []

/-- The tags of the root, at its end, and of one operand stand under `type`; a literal keeps its
own map with both names. -/
theorem ofDocument_respelled_mixed :
    Expr.ofDocument (.map [
        ("left", .map [("type", .str "unary"), ("op", .str "-"),
          ("operand", .map [("kind", .str "identifier"), ("name", .str "hp")])]),
        ("right", .map [("kind", .str "literal"),
          ("value", .map [("type", .str "a"), ("kind", .null)])]),
        ("op", .str "+"), ("type", .str "binary")]) =
      .ok (.binary "+" (.unary "-" (.identifier "hp"))
        (.literal (.map [("type", .str "a"), ("kind", .null)]))) := by
  have hleft : Respelled (.unary "-" (.identifier "hp"))
      (.map [("type", .str "unary"), ("op", .str "-"),
        ("operand", .map [("kind", .str "identifier"), ("name", .str "hp")])]) :=
    .unary (.identifier (.kind _ _)) (.intro (.inr rfl) (.refl _))
  refine ofDocument_respelled (.binary hleft (.literal (.kind _ _)) (.intro (.inr rfl) ?_)) ?_
  · exact (@List.perm_append_comm _ [_, _] _).trans (.swap _ _ _)
  · intro part hpart v hv
    simp only [Expr.nodes, List.mem_cons, List.mem_append, List.not_mem_nil, or_false] at hpart
    rcases hpart with rfl | (rfl | rfl) | rfl <;> cases hv
    rfl

end StepWorld
