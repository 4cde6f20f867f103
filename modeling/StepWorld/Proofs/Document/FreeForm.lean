import StepWorld.Proofs.Document.Respelling

/-! Free-form data of nodes. The tags of a document are looked for in all of its maps, those of the
data included, so that the data of a node is kept exactly if none of its maps has an entry `type`
and no entry `kind`. -/

namespace StepWorld

variable {entries : Record} {e : Expr} {v : Value} {tag : String}

theorem has_retaggedFields (fields : Record) (name : String) :
    Table.has name (retaggedFields fields) = Table.has name fields := by
  simp [Table.has, get?_retaggedFields]

theorem has_kind_retag (fields : Record) :
    Table.has "kind" (retag fields) = (Table.has "type" fields || Table.has "kind" fields) := by
  by_cases hkind : Table.has "kind" fields = true
  · simp [retag, hkind]
  · have hnone : fields.get? "kind" = none := by simpa [Table.has] using hkind
    cases htype : fields.get? "type" with
    | none => simp [retag, Table.has, hnone, htype]
    | some tag => simp [Table.has, (get?_retag hnone htype).1, htype]

theorem loneType_of_retag {fields : Record} (h : retag (retaggedFields fields) = fields) :
    (!Table.has "type" fields || Table.has "kind" fields) = true := by
  have hkind := has_kind_retag (retaggedFields fields)
  rw [h, has_retaggedFields, has_retaggedFields] at hkind
  cases htype : Table.has "type" fields with
  | false => rfl
  | true =>
    rw [htype] at hkind
    simpa using hkind

mutual

theorem isUntyped_of_retagged (v : Value) (h : v.retagged = v) : v.isUntyped = true := by
  cases v with
  | list origin items =>
    rw [Value.retagged] at h
    obtain ⟨-, hitems⟩ := Value.list.inj h
    exact itemsUntyped_of_retagged items hitems
  | map fields =>
    rw [Value.retagged] at h
    have hmap := Value.map.inj h
    have hkeys := loneType_of_retag hmap
    have hkeep : retag (retaggedFields fields) = retaggedFields fields := by
      apply retag_of_untyped
      rwa [has_retaggedFields, has_retaggedFields]
    rw [hkeep] at hmap
    exact Bool.and_eq_true_iff.mpr ⟨hkeys, fieldsUntyped_of_retagged fields hmap⟩
  | _ => rfl

theorem itemsUntyped_of_retagged (items : List Value) (h : retaggedItems items = items) :
    itemsUntyped items = true := by
  match items with
  | [] => rfl
  | v :: rest =>
    rw [retaggedItems] at h
    obtain ⟨hv, hrest⟩ := List.cons.inj h
    exact Bool.and_eq_true_iff.mpr ⟨isUntyped_of_retagged v hv, itemsUntyped_of_retagged rest hrest⟩

theorem fieldsUntyped_of_retagged (fields : Record) (h : retaggedFields fields = fields) :
    fieldsUntyped fields = true := by
  match fields with
  | [] => rfl
  | (k, v) :: rest =>
    rw [retaggedFields] at h
    obtain ⟨hentry, hrest⟩ := List.cons.inj h
    exact Bool.and_eq_true_iff.mpr
      ⟨isUntyped_of_retagged v (Prod.mk.inj hentry).2, fieldsUntyped_of_retagged rest hrest⟩

end

theorem retagged_eq_self_iff (v : Value) : v.retagged = v ↔ v.isUntyped = true :=
  ⟨isUntyped_of_retagged v, retagged_of_isUntyped v⟩

/-- `entries.Holds e`: a map with the tag and the fields of a node with free-form data, among any
other entries. -/
inductive Table.Holds (entries : Record) : Expr → Prop
  | literal {value : Value} : tagOf? entries = some (.str "literal") →
      entries.get? "value" = some value → entries.Holds (.literal value)
  | create {type : String} {properties : Record} : tagOf? entries = some (.str "create_entity") →
      entries.get? "entity_type" = some (.str type) →
      entries.get? "properties" = some (.map properties) → entries.Holds (.create type properties)

def Expr.retagData : Expr → Expr
  | .literal value => .literal value.retagged
  | .create type properties => .create type (retag (retaggedFields properties))
  | e => e

theorem Table.Holds.asExpr (h : Table.Holds entries e) (path : List String) :
    (Value.map entries).retagged.asExpr path = .ok e.retagData := by
  cases h with
  | @literal value htag hvalue =>
    have hread : (fieldReadings (retaggedFields entries)).get? "value" =
        some ⟨value.retagged, value.retagged.asExpr, value.retagged.asExprs⟩ := by
      rw [get?_fieldReadings, get?_retaggedFields, hvalue]
      rfl
    rw [asExpr_of_tag htag]
    simp only [exprOfFields?, optionalField, hread, Option.getD_some]
    rfl
  | @create type properties htag htype hproperties =>
    have hname : (fieldReadings (retaggedFields entries)).get? "entity_type" =
        some ⟨.str type, (Value.str type).asExpr, (Value.str type).asExprs⟩ := by
      rw [get?_fieldReadings, get?_retaggedFields, htype]
      rfl
    have hdata : (fieldReadings (retaggedFields entries)).get? "properties" =
        some ⟨(Value.map properties).retagged, (Value.map properties).retagged.asExpr,
          (Value.map properties).retagged.asExprs⟩ := by
      rw [get?_fieldReadings, get?_retaggedFields, hproperties]
      rfl
    rw [asExpr_of_tag htag]
    simp only [exprOfFields?, requiredField, optionalField, hname, hdata, Option.getD_some]
    rfl

theorem retagData_eq_self_iff (h : Table.Holds entries e) :
    e.retagData = e ↔ ∀ v, e.freeForm? = some v → v.isUntyped = true := by
  cases h with
  | @literal value _ _ =>
    rw [Expr.retagData, Expr.literal.injEq, retagged_eq_self_iff]
    exact ⟨fun h v hv => Option.some.inj hv ▸ h, fun h => h value rfl⟩
  | @create type properties _ _ _ =>
    have hmap := retagged_eq_self_iff (.map properties)
    rw [Value.retagged, Value.map.injEq] at hmap
    rw [Expr.retagData, Expr.create.injEq, eq_self_iff_true, true_and, hmap]
    exact ⟨fun h v hv => Option.some.inj hv ▸ h, fun h => h (.map properties) rfl⟩

/-- A node with free-form data is always read, also as a part of another one, and it keeps its data
as they are exactly if every map in them that has an entry `type` has an entry `kind`, too. -/
theorem ofDocument_keeps_data (h : Table.Holds entries e) :
    (∀ path, (Value.map entries).retagged.asExpr path = .ok e.retagData) ∧
      (Expr.ofDocument (.map entries) = .ok e ↔
        ∀ v, e.freeForm? = some v → v.isUntyped = true) := by
  refine ⟨h.asExpr, ?_⟩
  rw [Expr.ofDocument, h.asExpr, Except.ok.injEq]
  exact retagData_eq_self_iff h

/-- An entry `type` beside an entry `kind` is kept, however deep it stands. -/
theorem ofDocument_keeps_data_chest :
    Expr.ofDocument (.map [("name", .str "chest"), ("type", .str "create_entity"),
        ("properties", .map [("items", .ofItems [.map [("type", .str "gem"), ("kind", .int 1)]])]),
        ("entity_type", .str "Chest")]) =
      .ok (.create "Chest"
        [("items", .ofItems [.map [("type", .str "gem"), ("kind", .int 1)]])]) := by
  refine (ofDocument_keeps_data (.create rfl rfl rfl)).2.mpr fun v hv => ?_
  obtain rfl := Option.some.inj hv
  decide

/-- A property that is called `type` is created under the name `kind`. -/
theorem property_renamed :
    let entries := [("type", .str "create_entity"), ("entity_type", .str "Orc"),
      ("properties", .map [("type", .str "boss")])]
    Table.Holds entries (.create "Orc" [("type", .str "boss")]) ∧
      Expr.ofDocument (.map entries) = .ok (.create "Orc" [("kind", .str "boss")]) ∧
      Expr.ofDocument (.map entries) ≠ .ok (.create "Orc" [("type", .str "boss")]) := by
  intro entries
  have hread : Expr.ofDocument (.map entries) = .ok (.create "Orc" [("kind", .str "boss")]) := rfl
  refine ⟨.create rfl rfl rfl, hread, fun hkept => ?_⟩
  rw [hread] at hkept
  simp at hkept

end StepWorld
