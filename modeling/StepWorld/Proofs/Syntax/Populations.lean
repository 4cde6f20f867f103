import StepWorld.Proofs.Syntax.DeclarationSoundness
import StepWorld.Proofs.World.Restamped
import StepWorld.Specification

/-! Source text knows no effect that adds or removes an instance. Such effects stand in trees built
from documents only, so that no event of a registered program has one. -/

namespace StepWorld

variable {α : Type} {lax : Bool} {ts rest : List Token}

/-! ### Expressions -/

namespace Expr

theorem unpopulating_iff {e : Expr} (below : List Expr) (he : e.nodes = e :: below) :
    e.Unpopulating ↔ e.populates = false ∧ ∀ part ∈ below, part.populates = false := by
  unfold Unpopulating
  rw [he]
  exact List.forall_mem_cons

theorem unpopulating_pair {e left right : Expr} (he : e.nodes = e :: (left.nodes ++ right.nodes))
    (hself : e.populates = false) (hl : left.Unpopulating) (hr : right.Unpopulating) :
    e.Unpopulating :=
  (unpopulating_iff _ he).mpr ⟨hself, List.forall_mem_append.mpr ⟨hl, hr⟩⟩

theorem unpopulating_leaf {e : Expr} (he : e.nodes = [e]) (hself : e.populates = false) :
    e.Unpopulating :=
  (unpopulating_iff [] he).mpr ⟨hself, fun _ hpart => nomatch hpart⟩

theorem unpopulating_list {e : Expr} {parts : List Expr} (he : e.nodes = e :: nodesOf parts)
    (hself : e.populates = false) (hparts : ∀ part ∈ nodesOf parts, part.populates = false) :
    e.Unpopulating :=
  (unpopulating_iff _ he).mpr ⟨hself, hparts⟩

end Expr

theorem Derives.unpopulating {c : Category} {e : Expr} (h : Derives c ts rest e) :
    e.Unpopulating := by
  induction h with
  | descend _ _ ih | group _ _ _ ih | call _ _ ih => exact ih
  | assign _ _ _ _ ihl ihr | imply _ _ _ ihl ihr | chain _ _ _ _ _ ihl ihr =>
    exact Expr.unpopulating_pair rfl rfl ihl ihr
  | negateInt | negateFloat | number | string | truth | property | identifier | emptyCall =>
    exact Expr.unpopulating_leaf rfl rfl
  | lead _ _ _ _ ih => exact (Expr.unpopulating_iff _ rfl).mpr ⟨rfl, ih⟩
  | temporal _ _ _ _ _ _ ih =>
    exact Expr.unpopulating_list rfl rfl (by rw [Expr.nodesOf_singleton]; exact ih)
  | temporalPair _ _ _ _ _ _ ihf ihs =>
    refine Expr.unpopulating_list rfl rfl (List.forall_mem_append.mpr ⟨ihf, ?_⟩)
    rw [Expr.nodesOf_singleton]
    exact ihs
  | probability _ _ _ _ _ ih | threshold _ _ _ _ _ _ ih =>
    exact (Expr.unpopulating_iff _ rfl).mpr ⟨rfl, ih⟩
  | firstArgument _ _ _ ih =>
    exact Expr.unpopulating_list rfl rfl (by rw [Expr.nodesOf_singleton]; exact ih)
  | @nextArgument _ _ _ _ _ args e _ _ _ ihc ihe =>
    have hargs := ((Expr.unpopulating_iff (Expr.nodesOf args) rfl).mp ihc).2
    refine Expr.unpopulating_list rfl rfl ?_
    rw [Expr.nodesOf_append, Expr.nodesOf_singleton]
    exact List.forall_mem_append.mpr ⟨hargs, ihe⟩

/-! ### Declarations -/

section

variable {P : α → Prop} {fits : List Token → Bool} {begins : Token → List Token → Bool}
  {Part : List Token → List Token → Body α → Prop}

theorem Misfits.tail {T : List Token → Prop} (h : Misfits fits ts rest)
    (htail : ∀ t ts, T (t :: ts) → T ts) (hts : T ts) : T rest := by
  induction h with
  | done => exact hts
  | more _ _ ih => exact ih (htail _ _ hts)

/-- What is known of tokens and of all their tails is known behind a row, too. If it makes something
hold of the items of each part, then this holds of all items of the row. -/
theorem DerivesRow.carries {T : List Token → Prop} {place : Surroundings} {body : Body α}
    (h : DerivesRow lax place fits Part ts rest body) (htail : ∀ t ts, T (t :: ts) → T ts)
    (hpart : ∀ ts rest part, Part ts rest part → T ts → T rest ∧ ∀ item ∈ part.items, P item)
    (hts : T ts) : T rest ∧ ∀ item ∈ body.items, P item := by
  induction h with
  | nil => exact ⟨hts, fun _ hitem => nomatch hitem⟩
  | part hfirst _ ih =>
    obtain ⟨hmid, hitems⟩ := hpart _ _ _ hfirst hts
    obtain ⟨hrest, hmore⟩ := ih hmid
    exact ⟨hrest, List.forall_mem_append.mpr ⟨hitems, hmore⟩⟩
  | run _ _ hmisfits _ ih => exact ih (hmisfits.tail htail (htail _ _ hts))

theorem DerivesBlock.forall_items {word name : String} {place : String → Surroundings}
    {keyword : Token} {body : Body α}
    (h : DerivesBlock lax word place begins Part ts rest keyword name body)
    (hpart : ∀ ts rest part, Part ts rest part → ∀ item ∈ part.items, P item) :
    ∀ item ∈ body.items, P item := by
  cases h with
  | block _ _ _ hrow _ =>
    exact (hrow.carries (T := fun _ => True) (fun _ _ _ => trivial)
      (fun _ _ _ hp _ => ⟨trivial, hpart _ _ _ hp⟩) trivial).2

end

def EventClause.Unpopulating : EventClause → Prop
  | .effect e => e.Unpopulating
  | .weighted w => w.effect.Unpopulating
  | _ => True

theorem DerivesEventClause.unpopulating {clause : EventClause}
    (h : DerivesEventClause lax ts rest clause) : clause.Unpopulating := by
  cases h with
  | condition | target => exact trivial
  | weighted _ _ he _ _ _ => exact he.unpopulating
  | effect h =>
    cases h with
    | clause _ _ he _ => exact he.unpopulating

theorem unpopulating_of_sequence? {effects : List Expr} {e : Expr} (h : sequence? effects = some e)
    (heffects : ∀ effect ∈ effects, effect.Unpopulating) : e.Unpopulating := by
  have hall (effects : List Expr) (heffects : ∀ effect ∈ effects, effect.Unpopulating) :
      ∀ part ∈ Expr.nodesOf effects, part.populates = false := by
    induction effects with
    | nil => exact fun _ hpart => nomatch hpart
    | cons effect rest ih =>
      obtain ⟨hfirst, hrest⟩ := List.forall_mem_cons.mp heffects
      exact List.forall_mem_append.mpr ⟨hfirst, ih hrest⟩
  match effects with
  | [] => cases h
  | [effect] =>
    cases h
    exact heffects _ List.mem_cons_self
  | first :: second :: more =>
    cases h
    exact Expr.unpopulating_list rfl rfl (hall _ heffects)

theorem EventDecl.unpopulating_ofClauses {name : String} {clauses : List EventClause}
    (h : ∀ clause ∈ clauses, clause.Unpopulating) :
    (EventDecl.ofClauses name clauses).Unpopulating where
  effect e he := by
    refine unpopulating_of_sequence? he fun effect heffect => ?_
    obtain ⟨clause, hclause, hsome⟩ := List.mem_filterMap.mp heffect
    have hclause := h clause hclause
    cases clause with
    | effect e' =>
      cases hsome
      exact hclause
    | condition | target | weighted => cases hsome
  weighted w hw := by
    obtain ⟨clause, hclause, hsome⟩ := List.mem_filterMap.mp hw
    have hclause := h clause hclause
    cases clause with
    | weighted w' =>
      cases hsome
      exact hclause
    | condition | target | effect => cases hsome

def EntityClause.Unpopulating : EntityClause → Prop
  | .event e => e.Unpopulating
  | .state _ => True

theorem DerivesEntityPart.unpopulating {part : Body EntityClause}
    (h : DerivesEntityPart lax ts rest part) : ∀ item ∈ part.items, item.Unpopulating := by
  cases h with
  | semicolon => exact fun _ hitem => nomatch hitem
  | state => exact List.forall_mem_singleton.mpr trivial
  | event h =>
    refine List.forall_mem_singleton.mpr (EventDecl.unpopulating_ofClauses ?_)
    refine h.forall_items fun ts rest part hpart => ?_
    cases hpart with
    | semicolon => exact fun _ hitem => nomatch hitem
    | clause hclause => exact List.forall_mem_singleton.mpr hclause.unpopulating

def Declaration.Unpopulating : Declaration → Prop
  | .entity e => ∀ event ∈ e.events, event.Unpopulating
  | .rule _ => True

theorem DerivesDeclaration.unpopulating {part : Body Declaration}
    (h : DerivesDeclaration lax ts rest part) : ∀ item ∈ part.items, item.Unpopulating := by
  cases h with
  | rule => exact List.forall_mem_singleton.mpr trivial
  | entity h =>
    refine List.forall_mem_singleton.mpr fun event hevent => ?_
    obtain ⟨clause, hclause, hsome⟩ := List.mem_filterMap.mp hevent
    have hclause := h.forall_items (fun _ _ _ hpart => hpart.unpopulating) clause hclause
    cases clause with
    | event event' =>
      cases hsome
      exact hclause
    | state => cases hsome

theorem DerivesProgram.settled {p : Program} (h : DerivesProgram lax ts p) : p.Settled := by
  cases h with
  | program hrow =>
    intro entity hentity
    obtain ⟨declaration, hmem, hsome⟩ := List.mem_filterMap.mp hentity
    have hall := (hrow.carries (T := fun _ => True) (fun _ _ _ => trivial)
      (fun _ _ _ hpart _ => ⟨trivial, hpart.unpopulating⟩) trivial).2
    have hdeclaration := hall declaration hmem
    cases declaration with
    | entity entity' =>
      cases hsome
      exact hdeclaration
    | rule => cases hsome

theorem derives_of_registrable {source : String} {p : Program} (h : registrable source = .ok p) :
    ∃ tokens, tokenize source = .ok tokens ∧ DerivesProgram true tokens p := by
  have hread : readProgram source = .ok p := by
    unfold registrable at h
    split at h
    · cases h
    · cases h
    · cases h
    · next p' hread =>
      split at h
      · cases h
        exact hread
      · cases h
  unfold readProgram at hread
  split at hread
  · cases hread
  · next tokens htokens => exact ⟨tokens, htokens, derivesProgram_of_programOfTokens hread⟩

theorem settled_of_registrable {source : String} {p : Program} (h : registrable source = .ok p) :
    p.Settled := by
  obtain ⟨_, -, hderives⟩ := derives_of_registrable h
  exact hderives.settled

end StepWorld
