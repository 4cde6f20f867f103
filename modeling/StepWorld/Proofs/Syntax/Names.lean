import StepWorld.Proofs.Syntax.DeclarationCompleteness
import StepWorld.Proofs.Syntax.Legible
import StepWorld.Proofs.Syntax.Populations

/-! The names in a program that was read from a source. Each of them is a word of that source, so
none is empty. -/

namespace StepWorld

variable {lax : Bool} {ts rest : List Token}

def IsWord (name : String) : Prop := (Piece.word name.toList).Proper

theorem IsWord.ne_empty {name : String} (h : IsWord name) : name ≠ "" := by
  rintro rfl
  obtain ⟨_, _, htext, -⟩ := h
  cases htext

theorem Worded.of_suffix (h : Worded ts) (hs : rest <:+ ts) : Worded rest :=
  fun t ht => h t (hs.subset ht)

theorem Worded.tail (t : Token) (ts : List Token) (h : Worded (t :: ts)) : Worded ts :=
  h.of_suffix (List.suffix_cons t ts)

theorem Worded.name {t : Token} (h : Worded (t :: ts)) (hk : t.kind = .identifier) :
    IsWord t.value := h t List.mem_cons_self hk

section

variable {α : Type} {P : α → Prop} {begins : Token → List Token → Bool}
  {Part : List Token → List Token → Body α → Prop}

theorem DerivesBlock.worded {word name : String} {place : String → Surroundings} {keyword : Token}
    {body : Body α} (h : DerivesBlock lax word place begins Part ts rest keyword name body)
    (hpart : ∀ ts rest part, Part ts rest part → Worded ts →
      Worded rest ∧ ∀ item ∈ part.items, P item) (hts : Worded ts) :
    Worded rest ∧ IsWord name ∧ ∀ item ∈ body.items, P item := by
  cases h with
  | block _ hname _ hrow _ =>
    have hnamed := hts.tail.name hname
    obtain ⟨hclosing, hitems⟩ := hrow.carries Worded.tail hpart hts.tail.tail.tail
    exact ⟨hclosing.tail, hnamed, hitems⟩

theorem DerivesPart.worded {Clause : List Token → List Token → α → Prop} {part : Body α}
    (h : DerivesPart Clause ts rest part)
    (hclause : ∀ ts rest clause, Clause ts rest clause → rest <:+ ts) (hts : Worded ts) :
    Worded rest ∧ ∀ item ∈ part.items, True := by
  refine ⟨?_, fun _ _ => trivial⟩
  cases h with
  | semicolon => exact hts.tail
  | clause hc => exact hts.of_suffix (hclause _ _ _ hc)

end

theorem DerivesEventClause.isSuffix {clause : EventClause}
    (h : DerivesEventClause lax ts rest clause) : rest <:+ ts := by
  cases h with
  | condition h | effect h => exact h.isSuffix
  | target => exact isSuffix_cons (isSuffix_cons (List.suffix_cons _ _))
  | weighted _ _ hd _ _ hx =>
    exact isSuffix_cons (isSuffix_cons (hx.isSuffix.trans
      (isSuffix_of_cons (isSuffix_of_cons hd.isSuffix))))

theorem DerivesRuleClause.isSuffix {clause : RuleClause}
    (h : DerivesRuleClause lax ts rest clause) : rest <:+ ts := by
  cases h with
  | condition h | effect h => exact h.isSuffix
  | temporal _ hd | probability _ hd => exact hd.isSuffix

def EntityClause.Named : EntityClause → Prop
  | .event e => IsWord e.name
  | .state _ => True

theorem DerivesEntityPart.named {part : Body EntityClause} (h : DerivesEntityPart lax ts rest part)
    (hts : Worded ts) : Worded rest ∧ ∀ item ∈ part.items, item.Named := by
  cases h with
  | semicolon => exact ⟨hts.tail, fun _ hitem => nomatch hitem⟩
  | state _ _ hproperties =>
    exact ⟨hts.tail.tail.of_suffix hproperties.isSuffix, List.forall_mem_singleton.mpr trivial⟩
  | event h =>
    obtain ⟨hrest, hname, -⟩ := h.worded
      (fun _ _ _ hp => hp.worded fun _ _ _ hc => hc.isSuffix) hts
    exact ⟨hrest, List.forall_mem_singleton.mpr hname⟩

def Declaration.Named : Declaration → Prop
  | .entity e => IsWord e.name ∧ ∀ event ∈ e.events, IsWord event.name
  | .rule r => IsWord r.name

theorem DerivesDeclaration.named {part : Body Declaration}
    (h : DerivesDeclaration lax ts rest part) (hts : Worded ts) :
    Worded rest ∧ ∀ item ∈ part.items, item.Named := by
  cases h with
  | rule h =>
    obtain ⟨hrest, hname, -⟩ := h.worded
      (fun _ _ _ hp => hp.worded fun _ _ _ hc => hc.isSuffix) hts
    exact ⟨hrest, List.forall_mem_singleton.mpr hname⟩
  | entity h =>
    obtain ⟨hrest, hname, hitems⟩ := h.worded (fun _ _ _ hp => hp.named) hts
    refine ⟨hrest, List.forall_mem_singleton.mpr ⟨hname, fun event hevent => ?_⟩⟩
    obtain ⟨clause, hclause, hsome⟩ := List.mem_filterMap.mp hevent
    have hclause := hitems clause hclause
    cases clause with
    | event event' =>
      cases hsome
      exact hclause
    | state => cases hsome

structure Program.Named (p : Program) : Prop where
  entities : ∀ entity ∈ p.entities, IsWord entity.name
  events : ∀ entity ∈ p.entities, ∀ event ∈ entity.events, IsWord event.name
  rules : ∀ rule ∈ p.rules, IsWord rule.name

theorem DerivesProgram.named {p : Program} (h : DerivesProgram lax ts p) (hts : Worded ts) :
    p.Named := by
  cases h with
  | @program body hrow =>
    obtain ⟨-, hall⟩ := hrow.carries Worded.tail (fun _ _ _ hpart => hpart.named) hts
    have hentity (entity) (he : entity ∈ (Program.ofDeclarations body).entities) :
        (Declaration.entity entity).Named := by
      obtain ⟨declaration, hmem, hsome⟩ := List.mem_filterMap.mp he
      have hdeclaration := hall declaration hmem
      cases declaration with
      | entity =>
        cases hsome
        exact hdeclaration
      | rule => cases hsome
    refine ⟨fun entity he => (hentity entity he).1, fun entity he => (hentity entity he).2,
      fun rule hrule => ?_⟩
    obtain ⟨declaration, hmem, hsome⟩ := List.mem_filterMap.mp hrule
    have hdeclaration := hall declaration hmem
    cases declaration with
    | rule =>
      cases hsome
      exact hdeclaration
    | entity => cases hsome

theorem named_of_registrable {source : String} {p : Program} (h : registrable source = .ok p) :
    p.Named := by
  obtain ⟨_, htokens, hderives⟩ := derives_of_registrable h
  exact hderives.named (worded_of_tokenize htokens)

end StepWorld
