import StepWorld.Proofs.Syntax.DeclarationCompleteness

/-! Braces in what the strict grammar derives. They only stand around blocks, one of each kind for
every block, and every definition ends with one that closes. -/

namespace StepWorld

variable {α : Type} {t opening closing : Token} {ts mid rest : List Token}

def Token.isBrace (t : Token) : Bool := t.isMark '{' || t.isMark '}'

def Level (ts rest : List Token) : Prop :=
  ts.countP (·.isMark '{') + rest.countP (·.isMark '}') =
    ts.countP (·.isMark '}') + rest.countP (·.isMark '{')

theorem isBrace_of_kind {k : TokenKind} (h : t.kind = k) (hk : k ≠ .punctuation) :
    t.isBrace = false := by
  simp [Token.isBrace, Token.isMark, h, hk]

theorem isBrace_of_isMark {a : Char} (h : t.isMark a = true) (ha : a ≠ '{' ∧ a ≠ '}') :
    t.isBrace = false := by
  simp [Token.isBrace, mark_ne h ha.1, mark_ne h ha.2]

theorem isBrace_of_isWord {word : String} (h : t.isWord word = true) : t.isBrace = false :=
  isBrace_of_kind (kind_of_isWord h) (by decide)

theorem isBrace_of_isOperator {op : String} (h : t.isOperator op = true) : t.isBrace = false :=
  isBrace_of_kind (kind_of_isOperator h) (by decide)

theorem isBrace_of_member (h : t.kind = .string ∨ t.kind = .identifier) : t.isBrace = false :=
  h.elim (isBrace_of_kind · (by decide)) (isBrace_of_kind · (by decide))

namespace Level

theorem refl (ts : List Token) : Level ts ts := Nat.add_comm _ _

theorem trans (h : Level ts mid) (h' : Level mid rest) : Level ts rest := by
  unfold Level at *
  omega

theorem cons (ht : t.isBrace = false) (h : Level ts rest) : Level (t :: ts) rest := by
  obtain ⟨ho, hc⟩ := Bool.or_eq_false_iff.mp ht
  simpa [Level, List.countP_cons, ho, hc] using h

theorem of_cons (ht : t.isBrace = false) (h : Level ts (t :: rest)) : Level ts rest := by
  obtain ⟨ho, hc⟩ := Bool.or_eq_false_iff.mp ht
  simpa [Level, List.countP_cons, ho, hc] using h

theorem mark {a : Char} (h : Level ts rest) (ht : t.isMark a = true) (ha : a ≠ '{' ∧ a ≠ '}') :
    Level (t :: ts) rest :=
  h.cons (isBrace_of_isMark ht ha)

theorem of_mark {a : Char} (h : Level ts (t :: rest)) (ht : t.isMark a = true)
    (ha : a ≠ '{' ∧ a ≠ '}') : Level ts rest :=
  h.of_cons (isBrace_of_isMark ht ha)

theorem kind {k : TokenKind} (h : Level ts rest) (ht : t.kind = k) (hk : k ≠ .punctuation) :
    Level (t :: ts) rest :=
  h.cons (isBrace_of_kind ht hk)

theorem word {word : String} (h : Level ts rest) (ht : t.isWord word = true) :
    Level (t :: ts) rest :=
  h.cons (isBrace_of_isWord ht)

theorem block (ho : opening.isMark '{' = true) (hc : closing.isMark '}' = true)
    (h : Level ts (closing :: rest)) : Level (opening :: ts) rest := by
  have ho' : opening.isMark '}' = false := mark_ne ho (by decide)
  have hc' : closing.isMark '{' = false := mark_ne hc (by decide)
  simp only [Level, List.countP_cons, ho, hc, ho', hc', if_true, Bool.false_eq_true,
    if_false] at h ⊢
  omega

end Level

/-! ### Expressions, types and properties -/

theorem DerivesThreshold.level {x : Float} (h : DerivesThreshold ts rest x) : Level ts rest := by
  cases h with
  | plain hk => exact (Level.refl _).kind hk (by decide)
  | negated hminus hk =>
    exact ((Level.refl _).kind hk (by decide)).cons (isBrace_of_isOperator hminus)

theorem isBrace_of_isTruth (h : t.isTruth = true) : t.isBrace = false := by
  simp only [Token.isTruth, Bool.or_eq_true] at h
  exact h.elim isBrace_of_isWord isBrace_of_isWord

theorem isBrace_of_isFunction (h : t.isFunction = true) : t.isBrace = false := by
  simp only [Token.isFunction, Bool.and_eq_true, beq_iff_eq] at h
  exact isBrace_of_kind h.1.1 (by decide)

theorem isBrace_of_isThresholdOperator (h : isThresholdOperator t = true) : t.isBrace = false := by
  simp only [isThresholdOperator, Bool.and_eq_true, beq_iff_eq] at h
  exact isBrace_of_kind h.1 (by decide)

theorem Derives.level {c : Category} {e : Expr} (h : Derives c ts rest e) : Level ts rest := by
  induction h with
  | descend _ _ ih => exact ih
  | assign _ hk _ _ ihl ihr => exact (ihl.of_cons (isBrace_of_kind hk (by decide))).trans ihr
  | imply _ hop _ ihl ihr => exact (ihl.of_cons (isBrace_of_isOperator hop)).trans ihr
  | chain _ hk _ _ _ ihl ihr => exact (ihl.of_cons (isBrace_of_kind hk (by decide))).trans ihr
  | negateInt hop _ ih | negateFloat hop _ ih => exact ih.cons (isBrace_of_isOperator hop)
  | lead hk _ _ _ ih => exact ih.kind hk (by decide)
  | number hk | string hk | identifier hk => exact (Level.refl _).kind hk (by decide)
  | truth ht => exact (Level.refl _).cons (isBrace_of_isTruth ht)
  | group hopen _ hclose ih => exact (ih.of_mark hclose (by decide)).mark hopen (by decide)
  | temporal hk _ _ hopen _ hclose ih =>
    exact ((ih.of_mark hclose (by decide)).mark hopen (by decide)).kind hk (by decide)
  | temporalPair hw hopen _ hcomma _ hclose ihf ihs =>
    exact (((ihf.of_mark hcomma (by decide)).trans (ihs.of_mark hclose (by decide))).mark hopen
      (by decide)).word hw
  | probability hw hopen _ hclose _ ih =>
    exact ((ih.of_mark hclose (by decide)).mark hopen (by decide)).word hw
  | threshold hw hopen _ hclose ht hx ih =>
    exact ((((ih.of_mark hclose (by decide)).of_cons (isBrace_of_isThresholdOperator ht)).trans
      hx.level).mark hopen (by decide)).word hw
  | property hk _ hdot hm =>
    exact (((Level.refl _).kind hm (by decide)).mark hdot (by decide)).kind hk (by decide)
  | firstArgument hname hopen _ ih =>
    exact (ih.mark hopen (by decide)).cons (isBrace_of_isFunction hname)
  | nextArgument _ hcomma _ ihc ihe => exact (ihc.of_mark hcomma (by decide)).trans ihe
  | call _ hclose ih => exact ih.of_mark hclose (by decide)
  | emptyCall hname hopen hclose =>
    exact (((Level.refl _).mark hclose (by decide)).mark hopen (by decide)).cons
      (isBrace_of_isFunction hname)

theorem DerivesInteger.level {n : Int} (h : DerivesInteger ts rest n) : Level ts rest := by
  cases h with
  | plain hk => exact (Level.refl _).kind hk (by decide)
  | negated hminus hk =>
    exact ((Level.refl _).kind hk (by decide)).cons (isBrace_of_isOperator hminus)

theorem DerivesMembers.level {members : List String} (h : DerivesMembers ts rest members) :
    Level ts rest := by
  induction h with
  | last hm hclose =>
    exact ((Level.refl _).mark hclose (by decide)).cons (isBrace_of_member hm)
  | more hm hcomma _ ih =>
    exact (ih.mark hcomma (by decide)).cons (isBrace_of_member hm)

theorem DerivesType.level {type : PropertyType} (h : DerivesType ts rest type) :
    Level ts rest := by
  cases h with
  | emptyEnum hname hopen hclose =>
    exact (((Level.refl _).mark hclose (by decide)).mark hopen (by decide)).word hname
  | enum hname hopen h => exact (h.level.mark hopen (by decide)).word hname
  | intRange hname hopen hmin hcomma hmax hclose =>
    have hmin := hmin.level.of_mark hcomma (by decide)
    have hmax := hmax.level.of_mark hclose (by decide)
    exact ((hmin.trans hmax).mark hopen (by decide)).word hname
  | list hname hopen hk hclose =>
    exact ((((Level.refl _).cons (isBrace_of_isOperator hclose)).cons
      (isBrace_of_member (.inr hk))).cons (isBrace_of_isOperator hopen)).word hname
  | scalar hk => exact (Level.refl _).cons (isBrace_of_member (.inr hk))

theorem DerivesProperties.level {properties : List PropertyDecl}
    (h : DerivesProperties ts rest properties) (ho : opening.isMark '{' = true) :
    Level (opening :: ts) rest := by
  have hstep {ts mid : List Token} {name colon : Token} (hk : name.kind = .identifier)
      (hc : colon.isMark ':' = true) (h : Level ts mid) (ih : Level (opening :: mid) rest) :
      Level (opening :: name :: colon :: ts) rest := by
    have hline := (h.mark hc (by decide)).cons (isBrace_of_member (.inr hk))
    unfold Level at *
    simp only [List.countP_cons] at *
    omega
  induction h with
  | close hc => exact (Level.refl _).block ho hc
  | property hk hc htype _ ih => exact hstep hk hc htype.level (ih hstep)
  | separated hk hc htype hsep _ ih =>
    refine hstep hk hc (htype.level.of_cons ?_) (ih hstep)
    rcases hsep with hsep | hsep
    · exact isBrace_of_isMark hsep (by decide)
    · exact isBrace_of_isMark hsep (by decide)

/-! ### Clauses -/

theorem DerivesExprClause.level {lax : Bool} {word : String} {e : Expr}
    (h : DerivesExprClause lax word ts rest e) : Level ts rest := by
  obtain ⟨hword, hcolon, hd, -⟩ := h
  exact (hd.level.mark hcolon (by decide)).word hword

theorem DerivesEventClause.level {lax : Bool} {clause : EventClause}
    (h : DerivesEventClause lax ts rest clause) : Level ts rest := by
  cases h with
  | condition h | effect h => exact h.level
  | target hword hcolon hk =>
    exact (((Level.refl _).cons (isBrace_of_member (.inr hk))).mark hcolon (by decide)).word hword
  | weighted hname hopen hd hclose hequals hx =>
    have hd := (hd.level.of_mark hclose (by decide)).of_cons
      (isBrace_of_isOperator hequals)
    exact ((hd.trans hx.level).mark hopen (by decide)).word hname

theorem DerivesRuleClause.level {lax : Bool} {clause : RuleClause}
    (h : DerivesRuleClause lax ts rest clause) : Level ts rest := by
  cases h with
  | condition h | effect h => exact h.level
  | temporal _ hd | probability _ hd => exact hd.level

theorem DerivesPart.level {Clause : List Token → List Token → α → Prop} {part : Body α}
    (hclause : ∀ {ts rest clause}, Clause ts rest clause → Level ts rest)
    (h : DerivesPart Clause ts rest part) : Level ts rest := by
  cases h with
  | semicolon ht => exact (Level.refl _).mark ht (by decide)
  | clause hc => exact hclause hc

/-! ### Definitions -/

section

variable {place : Surroundings} {fits : List Token → Bool} {body : Body α}
  {Part : List Token → List Token → Body α → Prop} {word : String}
  {around : String → Surroundings} {begins : Token → List Token → Bool} {keyword : Token}
  {name : String}

theorem DerivesRow.level (hpart : ∀ {ts rest part}, Part ts rest part → Level ts rest)
    (h : DerivesRow false place fits Part ts rest body) : Level ts rest := by
  induction h with
  | nil => exact .refl _
  | part hp _ ih => exact (hpart hp).trans ih
  | run hlax => cases hlax

theorem DerivesBlock.level (hpart : ∀ {ts rest part}, Part ts rest part → Level ts rest)
    (h : DerivesBlock false word around begins Part ts rest keyword name body) :
    Level ts rest := by
  obtain ⟨hword, hk, hopen, hrow, hclose⟩ := h
  exact (((hrow.level hpart).block hopen hclose).cons (isBrace_of_member (.inr hk))).word hword

theorem DerivesBlock.exists_keyword
    (h : DerivesBlock false word around begins Part ts rest keyword name body) :
    ∃ tail, ts = keyword :: tail ∧ keyword.isWord word = true := by
  obtain ⟨hword, -, -, -, -⟩ := h
  exact ⟨_, rfl, hword⟩

theorem DerivesBlock.exists_closing
    (hpart : ∀ {ts rest part}, Part ts rest part → rest <:+ ts)
    (h : DerivesBlock false word around begins Part ts rest keyword name body) :
    ∃ inner closing, ts = inner ++ closing :: rest ∧ closing.isMark '}' = true := by
  obtain ⟨hword, hk, hopen, hrow, hclose⟩ := h
  obtain ⟨inner, hinner⟩ := hrow.isSuffix hpart
  exact ⟨_ :: _ :: _ :: inner, _, by rw [← hinner]; rfl, hclose⟩

end

theorem DerivesEntityPart.level {part : Body EntityClause}
    (h : DerivesEntityPart false ts rest part) : Level ts rest := by
  cases h with
  | semicolon ht => exact (Level.refl _).mark ht (by decide)
  | state hword hopen h => exact (h.level hopen).word hword
  | event h => exact h.level fun hp => hp.level DerivesEventClause.level

theorem DerivesDeclaration.level {part : Body Declaration}
    (h : DerivesDeclaration false ts rest part) : Level ts rest := by
  cases h with
  | entity h => exact h.level DerivesEntityPart.level
  | rule h => exact h.level fun hp => hp.level DerivesRuleClause.level

theorem DerivesDeclaration.exists_closing {part : Body Declaration}
    (h : DerivesDeclaration false ts rest part) :
    ∃ inner closing, ts = inner ++ closing :: rest ∧ closing.isMark '}' = true := by
  cases h with
  | entity h => exact h.exists_closing DerivesEntityPart.isSuffix
  | rule h => exact h.exists_closing (readsRuleClauses .start).part_isSuffix

theorem DerivesProgram.level {program : Program} (h : DerivesProgram false ts program) :
    ts.countP (·.isMark '{') = ts.countP (·.isMark '}') := by
  obtain ⟨hrow⟩ := h
  have hlevel := hrow.level DerivesDeclaration.level
  simpa [Level] using hlevel

theorem DerivesRow.exists_entity {body : Body Declaration}
    (h : DerivesRow false .specification fitsInSpecification (DerivesDeclaration false) ts rest
      body) {entity : EntityDecl} (he : .entity entity ∈ body.items) :
    ∃ before t after, ts = before ++ t :: after ∧ t.isWord "Entity" = true ∧
      ∀ u ∈ before.getLast?, u.isMark '}' = true := by
  induction h with
  | nil => cases he
  | @part ts mid rest part body hp _ ih =>
    rcases List.mem_append.mp he with he | he
    · cases hp with
      | entity h =>
        obtain ⟨tail, rfl, hword⟩ := h.exists_keyword
        exact ⟨[], _, tail, rfl, hword, by simp⟩
      | rule h => simp at he
    · obtain ⟨before, t, after, rfl, ht, hlast⟩ := ih he
      obtain ⟨inner, closing, rfl, hclosing⟩ := hp.exists_closing
      refine ⟨inner ++ closing :: before, t, after, by simp, ht, ?_⟩
      intro u hu
      cases before with
      | nil =>
        obtain rfl : closing = u := by simpa using hu
        exact hclosing
      | cons b before => exact hlast u (by simpa using hu)
  | run hlax => cases hlax

theorem DerivesProgram.exists_entity {program : Program} (h : DerivesProgram false ts program)
    (hentities : program.entities ≠ []) :
    ∃ before t after, ts = before ++ t :: after ∧ t.isWord "Entity" = true ∧
      ∀ u ∈ before.getLast?, u.isMark '}' = true := by
  obtain @⟨body, hrow⟩ := h
  obtain ⟨entity, hentity⟩ := List.exists_mem_of_ne_nil _ hentities
  have hitem : .entity entity ∈ body.items := by
    simp only [Program.ofDeclarations, List.mem_filterMap] at hentity
    obtain ⟨item, hitem, he⟩ := hentity
    cases item <;> grind
  exact hrow.exists_entity hitem

end StepWorld
