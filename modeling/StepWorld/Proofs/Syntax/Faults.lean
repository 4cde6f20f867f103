import Mathlib.Data.List.Infix
import StepWorld.Proofs.Outcomes
import StepWorld.Proofs.Syntax.DeclarationCompleteness

/-! What stops a reader. A fault of syntax points at the token that was found or at the end of the
tokens. Otherwise a number could not be converted: an integer of too many digits anywhere, or an
integer beyond the floats where it sets a weight or a threshold. Every reader that a number stops has
met one of these in its tokens. -/

namespace StepWorld

variable {α β : Type} {t bracket op : Token} {all ts rest : List Token} {finish : Position}

/-! ### Causes -/

def Token.isBeyondFloats (t : Token) : Bool :=
  t.kind == .number && (numeralValue t.value).toFloat?.isNone

/-- The tokens begin with an integer beyond the floats, perhaps with a minus sign in front. -/
def beginsBeyondFloats : List Token → Bool
  | [] => false
  | t :: rest => t.isBeyondFloats || t.isOperator "-" && rest.head?.any Token.isBeyondFloats

/-- The tokens begin with a closing bracket and an operator that sets an integer beyond the
floats. -/
def setsBeyondFloats : List Token → Bool
  | bracket :: op :: rest =>
    bracket.isMark ']' && isThresholdOperator op && beginsBeyondFloats rest
  | _ => false

/-- Somewhere in the tokens a weight or a threshold is set to an integer beyond the floats. -/
def Overflows (ts : List Token) : Prop := ∃ part, part <:+ ts ∧ setsBeyondFloats part = true

instance (ts : List Token) : Decidable (Overflows ts) :=
  decidable_of_iff (∃ part ∈ ts.tails, setsBeyondFloats part = true) (by simp [Overflows])

instance (ts : List Token) : Decidable (ShortNumerals ts) :=
  inferInstanceAs (Decidable (∀ t ∈ ts, t.kind = .number → isShortNumeral t.value = true))

def Blames (ts : List Token) : Fault → Prop
  | .longNumeral _ => ¬ ShortNumerals ts
  | .intBeyondFloats => Overflows ts
  | _ => False

/-- Where a fault of syntax in a list of tokens stands: at the token that was found, or at the
place where the list ends. -/
def ParseError.PointsInto (finish : Position) (ts : List Token) (e : ParseError) : Prop :=
  match e.found with
  | .endOfInput => e.position = finish
  | .token t => t ∈ ts ∧ e.position = t.position
  | .fraction _ => ∃ t ∈ ts, t.kind = .number ∧ e.position = t.position

def SourceError.BlamedOn (finish : Position) (ts : List Token) : SourceError → Prop
  | .lexical _ => True
  | .structural e => e.PointsInto finish ts
  | .numeral fault => Blames ts fault

abbrev Answers (finish : Position) (ts : List Token) (P : α → Prop) : Except SourceError α → Prop :=
  Admits (·.BlamedOn finish ts) P

abbrev Leaves (ts : List Token) {fits : List Token → Prop}
    (result : α × { rest : List Token // fits rest }) : Prop :=
  result.2.1 <:+ ts

theorem Admits.andThen_same {items : List Token} {part : Rest items} {P : β → List Token → Prop}
    {read : (part : List Token) → Except SourceError (β × Rest part)}
    (h : Answers finish all (fun r => P r.1 r.2.1) (read part.1)) :
    Answers finish all (fun r => P r.1 r.2.1) (part.andThen read) := by
  obtain ⟨part, hpart⟩ := part
  unfold Rest.andThen
  dsimp only at h ⊢
  generalize read part = result at h ⊢
  cases result with
  | ok => exact h
  | error => exact h

theorem Admits.andThen {items : List Token} {part : Rest items}
    {read : (part : List Token) → Except SourceError (β × Rest part)}
    (h : Answers finish all (Leaves all) (read part.1)) : Answers finish all (Leaves all) (part.andThen read) :=
  Admits.andThen_same (P := fun _ rest => rest <:+ all) h

/-! ### Single tokens and numbers -/

theorem answers_refuse {P : α → Prop} {expected : Expectation} (hs : ts <:+ all) :
    Answers finish all P (refuse finish expected ts) := by
  cases ts with
  | nil => exact (rfl : finish = finish)
  | cons t ts => exact (⟨hs.subset List.mem_cons_self, rfl⟩ : t ∈ all ∧ t.position = t.position)

theorem answers_takeToken {expected : Expectation} {test : Token → Bool} (hs : ts <:+ all) :
    Answers finish all (fun (t, rest) => ts = t :: rest.1 ∧ test t = true)
      (takeToken finish expected test ts) := by
  unfold takeToken
  cases ts with
  | nil => exact answers_refuse hs
  | cons t ts =>
    dsimp only
    split
    · next ht => exact ⟨rfl, ht⟩
    · exact answers_refuse hs

theorem leaves_takeToken {expected : Expectation} {test : Token → Bool} (hs : ts <:+ all) :
    Answers finish all (Leaves all) (takeToken finish expected test ts) :=
  (answers_takeToken hs).mono fun _ h => isSuffix_of_cons (h.1 ▸ hs)

theorem answers_closingBracket {items : List Token} {part : Rest items} (hs : part.1 <:+ all) :
    Answers finish all (fun (bracket, rest) => bracket :: rest.1 <:+ all ∧ bracket.isMark ']')
      (part.andThen (takeMark finish ']')) := by
  refine Admits.andThen_same
    (P := fun bracket rest => bracket :: rest <:+ all ∧ bracket.isMark ']') ?_
  exact (answers_takeToken hs).mono fun _ h => ⟨h.1 ▸ hs, h.2⟩

theorem answers_numeralNumber (ht : t ∈ all) (hkind : t.kind = .number) :
    Answers finish all (· = numeralValue t.value) (numeralNumber t.value) := by
  cases hn : numeralNumber t.value with
  | ok n => exact (numeralNumber_eq_ok_iff.mp hn).2
  | error error =>
    have hlong (h : ShortNumerals all) : False := by
      rw [numeralNumber_eq_ok_iff.mpr ⟨h t ht hkind, rfl⟩] at hn
      cases hn
    unfold numeralNumber at hn
    dsimp only at hn
    split at hn
    · cases hn
    · split at hn
      · cases hn
        exact hlong
      · cases hn

theorem Number.toFloat?_negate_eq_none {n : Number} :
    n.negate.toFloat? = none ↔ n.toFloat? = none := by
  cases n with
  | whole n => simp [negate, toFloat?, floatOfInt?]
  | real => simp [negate, toFloat?]

theorem Token.isBeyondFloats_iff :
    t.isBeyondFloats = true ↔ t.kind = .number ∧ (numeralValue t.value).toFloat? = none := by
  simp [isBeyondFloats]

theorem answers_takeNumber (hs : ts <:+ all) :
    Answers finish all (fun (n, t, rest) => rest.1 <:+ all ∧ (t ∈ all ∧ t.kind = .number) ∧
        (n.toFloat? = none → beginsBeyondFloats ts = true))
      (takeNumber finish ts) := by
  unfold takeNumber
  cases ts with
  | nil => exact answers_refuse hs
  | cons t ts =>
    have htail : ts <:+ all := isSuffix_of_cons hs
    dsimp only
    split
    · next hminus =>
      refine .bind (answers_takeToken htail) ?_
      rintro ⟨u, rest⟩ ⟨hts, hkind⟩
      have hkind : u.kind = .number := by simpa using hkind
      have hu : u ∈ all := htail.subset (hts ▸ List.mem_cons_self)
      refine .bind (answers_numeralNumber hu hkind) fun n hn => ?_
      refine ⟨isSuffix_of_cons (hts ▸ htail), ⟨hu, hkind⟩, fun hnone => ?_⟩
      have hbeyond : u.isBeyondFloats = true :=
        Token.isBeyondFloats_iff.mpr ⟨hkind, hn ▸ Number.toFloat?_negate_eq_none.mp hnone⟩
      simp [beginsBeyondFloats, hminus, hts, hbeyond]
    · refine .bind (answers_takeToken hs) ?_
      rintro ⟨u, rest⟩ ⟨hts, hkind⟩
      have hkind : u.kind = .number := by simpa using hkind
      have hu : u ∈ all := hs.subset (hts ▸ List.mem_cons_self)
      refine .bind (answers_numeralNumber hu hkind) fun n hn => ?_
      refine ⟨isSuffix_of_cons (hts ▸ hs), ⟨hu, hkind⟩, fun hnone => ?_⟩
      have hbeyond : u.isBeyondFloats = true :=
        Token.isBeyondFloats_iff.mpr ⟨hkind, hn ▸ hnone⟩
      rw [hts]
      simp [beginsBeyondFloats, hbeyond]

theorem answers_takeFloat (hs : bracket :: op :: ts <:+ all) (hbracket : bracket.isMark ']')
    (hop : isThresholdOperator op) : Answers finish all (Leaves all) (takeFloat finish ts) := by
  have htail : ts <:+ all := isSuffix_of_cons (isSuffix_of_cons hs)
  refine .bind (answers_takeNumber htail) ?_
  rintro ⟨n, _, rest⟩ ⟨hrest, -, hbeyond⟩
  dsimp only
  cases hn : n.toFloat? with
  | some x => exact hrest
  | none => exact ⟨_, hs, by simp [setsBeyondFloats, hbracket, hop, hbeyond hn]⟩

theorem answers_takeThreshold (event : Expr) (hs : bracket :: ts <:+ all)
    (hbracket : bracket.isMark ']') : Answers finish all (Leaves all) (takeThreshold finish event ts) := by
  unfold takeThreshold
  cases ts with
  | nil => exact List.nil_suffix
  | cons t ts =>
    dsimp only
    split
    · next hop => exact .bind (answers_takeFloat hs hbracket hop) fun _ hmore => hmore
    · exact isSuffix_of_cons hs

/-! ### Expressions -/

mutual

theorem answers_readExpr (finish : Position) (power : Nat) (ts : List Token) (hs : ts <:+ all) :
    Answers finish all (Leaves all) (readExpr finish power ts) := by
  rw [readExpr]
  refine .bind (answers_readOperand finish ts hs) ?_
  rintro ⟨left, rest, h⟩ hrest
  exact .bind (answers_continueExpr finish power left rest hrest) fun _ hmore => hmore
termination_by 4 * ts.length + 2

theorem answers_continueExpr (finish : Position) (power : Nat) (left : Expr) (ts : List Token)
    (hs : ts <:+ all) : Answers finish all (Leaves all) (continueExpr finish power left ts) := by
  rw [continueExpr.eq_def]
  cases ts with
  | nil => exact hs
  | cons t ts =>
    have htail : ts <:+ all := isSuffix_of_cons hs
    dsimp only
    split
    · exact hs
    split
    · split
      · exact hs
      refine .bind (answers_readExpr finish assignmentPower ts htail) ?_
      rintro ⟨value, more, h⟩ hmore
      exact .bind (answers_continueExpr finish power _ more hmore) fun _ hfinal => hfinal
    split
    · exact hs
    · next binding _ =>
      split
      · exact hs
      refine .bind (answers_readExpr finish _ ts htail) ?_
      rintro ⟨right, more, h⟩ hmore
      exact .bind (answers_continueExpr finish power _ more hmore) fun _ hfinal => hfinal
termination_by 4 * ts.length
decreasing_by all_goals subst_vars; simp only [List.length_cons]; omega

theorem answers_readOperand (finish : Position) (ts : List Token) (hs : ts <:+ all) :
    Answers finish all (Leaves all) (readOperand finish ts) := by
  rw [readOperand.eq_def]
  cases ts with
  | nil => exact answers_refuse hs
  | cons t ts =>
    have htail : ts <:+ all := isSuffix_of_cons hs
    dsimp only
    split
    · split
      · exact .bind (answers_readExpr finish leadingPower ts htail) fun _ hmore => hmore
      · exact answers_refuse hs
    · next hkind =>
      exact .bind (answers_numeralNumber (hs.subset List.mem_cons_self) hkind) fun _ _ => htail
    · exact htail
    · split
      · refine .bind (answers_readExpr finish 0 ts htail) ?_
        rintro ⟨inner, more⟩ hmore
        exact .bind (.andThen (leaves_takeToken hmore)) fun _ hfinal => hfinal
      · exact answers_refuse hs
    · exact .bind (answers_readNamed finish t.value ts htail) fun _ hmore => hmore
termination_by 4 * ts.length + 1
decreasing_by all_goals subst_vars; simp only [List.length_cons]; omega

theorem answers_readNamed (finish : Position) (name : String) (ts : List Token) (hs : ts <:+ all) :
    Answers finish all (Leaves all) (readNamed finish name ts) := by
  rw [readNamed.eq_def]
  split
  · exact hs
  split
  · exact .bind (answers_readTemporal finish _ ts hs) fun _ hmore => hmore
  split
  · exact .bind (answers_readProbability finish ts hs) fun _ hmore => hmore
  cases ts with
  | nil => exact hs
  | cons t ts =>
    have htail : ts <:+ all := isSuffix_of_cons hs
    dsimp only
    split
    · exact .bind (leaves_takeToken htail) fun _ hmore => hmore
    split
    · exact .bind (answers_readArgs finish true ts htail) fun _ hmore => hmore
    · exact hs
termination_by 4 * ts.length + 3
decreasing_by all_goals subst_vars; first | omega | (simp only [List.length_cons]; omega)

theorem answers_readArgs (finish : Position) (first : Bool) (ts : List Token) (hs : ts <:+ all) :
    Answers finish all (Leaves all) (readArgs finish first ts) := by
  rw [readArgs.eq_def]
  cases ts with
  | nil => exact answers_refuse hs
  | cons t ts =>
    dsimp only
    split
    · exact isSuffix_of_cons hs
    split
    · refine .bind (answers_readExpr finish 0 (t :: ts) hs) ?_
      rintro ⟨arg, more, h⟩ hmore
      exact .bind (answers_readArgs finish false more hmore) fun _ hfinal => hfinal
    · refine .bind (leaves_takeToken hs) ?_
      rintro ⟨_, next, hn⟩ hnext
      dsimp only
      refine .bind (answers_readExpr finish 0 next hnext) ?_
      rintro ⟨arg, more, hm⟩ hmore
      exact .bind (answers_readArgs finish false more hmore) fun _ hfinal => hfinal
termination_by 4 * ts.length + 3
decreasing_by all_goals subst_vars; omega

theorem answers_readTemporal (finish : Position) (op : TemporalOp) (ts : List Token)
    (hs : ts <:+ all) : Answers finish all (Leaves all) (readTemporal finish op ts) := by
  rw [readTemporal]
  refine .bind (leaves_takeToken hs) ?_
  rintro ⟨_, rest, hr⟩ hrest
  refine .bind (answers_readExpr finish 0 rest hrest) ?_
  rintro ⟨first, more, hm⟩ hmore
  dsimp only
  split
  · refine .bind (leaves_takeToken hmore) ?_
    rintro ⟨_, next, hn⟩ hnext
    refine .bind (answers_readExpr finish 0 next hnext) ?_
    rintro ⟨second, behind⟩ hbehind
    exact .bind (.andThen (leaves_takeToken hbehind)) fun _ hfinal => hfinal
  · exact .bind (leaves_takeToken hmore) fun _ hfinal => hfinal
termination_by 4 * ts.length

theorem answers_readProbability (finish : Position) (ts : List Token) (hs : ts <:+ all) :
    Answers finish all (Leaves all) (readProbability finish ts) := by
  rw [readProbability]
  refine .bind (leaves_takeToken hs) ?_
  rintro ⟨_, rest, hr⟩ hrest
  refine .bind (answers_readExpr finish 0 rest hrest) ?_
  rintro ⟨event, more⟩ hmore
  refine .bind (answers_closingBracket hmore) ?_
  rintro ⟨_, next, hn⟩ ⟨hnext, hbracket⟩
  exact .bind (answers_takeThreshold event hnext hbracket) fun _ hfinal => hfinal
termination_by 4 * ts.length

end

theorem answers_exprOfTokens (ts : List Token) : Answers (endPosition ts) ts (fun _ => True) (exprOfTokens ts) := by
  refine .bind (answers_readExpr _ 0 ts List.suffix_rfl) ?_
  rintro ⟨e, rest, h⟩ hrest
  dsimp only
  split
  · trivial
  · exact answers_refuse hrest

end StepWorld
