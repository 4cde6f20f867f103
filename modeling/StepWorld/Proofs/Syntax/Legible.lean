import Mathlib.Data.Nat.Digits.Defs
import StepWorld.Proofs.Syntax.Cutting
import StepWorld.Proofs.Syntax.ReadNumerals
import StepWorld.Proofs.World.Parts

/-! Expressions as source text makes them. Names are words, numbers have few enough digits, and
operators stand in their tables. Such an expression is legible if moreover its text can be told from
any other one: no double quote ends a text early, and an assignment stands only where nothing around
it binds tighter. -/

namespace StepWorld

variable {t : Token} {ts rest : List Token} {e : Expr} {c : Category}

namespace Expr

def isAssignment : Expr → Bool
  | .assignment _ _ _ => true
  | _ => false

/-- The parts of an expression that are no arguments, no temporal operands and no value of an
assignment. -/
def innerParts : Expr → List Expr
  | .unary _ operand => [operand]
  | .binary _ left right => [left, right]
  | .assignment _ target _ => [target]
  | .probability event _ _ => [event]
  | .sequence parts => parts
  | _ => []

/-- Whether nothing about a node keeps its text from being read again: it is no probability, no
float and no text with a double quote in it, and no assignment is an inner part of it. -/
def isRewritable : Expr → Bool
  | .probability _ _ _ | .literal (.float _) => false
  | .literal (.str text) => !text.toList.contains '"'
  | e => e.innerParts.all (!·.isAssignment)

end Expr

def IsName (name : String) : Prop :=
  (Piece.word name.toList).Proper ∧ name ≠ "true" ∧ name ≠ "false"

inductive Expr.Legible : Expr → Prop
  | int {n : Int} : (Nat.toDigits 10 n.natAbs).length ≤ digitLimit → Legible (.literal (.int n))
  | bool {b : Bool} : Legible (.literal (.bool b))
  | text {s : String} : '"' ∉ s.toList → Legible (.literal (.str s))
  | identifier {name : String} : IsName name → Legible (.identifier name)
  | property {owner name : String} : IsName owner → (Piece.word name.toList).Proper →
      Legible (.property owner name)
  | call {name : String} {args : List Expr} : IsName name → TemporalOp.ofName? name = none →
      (∀ arg ∈ args, arg.Legible) → Legible (.call name args)
  | unary {op : String} {operand : Expr} : op = "¬" ∨ op = "-" ∧ operand.isNumeral = false →
      operand.Legible → operand.isAssignment = false → Legible (.unary op operand)
  | binary {op : String} {c : Category} {left right : Expr} : op ∈ c.operators → c ≠ .assignment →
      connectiveGlyph op = op → left.Legible → left.isAssignment = false →
      right.Legible → right.isAssignment = false → Legible (.binary op left right)
  | assignment {op : String} {target value : Expr} : op ∈ assignmentOperators →
      target.Legible → target.isAssignment = false → value.Legible →
      Legible (.assignment op target value)
  | temporal {op : TemporalOp} {operand : Expr} : op ≠ .until → operand.Legible →
      Legible (.temporal op [operand])
  | pair {first second : Expr} : first.Legible → second.Legible →
      Legible (.temporal .until [first, second])

/-! ### Numerals -/

theorem digitsValue_lt {text : List Char} (h : ∀ c ∈ text, c.isDigit = true) :
    digitsValue (text.map fun c => c.toNat - '0'.toNat) < 10 ^ text.length := by
  have hfold (start : Nat) : (text.map fun c => c.toNat - '0'.toNat).foldl
      (fun n d => 10 * n + d) start < (start + 1) * 10 ^ text.length := by
    induction text generalizing start with
    | nil => simp
    | cons c text ih =>
      have hdigit := isDigit_range (h c List.mem_cons_self)
      have hzero : '0'.toNat = 48 := rfl
      have hbound : (10 * start + (c.toNat - '0'.toNat) + 1) * 10 ^ text.length ≤
          (start + 1) * 10 ^ (c :: text).length := by
        rw [List.length_cons, Nat.pow_succ, Nat.mul_comm (10 ^ text.length), ← Nat.mul_assoc]
        exact Nat.mul_le_mul_right _ (by omega)
      exact Nat.lt_of_lt_of_le (ih (fun d hd => h d (List.mem_cons_of_mem c hd)) _) hbound
  have hzero := hfold 0
  rw [Nat.zero_add, Nat.one_mul] at hzero
  exact hzero

theorem short_of_numeralValue {text : String} {n : Int} (h : isShortNumeral text = true)
    (hn : numeralValue text = .whole n) : (Nat.toDigits 10 n.natAbs).length ≤ digitLimit := by
  unfold numeralValue at hn
  dsimp only at hn
  split at hn
  · cases hn
  · next hpoint =>
    cases hn
    have hshort : (text.toList.takeWhile Char.isDigit).length ≤ digitLimit := by
      have hhead : (text.toList.dropWhile Char.isDigit).head? ≠ some '.' := by
        intro hhead
        obtain ⟨more, hmore⟩ := List.head?_eq_some_iff.mp hhead
        exact hpoint more hmore
      simpa [isShortNumeral, hhead] using h
    rw [Int.natAbs_natCast, Nat.length_toDigits_le_iff (by decide) (by decide)]
    exact Nat.lt_of_lt_of_le (digitsValue_lt fun c hc => of_mem_takeWhile hc)
      (Nat.pow_le_pow_right (by decide) hshort)

/-! ### The words of a source -/

def Worded (ts : List Token) : Prop :=
  ∀ t ∈ ts, t.kind = .identifier → (Piece.word t.value.toList).Proper

theorem Piece.Proper.worded {piece : Piece} (h : piece.Proper) (place : Position) :
    Worded (piece.tokens place) := by
  intro t ht hk
  cases piece with
  | blank | lineComment | blockComment => cases ht
  | word text =>
    obtain rfl := List.mem_singleton.mp ht
    rw [String.toList_ofList]
    exact h
  | numeral | quotation | mark =>
    obtain rfl := List.mem_singleton.mp ht
    cases hk
  | operators run => cases hk.symm.trans (kind_of_mem_operatorTokens ht)

theorem worded_tokensOf {text : List Char} {pieces : List Piece} (h : Cut text pieces [])
    (place : Position) : Worded (tokensOf place pieces) := by
  intro t ht
  induction h using Cut.end_induction generalizing place with
  | done => cases ht
  | next hproper _ _ _ ih =>
    rcases List.mem_append.mp ht with ht | ht
    · exact hproper.worded place t ht
    · exact ih _ ht

theorem worded_of_tokenize {source : String} (h : tokenize source = .ok ts) : Worded ts := by
  obtain ⟨pieces, hcut, rfl⟩ := tokensFrom_eq_ok_iff.mp h
  exact worded_tokensOf hcut _

structure Lexed (ts : List Token) : Prop where
  short : ShortNumerals ts
  worded : Worded ts

namespace Lexed

theorem of_suffix (h : Lexed ts) (hs : rest <:+ ts) : Lexed rest :=
  ⟨h.short.of_suffix hs, fun t ht => h.worded t (hs.subset ht)⟩

theorem tail (h : Lexed (t :: ts)) : Lexed ts := h.of_suffix (List.suffix_cons t ts)

theorem behind (h : Lexed ts) (hd : Derives c ts (t :: rest) e) : Lexed rest :=
  (h.of_suffix hd.isSuffix).tail

theorem name (h : Lexed (t :: ts)) (hk : t.kind = .identifier) (ht : t.isTruth = false) :
    IsName t.value := by
  rw [isTruth_iff hk, Bool.or_eq_false_iff, beq_eq_false_iff_ne, beq_eq_false_iff_ne] at ht
  exact ⟨h.worded t List.mem_cons_self hk, ht⟩

theorem function (h : Lexed (t :: ts)) (hf : t.isFunction = true) :
    IsName t.value ∧ TemporalOp.ofName? t.value = none := by
  simp only [Token.isFunction, Bool.and_eq_true, beq_iff_eq, Bool.not_eq_true',
    Option.isNone_iff_eq_none] at hf
  obtain ⟨⟨hk, ht⟩, hnone⟩ := hf
  exact ⟨h.name hk ht, hnone⟩

end Lexed

/-! ### What is read is legible -/

namespace Expr

variable {left right : Expr} {es : List Expr}

/-- Every node of an expression can be told from its text. -/
def Rewritable (e : Expr) : Prop := ∀ part ∈ e.nodes, part.isRewritable = true

theorem Rewritable.pair (h : e.Rewritable) (he : e.nodes = e :: (left.nodes ++ right.nodes)) :
    e.isRewritable = true ∧ left.Rewritable ∧ right.Rewritable := by
  unfold Rewritable at h
  rw [he, List.forall_mem_cons, List.forall_mem_append] at h
  exact h

theorem Rewritable.parts (h : e.Rewritable) (he : e.nodes = e :: nodesOf es) :
    ∀ part ∈ nodesOf es, part.isRewritable = true := by
  unfold Rewritable at h
  rw [he, List.forall_mem_cons] at h
  exact h.2

theorem rewritable_of_singleton (h : ∀ part ∈ nodesOf [e], part.isRewritable = true) :
    e.Rewritable := by
  rw [nodesOf_singleton] at h
  exact h

end Expr

theorem connectiveGlyph_mem (hc : c ≠ .assignment) : ∀ op ∈ c.operators,
    connectiveGlyph op ∈ c.operators ∧
      connectiveGlyph (connectiveGlyph op) = connectiveGlyph op := by
  cases c <;> first | exact absurd rfl hc | decide

theorem connectiveGlyph_leading : ∀ op ∈ leadingOperators,
    connectiveGlyph op = "¬" ∨ connectiveGlyph op = "-" ∧ op = "-" := by decide

theorem Token.legible_binary {left right : Expr} (ht : t.joins c) (hc : c ≠ .assignment)
    (hself : (Expr.binary (connectiveGlyph t.value) left right).isRewritable = true)
    (hl : left.Legible) (hr : right.Legible) :
    (Expr.binary (connectiveGlyph t.value) left right).Legible := by
  obtain ⟨hmem, hglyph⟩ := connectiveGlyph_mem hc _ ht.2
  have hparts : left.isAssignment = false ∧ right.isAssignment = false := by
    simpa [Expr.isRewritable, Expr.innerParts] using hself
  exact .binary hmem hc hglyph hl hparts.1 hr hparts.2

/-- Whatever source text makes and can be told from its text is legible. -/
theorem Derives.legible (h : Derives c ts rest e) (hs : Lexed ts) (he : e.Rewritable) :
    e.Legible := by
  induction h with
  | descend _ _ ih => exact ih hs he
  | group _ _ _ ih => exact ih hs.tail he
  | call _ _ ih => exact ih hs he
  | @assign _ _ _ _ target _ hl _ hv _ ihl ihr =>
    obtain ⟨hself, htarget, hvalue⟩ := he.pair rfl
    have hnot : target.isAssignment = false := by
      simpa [Expr.isRewritable, Expr.innerParts] using hself
    exact .assignment hv (ihl hs htarget) hnot (ihr (hs.behind hl) hvalue)
  | @imply _ _ _ t _ _ hl hop _ ihl ihr =>
    obtain ⟨hself, hleft, hright⟩ := he.pair rfl
    have hv : t.value = "->" := value_of_isOperator hop
    have ht : t.joins .implication := ⟨kind_of_isOperator hop, by simp [hv, Category.operators]⟩
    have hglyph : connectiveGlyph t.value = "->" := by rw [hv]; rfl
    rw [← hglyph] at hself ⊢
    exact Token.legible_binary ht (by decide) hself (ihl hs hleft) (ihr (hs.behind hl) hright)
  | @chain c _ _ _ _ t _ _ hl hk hv _ _ ihl ihr =>
    obtain ⟨hself, hleft, hright⟩ := he.pair rfl
    have ht : t.joins c ∧ c ≠ .assignment := by
      cases c with
      | assignment | implication => cases hv
      | _ => exact ⟨⟨hk, hv⟩, by decide⟩
    exact Token.legible_binary ht.1 ht.2 hself (ihl hs hleft) (ihr (hs.behind hl) hright)
  | @negateInt _ _ _ n _ _ ih =>
    have hint : Expr.Rewritable (.literal (.int n)) := List.forall_mem_singleton.mpr rfl
    cases ih hs.tail hint with
    | int hshort => exact .int (by rwa [Int.natAbs_neg])
  | negateFloat => cases he _ (Expr.mem_nodes _)
  | @lead t _ _ e hk hv _ hnot ih =>
    unfold Expr.Rewritable at he
    rw [Expr.nodes, List.forall_mem_cons] at he
    have hinner : e.isAssignment = false := by
      simpa [Expr.isRewritable, Expr.innerParts] using he.1
    refine .unary ?_ (ih hs.tail he.2) hinner
    rcases connectiveGlyph_leading _ hv with hglyph | ⟨hglyph, hminus⟩
    · exact .inl hglyph
    · exact .inr ⟨hglyph, hnot hminus⟩
  | @number t _ hk =>
    have hshort := hs.short t List.mem_cons_self hk
    cases hn : numeralValue t.value with
    | whole n =>
      rw [Number.toValue]
      exact .int (short_of_numeralValue hshort hn)
    | real x =>
      rw [hn] at he
      cases he _ (Expr.mem_nodes _)
  | @string t _ _ =>
    have hquote := he _ (Expr.mem_nodes _)
    exact .text (by simpa [Expr.isRewritable] using hquote)
  | truth => exact .bool
  | temporal _ _ hop _ _ _ ih =>
    exact .temporal hop (ih hs.tail.tail (Expr.rewritable_of_singleton (he.parts rfl)))
  | temporalPair _ _ hf _ _ _ ihf ihs =>
    obtain ⟨hfirst, hsecond⟩ := List.forall_mem_append.mp (he.parts rfl)
    exact .pair (ihf hs.tail.tail hfirst)
      (ihs (hs.tail.tail.behind hf) (Expr.rewritable_of_singleton hsecond))
  | probability | threshold => cases he _ (Expr.mem_nodes _)
  | property hk ht _ hm =>
    exact .property (hs.name hk ht) (hs.worded _ (by simp) hm)
  | firstArgument hf _ _ ih =>
    obtain ⟨hname, hnone⟩ := hs.function hf
    have harg := ih hs.tail.tail (Expr.rewritable_of_singleton (he.parts rfl))
    exact .call hname hnone (List.forall_mem_singleton.mpr harg)
  | @nextArgument _ _ _ _ name args e hcall _ _ ihc ihe =>
    have hparts : ∀ part ∈ Expr.nodesOf (args ++ [e]), part.isRewritable = true := he.parts rfl
    rw [Expr.nodesOf_append, List.forall_mem_append] at hparts
    -- What is read so far is a call as well, so its name and its arguments are legible.
    have hcall' : (Expr.call name args).Rewritable := List.forall_mem_cons.mpr ⟨rfl, hparts.1⟩
    cases ihc hs hcall' with
    | call hname hnone hargs =>
      have harg := ihe (hs.behind hcall) (Expr.rewritable_of_singleton hparts.2)
      have hall := List.forall_mem_append.mpr ⟨hargs, List.forall_mem_singleton.mpr harg⟩
      exact .call hname hnone hall
  | emptyCall hf =>
    obtain ⟨hname, hnone⟩ := hs.function hf
    exact .call hname hnone (List.forall_mem_nil _)
  | identifier hk ht => exact .identifier (hs.name hk ht)

theorem legible_of_readExpression {source : String} (h : readExpression source = .ok e)
    (he : e.Rewritable) : e.Legible := by
  unfold readExpression at h
  split at h
  · cases h
  · next ts hts =>
    exact (derives_of_exprOfTokens h).legible
      ⟨shortNumerals_of_exprOfTokens h, worded_of_tokenize hts⟩ he

end StepWorld
