import StepWorld.Proofs.Syntax.Legible
import StepWorld.Proofs.Syntax.Spelling

/-! Rendered expressions are read again. The text of a legible expression is spelled, part by part,
by tokens from which the grammar derives the expression, so that the reader gives it back. -/

namespace StepWorld

variable {e : Expr} {t : Token} {ts us rest : List Token} {text tail : List Char} {c : Category}

/-- The category of the text of an expression. Only an assignment is torn apart by what binds
tighter around it. -/
def Expr.textCategory (e : Expr) : Category := if e.isAssignment then .assignment else .unary

theorem Expr.textCategory_of_not (he : e.isAssignment = false) : e.textCategory = .unary := by
  rw [textCategory, he]
  rfl

structure Reads (e : Expr) (ts : List Token) : Prop where
  short : ShortNumerals ts
  derives : ∀ rest, Derives e.textCategory (ts ++ rest) rest e

namespace Reads

theorem unary (h : Reads e ts) (he : e.isAssignment = false) (rest : List Token) :
    Derives .unary (ts ++ rest) rest e :=
  Expr.textCategory_of_not he ▸ h.derives rest

theorem assignment (h : Reads e ts) (rest : List Token) :
    Derives .assignment (ts ++ rest) rest e := by
  have hfits : e.textCategory.fits 0 := by
    unfold Expr.textCategory
    split <;> decide
  exact (h.derives rest).lift hfits

theorem of_unary (he : e.isAssignment = false) (hs : ShortNumerals ts)
    (h : ∀ rest, Derives .unary (ts ++ rest) rest e) : Reads e ts :=
  ⟨hs, fun rest => (Expr.textCategory_of_not he).symm ▸ h rest⟩

theorem of_operand (he : e.isAssignment = false) (hs : ShortNumerals ts)
    (h : ∀ rest, Derives .operand (ts ++ rest) rest e) : Reads e ts :=
  .of_unary he hs fun rest => .descend rfl (h rest)

end Reads

theorem shortNumerals_nil : ShortNumerals [] := fun _ ht => nomatch ht

theorem ShortNumerals.cons (h : ShortNumerals ts) (hk : t.kind ≠ .number) :
    ShortNumerals (t :: ts) :=
  List.forall_mem_cons.mpr ⟨fun hnumber => absurd hnumber hk, h⟩

theorem ShortNumerals.append (h : ShortNumerals ts) (h' : ShortNumerals us) :
    ShortNumerals (ts ++ us) :=
  List.forall_mem_append.mpr ⟨h, h'⟩

theorem not_number_of_isMark {a : Char} (h : t.isMark a = true) : t.kind ≠ .number := by
  simp [kind_of_isMark h]

structure Expr.Spelled (e : Expr) : Prop where
  starts : Starts e.render.toList
  reads : ∀ tail, Apart tail → Spells e.render.toList tail (Reads e)

theorem Expr.Spelled.of_text (htext : e.render.toList = text) (hstarts : Starts text)
    (h : ∀ tail, Apart tail → Spells text tail (Reads e)) : e.Spelled := by
  subst htext
  exact ⟨hstarts, h⟩

/-! ### Signs and integers -/

theorem Expr.Spelled.signed {operand : Expr} {s : Char} (h : operand.Spelled)
    (htext : e.render.toList = s :: operand.render.toList) (hs : s = '-' ∨ s = '¬')
    (hoperand : operand.isAssignment = false) (he : e.isAssignment = false)
    (hderives : ∀ place ts rest, Derives .unary ts rest operand →
      Derives .unary (⟨.operator, String.singleton s, place⟩ :: ts) rest e) : e.Spelled := by
  refine .of_text htext ?_ fun tail htail => ?_
  · rcases hs with rfl | rfl <;> exact starts_cons (by decide) (by decide) (by decide)
  · refine ((h.reads tail htail).sign hs h.starts).mono ?_
    rintro _ ⟨_, ts, rfl, ⟨place, rfl⟩, hts⟩
    refine .of_unary he (hts.short.cons (by simp)) fun rest => ?_
    exact hderives place _ rest (hts.unary hoperand rest)

theorem digitsValue_toDigits (n : Nat) :
    digitsValue ((Nat.toDigits 10 n).map fun c => c.toNat - '0'.toNat) = n := by
  have h := Nat.ofDigitChars_ten_toDigits (n := n)
  simpa [digitsValue, Nat.ofDigitChars_eq_foldl, List.foldl_map] using h

theorem isDigit_of_mem_repr {n : Nat} : ∀ c ∈ n.repr.toList, c.isDigit = true := by
  intro c hc
  rw [Nat.toList_repr] at hc
  exact Nat.isDigit_of_mem_toDigits (by decide) (by decide) hc

theorem numeralValue_repr (n : Nat) : numeralValue n.repr = .whole n := by
  rw [numeralValue_of_digits isDigit_of_mem_repr, Nat.toList_repr, digitsValue_toDigits]

theorem isShortNumeral_repr {n : Nat} (h : (Nat.toDigits 10 n).length ≤ digitLimit) :
    isShortNumeral n.repr = true :=
  isShortNumeral_of_digits isDigit_of_mem_repr (Nat.toList_repr ▸ h)

theorem spelled_nat {n : Nat} (h : (Nat.toDigits 10 n).length ≤ digitLimit) :
    (Expr.literal (.int n)).Spelled := by
  have hne : n.repr.toList ≠ [] := by
    rw [Nat.toList_repr]
    exact Nat.toDigits_ne_nil
  refine ⟨starts_digits hne isDigit_of_mem_repr, fun tail htail => ?_⟩
  refine (spells_digits hne isDigit_of_mem_repr htail).mono ?_
  rintro _ ⟨place, rfl⟩
  refine .of_operand rfl ?_ fun rest => ?_
  · intro t ht _
    obtain rfl := List.mem_singleton.mp ht
    exact isShortNumeral_repr h
  · have hnumber := @Derives.number ⟨.number, n.repr, place⟩ rest rfl
    rw [numeralValue_repr] at hnumber
    exact hnumber

theorem spelled_int {n : Int} (h : (Nat.toDigits 10 n.natAbs).length ≤ digitLimit) :
    (Expr.literal (.int n)).Spelled := by
  cases n with
  | ofNat m => exact spelled_nat h
  | negSucc m =>
    have hnat : (Expr.literal (.int (m + 1 : Nat))).Spelled := spelled_nat h
    have htext : (Expr.literal (.int (Int.negSucc m))).render.toList =
        '-' :: (m + 1).repr.toList := String.toList_append ..
    exact hnat.signed htext (.inl rfl) rfl rfl fun _ _ _ hd => hd.negateInt rfl

theorem spelled_unary {op : String} {operand : Expr}
    (hop : op = "¬" ∨ op = "-" ∧ operand.isNumeral = false) (h : operand.Spelled)
    (hoperand : operand.isAssignment = false) : (Expr.unary op operand).Spelled := by
  have htables : "-" ∈ leadingOperators ∧ "¬" ∈ leadingOperators ∧ "¬" ≠ "-" := by decide
  obtain ⟨hminus, hnot, hne⟩ := htables
  rcases hop with rfl | ⟨rfl, hnumeral⟩
  · have htext : (Expr.unary "¬" operand).render.toList = '¬' :: operand.render.toList :=
      String.toList_append ..
    refine h.signed htext (.inr rfl) hoperand rfl fun _ _ _ hd => ?_
    exact .lead rfl hnot hd fun heq => absurd heq hne
  · have htext : (Expr.unary "-" operand).render.toList = '-' :: operand.render.toList :=
      String.toList_append ..
    refine h.signed htext (.inl rfl) hoperand rfl fun _ _ _ hd => ?_
    exact .lead rfl hminus hd fun _ => hnumeral

/-! ### Names and texts -/

theorem spelled_word {name : String} (h : (Piece.word name.toList).Proper)
    (htext : e.render = name) (he : e.isAssignment = false)
    (hderives : ∀ place rest, Derives .operand (⟨.identifier, name, place⟩ :: rest) rest e) :
    e.Spelled := by
  refine .of_text (congrArg String.toList htext) (starts_word h) fun tail htail => ?_
  refine (spells_word h fun c hc => (htail c hc).1).mono ?_
  rintro _ ⟨place, rfl⟩
  exact .of_operand he (shortNumerals_nil.cons (by simp)) (hderives place)

theorem spelled_bool (b : Bool) : (Expr.literal (.bool b)).Spelled := by
  cases b with
  | true =>
    have htrue : (Piece.word "true".toList).Proper :=
      ⟨'t', ['r', 'u', 'e'], rfl, by decide, List.all_eq_true.mp (by decide)⟩
    exact spelled_word htrue rfl rfl fun _ _ => .truth rfl
  | false =>
    have hfalse : (Piece.word "false".toList).Proper :=
      ⟨'f', ['a', 'l', 's', 'e'], rfl, by decide, List.all_eq_true.mp (by decide)⟩
    exact spelled_word hfalse rfl rfl fun _ _ => .truth rfl

theorem spelled_text {s : String} (h : '"' ∉ s.toList) : (Expr.literal (.str s)).Spelled := by
  have htext : (Expr.literal (.str s)).render.toList = '"' :: (s.toList ++ ['"']) := by
    change ("\"" ++ s ++ "\"").toList = _
    simp
  refine .of_text htext (starts_cons (by decide) (by decide) (by decide)) fun tail _ => ?_
  refine (spells_quotation h).mono ?_
  rintro _ ⟨place, rfl⟩
  exact .of_operand rfl (shortNumerals_nil.cons (by simp)) fun rest => .string rfl

theorem isTruth_of_isName {name : String} {place : Position} (h : IsName name) :
    Token.isTruth ⟨.identifier, name, place⟩ = false := by
  obtain ⟨-, htrue, hfalse⟩ := h
  simp [Token.isTruth, Token.isWord, htrue, hfalse]

theorem spelled_property {owner name : String} (ho : IsName owner)
    (hn : (Piece.word name.toList).Proper) : (Expr.property owner name).Spelled := by
  have htext : (Expr.property owner name).render.toList =
      owner.toList ++ (['.'] ++ name.toList) := by
    change (owner ++ "." ++ name).toList = _
    simp
  refine .of_text htext ((starts_word ho.1).append _) fun tail htail => ?_
  have howner : Spells owner.toList (['.'] ++ name.toList ++ tail) (Lone .identifier owner) :=
    spells_word ho.1 (by intro c hc; cases hc; decide)
  have hname : Spells name.toList tail (Lone .identifier name) :=
    spells_word hn fun c hc => (htail c hc).1
  refine (howner.append ((spells_mark (by decide)).append hname)).mono ?_
  rintro _ ⟨_, _, rfl, ⟨p, rfl⟩, _, _, rfl, ⟨dot, rfl, hdot⟩, ⟨q, rfl⟩⟩
  refine .of_operand rfl ?_ fun rest => .property rfl (isTruth_of_isName ho) hdot rfl
  exact ((shortNumerals_nil.cons (by simp)).cons (not_number_of_isMark hdot)).cons (by simp)

/-! ### Operators between operands -/

theorem fits_zero_of_mem : ∀ op ∈ c.operators, c.fits 0 := by
  cases c <;> decide

theorem known_of_mem : ∀ op ∈ c.operators, op ∈ knownOperators := by
  cases c <;> decide

def joinedText (op : String) (left right : Expr) : List Char :=
  left.render.toList ++ (' ' :: (op.toList ++ [' ']) ++ right.render.toList)

theorem spells_joined {left right : Expr} {op : String} (hop : op ∈ c.operators)
    (hl : left.Spelled) (hleft : left.isAssignment = false) (hr : right.Spelled)
    (hright : c = .assignment ∨ right.isAssignment = false) (htail : Apart tail) :
    Spells (joinedText op left right) tail fun ts => ShortNumerals ts ∧
      ∃ place, ∀ rest, Derives c (ts ++ rest) rest
        (Token.join ⟨.operator, op, place⟩ left right) := by
  have hoperator := spells_operator (known_of_mem op hop) (hr.starts.append tail).not_blank
  have hfirst := hl.reads (' ' :: (op.toList ++ [' ']) ++ right.render.toList ++ tail)
    (apart_cons (by decide) (by decide))
  refine (hfirst.append (hoperator.append (hr.reads tail htail))).mono ?_
  rintro _ ⟨us, _, rfl, hus, _, vs, rfl, ⟨place, rfl⟩, hvs⟩
  refine ⟨hus.short.append (hvs.short.cons (by simp)), place, fun rest => ?_⟩
  have ht : Token.joins ⟨.operator, op, place⟩ c := ⟨rfl, hop⟩
  have hvalue : Derives (.ofPower c.rightPower) (vs ++ rest) rest right := by
    rcases hright with rfl | hright
    · exact hvs.assignment rest
    · exact (hvs.unary hright rest).lift (d := .unary) trivial
  -- Nothing binds as tight as the left operand, so that it ends before the operator.
  have hstop : Token.rightPower? ⟨.operator, op, place⟩ Category.unary.rightPower = none :=
    @stops_leadingPower [⟨.operator, op, place⟩] _ rfl
  rw [List.append_assoc]
  exact Derives.join (p := 0) (c := .unary) trivial ht hstop (hus.unary hleft _) hvalue

theorem spelled_binary {left right : Expr} {op : String} (hop : op ∈ c.operators)
    (hc : c ≠ .assignment) (hglyph : connectiveGlyph op = op) (hl : left.Spelled)
    (hleft : left.isAssignment = false) (hr : right.Spelled)
    (hright : right.isAssignment = false) : (Expr.binary op left right).Spelled := by
  have htext : (Expr.binary op left right).render.toList =
      ['('] ++ (joinedText op left right ++ [')']) := by
    change ("(" ++ left.render ++ " " ++ op ++ " " ++ right.render ++ ")").toList = _
    simp [joinedText]
  refine .of_text htext (starts_cons (by decide) (by decide) (by decide)) fun tail _ => ?_
  have hend : Apart ([')'] ++ tail) := apart_cons (by decide) (by decide)
  have hinner := spells_joined hop hl hleft hr (.inr hright) hend
  refine ((spells_mark (by decide)).append (hinner.append (spells_mark (by decide)))).mono ?_
  rintro _ ⟨_, _, rfl, ⟨opening, rfl, hopen⟩, us, _, rfl, ⟨hshort, place, hderives⟩,
    ⟨closing, rfl, hclose⟩⟩
  refine .of_operand rfl ?_ fun rest => ?_
  · exact (hshort.append (shortNumerals_nil.cons (not_number_of_isMark hclose))).cons
      (not_number_of_isMark hopen)
  · have hjoin := hderives (closing :: rest)
    rw [Token.join_of_joins (c := c) ⟨rfl, hop⟩ hc] at hjoin
    have hwhole := hjoin.lift (p := 0) (fits_zero_of_mem op hop)
    dsimp only at hwhole
    rw [hglyph] at hwhole
    simpa using hwhole.group hopen hclose

theorem spelled_assignment {target value : Expr} {op : String} (hop : op ∈ assignmentOperators)
    (ht : target.Spelled) (htarget : target.isAssignment = false) (hv : value.Spelled) :
    (Expr.assignment op target value).Spelled := by
  have htext : (Expr.assignment op target value).render.toList = joinedText op target value := by
    change (target.render ++ " " ++ op ++ " " ++ value.render).toList = _
    simp [joinedText]
  refine .of_text htext (ht.starts.append _) fun tail htail => ?_
  refine (spells_joined (c := .assignment) hop ht htarget hv (.inl rfl) htail).mono ?_
  rintro ts ⟨hshort, place, hderives⟩
  refine ⟨hshort, fun rest => ?_⟩
  have hjoin := hderives rest
  rw [Token.join, if_pos (List.contains_iff_mem.mpr hop)] at hjoin
  exact hjoin

/-! ### Arguments and temporal operands -/

theorem spelled_enclosed {name : String} {P : List Token → Prop}
    (hname : (Piece.word name.toList).Proper)
    (htext : e.render.toList = name.toList ++ (['('] ++ (text ++ [')'])))
    (he : e.isAssignment = false) (hinner : ∀ tail, Spells text (')' :: tail) P)
    (hP : ∀ ts, P ts → ShortNumerals ts ∧ ∀ place (opening closing : Token) rest,
      opening.isMark '(' = true → closing.isMark ')' = true →
        Derives .operand (⟨.identifier, name, place⟩ :: opening :: (ts ++ closing :: rest))
          rest e) : e.Spelled := by
  refine .of_text htext ((starts_word hname).append _) fun tail _ => ?_
  have hword : Spells name.toList (['('] ++ (text ++ [')']) ++ tail) (Lone .identifier name) :=
    spells_word hname (by intro c hc; cases hc; decide)
  refine (hword.append ((spells_mark (by decide)).append
    ((hinner tail).append (spells_mark (by decide))))).mono ?_
  rintro _ ⟨_, _, rfl, ⟨place, rfl⟩, _, _, rfl, ⟨opening, rfl, hopen⟩, ts, _, rfl, hts,
    ⟨closing, rfl, hclose⟩⟩
  obtain ⟨hshort, hderives⟩ := hP ts hts
  refine .of_operand he ?_ fun rest => ?_
  · have hlast := shortNumerals_nil.cons (not_number_of_isMark hclose)
    exact ((hshort.append hlast).cons (not_number_of_isMark hopen)).cons (by simp)
  · simpa using hderives place opening closing rest hopen hclose

def followingText (args : List Expr) : List Char :=
  args.flatMap fun arg => [',', ' '] ++ arg.render.toList

theorem intercalate_renderAll (first : Expr) (args : List Expr) :
    (String.intercalate ", " (Expr.renderAll (first :: args))).toList =
      first.render.toList ++ followingText args := by
  induction args generalizing first with
  | nil =>
    change (String.intercalate ", " [first.render]).toList = _
    simp [followingText]
  | cons arg args ih =>
    change (String.intercalate ", " (first.render :: arg.render :: Expr.renderAll args)).toList = _
    rw [String.intercalate_cons_cons, String.toList_append,
      show (String.intercalate ", " (arg.render :: Expr.renderAll args)).toList = _ from ih arg]
    simp [followingText]

theorem apart_followingText (args : List Expr) : Apart (followingText args ++ ')' :: tail) := by
  cases args with
  | nil => exact apart_cons (by decide) (by decide)
  | cons arg args =>
    change Apart (',' :: _)
    exact apart_cons (by decide) (by decide)

theorem spells_comma (h : Starts text) : Spells [',', ' '] (text ++ tail) (LoneMark ',') := by
  have hblank := spells_blank (h.append tail).not_blank
  refine (Spells.append (spells_mark (by decide)) hblank).mono ?_
  rintro _ ⟨_, _, rfl, ⟨comma, rfl, hmark⟩, rfl⟩
  exact ⟨comma, rfl, hmark⟩

def ReadsFollowing (args : List Expr) (ts : List Token) : Prop :=
  ShortNumerals ts ∧ ∀ start rest name before,
    Derives .openCall start (ts ++ rest) (.call name before) →
      Derives .openCall start rest (.call name (before ++ args))

theorem spells_following {args : List Expr} (h : ∀ arg ∈ args, arg.Spelled) :
    Spells (followingText args) (')' :: tail) (ReadsFollowing args) := by
  induction args with
  | nil =>
    refine .nil ⟨shortNumerals_nil, fun start rest name before hcall => ?_⟩
    rw [List.append_nil]
    exact hcall
  | cons arg args ih =>
    obtain ⟨harg, hargs⟩ := List.forall_mem_cons.mp h
    have hcomma : Spells [',', ' ']
        (arg.render.toList ++ followingText args ++ ')' :: tail) (LoneMark ',') :=
      spells_comma (harg.starts.append _)
    have hrest := (harg.reads _ (apart_followingText args)).append (ih hargs)
    refine (hcomma.append hrest).mono ?_
    rintro _ ⟨_, _, rfl, ⟨comma, rfl, hmark⟩, us, vs, rfl, hus, hshort, hvs⟩
    refine ⟨(hus.short.append hshort).cons (not_number_of_isMark hmark), ?_⟩
    intro start rest name before hcall
    rw [List.append_assoc, List.append_assoc] at hcall
    have hnext := hcall.nextArgument hmark (hus.assignment (vs ++ rest))
    have hall := hvs start rest name (before ++ [arg]) hnext
    rw [List.append_assoc] at hall
    exact hall

theorem isFunction_of_isName {name : String} {place : Position} (h : IsName name)
    (hnone : TemporalOp.ofName? name = none) :
    Token.isFunction ⟨.identifier, name, place⟩ = true := by
  simp [Token.isFunction, isTruth_of_isName h, hnone]

theorem spelled_call {name : String} {args : List Expr} (h : IsName name)
    (hnone : TemporalOp.ofName? name = none) (hargs : ∀ arg ∈ args, arg.Spelled) :
    (Expr.call name args).Spelled := by
  have hfunction (place : Position) : Token.isFunction ⟨.identifier, name, place⟩ = true :=
    isFunction_of_isName h hnone
  cases args with
  | nil =>
    have htext : (Expr.call name []).render.toList = name.toList ++ (['('] ++ ([] ++ [')'])) := by
      change (name ++ "(" ++ "" ++ ")").toList = _
      simp
    have hinner (tail : List Char) : Spells [] (')' :: tail) (· = []) := .nil rfl
    refine spelled_enclosed h.1 htext rfl hinner ?_
    rintro _ rfl
    exact ⟨shortNumerals_nil, fun _ _ _ _ hopen hclose => .emptyCall (hfunction _) hopen hclose⟩
  | cons first args =>
    obtain ⟨hfirst, hargs⟩ := List.forall_mem_cons.mp hargs
    have htext : (Expr.call name (first :: args)).render.toList =
        name.toList ++ (['('] ++ (first.render.toList ++ followingText args ++ [')'])) := by
      change (name ++ "(" ++ String.intercalate ", " (Expr.renderAll (first :: args)) ++
        ")").toList = _
      simp only [String.toList_append, intercalate_renderAll]
      simp
    refine spelled_enclosed h.1 htext rfl (fun tail =>
      (hfirst.reads _ (apart_followingText args)).append (spells_following hargs)) ?_
    rintro _ ⟨us, vs, rfl, hus, hshort, hvs⟩
    refine ⟨hus.short.append hshort, fun place opening closing rest hopen hclose => ?_⟩
    have hone := (hus.assignment (vs ++ closing :: rest)).firstArgument (hfunction place) hopen
    simpa using (hvs _ _ _ _ hone).call hclose

theorem proper_name (op : TemporalOp) : (Piece.word op.name.toList).Proper := by
  cases op <;> exact ⟨_, [], rfl, by decide, fun _ hd => nomatch hd⟩

theorem spelled_temporal {op : TemporalOp} {operand : Expr} (hop : op ≠ .until)
    (h : operand.Spelled) : (Expr.temporal op [operand]).Spelled := by
  have htext : (Expr.temporal op [operand]).render.toList =
      op.name.toList ++ (['('] ++ (operand.render.toList ++ [')'])) := by
    change (op.name ++ "(" ++ String.intercalate ", " [operand.render] ++ ")").toList = _
    simp
  refine spelled_enclosed (proper_name op) htext rfl
    (fun tail => h.reads _ (apart_cons (by decide) (by decide))) fun ts hts => ?_
  refine ⟨hts.short, fun place opening closing rest hopen hclose => ?_⟩
  exact .temporal rfl (TemporalOp.ofName?_name op) hop hopen (hts.assignment _) hclose

theorem spelled_until {first second : Expr} (hf : first.Spelled) (hs : second.Spelled) :
    (Expr.temporal .until [first, second]).Spelled := by
  have htext : (Expr.temporal .until [first, second]).render.toList = "U".toList ++
      (['('] ++ (first.render.toList ++ ([',', ' '] ++ second.render.toList) ++ [')'])) := by
    change ("U" ++ "(" ++ String.intercalate ", " [first.render, second.render] ++ ")").toList = _
    simp
  have hend (tail : List Char) : Apart (')' :: tail) := apart_cons (by decide) (by decide)
  have hinner (tail : List Char) :=
    (hf.reads _ (show Apart (',' :: _) from apart_cons (by decide) (by decide))).append
      ((spells_comma hs.starts).append (hs.reads _ (hend tail)))
  refine spelled_enclosed (proper_name .until) htext rfl hinner ?_
  rintro _ ⟨us, _, rfl, hus, _, vs, rfl, ⟨comma, rfl, hcomma⟩, hvs⟩
  refine ⟨hus.short.append (hvs.short.cons (not_number_of_isMark hcomma)), ?_⟩
  intro place opening closing rest hopen hclose
  have hname : Token.isWord ⟨.identifier, TemporalOp.until.name, place⟩ "U" = true := rfl
  have hpair := Derives.temporalPair hname hopen (hus.assignment (comma :: (vs ++ closing :: rest)))
    hcomma (hvs.assignment (closing :: rest)) hclose
  simpa using hpair

/-! ### Reading again -/

theorem Expr.Legible.spelled (h : e.Legible) : e.Spelled := by
  induction h with
  | int hshort => exact spelled_int hshort
  | @bool b => exact spelled_bool b
  | text hquote => exact spelled_text hquote
  | identifier hname =>
    exact spelled_word hname.1 rfl rfl fun _ _ => .identifier rfl (isTruth_of_isName hname)
  | property howner hname => exact spelled_property howner hname
  | call hname hnone _ ih => exact spelled_call hname hnone ih
  | unary hop _ hoperand ih => exact spelled_unary hop ih hoperand
  | binary hop hc hglyph _ hleft _ hright ihl ihr =>
    exact spelled_binary hop hc hglyph ihl hleft ihr hright
  | assignment hop _ htarget _ iht ihv => exact spelled_assignment hop iht htarget ihv
  | temporal hop _ ih => exact spelled_temporal hop ih
  | pair _ _ ihf ihs => exact spelled_until ihf ihs

/-- What is read from a source and can be told from its text is read from its text again. -/
theorem readExpression_render {source : String} (h : readExpression source = .ok e)
    (he : e.Rewritable) : readExpression e.render = .ok e := by
  have hspells := (legible_of_readExpression h he).spelled.reads [] apart_nil
  obtain ⟨tokens, hreads, htokens⟩ := hspells.tokenize
  rw [readExpression, htokens]
  have hderives := hreads.assignment []
  rw [List.append_nil] at hderives
  exact exprOfTokens_of_derives hreads.short hderives

instance : Decidable e.Rewritable :=
  inferInstanceAs (Decidable (∀ part ∈ e.nodes, part.isRewritable = true))

/-- Signs in a row, a negative number, an assignment in another one and one as an argument. -/
theorem readExpression_render_signs :
    ∃ e, readExpression "x = y -= - -z -> U(!-5, f('a', b = 'c') && true)" = .ok e ∧
      e.Rewritable ∧ e.render = "x = y -= (--z -> U(¬-5, (f(\"a\", b = \"c\") ∧ true)))" ∧
      readExpression e.render = .ok e := by
  have hruns : (readExpression "x = y -= - -z -> U(!-5, f('a', b = 'c') && true)").toOption.any
      (fun e => e.Rewritable ∧
        e.render = "x = y -= (--z -> U(¬-5, (f(\"a\", b = \"c\") ∧ true)))") = true := by
    decide +kernel
  obtain ⟨e, he, hruns⟩ := (Option.any_eq_true _ _).mp hruns
  obtain ⟨hrewritable, htext⟩ := of_decide_eq_true hruns
  have hread := toOption_eq_some_iff.mp he
  exact ⟨e, hread, hrewritable, htext, readExpression_render hread hrewritable⟩

end StepWorld
