import StepWorld.Proofs.Review.Exposed

/-! The walk of a review over the lines of a source. What is open after the last line is what a
scan of the whole text finds, and on a source that is cut into plain pieces that scan leaves no
comment open. -/

namespace StepWorld

variable {c : Char} {text rest tail x line : List Char} {piece : Piece} {pieces : List Piece}
  {number : Nat} {opened : Option Nat} {following : List (List Char)}

/-- The line of a block comment that is still open after some lines. -/
def openLines (number : Nat) (opened : Option Nat) : List (List Char) → Option Nat
  | [] => opened
  | line :: rest => openLines (number + 1) (openComment number opened line) rest

inductive ScanMode where
  | plain
  | comment
  | ignored
deriving DecidableEq

/-- Whether a scan of a text leaves a block comment open. It knows no quotations, and two slashes
hide the rest of a line. -/
def leavesOpen : ScanMode → List Char → Bool
  | .comment, '*' :: '/' :: rest => leavesOpen .plain rest
  | .plain, '/' :: '*' :: rest => leavesOpen .comment rest
  | .plain, '/' :: '/' :: rest => leavesOpen .ignored rest
  | .ignored, c :: rest => leavesOpen (if isLineEnd c then .plain else .ignored) rest
  | mode, _ :: rest => leavesOpen mode rest
  | mode, [] => mode == .comment

theorem leavesOpen_plain_cons (h : c = '/' → opensComment rest = false) :
    leavesOpen .plain (c :: rest) = leavesOpen .plain rest := by
  refine leavesOpen.eq_5 _ c rest (fun _ h => ScanMode.noConfusion h) ?_ ?_
    fun h => ScanMode.noConfusion h
  all_goals
    rintro more - rfl rfl
    exact Bool.noConfusion (h rfl)

theorem leavesOpen_comment_cons (h : c = '*' → rest.head? ≠ some '/') :
    leavesOpen .comment (c :: rest) = leavesOpen .comment rest := by
  refine leavesOpen.eq_5 _ c rest ?_ (fun _ h => ScanMode.noConfusion h)
    (fun _ h => ScanMode.noConfusion h) fun h => ScanMode.noConfusion h
  rintro more - rfl rfl
  exact h rfl rfl

theorem ne_of_isLineEnd (h : isLineEnd c = true) : c ≠ '/' ∧ c ≠ '*' := by
  constructor <;> rintro rfl <;> exact absurd h (by decide)

def modeOf (opened : Option Nat) : ScanMode := if opened.isSome then .comment else .plain

@[simp] theorem modeOf_none : modeOf none = .plain := rfl

@[simp] theorem modeOf_some (number : Nat) : modeOf (some number) = .comment := rfl

theorem leavesOpen_line_end (hc : isLineEnd c = true) :
    leavesOpen (modeOf opened) (c :: rest) = leavesOpen (modeOf opened) rest := by
  obtain ⟨hslash, hstar⟩ := ne_of_isLineEnd hc
  cases opened with
  | none => exact leavesOpen_plain_cons fun h => absurd h hslash
  | some number => exact leavesOpen_comment_cons fun h => absurd h hstar

theorem leavesOpen_ignored (hline : ∀ c ∈ line, isLineEnd c = false)
    (htail : ∀ c ∈ tail.head?, isLineEnd c = true) :
    leavesOpen .ignored (line ++ tail) = leavesOpen .plain tail := by
  induction line with
  | nil =>
    cases tail with
    | nil => rfl
    | cons c tail =>
      have hend : leavesOpen (modeOf none) (c :: tail) = leavesOpen (modeOf none) tail :=
        leavesOpen_line_end (htail c rfl)
      rw [List.nil_append, leavesOpen, if_pos (htail c rfl)]
      exact hend.symm
  | cons c line ih =>
    rw [List.cons_append, leavesOpen, if_neg (by simp [hline c List.mem_cons_self])]
    exact ih fun d hd => hline d (List.mem_cons_of_mem c hd)

theorem head?_append_ne (htail : ∀ c ∈ tail.head?, isLineEnd c = true) (hc : c = '/' ∨ c = '*')
    (h : line.head? ≠ some c) : (line ++ tail).head? ≠ some c := by
  cases line with
  | cons d line => exact h
  | nil =>
    intro hhead
    obtain ⟨hslash, hstar⟩ := ne_of_isLineEnd (htail c hhead)
    exact hc.elim hslash hstar

theorem leavesOpen_line (hline : ∀ c ∈ line, isLineEnd c = false)
    (htail : ∀ c ∈ tail.head?, isLineEnd c = true) :
    leavesOpen (modeOf opened) (line ++ tail) =
      leavesOpen (modeOf (openComment number opened line)) tail := by
  induction opened, line using openComment.induct number with
  | case1 _ rest ih | case2 rest ih =>
    rw [openComment, ← ih fun c hc => hline c (List.mem_cons_of_mem _ (List.mem_cons_of_mem _ hc))]
    rfl
  | case3 rest =>
    rw [openComment]
    exact leavesOpen_ignored
      (fun c hc => hline c (List.mem_cons_of_mem _ (List.mem_cons_of_mem _ hc))) htail
  | case4 opened c rest hclose hopen hslashes ih =>
    rw [openComment.eq_4 number opened c rest hclose hopen hslashes,
      ← ih fun d hd => hline d (List.mem_cons_of_mem c hd)]
    cases opened with
    | none =>
      refine leavesOpen_plain_cons fun hc => opensComment_eq_false_iff.mpr ⟨?_, ?_⟩
      · refine head?_append_ne htail (.inl rfl) fun hhead => ?_
        obtain ⟨more, rfl⟩ := List.head?_eq_some_iff.mp hhead
        exact hslashes more rfl hc rfl
      · refine head?_append_ne htail (.inr rfl) fun hhead => ?_
        obtain ⟨more, rfl⟩ := List.head?_eq_some_iff.mp hhead
        exact hopen more rfl hc rfl
    | some _ =>
      refine leavesOpen_comment_cons fun hc => head?_append_ne htail (.inl rfl) fun hhead => ?_
      obtain ⟨more, rfl⟩ := List.head?_eq_some_iff.mp hhead
      exact hclose _ more rfl hc rfl
  | case5 opened =>
    rw [openComment]
    rfl

theorem openLines_linesAfter (hline : ∀ c ∈ line, isLineEnd c = false) :
    (openLines number opened (linesAfter line text)).isSome =
      leavesOpen (modeOf opened) (line.reverse ++ text) := by
  have hnil {opened : Option Nat} : opened.isSome = leavesOpen (modeOf opened) [] := by
    cases opened <;> rfl
  have hrow {line tail : List Char} (number : Nat) (opened : Option Nat)
      (hline : ∀ c ∈ line, isLineEnd c = false) (htail : ∀ c ∈ tail.head?, isLineEnd c = true) :
      leavesOpen (modeOf opened) (line.reverse ++ tail) =
        leavesOpen (modeOf (openComment number opened line.reverse)) tail :=
    leavesOpen_line (fun c hc => hline c (List.mem_reverse.mp hc)) htail
  have hempty : ∀ c ∈ ([] : List Char), isLineEnd c = false := by simp
  induction line, text using linesAfter.induct generalizing number opened with
  | case1 line hnone =>
    obtain rfl := List.isEmpty_iff.mp hnone
    exact hnil
  | case2 line hsome =>
    rw [linesAfter, if_neg hsome, hrow number opened hline (by simp)]
    exact hnil
  | case3 line rest ih =>
    rw [linesAfter, openLines, ih hempty, hrow number opened hline fun c hc => ?_,
      leavesOpen_line_end (by decide), leavesOpen_line_end (by decide)]
    · rfl
    · obtain rfl := Option.some.inj hc
      decide
  | case4 line c rest hne hend ih =>
    rw [linesAfter.eq_3 line c rest hne, if_pos hend, openLines, ih hempty,
      hrow number opened hline fun d hd => ?_, leavesOpen_line_end hend]
    · rfl
    · obtain rfl := Option.some.inj hd
      exact hend
  | case5 line c rest hne hinner ih =>
    rw [linesAfter.eq_3 line c rest hne, if_neg hinner, ih fun d hd => ?_, List.reverse_cons,
      List.append_assoc]
    · rfl
    · rcases List.mem_cons.mp hd with rfl | hd
      · simpa using hinner
      · exact hline d hd

theorem lineProblems_eq_nil_iff {ls : List (List Char)} :
    lineProblems number opened ls = [] ↔ openLines number opened ls = none ∧
      ∀ before line after, ls = before ++ line :: after → openLines number opened before = none →
        isBareEntityLine line = true → bodyFollows after = true := by
  induction ls generalizing number opened with
  | nil => cases opened <;> simp [lineProblems, openLines]
  | cons line rest ih =>
    have hhere : (if opened.isNone && isBareEntityLine line && !bodyFollows rest then
        [Problem.missingBrace number] else []) = [] ↔
          (opened = none → isBareEntityLine line = true → bodyFollows rest = true) := by
      cases opened <;> cases isBareEntityLine line <;> cases bodyFollows rest <;> simp
    rw [lineProblems, List.append_eq_nil_iff, hhere, ih, openLines]
    constructor
    · rintro ⟨hfirst, hclosed, hlater⟩
      refine ⟨hclosed, fun before other after hsplit hopened => ?_⟩
      cases before with
      | nil =>
        cases hsplit
        exact hfirst hopened
      | cons _ before =>
        cases hsplit
        exact hlater before other after rfl hopened
    · rintro ⟨hclosed, hall⟩
      exact ⟨hall [] line rest rfl, hclosed, fun before other after hsplit =>
        hall (line :: before) other after (congrArg (line :: ·) hsplit)⟩

/-! ### Plain pieces -/

/-- Whether a walk over lines takes a piece for what it is: no mark of a comment stands inside a
quotation, and a line comment ends where its line ends. -/
def Piece.IsPlain : Piece → Prop
  | .quotation _ body => ¬ ['/', '/'] <:+: body ∧ ¬ ['/', '*'] <:+: body
  | .lineComment text => ∀ c ∈ text.dropLast, isLineEnd c = false
  | _ => True

instance : DecidablePred Piece.IsPlain
  | .quotation _ body =>
    inferInstanceAs (Decidable (¬ ['/', '/'] <:+: body ∧ ¬ ['/', '*'] <:+: body))
  | .lineComment text => inferInstanceAs (Decidable (∀ c ∈ text.dropLast, isLineEnd c = false))
  | .blank _ | .blockComment _ | .word _ | .numeral _ | .operators _ | .mark _ => .isTrue trivial

theorem leavesOpen_inert (h : Inert x tail) :
    leavesOpen .plain (x ++ tail) = leavesOpen .plain tail := by
  induction h with
  | nil => rfl
  | cons hslash _ ih =>
    rw [List.cons_append, leavesOpen_plain_cons hslash, ih]

theorem leavesOpen_closeComment {body : List Char} (h : closeComment? text = some (body, tail)) :
    leavesOpen .comment text = leavesOpen .plain tail := by
  induction text using closeComment?.induct generalizing body tail with
  | case1 => cases h
  | case2 rest =>
    cases h
    rw [leavesOpen]
  | case3 c rest hne ih =>
    rw [closeComment?.eq_3 c rest hne] at h
    obtain ⟨⟨inner, left⟩, hclose, heq⟩ := Option.map_eq_some_iff.mp h
    cases heq
    rw [leavesOpen_comment_cons fun hc hhead => ?_, ih hclose]
    obtain ⟨more, rfl⟩ := List.head?_eq_some_iff.mp hhead
    exact hne more hc rfl

theorem leavesOpen_lineComment {body : List Char} (hbody : ∀ c ∈ body.dropLast, isLineEnd c = false)
    (htail : ∀ c ∈ tail.head?, c = '\n') :
    leavesOpen .ignored (body ++ tail) = leavesOpen .plain tail := by
  have hend : ∀ c ∈ tail.head?, isLineEnd c = true := by
    intro c hc
    rw [htail c hc]
    decide
  induction body with
  | nil => exact leavesOpen_ignored (fun _ hc => absurd hc List.not_mem_nil) hend
  | cons c body ih =>
    rw [List.cons_append, leavesOpen]
    cases body with
    | nil =>
      split
      · rfl
      · exact leavesOpen_ignored (fun _ hc => absurd hc List.not_mem_nil) hend
    | cons d body =>
      rw [List.dropLast_cons_cons] at hbody
      rw [if_neg (by simp [hbody c List.mem_cons_self]),
        ih fun e he => hbody e (List.mem_cons_of_mem c he)]

theorem Inert.of_markFree {d : Char} (hd : d ≠ '/' ∧ d ≠ '*') (hline : ¬ ['/', '/'] <:+: x)
    (hblock : ¬ ['/', '*'] <:+: x) : Inert x (d :: tail) := by
  induction x with
  | nil => exact .nil
  | cons c x ih =>
    refine .cons (fun hc => ?_) (ih (fun h => hline (h.trans (List.suffix_cons c x).isInfix))
      fun h => hblock (h.trans (List.suffix_cons c x).isInfix))
    subst hc
    cases x with
    | nil => simp [opensComment, hd]
    | cons e x =>
      have hslash : e ≠ '/' := fun he => hline ⟨[], x, by rw [he]; rfl⟩
      have hstar : e ≠ '*' := fun he => hblock ⟨[], x, by rw [he]; rfl⟩
      simp [opensComment, hslash, hstar]

theorem leavesOpen_piece (hproper : piece.Proper) (hends : piece.EndsBefore tail)
    (hplain : piece.IsPlain) :
    leavesOpen .plain (piece.text ++ tail) = leavesOpen .plain tail := by
  cases piece with
  | blank | word | numeral | operators | mark =>
    exact leavesOpen_inert (Piece.inert hproper hends trivial).1
  | lineComment text =>
    obtain ⟨body, rfl, -⟩ := hproper
    refine (leavesOpen.eq_3 (body ++ tail)).trans (leavesOpen_lineComment (fun c hc => ?_) hends)
    cases body with
    | nil => cases hc
    | cons d body => exact hplain c (List.mem_cons_of_mem _ (List.mem_cons_of_mem _ hc))
  | blockComment text =>
    obtain ⟨inner, rfl, hinner⟩ := hproper
    exact (leavesOpen.eq_2 (inner ++ ['*', '/'] ++ tail)).trans
      (leavesOpen_closeComment (closeComment?_append_tail hinner tail))
  | quotation quote body =>
    have hquote : quote ≠ '/' ∧ quote ≠ '*' := by
      rcases hproper.1 with rfl | rfl <;> decide
    have hbody : leavesOpen .plain (body ++ quote :: tail) = leavesOpen .plain (quote :: tail) :=
      leavesOpen_inert (.of_markFree hquote hplain.1 hplain.2)
    rw [quotation_text_append, leavesOpen_plain_cons fun h => absurd h hquote.1, hbody,
      leavesOpen_plain_cons fun h => absurd h hquote.1]

theorem leavesOpen_of_cut (h : Cut text pieces []) (hplain : ∀ piece ∈ pieces, piece.IsPlain) :
    leavesOpen .plain text = false := by
  induction h using Cut.end_induction with
  | done => rfl
  | next hproper hends _ _ ih =>
    rw [leavesOpen_piece hproper hends (hplain _ List.mem_cons_self),
      ih fun piece hmem => hplain piece (List.mem_cons_of_mem _ hmem)]

end StepWorld
