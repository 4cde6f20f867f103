import StepWorld.Syntax.Tokenize

/-! The pieces of a source. A text begins with a piece exactly if the piece is written properly and
cannot be continued by what follows it, so a text that is broken off between two pieces is cut as
before. -/

namespace StepWorld

variable {c quote : Char} {text rest tail body inner run : List Char} {piece : Piece}

theorem takeWhile_append_of_ends {p : Char → Bool} (hall : ∀ c ∈ text, p c = true)
    (hends : ∀ c ∈ tail.head?, p c = false) : (text ++ tail).takeWhile p = text := by
  rw [List.takeWhile_append_of_pos hall]
  cases tail with
  | nil => simp
  | cons c more => simp [hends c rfl]

theorem dropWhile_append_of_ends {p : Char → Bool} (hall : ∀ c ∈ text, p c = true)
    (hends : ∀ c ∈ tail.head?, p c = false) : (text ++ tail).dropWhile p = tail := by
  rw [List.dropWhile_append_of_pos hall]
  cases tail with
  | nil => rfl
  | cons c more => simp [hends c rfl]

theorem of_mem_takeWhile {p : Char → Bool} (h : c ∈ text.takeWhile p) : p c = true :=
  List.all_eq_true.mp List.all_takeWhile c h

theorem of_mem_head?_dropWhile {p : Char → Bool} (h : c ∈ (text.dropWhile p).head?) :
    p c = false := by
  have hnot := List.head?_dropWhile_not p text
  rw [Option.mem_def.mp h] at hnot
  exact hnot

theorem closeComment?_of_inner (h : ¬ ['*', '/'] <:+: inner ++ ['*']) (tail : List Char) :
    closeComment? (inner ++ '*' :: '/' :: tail) = some (inner ++ ['*', '/'], tail) := by
  induction inner with
  | nil => rfl
  | cons c inner ih =>
    have hmore : ¬ ['*', '/'] <:+: inner ++ ['*'] := fun hin =>
      h (hin.trans (List.suffix_cons _ _).isInfix)
    have hne : ∀ more, c = '*' → inner ++ '*' :: '/' :: tail = '/' :: more → False := by
      rintro more rfl heq
      cases inner with
      | nil => cases heq
      | cons d inner =>
        cases heq
        exact h ⟨[], inner ++ ['*'], rfl⟩
    rw [List.cons_append, closeComment?.eq_3 c _ hne, ih hmore]
    rfl

theorem inner_of_closeComment? (h : closeComment? text = some (body, tail)) :
    ∃ inner, body = inner ++ ['*', '/'] ∧ ¬ ['*', '/'] <:+: inner ++ ['*'] := by
  induction text using closeComment?.induct generalizing body tail with
  | case1 => cases h
  | case2 rest =>
    cases h
    exact ⟨[], rfl, by decide⟩
  | case3 c rest hne ih =>
    rw [closeComment?.eq_3 c rest hne] at h
    obtain ⟨⟨b, t⟩, hb, heq⟩ := Option.map_eq_some_iff.mp h
    cases heq
    obtain ⟨inner, rfl, hin⟩ := ih hb
    refine ⟨c :: inner, rfl, fun hbad => ?_⟩
    rcases List.infix_cons_iff.mp hbad with hpre | hbad
    · obtain ⟨hc, hpre⟩ := List.cons_prefix_cons.mp hpre
      have hrest := closeComment?_append hb
      cases inner with
      | nil => exact absurd (List.cons_prefix_cons.mp hpre).1 (by decide)
      | cons d inner =>
        obtain ⟨rfl, -⟩ := List.cons_prefix_cons.mp hpre
        exact hne _ hc.symm hrest.symm
    · exact hin hbad

theorem closeQuote?_eq_some_iff :
    closeQuote? quote text = some (body, tail) ↔ quote ∉ body ∧ text = body ++ quote :: tail := by
  constructor
  · intro h
    refine ⟨?_, (closeQuote?_append h).symm⟩
    induction text generalizing body with
    | nil => cases h
    | cons c rest ih =>
      rw [closeQuote?] at h
      split at h
      · cases h
        exact List.not_mem_nil
      · next hc =>
        obtain ⟨⟨b, t⟩, hb, heq⟩ := Option.map_eq_some_iff.mp h
        cases heq
        exact fun hmem => (List.mem_cons.mp hmem).elim (fun heq => hc heq.symm) (ih hb)
  · rintro ⟨hbody, rfl⟩
    induction body with
    | nil => exact if_pos rfl
    | cons c body ih =>
      have hc : c ≠ quote := fun heq => hbody (heq ▸ List.mem_cons_self)
      rw [List.cons_append, closeQuote?, if_neg hc, ih fun hmem => hbody (List.mem_cons_of_mem c hmem)]
      rfl

inductive IsNumeral : List Char → Prop
  | whole {digits : List Char} : digits ≠ [] → (∀ c ∈ digits, c.isDigit = true) → IsNumeral digits
  | decimal {digits places : List Char} : digits ≠ [] → (∀ c ∈ digits, c.isDigit = true) →
      places ≠ [] → (∀ c ∈ places, c.isDigit = true) → IsNumeral (digits ++ '.' :: places)

def Piece.Proper : Piece → Prop
  | .blank text => text ≠ [] ∧ ∀ c ∈ text, isBlank c = true
  | .lineComment text => ∃ body, text = '/' :: '/' :: body ∧ '\n' ∉ body
  | .blockComment text => ∃ inner, text = '/' :: '*' :: (inner ++ ['*', '/']) ∧
      ¬ ['*', '/'] <:+: inner ++ ['*']
  | .word text => ∃ c rest, text = c :: rest ∧ isWordStart c = true ∧ ∀ d ∈ rest, isWordPart d = true
  | .numeral text => IsNumeral text
  | .quotation quote body => (quote = '"' ∨ quote = '\'') ∧ quote ∉ body
  | .operators run => run ≠ []
  | .mark c => isMark c = true

def Piece.EndsBefore (tail : List Char) : Piece → Prop
  | .blank _ => ∀ c ∈ tail.head?, isBlank c = false
  | .lineComment _ => ∀ c ∈ tail.head?, c = '\n'
  | .word _ => ∀ c ∈ tail.head?, isWordPart c = false
  | .numeral text => (∀ c ∈ tail.head?, c.isDigit = false) ∧
      ('.' ∉ text → ∀ c ∈ tail.tail.head?, tail.head? = some '.' → c.isDigit = false)
  | .operators run => takeRun (run ++ tail) = (run, tail)
  | .blockComment _ | .quotation _ _ | .mark _ => True

theorem not_mem_digits {digits : List Char} (h : ∀ c ∈ digits, c.isDigit = true) :
    '.' ∉ digits := fun hmem => absurd (h '.' hmem) (by decide)

theorem takeNumeral_of_ends (h : IsNumeral text) (hends : (Piece.numeral text).EndsBefore tail) :
    takeNumeral (text ++ tail) = (text, tail) := by
  obtain ⟨hdigit, hpoint⟩ := hends
  cases h with
  | whole hne hall =>
    have hpoint := hpoint (not_mem_digits hall)
    unfold takeNumeral
    rw [takeWhile_append_of_ends hall hdigit, dropWhile_append_of_ends hall hdigit]
    cases tail with
    | nil => rfl
    | cons c tail =>
      split
      · next d more heq =>
        cases heq
        have hd : d.isDigit = false := hpoint d rfl rfl
        exact if_neg (by simp [hd])
      · rfl
  | @decimal digits places hne hall hplaces hall' =>
    have hpoint : ∀ c ∈ ('.' :: (places ++ tail)).head?, c.isDigit = false := by
      intro c hc
      cases hc
      decide
    obtain ⟨d, more, rfl⟩ := List.exists_cons_of_ne_nil hplaces
    have htaken : (d :: (more ++ tail)).takeWhile Char.isDigit = d :: more :=
      takeWhile_append_of_ends hall' hdigit
    have hleft : (d :: (more ++ tail)).dropWhile Char.isDigit = tail :=
      dropWhile_append_of_ends hall' hdigit
    unfold takeNumeral
    rw [List.append_assoc, List.cons_append, takeWhile_append_of_ends hall hpoint,
      dropWhile_append_of_ends hall hpoint]
    simp only [List.cons_append, hall' d List.mem_cons_self, if_true, htaken, hleft]

theorem numeral_of_takeNumeral (hc : c.isDigit = true) :
    IsNumeral (takeNumeral (c :: rest)).1 ∧
      (Piece.numeral (takeNumeral (c :: rest)).1).EndsBefore (takeNumeral (c :: rest)).2 := by
  have hne : (c :: rest).takeWhile Char.isDigit ≠ [] := by simp [hc]
  have hall : ∀ d ∈ (c :: rest).takeWhile Char.isDigit, d.isDigit = true :=
    fun d hd => of_mem_takeWhile hd
  have hends : ∀ d ∈ ((c :: rest).dropWhile Char.isDigit).head?, d.isDigit = false :=
    fun d hd => of_mem_head?_dropWhile hd
  unfold takeNumeral
  dsimp only
  split
  · next d more hd =>
    split
    · next hdigit =>
      have hplaces : (d :: more).takeWhile Char.isDigit ≠ [] := by simp [hdigit]
      refine ⟨.decimal hne hall hplaces fun x hx => of_mem_takeWhile hx,
        fun x hx => of_mem_head?_dropWhile hx, fun hpoint => ?_⟩
      exact absurd (List.mem_append_right _ List.mem_cons_self) hpoint
    · next hdigit =>
      refine ⟨.whole hne hall, fun x hx => ?_, fun _ x hx _ => ?_⟩
      · cases hx
        decide
      · cases hx
        simpa using hdigit
  · next hother =>
    refine ⟨.whole hne hall, hends, fun _ x hx hpoint => ?_⟩
    obtain ⟨more, hmore⟩ := List.head?_eq_some_iff.mp hpoint
    rw [hmore] at hx
    obtain ⟨last, rfl⟩ := List.head?_eq_some_iff.mp hx
    exact absurd hmore (hother x last)

theorem takeRun_cons (h : takeRun (c :: rest) = (c :: run, tail)) :
    (isOperatorChar c = true ∨ c = '/' ∧ opensComment rest = false) ∧
      takeRun rest = (run, tail) := by
  rw [takeRun] at h
  split at h
  · next hc =>
    cases h
    exact ⟨by simpa using hc, rfl⟩
  · cases h

theorem takeRun_of_cons (h : isOperatorChar c = true ∨ c = '/' ∧ opensComment rest = false)
    (hrest : takeRun rest = (run, tail)) : takeRun (c :: rest) = (c :: run, tail) := by
  rw [takeRun, if_pos (by simpa using h), hrest]

theorem opensComment_eq_false_iff :
    opensComment text = false ↔ text.head? ≠ some '/' ∧ text.head? ≠ some '*' := by
  cases text with
  | nil => simp [opensComment]
  | cons c rest => simp [opensComment]

theorem head_of_opensComment (h : opensComment text = true) :
    text.head? = some '/' ∨ text.head? = some '*' := by
  cases text with
  | nil => cases h
  | cons c rest => simpa [opensComment] using h

theorem takeRun_stops (h : takeRun (c :: rest) = ([], c :: rest)) :
    isOperatorChar c = false ∧ (c = '/' → opensComment rest = true) := by
  rw [takeRun] at h
  split at h
  · cases h
  · next hc =>
    simp only [Bool.or_eq_true, Bool.and_eq_true, beq_iff_eq, Bool.not_eq_eq_eq_not,
      Bool.not_true, not_or, not_and, Bool.not_eq_false, Bool.not_eq_true] at hc
    exact hc

theorem takeRun_of_stops (hc : isOperatorChar c = false)
    (hslash : c = '/' → opensComment rest = true) : takeRun (c :: rest) = ([], c :: rest) := by
  rw [takeRun, if_neg (by simpa [hc] using hslash)]

theorem takeRun_of_shorter {shorter : List Char} (h : takeRun (run ++ tail) = (run, tail))
    (hpre : shorter <+: tail) (hstop : takeRun tail = ([], tail) → takeRun shorter = ([], shorter)) :
    takeRun (run ++ shorter) = (run, shorter) := by
  induction run with
  | nil => exact hstop h
  | cons c run ih =>
    obtain ⟨hc, hrest⟩ := takeRun_cons h
    refine takeRun_of_cons (hc.imp_right fun ⟨hslash, hopen⟩ => ⟨hslash, ?_⟩) (ih hrest)
    cases run with
    | cons d run => exact hopen
    | nil =>
      cases shorter with
      | nil => rfl
      | cons d shorter =>
        obtain ⟨more, rfl⟩ := hpre
        exact hopen

theorem isDigit_range (h : c.isDigit = true) : 48 ≤ c.toNat ∧ c.toNat ≤ 57 := by
  simpa [Char.isDigit, UInt32.le_iff_toNat_le] using h

theorem isWordStart_range (h : isWordStart c = true) : 65 ≤ c.toNat ∧ c.toNat ≤ 122 := by
  rcases Bool.or_eq_true_iff.mp h with h | h
  · have h : (decide (c.val ≥ 'A'.val ∧ c.val ≤ 'Z'.val) ||
        decide (c.val ≥ 'a'.val) && decide (c.val ≤ 'z'.val)) = true := h
    simp only [UInt32.le_iff_toNat_le, ge_iff_le, Bool.or_eq_true, Bool.and_eq_true,
      decide_eq_true_eq] at h
    have hz : 'Z'.val.toNat = 90 := rfl
    have ha : 'a'.val.toNat = 97 := rfl
    have hc : c.toNat = c.val.toNat := rfl
    have hA : 'A'.val.toNat = 65 := rfl
    have hy : 'z'.val.toNat = 122 := rfl
    omega
  · rw [beq_iff_eq.mp h]
    decide

theorem isBlank_range (h : isBlank c = true) : c.toNat ≤ 32 ∨ 0x85 ≤ c.toNat := by
  simp only [isBlank, isWideBlank, Bool.or_eq_true, Bool.and_eq_true, decide_eq_true_eq] at h
  omega

theorem isBlank_eq_false_of_range (h : 32 < c.toNat ∧ c.toNat < 0x85) : isBlank c = false :=
  Bool.eq_false_iff.mpr fun hblank => by have := isBlank_range hblank; omega

theorem isWordStart_eq_false_of_isDigit (h : c.isDigit = true) : isWordStart c = false :=
  Bool.eq_false_iff.mpr fun hword => by
    have := isWordStart_range hword
    have := isDigit_range h
    omega

theorem ne_slash_of_isDigit (h : c.isDigit = true) : c ≠ '/' := by
  rintro rfl
  exact absurd h (by decide)

theorem ne_slash_of_isWordStart (h : isWordStart c = true) : c ≠ '/' := by
  rintro rfl
  exact absurd h (by decide)

theorem begins_only_signs (h : isOperatorChar c = true ∨ isMark c = true) :
    isBlank c = false ∧ isWordStart c = false ∧ c.isDigit = false ∧ c ≠ '"' ∧ c ≠ '\'' ∧
      c ≠ '/' := by
  have hall : ['+', '-', '*', '=', '<', '>', '!', '&', '|', '^', '~', '%', '∧', '∨', '¬',
      '(', ')', '{', '}', '[', ']', ';', ',', ':', '.'].all (fun d => !isBlank d &&
        !isWordStart d && !d.isDigit && d != '"' && d != '\'' && d != '/') = true := by decide
  have hmem := h.imp List.contains_iff_mem.mp List.contains_iff_mem.mp
  simpa [and_assoc] using List.all_eq_true.mp hall c (List.mem_append.mpr hmem)

theorem isOperatorChar_eq_false_of_isMark (h : isMark c = true) : isOperatorChar c = false := by
  have hall : ['(', ')', '{', '}', '[', ']', ';', ',', ':', '.'].all (!isOperatorChar ·) = true := by
    decide
  simpa using List.all_eq_true.mp hall c (List.contains_iff_mem.mp h)

theorem proper_of_nextPiece (h : nextPiece c rest = .ok (piece, tail)) :
    piece.Proper ∧ piece.EndsBefore tail := by
  unfold nextPiece at h
  split at h
  · next hblank =>
    cases h
    refine ⟨⟨List.cons_ne_nil _ _, fun d hd => ?_⟩, fun d hd => of_mem_head?_dropWhile hd⟩
    rcases List.mem_cons.mp hd with rfl | hd
    · exact hblank
    · exact of_mem_takeWhile hd
  split at h
  · next hopen =>
    cases h
    obtain ⟨rfl, hslash⟩ := hopen
    obtain ⟨more, rfl⟩ := List.head?_eq_some_iff.mp hslash
    refine ⟨⟨more.takeWhile (· != '\n'), rfl, fun hmem => ?_⟩, fun d hd => ?_⟩
    · exact absurd (of_mem_takeWhile hmem) (by decide)
    · simpa using of_mem_head?_dropWhile hd
  split at h
  · next hopen =>
    obtain ⟨rfl, -⟩ := hopen
    split at h
    · next body tail' hclose =>
      cases h
      obtain ⟨inner, rfl, hinner⟩ := inner_of_closeComment? hclose
      exact ⟨⟨inner, rfl, hinner⟩, trivial⟩
    · cases h
  split at h
  · next hword =>
    cases h
    exact ⟨⟨c, _, rfl, hword, fun d hd => of_mem_takeWhile hd⟩,
      fun d hd => of_mem_head?_dropWhile hd⟩
  split at h
  · next hdigit =>
    cases h
    exact numeral_of_takeNumeral hdigit
  split at h
  · next hquote =>
    split at h
    · next body tail' hclose =>
      cases h
      exact ⟨⟨hquote, (closeQuote?_eq_some_iff.mp hclose).1⟩, trivial⟩
    · cases h
  split at h
  · next hline hblock _ _ _ hrun =>
    cases h
    have hrest : (takeRun rest).1 ++ (takeRun rest).2 = rest := takeRun_append rest
    refine ⟨List.cons_ne_nil _ _, takeRun_of_cons (hrun.imp_right fun hslash => ⟨hslash, ?_⟩)
      (congrArg takeRun hrest)⟩
    exact (congrArg opensComment hrest).trans (opensComment_eq_false_iff.mpr
      ⟨fun hhead => hline ⟨hslash, hhead⟩, fun hhead => hblock ⟨hslash, hhead⟩⟩)
  split at h
  · next hmark =>
    cases h
    exact ⟨hmark, trivial⟩
  · cases h

theorem numeral_ne_nil (h : IsNumeral text) : text ≠ [] := by
  cases h with
  | whole hne _ => exact hne
  | decimal hne _ _ _ => simp

theorem numeral_cons (h : IsNumeral (c :: rest)) : c.isDigit = true := by
  generalize htext : c :: rest = text at h
  cases h with
  | whole hne hall => exact hall c (htext ▸ List.mem_cons_self)
  | @decimal digits places hne hall hplaces hall' =>
    obtain ⟨d, more, rfl⟩ := List.exists_cons_of_ne_nil hne
    cases htext
    exact hall c List.mem_cons_self

theorem nextPiece_of_proper (htext : piece.text ++ tail = c :: rest) (hproper : piece.Proper)
    (hends : piece.EndsBefore tail) : nextPiece c rest = .ok (piece, tail) := by
  -- What a piece begins with keeps every test before its own from succeeding.
  cases piece with
  | blank text =>
    obtain ⟨hne, hall⟩ := hproper
    obtain ⟨d, more, rfl⟩ := List.exists_cons_of_ne_nil hne
    obtain ⟨rfl, rfl⟩ := List.cons.inj htext
    have hmore : ∀ x ∈ more, isBlank x = true := fun x hx => hall x (List.mem_cons_of_mem _ hx)
    unfold nextPiece
    rw [if_pos (hall _ List.mem_cons_self), List.append_eq, takeWhile_append_of_ends hmore hends,
      dropWhile_append_of_ends hmore hends]
  | lineComment text =>
    obtain ⟨inner, rfl, hinner⟩ := hproper
    obtain ⟨rfl, rfl⟩ := List.cons.inj htext
    have hall : ∀ x ∈ '/' :: inner, (x != '\n') = true := by
      intro x hx
      rcases List.mem_cons.mp hx with rfl | hx
      · decide
      · exact bne_iff_ne.mpr fun heq => hinner (heq ▸ hx)
    have hstop : ∀ x ∈ tail.head?, (x != '\n') = false := fun x hx => by simp [hends x hx]
    unfold nextPiece
    rw [if_neg (by decide), if_pos ⟨rfl, rfl⟩, List.append_eq, takeWhile_append_of_ends hall hstop,
      dropWhile_append_of_ends hall hstop]
  | blockComment text =>
    obtain ⟨inner, rfl, hinner⟩ := hproper
    cases htext
    unfold nextPiece
    rw [if_neg (by decide), if_neg (by simp), if_pos ⟨rfl, rfl⟩]
    have hclose := closeComment?_of_inner hinner tail
    simp only [List.append_eq, List.tail_cons, List.append_assoc, List.cons_append, List.nil_append,
      hclose]
  | word text =>
    obtain ⟨d, more, rfl, hword, hmore⟩ := hproper
    obtain ⟨rfl, rfl⟩ := List.cons.inj htext
    have hslash := ne_slash_of_isWordStart hword
    have hblank : isBlank d = false :=
      isBlank_eq_false_of_range (by have := isWordStart_range hword; omega)
    unfold nextPiece
    rw [if_neg (by simp [hblank]), if_neg (by simp [hslash]), if_neg (by simp [hslash]),
      if_pos hword, List.append_eq, takeWhile_append_of_ends hmore hends,
      dropWhile_append_of_ends hmore hends]
  | numeral text =>
    have hne := numeral_ne_nil hproper
    obtain ⟨d, more, rfl⟩ := List.exists_cons_of_ne_nil hne
    obtain ⟨rfl, rfl⟩ := List.cons.inj htext
    have hdigit := numeral_cons hproper
    have hslash := ne_slash_of_isDigit hdigit
    have hblank : isBlank d = false :=
      isBlank_eq_false_of_range (by have := isDigit_range hdigit; omega)
    have htaken := takeNumeral_of_ends hproper hends
    rw [List.cons_append] at htaken
    unfold nextPiece
    rw [if_neg (by simp [hblank]), if_neg (by simp [hslash]), if_neg (by simp [hslash]),
      if_neg (by simp [isWordStart_eq_false_of_isDigit hdigit]), if_pos hdigit, List.append_eq,
      htaken]
  | quotation quote body =>
    obtain ⟨hquote, hbody⟩ := hproper
    obtain ⟨rfl, rfl⟩ := List.cons.inj htext
    have hclose : closeQuote? quote (body ++ [quote] ++ tail) = some (body, tail) :=
      closeQuote?_eq_some_iff.mpr ⟨hbody, by simp⟩
    have hfirst : isBlank quote = false ∧ quote ≠ '/' ∧ isWordStart quote = false ∧
        quote.isDigit = false := by
      rcases hquote with rfl | rfl <;> decide
    obtain ⟨hblank, hslash, hword, hdigit⟩ := hfirst
    unfold nextPiece
    rw [if_neg (by simp [hblank]), if_neg (by simp [hslash]), if_neg (by simp [hslash]),
      if_neg (by simp [hword]), if_neg (by simp [hdigit]), if_pos hquote, List.append_eq, hclose]
  | operators run =>
    obtain ⟨d, more, rfl⟩ := List.exists_cons_of_ne_nil hproper
    obtain ⟨rfl, rfl : more ++ tail = rest⟩ := List.cons.inj htext
    have htaken : takeRun (d :: (more ++ tail)) = (d :: more, tail) := hends
    obtain ⟨hd, hmore⟩ := takeRun_cons htaken
    unfold nextPiece
    rcases hd with hd | ⟨rfl, hopen⟩
    · obtain ⟨hblank, hword, hdigit, hdouble, hsingle, hslash⟩ := begins_only_signs (.inl hd)
      rw [if_neg (by simp [hblank]), if_neg (by simp [hslash]), if_neg (by simp [hslash]),
        if_neg (by simp [hword]), if_neg (by simp [hdigit]), if_neg (by simp [hdouble, hsingle]),
        if_pos (.inl hd), hmore]
    · obtain ⟨hslash, hstar⟩ := opensComment_eq_false_iff.mp hopen
      rw [if_neg (by decide), if_neg (fun hc => hslash hc.2), if_neg (fun hc => hstar hc.2),
        if_neg (by decide), if_neg (by decide), if_neg (by decide), if_pos (.inr rfl), hmore]
  | mark d =>
    obtain ⟨rfl, rfl : tail = rest⟩ := List.cons.inj htext
    obtain ⟨hblank, hword, hdigit, hdouble, hsingle, hslash⟩ := begins_only_signs (.inr hproper)
    unfold nextPiece
    rw [if_neg (by simp [hblank]), if_neg (by simp [hslash]), if_neg (by simp [hslash]),
      if_neg (by simp [hword]), if_neg (by simp [hdigit]), if_neg (by simp [hdouble, hsingle]),
      if_neg (by simp [isOperatorChar_eq_false_of_isMark hproper, hslash])]
    exact if_pos hproper

/-- What the piece at the front of a text is: a proper one that ends where it has to. -/
theorem nextPiece_eq_ok_iff : nextPiece c rest = .ok (piece, tail) ↔
    piece.text ++ tail = c :: rest ∧ piece.Proper ∧ piece.EndsBefore tail :=
  ⟨fun h => ⟨nextPiece_append h, proper_of_nextPiece h⟩,
    fun ⟨htext, hproper, hends⟩ => nextPiece_of_proper htext hproper hends⟩

end StepWorld
