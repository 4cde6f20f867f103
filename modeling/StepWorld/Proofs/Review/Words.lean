import StepWorld.Proofs.Review.Exposed
import StepWorld.Proofs.Syntax.ReaderCompleteness

/-! The words that a review looks for. Every word among the tokens comes from a piece of the
source, and at the beginning or behind a closing brace nothing joins it to what stands before. -/

namespace StepWorld

variable {c : Char} {text rest tail : List Char} {piece : Piece} {pieces : List Piece}

/-! ### Characters of words -/

theorem isWordChar_of_isBlank (h : isBlank c = true) : isWordChar c = false := by
  have hall : ∀ n ∈ [9, 10, 11, 12, 13, 0x1c, 0x1d, 0x1e, 0x1f, 0x20, 0x85, 0xa0, 0x1680, 0x2000,
      0x2001, 0x2002, 0x2003, 0x2004, 0x2005, 0x2006, 0x2007, 0x2008, 0x2009, 0x200a, 0x2028,
      0x2029, 0x202f, 0x205f, 0x3000], isWordChar (Char.ofNat n) = false := by decide +kernel
  rw [← Char.ofNat_toNat c]
  refine hall c.toNat ?_
  simp only [isBlank, isWideBlank, Bool.or_eq_true, Bool.and_eq_true, decide_eq_true_eq] at h
  simp only [List.mem_cons, List.not_mem_nil, or_false]
  omega

theorem isWordChar_of_isOperatorChar (h : isOperatorChar c = true) : isWordChar c = false := by
  have hall : ['+', '-', '*', '=', '<', '>', '!', '&', '|', '^', '~', '%', '∧', '∨',
      '¬'].all (!isWordChar ·) = true := by decide +kernel
  simpa using List.all_eq_true.mp hall c (List.contains_iff_mem.mp h)

theorem isWordChar_of_isMark (h : isMark c = true) : isWordChar c = false := by
  have hall : ['(', ')', '{', '}', '[', ']', ';', ',', ':', '.'].all (!isWordChar ·) = true := by
    decide
  simpa using List.all_eq_true.mp hall c (List.contains_iff_mem.mp h)

theorem isWordChar_of_begins (hpart : isWordPart c = false)
    (h : nextPiece c rest = .ok (piece, tail)) : isWordChar c = false := by
  by_cases hsmall : c.toNat < 0x80
  · rw [isWordChar, if_pos hsmall]
    exact hpart
  have hslash : c ≠ '/' := fun hc => hsmall (hc ▸ by decide)
  unfold nextPiece at h
  split at h
  · next hblank => exact isWordChar_of_isBlank hblank
  rw [if_neg fun hc => hslash hc.1, if_neg fun hc => hslash hc.1] at h
  split at h
  · next hstart => exact absurd (isWordStart_range hstart).2 (by omega)
  split at h
  · next hdigit => exact absurd (isDigit_range hdigit).2 (by omega)
  split at h
  · next hquote => exact absurd hsmall (by rcases hquote with rfl | rfl <;> decide)
  split at h
  · next hoperator => exact isWordChar_of_isOperatorChar (hoperator.resolve_right hslash)
  split at h
  · next hmark => exact isWordChar_of_isMark hmark
  · cases h

theorem containsWord_of_split {word before after : List Char} {afterWordChar : Bool}
    (hword : word ≠ []) (hstart : before = [] → afterWordChar = false)
    (hbefore : ∀ c ∈ before.getLast?, isWordChar c = false)
    (hafter : ∀ c ∈ after.head?, isWordChar c = false) :
    containsWord word afterWordChar (before ++ (word ++ after)) = true := by
  induction before generalizing afterWordChar with
  | nil =>
    obtain ⟨c, more, rfl⟩ := List.exists_cons_of_ne_nil hword
    have hbegins : beginsWithWord (c :: more) (c :: more ++ after) = true := by
      rw [beginsWithWord, List.drop_left]
      cases after with
      | nil => simp
      | cons d after => simp [hafter d rfl]
    rw [List.nil_append, List.cons_append, containsWord, ← List.cons_append, hbegins, hstart rfl]
    rfl
  | cons d before ih =>
    rw [List.cons_append, containsWord, Bool.or_eq_true_iff]
    refine .inr (ih (fun hnil => ?_) fun c hc => ?_)
    · subst hnil
      exact hbefore d rfl
    · refine hbefore c ?_
      rw [List.getLast?_cons, Option.mem_def.mp hc]
      rfl

/-! ### The word of a definition -/

theorem split_of_not_mem {t : Token} {tokens ts before after : List Token} (ht : t ∉ tokens)
    (h : tokens ++ ts = before ++ t :: after) :
    ∃ before', before = tokens ++ before' ∧ ts = before' ++ t :: after := by
  rcases List.append_eq_append_iff.mp h with ⟨more, hbefore, hts⟩ | ⟨more, htokens, hmore⟩
  · exact ⟨more, hbefore, hts⟩
  · cases more with
    | nil => exact ⟨[], by simpa using htokens.symm, by simpa using hmore.symm⟩
    | cons u more =>
      obtain ⟨rfl, -⟩ := List.cons.inj hmore
      exact absurd (htokens ▸ List.mem_append_right _ List.mem_cons_self) ht

theorem eq_word_of_mem_tokens {place : Position} {t : Token} (hkind : t.kind = .identifier)
    (h : t ∈ piece.tokens place) : ∃ word, piece = .word word := by
  cases piece with
  | word word => exact ⟨word, rfl⟩
  | blank | lineComment | blockComment => cases h
  | operators run => cases (kind_of_mem_operatorTokens h).symm.trans hkind
  | numeral | quotation | mark =>
    obtain rfl := List.mem_singleton.mp h
    cases hkind

theorem exists_word_piece {place : Position} {t : Token} {before after : List Token}
    (hkind : t.kind = .identifier) (h : tokensOf place pieces = before ++ t :: after) :
    ∃ pre word post, pieces = pre ++ .word word :: post ∧ t.value = String.ofList word ∧
      tokensOf place pre = before := by
  induction pieces generalizing place before with
  | nil => simp [tokensOf] at h
  | cons piece pieces ih =>
    by_cases ht : t ∈ piece.tokens place
    · obtain ⟨word, rfl⟩ := eq_word_of_mem_tokens hkind ht
      cases before with
      | nil =>
        obtain ⟨rfl, -⟩ := List.cons.inj h
        exact ⟨[], word, pieces, rfl, rfl, rfl⟩
      | cons u before =>
        obtain ⟨rfl, hts⟩ := List.cons.inj h
        obtain ⟨pre, word', post, rfl, hvalue, rfl⟩ := ih hts
        exact ⟨.word word :: pre, word', post, rfl, hvalue, rfl⟩
    · obtain ⟨before', rfl, hts⟩ := split_of_not_mem ht h
      obtain ⟨pre, word, post, rfl, hvalue, rfl⟩ := ih hts
      exact ⟨piece :: pre, word, post, rfl, hvalue, rfl⟩

theorem isWordChar_of_last (hproper : piece.Proper) (hends : piece.EndsBefore tail)
    (hword : ∀ text, piece ≠ .word text) (hnumeral : ∀ text, piece ≠ .numeral text)
    (hcomment : ∀ text, piece ≠ .lineComment text) (hc : c ∈ piece.text.getLast?) :
    isWordChar c = false := by
  have hmem : c ∈ piece.text := List.mem_of_getLast? hc
  cases piece with
  | lineComment text => exact absurd rfl (hcomment text)
  | word text => exact absurd rfl (hword text)
  | numeral text => exact absurd rfl (hnumeral text)
  | blank text => exact isWordChar_of_isBlank (hproper.2 c hmem)
  | blockComment text =>
    obtain ⟨inner, rfl, -⟩ := hproper
    obtain rfl : '/' = c := by simpa [Piece.text, List.getLast?_cons] using hc
    decide
  | quotation quote body =>
    obtain rfl : quote = c := by simpa [Piece.text, List.getLast?_cons] using hc
    rcases hproper.1 with rfl | rfl <;> decide
  | operators run =>
    rcases of_mem_takeRun hends hmem with h | rfl
    · exact isWordChar_of_isOperatorChar h
    · decide
  | mark d =>
    obtain rfl := List.mem_singleton.mp hmem
    exact isWordChar_of_isMark hproper

theorem isWordChar_before_word {place : Position} {word : List Char} {post : List Piece}
    (h : Cut text (pieces ++ .word word :: post) rest)
    (hlast : ∀ u ∈ (tokensOf place pieces).getLast?, u.isMark '}' = true)
    (hc : c ∈ (spelled pieces).getLast?) : isWordChar c = false := by
  rcases List.eq_nil_or_concat pieces with rfl | ⟨pre, piece, rfl⟩
  · cases hc
  rw [List.concat_eq_append] at hlast hc
  rw [List.concat_eq_append, List.append_assoc] at h
  obtain ⟨mid, -, hmid⟩ := h.split
  cases hmid with
  | @next d more tail _ _ _ hpiece hcut =>
    obtain ⟨-, hproper, hends⟩ := nextPiece_eq_ok_iff.mp hpiece
    have hliteral {u : Token} (hu : piece.tokens (place.after (spelled pre)) = [u])
        (hkind : u.kind ≠ .punctuation) : False := by
      have hmark := hlast u (by rw [tokensOf_append, tokensOf, hu]; simp [tokensOf])
      simp [Token.isMark, hkind] at hmark
    have hlastChar : c ∈ piece.text.getLast? := by
      obtain ⟨last, hend⟩ :=
        Option.isSome_iff_exists.mp (List.getLast?_isSome.mpr (nextPiece_text_ne_nil hpiece))
      rw [spelled_append, spelled_cons, spelled_nil, List.append_nil, List.getLast?_append,
        hend] at hc
      exact hend.trans hc
    refine isWordChar_of_last hproper hends ?_ ?_ ?_ hlastChar
    · rintro text rfl
      exact hliteral rfl (by simp)
    · rintro text rfl
      exact hliteral rfl (by simp)
    · rintro text rfl
      cases hcut with
      | @next e _ _ _ _ _ hword _ =>
        obtain ⟨htext, ⟨first, inner, rfl, hstart, -⟩, -⟩ := nextPiece_eq_ok_iff.mp hword
        obtain ⟨rfl, -⟩ := List.cons.inj htext
        obtain rfl := hends _ rfl
        exact absurd hstart (by decide)

theorem containsWord_of_cut {word : String} {place : Position} {t : Token}
    {before after : List Token} (h : Cut text pieces [])
    (htokens : tokensOf place pieces = before ++ t :: after) (hword : t.isWord word = true)
    (hbefore : ∀ u ∈ before.getLast?, u.isMark '}' = true) :
    containsWord word.toList false text = true := by
  obtain ⟨pre, spelling, post, rfl, hvalue, rfl⟩ := exists_word_piece (kind_of_isWord hword) htokens
  obtain ⟨mid, hpre, hmid⟩ := h.split
  cases hmid with
  | @next first more tail _ _ _ hpiece hpost =>
    obtain ⟨htext, hproper, hends⟩ := nextPiece_eq_ok_iff.mp hpiece
    have hspelling : word.toList = spelling := by
      rw [← value_of_isWord hword, hvalue, String.toList_ofList]
    have hafter : ∀ c ∈ tail.head?, isWordChar c = false := by
      intro c hc
      cases hpost with
      | done => cases hc
      | next hnext _ =>
        obtain rfl := Option.some.inj hc
        exact isWordChar_of_begins (hends _ rfl) hnext
    rw [← hpre.spelled, ← htext, hspelling]
    refine containsWord_of_split ?_ (fun _ => rfl) (fun c hc => ?_) hafter
    · obtain ⟨c, more, rfl, -⟩ := hproper
      exact List.cons_ne_nil _ _
    · exact isWordChar_before_word h hbefore hc

end StepWorld
