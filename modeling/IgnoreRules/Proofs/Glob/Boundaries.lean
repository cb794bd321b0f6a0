import IgnoreRules.Proofs.Glob.Parsed

/-! # Separators in a body

A `/` ends whatever is being read before it: a run of stars, an escape, and a bracket that is not
closed yet. So a body can be read piece by piece, and what its separators make of a glob can be seen
from the text.
-/

namespace IgnoreRules

/-- The last clause of a reader is reached only with a character that is no backslash. -/
theorem ne_escape_of_forall {c : Char} {rest : Text} (hlone : c = '\\' → rest = [] → False)
    (hpair : ∀ d tail, c = '\\' → rest = d :: tail → False) : c ≠ '\\' := by
  intro hescape
  cases rest with
  | nil => exact hlone hescape rfl
  | cons d tail => exact hpair d tail hescape rfl

namespace ClassScan

/-- What becomes of a scan if a separator and more text stand behind what was scanned. -/
def resume (back : Text) : ClassScan → ClassScan
  | closed items rest => closed items (rest ++ '/' :: back)
  | unterminated | interrupted => interrupted

theorem resume_push (back : Text) (item : ClassItem) (scan : ClassScan) :
    (scan.push item).resume back = (scan.resume back).push item := by
  cases scan <;> rfl

theorem ofText_cons {c : Char} (hclose : c ≠ ']') (hslash : c ≠ '/') (hescape : c ≠ '\\')
    (text : Text) : ofText (c :: text) = (ofText text).push ⟨c, false⟩ := by
  rw [ofText]
  · exact hclose
  · exact hslash
  · exact fun h => absurd h hescape
  · exact fun _ h => absurd h hescape
  · exact fun _ _ h => absurd h hescape

theorem ofText_escaped {c : Char} (hslash : c ≠ '/') (text : Text) :
    ofText ('\\' :: c :: text) = (ofText text).push ⟨c, true⟩ := by
  rw [ofText]
  exact hslash

theorem ofText_append_slash (text back : Text) :
    ofText (text ++ '/' :: back) = (ofText text).resume back := by
  fun_induction ofText text with
  | case1 | case2 | case3 | case4 | case5 => rfl
  | case6 c tail hslash ih =>
    rw [resume_push, ← ih]
    exact ofText_escaped hslash (tail ++ '/' :: back)
  | case7 c tail hclose hslash hlone _ hpair ih =>
    rw [resume_push, ← ih]
    exact ofText_cons hclose hslash (ne_escape_of_forall hlone hpair) (tail ++ '/' :: back)

/-- A scan of the text has passed over no separator. -/
def Spares (text : Text) : ClassScan → Prop
  | closed _ rest => text.count '/' = rest.count '/'
  | unterminated => '/' ∉ text
  | interrupted => True

theorem Spares.cons {c : Char} (hc : c ≠ '/') {text : Text} {scan : ClassScan}
    (h : scan.Spares text) : scan.Spares (c :: text) := by
  cases scan with
  | closed items rest => exact (List.count_cons_of_ne hc).trans h
  | unterminated => exact List.not_mem_cons_of_ne_of_not_mem hc.symm h
  | interrupted => trivial

theorem spares_push {text : Text} {item : ClassItem} {scan : ClassScan} :
    (scan.push item).Spares text ↔ scan.Spares text := by
  cases scan <;> exact Iff.rfl

theorem spares_ofText (text : Text) : (ofText text).Spares text := by
  fun_induction ofText text with
  | case1 => exact List.not_mem_nil
  | case2 rest => exact List.count_cons_of_ne (by decide)
  | case3 | case5 => trivial
  | case4 => exact List.not_mem_cons_of_ne_of_not_mem (by decide) List.not_mem_nil
  | case6 c tail hslash ih => exact spares_push.mpr ((ih.cons hslash).cons (by decide))
  | case7 c tail _ hslash _ _ _ ih => exact spares_push.mpr (ih.cons hslash)

end ClassScan

theorem CharClass.splitNegation_append_slash (text back : Text) :
    splitNegation (text ++ '/' :: back) =
      ((splitNegation text).1, (splitNegation text).2 ++ '/' :: back) := by
  fun_cases splitNegation text with
  | case1 | case2 => rfl
  | case3 _ hbang hcaret =>
    cases text with
    | nil => rfl
    | cons c text =>
      rw [List.cons_append, splitNegation]
      · exact fun _ h => hbang text (by rw [(List.cons.inj h).1])
      · exact fun _ h => hcaret text (by rw [(List.cons.inj h).1])

theorem CharClass.count_slash_splitNegation (text : Text) :
    (splitNegation text).2.count '/' = text.count '/' := by
  fun_cases splitNegation text with
  | case1 | case2 => exact (List.count_cons_of_ne (by decide)).symm
  | case3 => rfl

namespace Lexeme

theorem ofBody_escaped {c : Char} (hslash : c ≠ '/') (text : Text) :
    ofBody ('\\' :: c :: text) = .token (.literal c) :: ofBody text := by
  rw [ofBody]
  exact hslash

theorem ofBody_literal {c : Char} (hescape : c ≠ '\\') (hslash : c ≠ '/') (hstar : c ≠ '*')
    (hany : c ≠ '?') (hbracket : c ≠ '[') (text : Text) :
    ofBody (c :: text) = .token (.literal c) :: ofBody text := by
  rw [ofBody]
  · exact fun h => absurd h hescape
  · exact fun _ h => absurd h hescape
  · exact fun _ _ h => absurd h hescape
  · exact hslash
  · exact hstar
  · exact hany
  · exact hbracket

theorem ofBody_bracket (text : Text) : ofBody ('[' :: text) =
    match ClassScan.ofText (CharClass.splitNegation text).2 with
    | .closed items after =>
      .token (.charClass ⟨(CharClass.splitNegation text).1, ClassItem.members items⟩) ::
        ofBody after
    | .unterminated => [.token (.charClass .none)]
    | .interrupted => .token (.literal '[') :: ofBody text := by
  rw [ofBody]
  split <;> rename_i hscan <;> rw [hscan]

theorem pushStar_append_slash (front back : List Lexeme) :
    pushStar (front ++ .slash :: back) = pushStar front ++ .slash :: back := by
  cases front with
  | nil => rfl
  | cons l front => cases l <;> rfl

/-! ## Reading up to a separator -/

/-- The text is read as these lexemes if a separator stands behind it, whatever follows that. -/
def ReadsAs (text : Text) (lexemes : List Lexeme) : Prop :=
  ∀ back, ofBody (text ++ '/' :: back) = lexemes ++ .slash :: ofBody back

variable {c : Char} {text rest : Text} {lexemes : List Lexeme}

theorem ReadsAs.cons {l : Lexeme} (h : ReadsAs rest lexemes)
    (hstep : ∀ back, ofBody (text ++ '/' :: back) = l :: ofBody (rest ++ '/' :: back)) :
    ReadsAs text (l :: lexemes) := by
  intro back
  rw [hstep, h, List.cons_append]

theorem readsAs_nil : ReadsAs [] [] := by
  intro back
  rw [List.nil_append, List.nil_append, ofBody]

theorem ReadsAs.slash (h : ReadsAs rest lexemes) :
    ReadsAs ('/' :: rest) (.slash :: lexemes) :=
  h.cons fun back => by rw [List.cons_append, ofBody]

theorem ReadsAs.escapedSlash (h : ReadsAs rest lexemes) :
    ReadsAs ('\\' :: '/' :: rest) (.slash :: lexemes) :=
  h.cons fun back => by rw [List.cons_append, List.cons_append, ofBody]

theorem ReadsAs.escaped (h : ReadsAs rest lexemes) (hslash : c ≠ '/') :
    ReadsAs ('\\' :: c :: rest) (.token (.literal c) :: lexemes) :=
  h.cons fun back => ofBody_escaped hslash (rest ++ '/' :: back)

theorem ReadsAs.anyChar (h : ReadsAs rest lexemes) :
    ReadsAs ('?' :: rest) (.token .anyChar :: lexemes) :=
  h.cons fun back => by rw [List.cons_append, ofBody]

theorem ReadsAs.literal (h : ReadsAs rest lexemes) (hescape : c ≠ '\\') (hslash : c ≠ '/')
    (hstar : c ≠ '*') (hany : c ≠ '?') (hbracket : c ≠ '[') :
    ReadsAs (c :: rest) (.token (.literal c) :: lexemes) :=
  h.cons fun back => ofBody_literal hescape hslash hstar hany hbracket (rest ++ '/' :: back)

theorem ReadsAs.star (h : ReadsAs rest lexemes) :
    ReadsAs ('*' :: rest) (pushStar lexemes) := by
  intro back
  rw [List.cons_append, ofBody, h, pushStar_append_slash]

theorem ReadsAs.closed {after : Text} {items : List ClassItem}
    (h : ReadsAs after lexemes)
    (hscan : ClassScan.ofText (CharClass.splitNegation text).2 = .closed items after) :
    ReadsAs ('[' :: text)
      (.token (.charClass ⟨(CharClass.splitNegation text).1, ClassItem.members items⟩) ::
        lexemes) := by
  refine h.cons fun back => ?_
  rw [List.cons_append, ofBody_bracket, CharClass.splitNegation_append_slash,
    ClassScan.ofText_append_slash, hscan]
  rfl

/-- A bracket that is not closed before the separator stands for itself. -/
theorem ReadsAs.bracket (h : ReadsAs text lexemes)
    (hscan : ∀ items after,
      ClassScan.ofText (CharClass.splitNegation text).2 ≠ .closed items after) :
    ReadsAs ('[' :: text) (.token (.literal '[') :: lexemes) := by
  refine h.cons fun back => ?_
  rw [List.cons_append, ofBody_bracket, CharClass.splitNegation_append_slash,
    ClassScan.ofText_append_slash]
  cases hopen : ClassScan.ofText (CharClass.splitNegation text).2 with
  | closed items after => exact absurd hopen (hscan items after)
  | unterminated | interrupted => rfl

theorem exists_readsAs (text : Text) : ∃ lexemes, ReadsAs text lexemes := by
  -- A class left open takes the rest of a body, but before a separator its text is read anew from
  -- behind the bracket: no step of the reader, so the induction is on the length.
  induction hlength : text.length using Nat.strong_induction_on generalizing text with
  | _ n ih =>
    have hshorter : ∀ rest : Text, rest.length < text.length → ∃ lexemes, ReadsAs rest lexemes :=
      fun rest hlt => ih rest.length (hlength ▸ hlt) rest rfl
    clear ih hlength
    fun_cases ofBody text with
    | case1 => exact ⟨[], readsAs_nil⟩
    | case2 => exact ⟨[], fun back => by rw [List.singleton_append, List.nil_append, ofBody]⟩
    | case3 rest =>
      obtain ⟨lexemes, hrest⟩ := hshorter rest (by simp only [List.length_cons]; omega)
      exact ⟨_, hrest.escapedSlash⟩
    | case4 c rest hslash =>
      obtain ⟨lexemes, hrest⟩ := hshorter rest (by simp only [List.length_cons]; omega)
      exact ⟨_, hrest.escaped hslash⟩
    | case5 rest =>
      obtain ⟨lexemes, hrest⟩ := hshorter rest (Nat.lt_succ_self _)
      exact ⟨_, hrest.slash⟩
    | case6 rest =>
      obtain ⟨lexemes, hrest⟩ := hshorter rest (Nat.lt_succ_self _)
      exact ⟨_, hrest.star⟩
    | case7 rest =>
      obtain ⟨lexemes, hrest⟩ := hshorter rest (Nat.lt_succ_self _)
      exact ⟨_, hrest.anyChar⟩
    | case8 rest items after hscan =>
      have hafter := ClassScan.length_rest_lt hscan
      have hsplit := CharClass.length_splitNegation_le rest
      obtain ⟨lexemes, hrest⟩ := hshorter after (by simp only [List.length_cons]; omega)
      exact ⟨_, hrest.closed hscan⟩
    | case9 rest hscan | case10 rest hscan =>
      obtain ⟨lexemes, hrest⟩ := hshorter rest (Nat.lt_succ_self _)
      exact ⟨_, hrest.bracket fun items after => by simp [hscan]⟩
    | case11 c rest hlone _ hpair hslash hstar hany hbracket =>
      obtain ⟨lexemes, hrest⟩ := hshorter rest (Nat.lt_succ_self _)
      exact ⟨_, hrest.literal (ne_escape_of_forall hlone hpair) hslash hstar hany hbracket⟩

def beforeSlash (text : Text) : List Lexeme := (ofBody (text ++ ['/'])).dropLast

theorem beforeSlash_eq_of_readsAs (h : ReadsAs text lexemes) : beforeSlash text = lexemes := by
  have hslash : ofBody (text ++ ['/']) = lexemes ++ [.slash] := by
    rw [h [], ofBody]
  rw [beforeSlash, hslash, List.dropLast_concat]

theorem ofBody_append_slash (front back : Text) :
    ofBody (front ++ '/' :: back) = beforeSlash front ++ .slash :: ofBody back := by
  obtain ⟨lexemes, h⟩ := exists_readsAs front
  rw [beforeSlash_eq_of_readsAs h, h]

theorem ofBody_concat_slash (text : Text) :
    ofBody (text ++ ['/']) = beforeSlash text ++ [.slash] := by
  rw [ofBody_append_slash, ofBody]

/-! ## Counting separators -/

theorem count_slash_pushStar (lexemes : List Lexeme) :
    (pushStar lexemes).count .slash = lexemes.count .slash := by
  unfold pushStar
  split
  · rw [List.count_cons_of_ne Lexeme.noConfusion, List.count_cons_of_ne Lexeme.noConfusion]
  · exact List.count_cons_of_ne Lexeme.noConfusion

/-- No separator is lost, escaped or in brackets, and none comes from any other character. -/
theorem count_slash_ofBody (body : Text) : (ofBody body).count .slash = body.count '/' := by
  fun_induction ofBody body with
  | case1 => rfl
  | case2 => rfl
  | case3 rest ih =>
    rw [List.count_cons_self, ih, List.count_cons_of_ne (by decide), List.count_cons_self]
  | case4 c rest hslash ih =>
    rw [List.count_cons_of_ne Lexeme.noConfusion, ih, List.count_cons_of_ne (by decide),
      List.count_cons_of_ne hslash]
  | case5 rest ih => rw [List.count_cons_self, ih, List.count_cons_self]
  | case6 rest ih => rw [count_slash_pushStar, ih, List.count_cons_of_ne (by decide)]
  | case7 rest ih =>
    rw [List.count_cons_of_ne Lexeme.noConfusion, ih, List.count_cons_of_ne (by decide)]
  | case8 rest items after hscan ih =>
    have hspares := ClassScan.spares_ofText (CharClass.splitNegation rest).2
    rw [hscan] at hspares
    rw [List.count_cons_of_ne Lexeme.noConfusion, ih, ← hspares,
      CharClass.count_slash_splitNegation, List.count_cons_of_ne (by decide)]
  | case9 rest hscan =>
    have hspares := ClassScan.spares_ofText (CharClass.splitNegation rest).2
    rw [hscan] at hspares
    rw [List.count_cons_of_ne (by decide), List.count_cons_of_ne (by decide),
      ← CharClass.count_slash_splitNegation rest, List.count_eq_zero_of_not_mem hspares]
    rfl
  | case10 rest hscan ih =>
    rw [List.count_cons_of_ne Lexeme.noConfusion, ih, List.count_cons_of_ne (by decide)]
  | case11 c rest _ _ _ hslash _ _ _ ih =>
    rw [List.count_cons_of_ne Lexeme.noConfusion, ih, List.count_cons_of_ne hslash]

theorem slash_mem_ofBody {body : Text} : Lexeme.slash ∈ ofBody body ↔ '/' ∈ body := by
  rw [← List.count_pos_iff, count_slash_ofBody, List.count_pos_iff]

theorem slash_mem_beforeSlash : Lexeme.slash ∈ beforeSlash text ↔ '/' ∈ text := by
  have hcount := count_slash_ofBody (text ++ ['/'])
  rw [ofBody_concat_slash, List.count_append, List.count_append, List.count_singleton_self,
    List.count_singleton_self] at hcount
  rw [← List.count_pos_iff, ← List.count_pos_iff, Nat.add_right_cancel hcount]

/-! ## Reading piece by piece -/

/-- The lexemes of the pieces between the separators. Each is read alone, as the last one or as one
that a separator follows. -/
def ofPieces : List Text → List (List Lexeme)
  | [] => []
  | [last] => [ofBody last]
  | piece :: others => beforeSlash piece :: ofPieces others

theorem pieces_ofBody (body : Text) :
    pieces (· = .slash) (ofBody body) = ofPieces (pieces (· = '/') body) := by
  generalize hpieces : pieces (· = '/') body = texts
  induction texts generalizing body with
  | nil => exact absurd hpieces (pieces_ne_nil _ _)
  | cons piece others ih =>
    have hpiece : '/' ∉ piece := fun hslash => by
      have hsep := isSeparator_of_mem_pieces (hpieces ▸ List.mem_cons_self) hslash
      exact absurd hsep (by decide)
    rcases eq_or_exists_of_pieces_cons hpieces with ⟨rfl, rfl⟩ | ⟨a, back, ha, rfl, hback⟩
    · have hnone : ∀ l ∈ ofBody body, decide (l = .slash) = false := fun l hl =>
        decide_eq_false fun heq => hpiece (slash_mem_ofBody.mp (heq ▸ hl))
      rw [pieces_eq_singleton hnone, ofPieces]
    · obtain rfl : a = '/' := of_decide_eq_true ha
      have hnone : ∀ l ∈ beforeSlash piece, decide (l = .slash) = false := fun l hl =>
        decide_eq_false fun heq => hpiece (slash_mem_beforeSlash.mp (heq ▸ hl))
      have hmore : others ≠ [] := hback ▸ pieces_ne_nil _ _
      have hsplit : pieces (· = .slash) (beforeSlash piece ++ .slash :: ofBody back) =
          pieces (· = .slash) (beforeSlash piece) ++ pieces (· = .slash) (ofBody back) :=
        pieces_append_cons (by decide) _ _
      rw [ofBody_append_slash, hsplit, pieces_eq_singleton hnone, ih back hback, ofPieces]
      · rfl
      · exact hmore

theorem getLast?_ofPieces (texts : List Text) :
    (ofPieces texts).getLast? = texts.getLast?.map ofBody := by
  fun_induction ofPieces texts with
  | case1 | case2 => rfl
  | case3 piece others hmore ih =>
    cases others with
    | nil => exact absurd rfl hmore
    | cons next others =>
      have hne : ofPieces (next :: others) ≠ [] := by
        cases others <;> exact List.cons_ne_nil _ _
      rw [List.getLast?_cons_of_ne_nil hne, ih, List.getLast?_cons_cons]

theorem getLast?_ofBody_eq_slash_iff {body : Text} :
    (ofBody body).getLast? = some .slash ↔ body.getLast? = some '/' := by
  constructor
  · intro hslash
    have hlast : (pieces (· = .slash) (ofBody body)).getLast? = some [] :=
      getLast?_pieces_of_getLast? hslash (by decide)
    rw [pieces_ofBody, getLast?_ofPieces, Option.map_eq_some_iff] at hlast
    obtain ⟨last, hpiece, hempty⟩ := hlast
    obtain rfl : last = [] := by_contra fun hne => ofBody_ne_nil hne hempty
    rcases getLast?_of_getLast?_pieces hpiece with rfl | ⟨a, ha, hsep⟩
    · rw [ofBody] at hslash
      cases hslash
    · rw [ha, of_decide_eq_true hsep]
  · intro hslash
    obtain ⟨text, rfl⟩ := List.getLast?_eq_some_iff.mp hslash
    rw [ofBody_concat_slash, List.getLast?_concat]

end Lexeme

namespace Glob

/-- Any separator but one at the end anchors a glob. -/
theorem anchored_ofLexemes (lexemes : List Lexeme) :
    (ofLexemes lexemes).anchored = true ↔
      .slash ∈ if lexemes.getLast? = some .slash then lexemes.dropLast else lexemes := by
  simp only [ofLexemes]
  generalize (if lexemes.getLast? = some .slash then lexemes.dropLast else lexemes) = inner
  have hpieces : ((pieces (· = .slash) inner).map Segment.ofLexemes).length > 1 ↔
      .slash ∈ inner := by
    rw [List.length_map, length_pieces, gt_iff_lt, Nat.lt_add_left_iff_pos, List.countP_pos_iff]
    simp only [decide_eq_true_eq, exists_eq_right]
  by_cases hroot : inner.head? = some .slash
  · simp only [hroot, decide_true, Bool.true_or, true_iff]
    exact List.mem_of_mem_head? hroot
  · simp only [hroot, decide_false, Bool.false_or, decide_eq_true_eq, if_false]
    exact hpieces

/-- What the separators of a body are, and what they make of a glob, is seen from its characters
alone: nothing that stands before a separator reaches across it. -/
theorem separators_divide (front back body : Text) :
    Lexeme.ofBody (front ++ ['/'] ++ back) =
        Lexeme.ofBody (front ++ ['/']) ++ Lexeme.ofBody back ∧
      (Lexeme.ofBody (front ++ ['/'])).getLast? = some .slash ∧
      (Lexeme.ofBody body).count .slash = body.count '/' ∧
      ((parse body).directoryOnly = true ↔ body.getLast? = some '/') ∧
      ((parse body).anchored = true ↔
        '/' ∈ if body.getLast? = some '/' then body.dropLast else body) ∧
      pieces (· = .slash) (Lexeme.ofBody body) = Lexeme.ofPieces (pieces (· = '/') body) := by
  refine ⟨?_, ?_, Lexeme.count_slash_ofBody body, ?_, ?_, Lexeme.pieces_ofBody body⟩
  · rw [List.append_assoc, List.singleton_append, Lexeme.ofBody_append_slash,
      Lexeme.ofBody_concat_slash, List.append_assoc, List.singleton_append]
  · rw [Lexeme.ofBody_concat_slash, List.getLast?_concat]
  · exact decide_eq_true_iff.trans Lexeme.getLast?_ofBody_eq_slash_iff
  · rw [parse, anchored_ofLexemes]
    by_cases hlast : body.getLast? = some '/'
    · obtain ⟨text, rfl⟩ := List.getLast?_eq_some_iff.mp hlast
      rw [if_pos (Lexeme.getLast?_ofBody_eq_slash_iff.mpr hlast), if_pos hlast,
        List.dropLast_concat, Lexeme.ofBody_concat_slash, List.dropLast_concat,
        Lexeme.slash_mem_beforeSlash]
    · rw [if_neg (mt Lexeme.getLast?_ofBody_eq_slash_iff.mp hlast), if_neg hlast,
        Lexeme.slash_mem_ofBody]

end Glob

end IgnoreRules
