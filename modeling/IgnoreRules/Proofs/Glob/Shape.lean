import IgnoreRules.Proofs.Glob.Classes
import IgnoreRules.Proofs.Glob.LeadingGlobStar
import IgnoreRules.Proofs.Text.Ends
import IgnoreRules.Proofs.Text.Escapes

/-! # The shape of a glob

The glob of any body keeps to a few rules, on which its matching relies. Its segments come from the
texts between the separators, and a segment has no tokens exactly if its text is empty.
-/

namespace IgnoreRules

/-! ## The texts between the separators -/

namespace Text

def withoutEscape (text : Text) : Text := if endsInEscape text then text.dropLast else text

theorem withoutEscape_eq_nil_iff {text : Text} :
    withoutEscape text = [] ↔ text = [] ∨ text = ['\\'] := by
  rcases List.eq_nil_or_concat text with rfl | ⟨front, last, rfl⟩
  · decide
  rw [List.concat_eq_append]
  by_cases hlast : last = '\\'
  · rw [withoutEscape, hlast, endsInEscape_concat_backslash, List.dropLast_concat]
    by_cases hfront : front = []
    · rw [hfront]
      decide
    · split <;> simp [hfront]
  · rw [withoutEscape, endsInEscape_concat hlast]
    simp [hlast, List.append_eq_singleton_iff]

/-- The texts before separators, each without the escape of its separator, and the last text. -/
def withoutEscapes : List Text → List Text
  | [] => []
  | [last] => [last]
  | text :: others => withoutEscape text :: withoutEscapes others

theorem withoutEscapes_concat (front : List Text) (last : Text) :
    withoutEscapes (front ++ [last]) = front.map withoutEscape ++ [last] := by
  induction front with
  | nil => rfl
  | cons text front ih =>
    rw [List.cons_append, List.map_cons, List.cons_append, ← ih, withoutEscapes]
    simp

theorem tail_dropLast_withoutEscapes (texts : List Text) :
    (withoutEscapes texts).tail.dropLast = texts.tail.dropLast.map withoutEscape := by
  rcases List.eq_nil_or_concat texts with rfl | ⟨front, last, rfl⟩
  · rfl
  rw [List.concat_eq_append, withoutEscapes_concat]
  cases front with
  | nil => rfl
  | cons first front => simp

end Text

namespace Lexeme

theorem beforeSlash_eq_nil_iff {text : Text} :
    beforeSlash text = [] ↔ text = [] ∨ text = ['\\'] := by
  constructor
  · intro h
    have hbody : ofBody (text ++ ['/']) = [.slash] := by rw [ofBody_concat_slash, h]; rfl
    rcases eq_of_ofBody_slash hbody with hplain | hescaped
    · exact Or.inl (List.append_cancel_right (List.nil_append _ ▸ hplain))
    · exact Or.inr ((List.append_left_inj ['/']).mp hescaped)
  · rintro (rfl | rfl) <;> decide +kernel

/-- Lexemes are missing where text is missing. -/
theorem forall₂_ofPieces (texts : List Text) :
    List.Forall₂ (fun lexemes text => lexemes = [] ↔ text = []) (ofPieces texts)
      (Text.withoutEscapes texts) := by
  fun_induction ofPieces texts with
  | case1 => exact .nil
  | case2 last => exact .cons ofBody_eq_nil_iff .nil
  | case3 text others hmore ih =>
    rw [Text.withoutEscapes]
    · exact .cons (beforeSlash_eq_nil_iff.trans Text.withoutEscape_eq_nil_iff.symm) ih
    · exact hmore

end Lexeme

namespace Glob

def separators : List Text := [['/'], ['\\', '/']]

/-- What stands between the separators, an escaped one included. The nothing before a separator at
the start does not count, nor does the nothing behind one at the end. -/
def segmentTexts (body : Text) : List Text :=
  withoutEnds (Text.withoutEscapes (pieces (· = '/') body))

/-- Each text between the separators becomes a segment, and then a lone `**` becomes a star. -/
theorem segments_ofLexemes (lexemes : List Lexeme) :
    (ofLexemes lexemes).segments =
      let segments := (withoutEnds (pieces (· = .slash) lexemes)).map Segment.ofLexemes
      if segments = [.globStar] then [.tokens [.star]] else segments := by
  rw [withoutEnds, ← pieces_dropLast_eq, ← pieces_tail_eq]
  simp only [ofLexemes]

variable {body : Text}

theorem slash_notMem_of_mem_pieces {piece lexemes : List Lexeme}
    (h : piece ∈ pieces (· = .slash) lexemes) : .slash ∉ piece := by
  intro hslash
  simpa using isSeparator_of_mem_pieces h hslash

/-- A segment of tokens is read from lexemes between two separators, or it is the star that a lone
`**` has become. -/
theorem eq_star_or_exists_piece {ts : List Token} (h : .tokens ts ∈ (parse body).segments) :
    ts = [.star] ∨ ∃ piece, piece <:+: Lexeme.ofBody body ∧ .slash ∉ piece ∧
      ts = Segment.tokensOf piece := by
  rw [parse, segments_ofLexemes] at h
  simp only at h
  split at h
  · exact Or.inl (by simpa using h)
  · obtain ⟨piece, hpiece, heq⟩ := List.mem_map.mp h
    have hmem := withoutEnds_subset _ hpiece
    exact Or.inr ⟨piece, isInfix_of_mem_pieces hmem, slash_notMem_of_mem_pieces hmem,
      Segment.ofLexemes_eq_tokens heq⟩

theorem two_le_length_of_globStar (h : .globStar ∈ (parse body).segments) :
    2 ≤ (parse body).segments.length := by
  rw [parse, segments_ofLexemes] at h ⊢
  generalize (withoutEnds (pieces (· = .slash) (Lexeme.ofBody body))).map Segment.ofLexemes =
    segments at h ⊢
  by_cases hlone : segments = [.globStar]
  · simp [hlone] at h
  · simp only [if_neg hlone] at h ⊢
    cases segments with
    | nil => cases h
    | cons segment others =>
      cases others with
      | nil => exact absurd (by rw [List.mem_singleton.mp h]) hlone
      | cons next others => simp

end Glob

/-- Stars that stand apart as lexemes stand apart as tokens. -/
theorem Segment.isChain_tokensOf {lexemes : List Lexeme} (hchain : lexemes.IsChain Lexeme.Apart)
    (hslash : Lexeme.slash ∉ lexemes) (hstar : Lexeme.token .star ∉ lexemes) :
    (tokensOf lexemes).IsChain fun t t' => t = .star → t' ≠ .star := by
  induction lexemes with
  | nil => exact .nil
  | cons l lexemes ih =>
    simp only [List.mem_cons, not_or] at hslash hstar
    have hrest := ih hchain.tail hslash.2 hstar.2
    cases l with
    | slash => exact absurd rfl hslash.1
    | token t =>
      refine List.isChain_cons.mpr ⟨fun t' _ heq => ?_, hrest⟩
      exact absurd (congrArg Lexeme.token heq.symm) hstar.1
    | stars n =>
      refine List.isChain_cons.mpr ⟨fun t' ht' _ heq => ?_, hrest⟩
      cases lexemes with
      | nil => cases ht'
      | cons l' lexemes =>
        cases l' with
        | slash => exact hslash.2 List.mem_cons_self
        | stars m => exact (List.isChain_cons_cons.mp hchain).1
        | token t =>
          obtain rfl : t = t' := Option.some.inj ht'
          exact hstar.2 (heq ▸ List.mem_cons_self)

theorem Segment.ofLexemes_eq_nil_iff {lexemes : List Lexeme} (hslash : .slash ∉ lexemes) :
    ofLexemes lexemes = .tokens [] ↔ lexemes = [] := by
  constructor
  · exact fun h => tokensOf_eq_nil hslash (ofLexemes_eq_tokens h).symm
  · rintro rfl
    rfl

namespace Glob

theorem stars_apart {ts : List Token} (h : .tokens ts ∈ (parse body).segments) :
    ¬ [.star, .star] <:+: ts := by
  rcases eq_star_or_exists_piece h with rfl | ⟨piece, hpart, hslash, rfl⟩
  · decide
  · have hstar : Lexeme.token .star ∉ piece := fun hmem =>
      (Lexeme.ne_of_mem_ofBody (hpart.subset hmem)).1 rfl
    obtain ⟨before, after, hbody⟩ := hpart
    have hlexemes := Lexeme.isChain_ofBody body
    rw [← hbody] at hlexemes
    have htokens :=
      Segment.isChain_tokensOf hlexemes.left_of_append.right_of_append hslash hstar
    rintro ⟨front, back, hstars⟩
    rw [← hstars] at htokens
    have hpair := htokens.left_of_append.right_of_append
    exact (List.isChain_cons_cons.mp hpair).1 rfl rfl

/-- A segment without tokens has an empty text, and an empty text makes a segment without tokens. -/
theorem forall₂_segmentTexts (body : Text) :
    List.Forall₂ (fun segment text => segment = .tokens [] ↔ text = []) (parse body).segments
      (segmentTexts body) := by
  have hpieces := Lexeme.forall₂_ofPieces (pieces (· = '/') body)
  rw [← Lexeme.pieces_ofBody] at hpieces
  have hsegments : List.Forall₂ (fun segment text => segment = .tokens [] ↔ text = [])
      ((withoutEnds (pieces (· = .slash) (Lexeme.ofBody body))).map Segment.ofLexemes)
      (segmentTexts body) := by
    have hslash : ∀ piece ∈ withoutEnds (pieces (· = .slash) (Lexeme.ofBody body)),
        .slash ∉ piece :=
      fun piece hpiece => slash_notMem_of_mem_pieces (withoutEnds_subset _ hpiece)
    have hboth := (List.forall₂_and_left _ _).mpr ⟨hslash, forall₂_withoutEnds hpieces⟩
    rw [List.forall₂_map_left_iff]
    exact hboth.imp fun piece text h => (Segment.ofLexemes_eq_nil_iff h.1).trans h.2
  rw [parse, segments_ofLexemes]
  simp only
  split
  · next hlone =>
    rw [hlone] at hsegments
    generalize segmentTexts body = texts at hsegments
    obtain ⟨text, rest, htext, hrest, rfl⟩ := List.forall₂_cons_left_iff.mp hsegments
    have hne : text ≠ [] := fun hempty => absurd (htext.mpr hempty) Segment.noConfusion
    exact .cons (iff_of_false (by simp) hne) hrest
  · exact hsegments

/-- Between two separators side by side there is nothing. -/
theorem nil_mem_withoutEscapes_iff :
    [] ∈ (Text.withoutEscapes (pieces (· = '/') body)).tail.dropLast ↔
      ∃ first ∈ separators, ∃ second ∈ separators, first ++ second <:+: body := by
  rw [Text.tail_dropLast_withoutEscapes, List.mem_map]
  constructor
  · rintro ⟨text, htext, hnil⟩
    rcases Text.withoutEscape_eq_nil_iff.mp hnil with rfl | rfl
    · have hinfix := (mem_tail_dropLast_pieces_iff (by decide)).mp htext
      exact ⟨['/'], by decide, ['/'], by decide, hinfix⟩
    · have hinfix := (mem_tail_dropLast_pieces_iff (by decide)).mp htext
      exact ⟨['/'], by decide, ['\\', '/'], by decide, hinfix⟩
  · rintro ⟨first, hfirst, second, hsecond, hinfix⟩
    obtain ⟨escape, rfl⟩ : ∃ escape, first = escape ++ ['/'] := by
      rcases List.mem_pair.mp hfirst with rfl | rfl
      · exact ⟨[], rfl⟩
      · exact ⟨['\\'], rfl⟩
    rw [List.append_assoc] at hinfix
    have hplain : ['/'] ++ second <:+: body := (List.suffix_append escape _).isInfix.trans hinfix
    rcases List.mem_pair.mp hsecond with rfl | rfl
    · exact ⟨[], (mem_tail_dropLast_pieces_iff (by decide)).mpr hplain, rfl⟩
    · exact ⟨['\\'], (mem_tail_dropLast_pieces_iff (by decide)).mpr hplain, rfl⟩

theorem eq_nil_or_mem_separators
    (h : Text.withoutEscapes (pieces (· = '/') body) = [[]] ∨
      Text.withoutEscapes (pieces (· = '/') body) = [[], []]) :
    body = [] ∨ body ∈ separators := by
  have hlone : ∀ {text : Text}, pieces (· = '/') text = [[]] → text = [] := by
    intro text htext
    rcases eq_or_exists_of_pieces_cons htext with ⟨hnil, -⟩ | ⟨a, back, -, -, hback⟩
    · exact hnil
    · exact absurd hback (pieces_ne_nil _ _)
  generalize hpieces : pieces (· = '/') body = texts at h
  match texts with
  | [] => exact absurd hpieces (pieces_ne_nil _ _)
  | [last] =>
    obtain rfl : last = [] := by simpa [Text.withoutEscapes] using h
    exact Or.inl (hlone hpieces)
  | [text, last] =>
    obtain ⟨htext, rfl⟩ : Text.withoutEscape text = [] ∧ last = [] := by
      simpa [Text.withoutEscapes] using h
    rcases eq_or_exists_of_pieces_cons hpieces with ⟨-, hnil⟩ | ⟨a, back, ha, rfl, hback⟩
    · cases hnil
    · obtain rfl : a = '/' := of_decide_eq_true ha
      rw [hlone hback]
      rcases Text.withoutEscape_eq_nil_iff.mp htext with rfl | rfl <;> exact Or.inr (by decide)
  | _ :: _ :: _ :: others => cases others <;> simp [Text.withoutEscapes] at h

theorem nil_mem_segmentTexts_iff :
    [] ∈ segmentTexts body ↔
      (∃ parts : List Text, (∀ part ∈ parts, part ∈ separators) ∧ body = parts.flatten) ∨
        ∃ first ∈ separators, ∃ second ∈ separators, first ++ second <:+: body := by
  rw [segmentTexts, nil_mem_withoutEnds_iff, nil_mem_withoutEscapes_iff]
  constructor
  · intro h
    rcases or_assoc.mpr h with hends | hadjacent
    · refine Or.inl ?_
      rcases eq_nil_or_mem_separators hends with rfl | hbody
      · exact ⟨[], by simp⟩
      · exact ⟨[body], by simpa using hbody⟩
    · exact Or.inr hadjacent
  · rintro (⟨parts, hparts, rfl⟩ | hadjacent)
    · match parts with
      | [] => exact Or.inl rfl
      | [part] =>
        rcases List.mem_pair.mp (hparts part List.mem_cons_self) with rfl | rfl
        · exact Or.inr (Or.inl (by decide))
        · exact Or.inr (Or.inl (by decide))
      | first :: second :: rest =>
        refine Or.inr (Or.inr ⟨first, hparts first (by simp), second, hparts second (by simp), ?_⟩)
        exact ⟨[], rest.flatten, by simp⟩
    · exact Or.inr (Or.inr hadjacent)

structure Regular (glob : Glob) : Prop where
  segments_ne_nil : glob.segments ≠ []
  /-- A `**` never stands alone. -/
  two_le_length : .globStar ∈ glob.segments → 2 ≤ glob.segments.length
  /-- What may stand at any depth is one segment of tokens. -/
  floating : glob.anchored = false → ∃ ts, glob.segments = [.tokens ts]
  ne_slash : ∀ ts, .tokens ts ∈ glob.segments → ∀ c, .literal c ∈ ts → c ≠ '/'
  /-- No class lists `/`, and no range is out of order. -/
  proper : ∀ ts, .tokens ts ∈ glob.segments → ∀ cls, .charClass cls ∈ ts →
    ∀ m ∈ cls.members, m.IsProper
  stars_apart : ∀ ts, .tokens ts ∈ glob.segments → ¬ [.star, .star] <:+: ts

/-- The glob of any body is regular. It has one segment for each text between the separators, and
the segment has no tokens exactly if the text is empty. Some text is empty exactly if two separators
stand side by side, or if the body is empty or made of nothing but separators. -/
theorem regular_parse (body : Text) :
    (parse body).Regular ∧
      List.Forall₂ (fun segment text => segment = .tokens [] ↔ text = []) (parse body).segments
        (segmentTexts body) ∧
      ([] ∈ segmentTexts body ↔
        (∃ parts : List Text, (∀ part ∈ parts, part ∈ separators) ∧ body = parts.flatten) ∨
          ∃ first ∈ separators, ∃ second ∈ separators, first ++ second <:+: body) := by
  refine ⟨?_, forall₂_segmentTexts body, nil_mem_segmentTexts_iff⟩
  exact
    { segments_ne_nil := segments_parse_ne_nil body
      two_le_length := two_le_length_of_globStar
      floating := exists_tokens_of_floating
      ne_slash := fun _ hts _ => ne_slash_of_mem_tokens hts
      proper := fun ts hts _ hcls => isProper_of_hasClass ⟨ts, hts, hcls⟩
      stars_apart := fun _ => stars_apart }

example : segmentTexts ['/', 'a', '\\', '/', '/', '*', '*', '/'] = [['a'], [], ['*', '*']] := by
  decide

end Glob

end IgnoreRules
