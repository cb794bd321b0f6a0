import IgnoreRules.Glob.Parser
import IgnoreRules.Proofs.Text.Pieces
import Mathlib.Data.List.Chain

/-! # What is read from a body

Not every glob can be written. A body never yields a literal separator or two stars side by side,
and what it leaves empty before the end only stands before a final separator.
-/

namespace IgnoreRules

namespace Lexeme

def Apart : Lexeme → Lexeme → Prop
  | .stars _, .stars _ => False
  | _, _ => True

theorem isChain_cons_token {t : Token} {lexemes : List Lexeme} (h : lexemes.IsChain Apart) :
    (Lexeme.token t :: lexemes).IsChain Apart := by
  cases lexemes with
  | nil => exact .singleton _
  | cons l lexemes => exact .cons_cons trivial h

theorem isChain_cons_slash {lexemes : List Lexeme} (h : lexemes.IsChain Apart) :
    (Lexeme.slash :: lexemes).IsChain Apart := by
  cases lexemes with
  | nil => exact .singleton _
  | cons l lexemes => exact .cons_cons trivial h

theorem isChain_pushStar {lexemes : List Lexeme} (h : lexemes.IsChain Apart) :
    (pushStar lexemes).IsChain Apart := by
  cases lexemes with
  | nil => exact .singleton _
  | cons l rest =>
    cases l with
    | slash => exact .cons_cons trivial h
    | token t => exact .cons_cons trivial h
    | stars count =>
      cases rest with
      | nil => exact .singleton _
      | cons l' rest =>
        obtain ⟨hapart, hrest⟩ := List.isChain_cons_cons.mp h
        refine .cons_cons ?_ hrest
        cases l' with
        | stars _ => exact hapart
        | slash | token _ => trivial

/-- Stars side by side are read together. -/
theorem isChain_ofBody (body : Text) : (ofBody body).IsChain Apart := by
  fun_induction ofBody body with
  | case1 => exact .nil
  | case2 | case9 => exact .singleton _
  | case3 rest ih | case5 rest ih => exact isChain_cons_slash ih
  | case6 rest ih => exact isChain_pushStar ih
  | _ => exact isChain_cons_token (by assumption)

theorem mem_pushStar {lexemes : List Lexeme} {t : Token} (h : Lexeme.token t ∈ pushStar lexemes) :
    Lexeme.token t ∈ lexemes := by
  unfold pushStar at h
  split at h <;> simpa using h

/-- A star is no token yet, and a separator separates even behind a backslash. -/
theorem ne_of_mem_ofBody {body : Text} {t : Token} (h : Lexeme.token t ∈ ofBody body) :
    t ≠ .star ∧ t ≠ .literal '/' := by
  fun_induction ofBody body with
  | case1 => cases h
  | case2 =>
    obtain rfl : t = .literal '\\' := by simpa using h
    decide
  | case3 rest ih | case5 rest ih => exact ih (by simpa using h)
  | case6 rest ih => exact ih (mem_pushStar h)
  | case9 =>
    obtain rfl : t = .charClass .none := by simpa using h
    decide
  | case7 rest ih | case10 rest _ ih =>
    rcases List.mem_cons.mp h with heq | h
    · cases heq
      decide
    · exact ih h
  | case8 rest items after _ ih =>
    rcases List.mem_cons.mp h with heq | h
    · cases heq
      exact ⟨Token.noConfusion, Token.noConfusion⟩
    · exact ih h
  | case4 d rest hd ih | case11 d rest _ _ _ hd _ _ _ ih =>
    rcases List.mem_cons.mp h with heq | h
    · cases heq
      exact ⟨Token.noConfusion, fun hslash => hd (Token.literal.inj hslash)⟩
    · exact ih h

theorem ofBody_ne_nil {body : Text} (h : body ≠ []) : ofBody body ≠ [] := by
  fun_cases ofBody body with
  | case1 => exact absurd rfl h
  | case6 rest =>
    unfold pushStar
    split <;> simp
  | _ => simp

end Lexeme

/-- What component-wise matching needs of the segments of a glob. -/
structure Segment.Clean (directoryOnly : Bool) (segments : List Segment) : Prop where
  ne_slash : ∀ ts, .tokens ts ∈ segments → ∀ c, .literal c ∈ ts → c ≠ '/'
  stars_apart : ∀ ts, .tokens ts ∈ segments → (∀ t ∈ ts, t = .star) → ts = [] ∨ ts = [.star]
  last_empty : segments.getLast? = some (.tokens []) → directoryOnly = true

namespace Segment

def tokensOf (lexemes : List Lexeme) : List Token :=
  lexemes.filterMap fun
    | .slash => none
    | .stars _ => some .star
    | .token t => some t

theorem ofLexemes_eq_tokens {lexemes : List Lexeme} {ts : List Token}
    (h : ofLexemes lexemes = .tokens ts) : ts = tokensOf lexemes := by
  unfold ofLexemes at h
  split at h
  · cases h
  · exact (Segment.tokens.inj h).symm

theorem literal_mem_tokensOf {lexemes : List Lexeme} {c : Char}
    (h : Token.literal c ∈ tokensOf lexemes) : Lexeme.token (.literal c) ∈ lexemes := by
  obtain ⟨l, hl, hlit⟩ := List.mem_filterMap.mp h
  cases l with
  | slash | stars _ => cases hlit
  | token t =>
    cases hlit
    exact hl

theorem tokensOf_eq_nil {lexemes : List Lexeme} (hslash : Lexeme.slash ∉ lexemes)
    (h : tokensOf lexemes = []) : lexemes = [] := by
  cases lexemes with
  | nil => rfl
  | cons l lexemes =>
    cases l with
    | slash => exact absurd List.mem_cons_self hslash
    | stars _ | token _ => cases h

/-- Stars that stand apart are at most one if nothing stands between them. -/
theorem tokensOf_all_star {lexemes : List Lexeme} (hchain : lexemes.IsChain Lexeme.Apart)
    (htoken : Lexeme.token .star ∉ lexemes) (hslash : Lexeme.slash ∉ lexemes)
    (h : ∀ t ∈ tokensOf lexemes, t = .star) : tokensOf lexemes = [] ∨ tokensOf lexemes = [.star] := by
  have hstars : ∀ l ∈ lexemes, ∃ n, l = .stars n := by
    intro l hl
    cases l with
    | slash => exact absurd hl hslash
    | stars n => exact ⟨n, rfl⟩
    | token t =>
      have ht : t = .star := h t (List.mem_filterMap.mpr ⟨.token t, hl, rfl⟩)
      exact absurd (ht ▸ hl) htoken
  cases lexemes with
  | nil => exact Or.inl rfl
  | cons l lexemes =>
    obtain ⟨n, rfl⟩ := hstars l List.mem_cons_self
    cases lexemes with
    | nil => exact Or.inr rfl
    | cons l lexemes =>
      obtain ⟨m, rfl⟩ := hstars l (List.mem_cons_of_mem _ List.mem_cons_self)
      exact absurd (List.isChain_cons_cons.mp hchain).1 id

theorem clean_map_pieces {directoryOnly : Bool} {lexemes : List Lexeme}
    (hchain : lexemes.IsChain Lexeme.Apart)
    (htoken : ∀ t, Lexeme.token t ∈ lexemes → t ≠ .star ∧ t ≠ .literal '/')
    (hlast : directoryOnly = false → lexemes ≠ [] ∧ lexemes.getLast? ≠ some .slash) :
    Clean directoryOnly ((pieces (· = .slash) lexemes).map ofLexemes) := by
  have hpiece : ∀ ts, .tokens ts ∈ (pieces (· = .slash) lexemes).map ofLexemes →
      ∃ piece, piece <:+: lexemes ∧ Lexeme.slash ∉ piece ∧ ts = tokensOf piece := by
    intro ts hts
    obtain ⟨piece, hpiece, heq⟩ := List.mem_map.mp hts
    refine ⟨piece, isInfix_of_mem_pieces hpiece, ?_, ofLexemes_eq_tokens heq⟩
    intro hslash
    simpa using isSeparator_of_mem_pieces hpiece hslash
  constructor
  · intro ts hts c hc
    obtain ⟨piece, hpart, -, rfl⟩ := hpiece ts hts
    rintro rfl
    exact (htoken _ (hpart.subset (literal_mem_tokensOf hc))).2 rfl
  · intro ts hts hall
    obtain ⟨piece, hpart, hslash, rfl⟩ := hpiece ts hts
    obtain ⟨front, back, rfl⟩ := hpart
    refine tokensOf_all_star hchain.left_of_append.right_of_append ?_ hslash hall
    exact fun hstar => (htoken .star (by simp [hstar])).1 rfl
  · intro hempty
    rw [List.getLast?_map, Option.map_eq_some_iff] at hempty
    obtain ⟨piece, hgetLast, heq⟩ := hempty
    have hmem := List.mem_of_getLast? hgetLast
    have hslash : Lexeme.slash ∉ piece := fun hslash => by
      simpa using isSeparator_of_mem_pieces hmem hslash
    obtain rfl := tokensOf_eq_nil hslash (ofLexemes_eq_tokens heq).symm
    by_contra hfalse
    obtain ⟨hne, hend⟩ := hlast (Bool.eq_false_iff.mpr hfalse)
    rcases getLast?_of_getLast?_pieces hgetLast with rfl | ⟨a, ha, hsep⟩
    · exact hne rfl
    · exact hend (by rw [ha, of_decide_eq_true hsep])

end Segment

structure Glob.IsParsed (glob : Glob) : Prop where
  segments_ne_nil : glob.segments ≠ []
  clean : Segment.Clean glob.directoryOnly glob.segments
  floating : glob.anchored = false → ∃ ts, glob.segments = [.tokens ts]

namespace Glob

/-- The lexemes without a separator at their end and one at their start. -/
theorem exists_inner {lexemes : List Lexeme} (hne : lexemes ≠ []) :
    ∃ inner rooted, inner <:+: lexemes ∧ (∀ l ∈ lexemes, l ≠ .slash → l ∈ inner) ∧
      ((ofLexemes lexemes).directoryOnly = false → inner ≠ [] ∧ inner.getLast? ≠ some .slash) ∧
      (ofLexemes lexemes).segments =
        (if (pieces (· = .slash) inner).map Segment.ofLexemes = [.globStar] then [.tokens [.star]]
          else (pieces (· = .slash) inner).map Segment.ofLexemes) ∧
      (ofLexemes lexemes).anchored =
        (rooted || decide (((pieces (· = .slash) inner).map Segment.ofLexemes).length > 1)) := by
  refine ⟨_, _, ?_, ?_, ?_, rfl, rfl⟩
  · have hdrop : (if lexemes.getLast? = some .slash then lexemes.dropLast else lexemes) <:+:
        lexemes := by
      split
      · exact (List.dropLast_prefix lexemes).isInfix
      · exact List.infix_refl lexemes
    have htail : ∀ ls : List Lexeme,
        (if ls.head? = some .slash then ls.tail else ls) <:+: ls := by
      intro ls
      split
      · exact (List.tail_suffix ls).isInfix
      · exact List.infix_refl ls
    exact (htail _).trans hdrop
  · intro l hl hslash
    have hdrop : l ∈ if lexemes.getLast? = some .slash then lexemes.dropLast else lexemes := by
      split
      · next hlast =>
        obtain ⟨front, rfl⟩ := List.getLast?_eq_some_iff.mp hlast
        rw [List.dropLast_concat]
        exact (List.mem_append.mp hl).resolve_right fun h => hslash (List.mem_singleton.mp h)
      · exact hl
    have htail : ∀ ls : List Lexeme,
        l ∈ ls → l ∈ if ls.head? = some .slash then ls.tail else ls := by
      intro ls hls
      split
      · next hhead =>
        obtain ⟨rest, rfl⟩ := List.head?_eq_some_iff.mp hhead
        exact List.mem_of_ne_of_mem hslash hls
      · exact hls
    exact htail _ hdrop
  · intro hdirectory
    have hlast : lexemes.getLast? ≠ some .slash := of_decide_eq_false hdirectory
    rw [if_neg hlast]
    split
    · next hroot =>
      obtain ⟨rest, rfl⟩ := List.head?_eq_some_iff.mp hroot
      cases rest with
      | nil => exact absurd rfl hlast
      | cons l rest =>
        rw [List.getLast?_cons_cons] at hlast
        exact ⟨List.cons_ne_nil l rest, hlast⟩
    · exact ⟨hne, hlast⟩

theorem isParsed_ofLexemes {lexemes : List Lexeme} (hchain : lexemes.IsChain Lexeme.Apart)
    (htoken : ∀ t, Lexeme.token t ∈ lexemes → t ≠ .star ∧ t ≠ .literal '/') (hne : lexemes ≠ []) :
    (ofLexemes lexemes).IsParsed := by
  obtain ⟨inner, rooted, hpart, -, hlast, hsegments, hanchored⟩ := exists_inner hne
  have hclean : Segment.Clean (ofLexemes lexemes).directoryOnly
      ((pieces (· = .slash) inner).map Segment.ofLexemes) := by
    refine Segment.clean_map_pieces ?_ (fun t ht => htoken t (hpart.subset ht)) hlast
    obtain ⟨front, back, rfl⟩ := hpart
    exact hchain.left_of_append.right_of_append
  have hpieces : (pieces (· = .slash) inner).map Segment.ofLexemes ≠ [] := by
    simpa using pieces_ne_nil _ inner
  by_cases hlone : (pieces (· = .slash) inner).map Segment.ofLexemes = [.globStar]
  · rw [if_pos hlone] at hsegments
    refine ⟨by simp [hsegments], ?_, fun _ => ⟨[.star], hsegments⟩⟩
    rw [hsegments]
    constructor <;> simp
  · rw [if_neg hlone] at hsegments
    refine ⟨hsegments ▸ hpieces, hsegments ▸ hclean, ?_⟩
    intro hfloating
    rw [hanchored, Bool.or_eq_false_iff, decide_eq_false_iff_not] at hfloating
    rw [hsegments]
    generalize (pieces (· = .slash) inner).map Segment.ofLexemes = segments at *
    match segments with
    | [] => exact absurd rfl hpieces
    | [.globStar] => exact absurd rfl hlone
    | [.tokens ts] => exact ⟨ts, rfl⟩
    | _ :: _ :: rest =>
      have := hfloating.2
      simp at this

theorem isParsed_parse {body : Text} (h : body ≠ []) : (Glob.parse body).IsParsed :=
  isParsed_ofLexemes (Lexeme.isChain_ofBody body) (fun _ => Lexeme.ne_of_mem_ofBody)
    (Lexeme.ofBody_ne_nil h)

theorem parse_nil : parse [] = ⟨[.tokens []], false, false⟩ := by
  rw [parse, Lexeme.ofBody]
  rfl

theorem segments_parse_ne_nil (body : Text) : (parse body).segments ≠ [] := by
  by_cases hbody : body = []
  · rw [hbody, parse_nil]
    exact List.cons_ne_nil _ _
  · exact (isParsed_parse hbody).segments_ne_nil

theorem exists_tokens_of_floating {body : Text} (h : (parse body).anchored = false) :
    ∃ ts, (parse body).segments = [.tokens ts] := by
  by_cases hbody : body = []
  · exact ⟨[], by rw [hbody, parse_nil]⟩
  · exact (isParsed_parse hbody).floating h

/-- The tokens of a glob are those of its body, and the stars that runs of stars have become. -/
theorem mem_ofBody_of_mem_tokens {body : Text} {ts : List Token} {t : Token}
    (hts : .tokens ts ∈ (parse body).segments) (ht : t ∈ ts) :
    t = .star ∨ Lexeme.token t ∈ Lexeme.ofBody body := by
  by_cases hbody : body = []
  · rw [hbody, parse_nil] at hts
    obtain rfl : ts = [] := by simpa using hts
    cases ht
  obtain ⟨inner, -, hpart, -, -, hsegments, -⟩ := exists_inner (Lexeme.ofBody_ne_nil hbody)
  rw [parse, hsegments] at hts
  split at hts
  · obtain rfl : ts = [.star] := by simpa using hts
    exact Or.inl (List.mem_singleton.mp ht)
  · obtain ⟨piece, hpiece, heq⟩ := List.mem_map.mp hts
    rw [Segment.ofLexemes_eq_tokens heq] at ht
    obtain ⟨l, hl, hlt⟩ := List.mem_filterMap.mp ht
    cases l with
    | slash => cases hlt
    | stars _ =>
      cases hlt
      exact Or.inl rfl
    | token t' =>
      cases hlt
      exact Or.inr (hpart.subset ((isInfix_of_mem_pieces hpiece).subset hl))

theorem exists_tokens_of_mem_ofBody {body : Text} {t : Token}
    (h : Lexeme.token t ∈ Lexeme.ofBody body) :
    ∃ ts, .tokens ts ∈ (parse body).segments ∧ t ∈ ts := by
  obtain ⟨inner, -, -, hkept, -, hsegments, -⟩ := exists_inner (List.ne_nil_of_mem h)
  have hinner : Lexeme.token t ∈ inner := hkept _ h Lexeme.noConfusion
  obtain ⟨piece, hpiece, ht⟩ : ∃ piece ∈ pieces (· = .slash) inner, Lexeme.token t ∈ piece :=
    exists_mem_pieces hinner (decide_eq_false Lexeme.noConfusion)
  have hstars : piece ≠ [.stars 2] := by
    rintro rfl
    exact absurd (List.mem_singleton.mp ht) Lexeme.noConfusion
  have hsegment : Segment.ofLexemes piece = .tokens (Segment.tokensOf piece) := if_neg hstars
  have hmem : .tokens (Segment.tokensOf piece) ∈
      (pieces (· = .slash) inner).map Segment.ofLexemes :=
    hsegment ▸ List.mem_map_of_mem hpiece
  refine ⟨Segment.tokensOf piece, ?_, List.mem_filterMap.mpr ⟨_, ht, rfl⟩⟩
  rw [parse, hsegments, if_neg]
  · exact hmem
  · intro hlone
    rw [hlone] at hmem
    exact absurd (List.mem_singleton.mp hmem) Segment.noConfusion

theorem ne_slash_of_mem_tokens {body : Text} {ts : List Token} {c : Char}
    (hts : .tokens ts ∈ (parse body).segments) (hc : .literal c ∈ ts) : c ≠ '/' := by
  rintro rfl
  rcases mem_ofBody_of_mem_tokens hts hc with hstar | hmem
  · cases hstar
  · exact (Lexeme.ne_of_mem_ofBody hmem).2 rfl

end Glob

end IgnoreRules
