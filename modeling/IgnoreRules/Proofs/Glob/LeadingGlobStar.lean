import IgnoreRules.Proofs.Glob.Boundaries
import IgnoreRules.Proofs.Glob.Components

/-! # A `**` at the start

A body of one segment matches at any depth, and a `**` in front of it asks for nothing more. The
first is searched behind any separator and the second from the root through any directories, but
both may begin in the same places.
-/

namespace IgnoreRules

namespace Lexeme

variable {body : Text} {rest : List Lexeme}

theorem ofBody_eq_nil_iff : ofBody body = [] ↔ body = [] := by
  constructor
  · exact fun h => by_contra fun hne => ofBody_ne_nil hne h
  · rintro rfl
    rw [ofBody]

/-- A run of stars is read from as many stars, and the rest from what follows. -/
theorem exists_of_ofBody_stars {count : Nat} (h : ofBody body = .stars count :: rest) :
    ∃ back, body = List.replicate count '*' ++ back ∧ ofBody back = rest := by
  fun_induction ofBody body generalizing count rest with
  | case6 back ih =>
    unfold pushStar at h
    split at h
    · next n others hothers =>
      obtain ⟨back', rfl, hback⟩ := ih hothers
      cases h
      exact ⟨back', rfl, hback⟩
    · cases h
      exact ⟨back, rfl, rfl⟩
  | _ => cases h

theorem eq_of_ofBody_slash (h : ofBody body = [.slash]) : body = ['/'] ∨ body = ['\\', '/'] := by
  have hnil : ∀ {back : Text}, Lexeme.slash :: ofBody back = [.slash] → back = [] :=
    fun h => ofBody_eq_nil_iff.mp (List.cons.inj h).2
  fun_induction ofBody body with
  | case3 back => exact Or.inr (by rw [hnil h])
  | case5 back => exact Or.inl (by rw [hnil h])
  | case6 back =>
    unfold pushStar at h
    split at h <;> cases h
  | _ => cases h

/-- Before a separator, a run of stars and nothing else is read from the stars alone, or from them
and a backslash that escapes the separator. -/
theorem eq_of_beforeSlash_eq_stars {count : Nat} {text : Text}
    (h : beforeSlash text = [.stars count]) :
    text = List.replicate count '*' ∨ text = List.replicate count '*' ++ ['\\'] := by
  have hbody := ofBody_concat_slash text
  rw [h] at hbody
  obtain ⟨back, htext, hback⟩ := exists_of_ofBody_stars hbody
  rcases eq_of_ofBody_slash hback with rfl | rfl
  · exact Or.inl (List.append_cancel_right htext)
  · exact Or.inr ((List.append_left_inj ['/']).mp (by simpa using htext))

def finalSlash (directory : Bool) : List Lexeme := if directory then [.slash] else []

/-- A body with a `/` nowhere but at its end is read as one segment, and perhaps a separator. If the
body is neither empty nor `**`, with or without a separator, the segment is no `**` either. -/
theorem exists_segment_of_slash_notMem (hslash : '/' ∉ body.dropLast)
    (hbody : body ∉ [[], ['*', '*'], ['*', '*', '/'], ['*', '*', '\\', '/']]) :
    ∃ lexemes directory, ofBody body = lexemes ++ finalSlash directory ∧ .slash ∉ lexemes ∧
      lexemes ≠ [.stars 2] ∧ (directory = false → lexemes ≠ []) := by
  by_cases hlast : body.getLast? = some '/'
  · obtain ⟨text, rfl⟩ := List.getLast?_eq_some_iff.mp hlast
    rw [List.dropLast_concat] at hslash
    refine ⟨beforeSlash text, true, ofBody_concat_slash text, ?_, ?_, Bool.noConfusion⟩
    · exact fun hmem => hslash (slash_mem_beforeSlash.mp hmem)
    · intro hstars
      rcases eq_of_beforeSlash_eq_stars hstars with rfl | rfl <;> exact hbody (by decide)
  · have hne : body ≠ [] := by
      rintro rfl
      exact hbody (by decide)
    refine ⟨ofBody body, false, (List.append_nil _).symm, ?_, ?_, fun _ => ofBody_ne_nil hne⟩
    · intro hmem
      have hslash' := slash_mem_ofBody.mp hmem
      rw [← List.dropLast_concat_getLast hne, List.mem_append, List.mem_singleton] at hslash'
      refine hslash'.elim hslash fun heq => hlast ?_
      rw [heq, List.getLast?_eq_some_getLast]
    · intro hstars
      obtain ⟨back, rfl, hback⟩ := exists_of_ofBody_stars hstars
      obtain rfl := ofBody_eq_nil_iff.mp hback
      exact hbody (by decide)

end Lexeme

namespace Glob

open Lexeme (finalSlash)

/-- The separator at the end is all that is taken away from lexemes that do not begin with one. -/
theorem ofLexemes_append_finalSlash {lexemes : List Lexeme} {directory : Bool}
    (hhead : lexemes.head? ≠ some .slash)
    (hlast : directory = false → lexemes.getLast? ≠ some .slash) :
    ofLexemes (lexemes ++ finalSlash directory) =
      let segments := (pieces (· = .slash) lexemes).map Segment.ofLexemes
      ⟨if segments = [.globStar] then [.tokens [.star]] else segments,
        decide (segments.length > 1), directory⟩ := by
  have hfinal : (lexemes ++ finalSlash directory).getLast? = some .slash ↔ directory = true := by
    cases directory with
    | true => simp [finalSlash]
    | false => simp [finalSlash, hlast]
  have hinner : (if directory = true then (lexemes ++ finalSlash directory).dropLast
      else lexemes ++ finalSlash directory) = lexemes := by
    cases directory <;> simp [finalSlash]
  simp only [ofLexemes, hfinal, hinner, hhead, if_false, decide_false, Bool.false_or,
    Bool.decide_eq_true]

/-- The lexemes of one segment, alone and behind a `**`. -/
theorem exists_ofLexemes_segment {lexemes : List Lexeme} {directory : Bool}
    (hslash : .slash ∉ lexemes) (hstars : lexemes ≠ [.stars 2])
    (hne : directory = false → lexemes ≠ []) :
    ∃ ts, ofLexemes (lexemes ++ finalSlash directory) = ⟨[.tokens ts], false, directory⟩ ∧
      ofLexemes ([.stars 2, .slash] ++ lexemes ++ finalSlash directory) =
        ⟨[.globStar, .tokens ts], true, directory⟩ := by
  have hhead : lexemes.head? ≠ some .slash := fun h => hslash (List.mem_of_head? h)
  have hlast : lexemes.getLast? ≠ some .slash := fun h => hslash (List.mem_of_getLast? h)
  have hpieces : pieces (· = .slash) lexemes = [lexemes] :=
    pieces_eq_singleton fun l hl => decide_eq_false fun heq => hslash (heq ▸ hl)
  have hsegment : Segment.ofLexemes lexemes = .tokens (Segment.tokensOf lexemes) := if_neg hstars
  refine ⟨Segment.tokensOf lexemes, ?_, ?_⟩
  · rw [ofLexemes_append_finalSlash hhead fun _ => hlast, hpieces]
    simp [hsegment]
  · have hsegments : (pieces (· = .slash) ([.stars 2, .slash] ++ lexemes)).map Segment.ofLexemes =
        [.globStar, .tokens (Segment.tokensOf lexemes)] := by
      have hsplit : pieces (· = .slash) ([.stars 2] ++ .slash :: lexemes) =
          pieces (· = .slash) [.stars 2] ++ pieces (· = .slash) lexemes :=
        pieces_append_cons (by decide) _ _
      rw [hpieces] at hsplit
      rw [← hsegment]
      exact congrArg (List.map Segment.ofLexemes) hsplit
    have hlast' : directory = false →
        ([Lexeme.stars 2, .slash] ++ lexemes).getLast? ≠ some .slash := by
      intro hfile
      rwa [List.getLast?_append_of_ne_nil _ (hne hfile)]
    rw [ofLexemes_append_finalSlash (by simp) hlast', hsegments]
    simp

/-- A body of one segment, alone and behind a `**`. -/
theorem exists_parse_segment {body : Text} (hslash : '/' ∉ body.dropLast)
    (hbody : body ∉ [[], ['*', '*'], ['*', '*', '/'], ['*', '*', '\\', '/']]) :
    ∃ ts directory, parse body = ⟨[.tokens ts], false, directory⟩ ∧
      parse (['*', '*', '/'] ++ body) = ⟨[.globStar, .tokens ts], true, directory⟩ := by
  obtain ⟨lexemes, directory, hread, hnone, hstars, hne⟩ :=
    Lexeme.exists_segment_of_slash_notMem hslash hbody
  obtain ⟨ts, hlone, hleading⟩ := exists_ofLexemes_segment hnone hstars hne
  have hglobStar : Lexeme.ofBody (['*', '*', '/'] ++ body) =
      [.stars 2, .slash] ++ lexemes ++ finalSlash directory := by
    have hcut := Lexeme.ofBody_append_slash ['*', '*'] body
    have hfirst : Lexeme.beforeSlash ['*', '*'] = [.stars 2] := by decide +kernel
    rw [hfirst, hread] at hcut
    rw [List.append_assoc]
    exact hcut
  exact ⟨ts, directory, by rw [parse, hread, hlone], by rw [parse, hglobStar, hleading]⟩

theorem matches_leading_globStar {case : CaseSensitivity} {ts : List Token} {directory : Bool}
    {text : Text} :
    Matches case ⟨[.globStar, .tokens ts], true, directory⟩ text ↔
      Matches case ⟨[.tokens ts], false, directory⟩ text := by
  have hopens : ∀ before, Opens ⟨[.globStar, .tokens ts], true, directory⟩ before ↔
      Opens ⟨[.tokens ts], false, directory⟩ before := by
    intro before
    refine or_congr_right (and_congr_left fun _ => iff_of_true ?_ (Or.inr rfl))
    exact Or.inl ⟨.tokens ts, [], rfl⟩
  simp only [Matches, hopens, core, Segment.closes_cons (List.cons_ne_nil (Segment.tokens ts) [])]

end Glob

/-- A `**` in front of a body of one segment changes nothing, on whatever text the two are tried. The
body has a `/` nowhere but at its end, and it is neither empty nor itself a `**`, with or without a
separator behind it. -/
theorem RegexMatcher.isMatch_leading_globStar {engine : Engine} {body : Text}
    (hslash : '/' ∉ body.dropLast)
    (hbody : body ∉ [[], ['*', '*'], ['*', '*', '/'], ['*', '*', '\\', '/']])
    {negative negative' : Bool} {case : CaseSensitivity}
    (haccepted : Accepted engine ⟨body, negative, case⟩)
    (haccepted' : Accepted engine ⟨['*', '*', '/'] ++ body, negative', case⟩) (path : Text) :
    (compile ⟨['*', '*', '/'] ++ body, negative', case⟩ engine).isMatch path =
      (compile ⟨body, negative, case⟩ engine).isMatch path := by
  obtain ⟨ts, directory, hlone, hleading⟩ := Glob.exists_parse_segment hslash hbody
  rw [Bool.eq_iff_iff, compile, compile, Glob.isMatch_ofGlob haccepted,
    Glob.isMatch_ofGlob haccepted', hlone, hleading, Glob.matches_leading_globStar]
  simp [Glob.canMatch, Segment.canMatch]

/-- The separator is escaped, and the path repeats its separators and has a line break for a name. -/
theorem RegexMatcher.isMatch_leading_globStar_escaped :
    let body : Text := ['*', '[', '!', 'b', ']', '\\', '/']
    let path : Text := ['/', '/', '\n', '/']
    (compile ⟨['*', '*', '/'] ++ body, false, .sensitive⟩ .bounded).isMatch path =
      (compile ⟨body, false, .sensitive⟩ .bounded).isMatch path ∧
      (compile ⟨body, false, .sensitive⟩ .bounded).isMatch path = true := by
  intro body path
  have haccepted : Accepted .bounded ⟨body, false, .sensitive⟩ := by decide +kernel
  have haccepted' : Accepted .bounded ⟨['*', '*', '/'] ++ body, false, .sensitive⟩ := by
    decide +kernel
  exact ⟨isMatch_leading_globStar (by decide) (by decide) haccepted haccepted' path,
    by decide +kernel⟩

end IgnoreRules
