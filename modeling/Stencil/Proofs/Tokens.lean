import Stencil.Token

set_option autoImplicit false

/-!
# Tokens and what follows them

A token does not depend on the text after it once that begins with a character that cannot
continue the token. So a text that ends in a brace begins with the same token whatever is written
behind it (`Token.read_append`).
-/
namespace Stencil
namespace Token

def followed (more : List Char) : Option (List Char × List Char) → Option (List Char × List Char) :=
  Option.map fun found => (found.1, found.2 ++ more)

theorem takeWhile_append_stop {p : Char → Bool} {c : Char} (hc : p c = false)
    (cs more : List Char) : (cs ++ c :: more).takeWhile p = cs.takeWhile p := by
  induction cs with
  | nil => simp [hc]
  | cons d cs ih =>
    rw [List.cons_append, List.takeWhile_cons, List.takeWhile_cons, ih]

theorem dropWhile_append_stop {p : Char → Bool} {c : Char} (hc : p c = false)
    (cs more : List Char) : (cs ++ c :: more).dropWhile p = cs.dropWhile p ++ c :: more := by
  induction cs with
  | nil => simp [hc]
  | cons d cs ih =>
    rw [List.cons_append, List.dropWhile_cons, List.dropWhile_cons, ih]
    split <;> rfl

theorem run?_append_stop {p : Char → Bool} {c : Char} (hc : p c = false) (cs more : List Char) :
    run? p (cs ++ c :: more) = followed (c :: more) (run? p cs) := by
  unfold run?
  rw [takeWhile_append_stop hc, dropWhile_append_stop hc]
  split <;> rfl

theorem run?_all {p : Char → Bool} {text : List Char} {c : Char} (hne : text ≠ [])
    (hall : ∀ x ∈ text, p x = true) (hc : p c = false) (cs : List Char) :
    run? p (text ++ c :: cs) = some (text, c :: cs) := by
  unfold run?
  rw [List.takeWhile_append_of_pos hall, List.dropWhile_append_of_pos hall,
    List.takeWhile_cons_of_neg (by simp [hc]), List.dropWhile_cons_of_neg (by simp [hc]),
    List.append_nil, if_neg hne]

theorem forall_of_run? {cs text rest : List Char} {p : Char → Bool}
    (h : run? p cs = some (text, rest)) : ∀ x ∈ text, p x = true := by
  unfold run? at h
  split at h
  · cases h
  · cases h
    exact List.all_eq_true.1 List.all_takeWhile

structure Breaks (c : Char) : Prop where
  name : isNameChar c = false
  digit : c.isDigit = false
  word : Text.isWord c = false
  point : c ≠ '.'

theorem endsWord_append {c : Char} (hc : Text.isWord c = false) (cs more : List Char) :
    endsWord (cs ++ c :: more) = endsWord cs := by
  cases cs with
  | nil => simp [endsWord, hc]
  | cons d cs => rfl

theorem digits?_of_point {cs whole after : List Char}
    (h : run? Char.isDigit cs = some (whole, '.' :: after)) :
    digits? cs =
      match run? Char.isDigit after with
      | some (places, rest) =>
        if endsWord rest then some (whole ++ '.' :: places, rest) else some (whole, '.' :: after)
      | none => some (whole, '.' :: after) := by
  unfold digits?
  rw [h]
  rfl

theorem digits?_of_end {cs whole rest : List Char} (h : run? Char.isDigit cs = some (whole, rest))
    (hrest : ∀ after, rest ≠ '.' :: after) :
    digits? cs = if endsWord rest then some (whole, rest) else none := by
  unfold digits?
  rw [h]
  split
  · next he => cases he; exact absurd rfl (hrest _)
  · next he => cases he; rfl
  · next he => cases he

theorem digits?_append {c : Char} (hd : c.isDigit = false) (hw : Text.isWord c = false)
    (hdot : c ≠ '.') (cs more : List Char) :
    digits? (cs ++ c :: more) = followed (c :: more) (digits? cs) := by
  have hrun := run?_append_stop hd cs more
  cases h : run? Char.isDigit cs with
  | none =>
    rw [h] at hrun
    unfold digits?
    rw [hrun, h]
    rfl
  | some found =>
    obtain ⟨whole, rest⟩ := found
    rw [h] at hrun
    by_cases hpoint : ∃ after, rest = '.' :: after
    · obtain ⟨after, rfl⟩ := hpoint
      have hrun' : run? Char.isDigit (cs ++ c :: more) =
          some (whole, '.' :: (after ++ c :: more)) := hrun
      rw [digits?_of_point hrun', digits?_of_point h, run?_append_stop hd]
      cases run? Char.isDigit after with
      | none => rfl
      | some places =>
        change (if endsWord (places.2 ++ c :: more) then _ else _) = _
        rw [endsWord_append hw]
        dsimp only
        split <;> rfl
    · have hrest : ∀ after, rest ≠ '.' :: after := fun after he => hpoint ⟨after, he⟩
      have hmore : ∀ after, rest ++ c :: more ≠ '.' :: after := by
        intro after he
        cases rest with
        | nil => exact hdot (List.cons.inj he).1
        | cons d rest => exact hrest rest (by rw [(List.cons.inj he).1])
      rw [digits?_of_end hrun hmore, digits?_of_end h hrest, endsWord_append hw]
      split <;> rfl

theorem number?_unsigned {c : Char} (hc : c ≠ '-') (cs : List Char) :
    number? (c :: cs) = digits? (c :: cs) := by
  unfold number?
  split
  · next he => exact absurd (List.cons.inj he).1 hc
  · rfl

theorem number?_append {c : Char} (hc : Breaks c) (cs more : List Char) :
    number? (cs ++ c :: more) = followed (c :: more) (number? cs) := by
  have hdigits := digits?_append hc.digit hc.word hc.point
  have hminus : c ≠ '-' := by
    rintro rfl
    exact absurd hc.name (by decide)
  cases cs with
  | nil =>
    rw [List.nil_append, number?_unsigned hminus]
    exact hdigits [] more
  | cons d cs =>
    by_cases hd : d = '-'
    · subst hd
      change Option.map _ (digits? (cs ++ c :: more)) = _
      rw [hdigits]
      change _ = followed _ (Option.map _ (digits? cs))
      cases digits? cs <;> rfl
    · rw [List.cons_append, number?_unsigned hd, number?_unsigned hd, ← List.cons_append, hdigits]

theorem closeQuote_cons {quote c : Char} (hc : c ≠ '\\') (cs : List Char) :
    closeQuote quote (c :: cs) =
      if c = quote then some ([c], cs)
      else (closeQuote quote cs).map fun found => (c :: found.1, found.2) := by
  rw [closeQuote]
  · simp only [hc, if_false]
  · intro d ds he
    exact absurd he hc

/-- What stands behind the closing quote has no part in finding it. -/
theorem closeQuote_before {quote : Char} (hquote : quote ≠ '\\') {cs text rest : List Char}
    (h : closeQuote quote cs = some (text, rest)) (other : List Char) :
    closeQuote quote (text ++ other) = some (text, other) := by
  fun_induction closeQuote quote cs generalizing text with
  | case1 => cases h
  | case2 => cases h
  | case3 c cs hc ih =>
    obtain ⟨⟨text', rest'⟩, h', he⟩ := Option.map_eq_some_iff.1 h
    cases he
    simp only [List.cons_append, closeQuote, hc, if_false, ih h', Option.map_some]
  | case4 cs =>
    cases h
    rw [List.cons_append, List.nil_append, closeQuote_cons hquote, if_pos rfl]
  | case5 => cases h
  | case6 c cs _ hq hb ih =>
    obtain ⟨⟨text', rest'⟩, h', he⟩ := Option.map_eq_some_iff.1 h
    cases he
    rw [List.cons_append, closeQuote_cons hb, if_neg hq, ih h']
    rfl

theorem quotation?_before {cs text rest : List Char} (h : quotation? cs = some (text, rest))
    (other : List Char) : quotation? (text ++ other) = some (text, other) := by
  unfold quotation? at h
  split at h
  · next cs =>
    obtain ⟨⟨text', rest'⟩, h', he⟩ := Option.map_eq_some_iff.1 h
    cases he
    change Option.map _ (closeQuote '"' (text' ++ other)) = _
    rw [closeQuote_before (by decide) h']
    rfl
  · next cs =>
    obtain ⟨⟨text', rest'⟩, h', he⟩ := Option.map_eq_some_iff.1 h
    cases he
    change Option.map _ (closeQuote '\'' (text' ++ other)) = _
    rw [closeQuote_before (by decide) h']
    rfl
  · cases h

theorem quotation?_append {cs text rest : List Char} (h : quotation? cs = some (text, rest))
    (more : List Char) : quotation? (cs ++ more) = some (text, rest ++ more) := by
  rw [← (append_of_quotation? h).1, List.append_assoc]
  exact quotation?_before h _

theorem quotation?_eq_none {c : Char} (h1 : c ≠ '"') (h2 : c ≠ '\'') (cs : List Char) :
    quotation? (c :: cs) = none := by
  unfold quotation?
  split
  · next he => exact absurd (List.cons.inj he).1 h1
  · next he => exact absurd (List.cons.inj he).1 h2
  · rfl

theorem bracketed?_before {cs text rest : List Char} (h : bracketed? cs = some (text, rest))
    (other : List Char) : bracketed? (text ++ other) = some (text, other) := by
  unfold bracketed? at h
  split at h
  · next cs =>
    split at h
    · next inner rest hrun =>
      cases h
      have hclose := run?_all (append_of_run? hrun).2 (forall_of_run? hrun)
        (c := ']') (by decide) other
      rw [List.append_assoc, List.cons_append, bracketed?, List.singleton_append, hclose]
      rfl
    · cases h
  · cases h

theorem bracketed?_append {cs text rest : List Char} (h : bracketed? cs = some (text, rest))
    (more : List Char) : bracketed? (cs ++ more) = some (text, rest ++ more) := by
  rw [← (append_of_bracketed? h).1, List.append_assoc]
  exact bracketed?_before h _

theorem bracketed?_eq_none {c : Char} (hc : c ≠ '[') (cs : List Char) :
    bracketed? (c :: cs) = none := by
  unfold bracketed?
  split
  · next he => exact absurd (List.cons.inj he).1 hc
  · rfl

theorem tokenOf_followed (kind : List Char → TokenKind) (more : List Char)
    (split : Option (List Char × List Char)) :
    tokenOf kind (followed more split) =
      (tokenOf kind split).map fun found => (found.1, found.2 ++ more) := by
  cases split <;> rfl

theorem tokenOf_congr {kind : List Char → TokenKind} {split split' : Option (List Char × List Char)}
    {t : Token} {rest rest' : List Char} (h : tokenOf kind split = some (t, rest))
    (h' : split' = some (t.text, rest')) : tokenOf kind split' = some (t, rest') := by
  obtain ⟨found, -, he⟩ := Option.map_eq_some_iff.1 h
  cases he
  rw [h']
  rfl

theorem run?_eq_none {p : Char → Bool} {c : Char} (hc : p c = false) (cs : List Char) :
    run? p (c :: cs) = none := by
  unfold run?
  rw [if_pos (by simp [hc])]

theorem composite?_append {c e : Char} (hq : c ≠ '"') (hq' : c ≠ '\'') (hb : c ≠ '[')
    (he : Breaks e) (hs : Text.isBlank c = false ∨ Text.isBlank e = false) (cs more : List Char) :
    composite? (c :: cs ++ e :: more) =
      (composite? (c :: cs)).map fun found => (found.1, found.2 ++ e :: more) := by
  have hconst : ((quotation? (c :: cs ++ e :: more)).or (number? (c :: cs ++ e :: more))) =
      followed (e :: more) ((quotation? (c :: cs)).or (number? (c :: cs))) := by
    rw [number?_append he, List.cons_append, quotation?_eq_none hq hq', quotation?_eq_none hq hq']
    rfl
  have hname : ((run? isNameChar (c :: cs ++ e :: more)).or
      (bracketed? (c :: cs ++ e :: more))) =
        followed (e :: more) ((run? isNameChar (c :: cs)).or (bracketed? (c :: cs))) := by
    rw [run?_append_stop he.name, List.cons_append, bracketed?_eq_none hb, bracketed?_eq_none hb,
      Option.or_none, Option.or_none]
  have hspace : run? Text.isBlank (c :: cs ++ e :: more) =
      followed (e :: more) (run? Text.isBlank (c :: cs)) := by
    rcases hs with hs | hs
    · rw [List.cons_append, run?_eq_none hs, run?_eq_none hs]
      rfl
    · exact run?_append_stop hs (c :: cs) more
  unfold composite?
  rw [hconst, hname, hspace, tokenOf_followed, tokenOf_followed, tokenOf_followed,
    Option.map_or, Option.map_or]

theorem composite?_of_quote {c : Char} (hc : c = '"' ∨ c = '\'') (cs : List Char) :
    composite? (c :: cs) = tokenOf (fun _ => .const) (quotation? (c :: cs)) := by
  have hname : isNameChar c = false := by rcases hc with rfl | rfl <;> decide
  have hblank : Text.isBlank c = false := by rcases hc with rfl | rfl <;> decide
  have hnumber : number? (c :: cs) = none := by
    rw [number?_unsigned (by rcases hc with rfl | rfl <;> decide), digits?,
      run?_eq_none (by rcases hc with rfl | rfl <;> decide)]
  unfold composite?
  rw [hnumber, run?_eq_none hname, run?_eq_none hblank,
    bracketed?_eq_none (by rcases hc with rfl | rfl <;> decide), Option.or_none]
  exact Option.or_none

theorem composite?_of_bracket (cs : List Char) :
    composite? ('[' :: cs) = tokenOf word (bracketed? ('[' :: cs)) := by
  have hnumber : number? ('[' :: cs) = none := by
    change digits? ('[' :: cs) = none
    unfold digits?
    rw [run?_eq_none (by decide)]
  unfold composite?
  rw [hnumber, run?_eq_none (by decide), run?_eq_none (by decide), quotation?_eq_none (by decide) (by decide)]
  exact Option.or_none

theorem read_of_composite? {cs rest : List Char} {t : Token} (h : composite? cs = some (t, rest)) :
    read cs = .ok (t, rest) := by
  unfold read
  rw [h]

theorem composite?_symbol {c : Char} {kind : TokenKind} (h : symbol? c = some kind)
    (cs : List Char) : composite? (c :: cs) = none := by
  unfold symbol? at h
  split at h <;> first | rfl | cases h

theorem read_symbol {c : Char} {kind : TokenKind} (h : symbol? c = some kind) (cs : List Char) :
    read (c :: cs) = .ok (⟨kind, [c]⟩, cs) := by
  unfold read
  rw [composite?_symbol h]
  dsimp only
  rw [h]

theorem read_eq_symbol {c : Char} {cs rest : List Char} {t : Token}
    (hc : composite? (c :: cs) = none) (h : read (c :: cs) = .ok (t, rest)) :
    symbol? c = some t.kind ∧ t.text = [c] ∧ rest = cs := by
  unfold read at h
  rw [hc] at h
  dsimp only at h
  split at h
  · next hs => cases h; exact ⟨hs, rfl, rfl⟩
  · cases h

theorem breaks_brace : Breaks '\x7d' := ⟨by decide, by decide, by decide, by decide⟩

/-- Text behind a brace does not change the tokens in front. -/
theorem read_append {before rest : List Char} {t : Token}
    (h : read (before ++ ['\x7d']) = .ok (t, rest)) (more : List Char) :
    read (before ++ '\x7d' :: more) = .ok (t, rest ++ more) := by
  cases before with
  | nil =>
    have hbrace : symbol? '\x7d' = some .brace := rfl
    rw [List.nil_append, read_symbol hbrace] at h
    cases h
    exact read_symbol hbrace more
  | cons c cs =>
    have hassoc : c :: cs ++ '\x7d' :: more = c :: cs ++ ['\x7d'] ++ more := by simp
    cases hc : composite? (c :: cs ++ ['\x7d']) with
    | none =>
      obtain ⟨hs, htext, rfl⟩ := read_eq_symbol hc h
      obtain ⟨kind, text⟩ := t
      cases htext
      rw [List.cons_append, read_symbol hs]
      simp
    | some found =>
      rw [read_of_composite? hc] at h
      cases h
      apply read_of_composite?
      by_cases hq : c = '"' ∨ c = '\''
      · rw [List.cons_append, composite?_of_quote hq] at hc
        rw [hassoc, List.cons_append, List.cons_append, composite?_of_quote hq]
        exact tokenOf_congr hc (quotation?_append (of_tokenOf hc) more)
      · by_cases hb : c = '['
        · subst hb
          rw [List.cons_append, composite?_of_bracket] at hc
          rw [hassoc, List.cons_append, List.cons_append, composite?_of_bracket]
          exact tokenOf_congr hc (bracketed?_append (of_tokenOf hc) more)
        · have hstop := composite?_append (fun e => hq (.inl e)) (fun e => hq (.inr e)) hb
            breaks_brace (.inr (by decide)) cs
          rw [hstop []] at hc
          rw [hstop more]
          obtain ⟨split, hsplit, he⟩ := Option.map_eq_some_iff.1 hc
          cases he
          rw [hsplit]
          simp

theorem word_of_bracket (cs : List Char) : word ('[' :: cs) = .ident := by
  simp [word]

/-- The tokens that end at a mark of their own: what stands behind them has no part in them. -/
theorem read_before {c : Char} {cs rest : List Char} {t : Token} (hc : c = '"' ∨ c = '\'' ∨ c = '[')
    (h : read (c :: cs) = .ok (t, rest)) :
    (t.kind = .const ∨ t.kind = .ident) ∧ ∀ other, read (t.text ++ other) = .ok (t, other) := by
  have hnone : symbol? c = none := by rcases hc with rfl | rfl | rfl <;> rfl
  cases hcomposite : composite? (c :: cs) with
  | none => exact absurd ((read_eq_symbol hcomposite h).1.symm.trans hnone) (by simp)
  | some found =>
    have hfound : found = (t, rest) := by
      rw [read_of_composite? hcomposite] at h
      cases h
      rfl
    subst hfound
    obtain ⟨ds, hds⟩ : ∃ ds, t.text = c :: ds := by
      obtain ⟨happend, hne⟩ := append_of_composite? hcomposite
      obtain ⟨d, ds, hds⟩ := List.exists_cons_of_ne_nil hne
      rw [hds] at happend ⊢
      cases happend
      exact ⟨ds, rfl⟩
    rcases or_assoc.2 hc with hquote | rfl
    · rw [composite?_of_quote hquote] at hcomposite
      have hsplit := of_tokenOf hcomposite
      refine ⟨.inl ?_, fun other => read_of_composite? ?_⟩
      · obtain ⟨split, -, he⟩ := Option.map_eq_some_iff.1 hcomposite
        cases he
        rfl
      · have hbefore := quotation?_before hsplit other
        rw [hds] at hbefore ⊢
        rw [List.cons_append, composite?_of_quote hquote, ← List.cons_append]
        exact tokenOf_congr hcomposite (hds ▸ hbefore)
    · rw [composite?_of_bracket] at hcomposite
      have hsplit := of_tokenOf hcomposite
      refine ⟨.inr ?_, fun other => read_of_composite? ?_⟩
      · obtain ⟨split, -, he⟩ := Option.map_eq_some_iff.1 hcomposite
        cases he
        dsimp only at hds ⊢
        rw [hds, word_of_bracket]
      · have hbefore := bracketed?_before hsplit other
        rw [hds] at hbefore ⊢
        rw [List.cons_append, composite?_of_bracket, ← List.cons_append]
        exact tokenOf_congr hcomposite (hds ▸ hbefore)

/-- Without the text behind a brace the first token is the same, or it reaches beyond the brace: only
a constant and a name can hold one. -/
theorem read_cut {before tail rest : List Char} {t : Token}
    (h : read (before ++ '\x7d' :: tail) = .ok (t, rest)) :
    (∃ r, rest = r ++ tail ∧ read (before ++ ['\x7d']) = .ok (t, r)) ∨
      rest.length < tail.length ∧ (t.kind = .const ∨ t.kind = .ident) := by
  cases before with
  | nil =>
    have hbrace : symbol? '\x7d' = some .brace := rfl
    rw [List.nil_append, read_symbol hbrace] at h
    cases h
    exact .inl ⟨[], rfl, read_symbol hbrace []⟩
  | cons c cs =>
    by_cases hmark : c = '"' ∨ c = '\'' ∨ c = '['
    · obtain ⟨hkind, hbefore⟩ := read_before hmark h
      by_cases hlength : rest.length < tail.length
      · exact .inr ⟨hlength, hkind⟩
      · have happend : t.text ++ rest = c :: cs ++ ['\x7d'] ++ tail := by
          rw [(append_of_read h).1, List.append_assoc]
          rfl
        rcases List.append_eq_append_iff.1 happend with ⟨r, hcs, rfl⟩ | ⟨r, htext, htail⟩
        · exact .inl ⟨r, rfl, hcs ▸ hbefore r⟩
        · have hr : r = [] := by
            rw [htail, List.length_append] at hlength
            exact List.length_eq_zero_iff.1 (by omega)
          subst hr
          rw [List.append_nil] at htext
          exact .inl ⟨[], htail.symm, by rw [← htext, ← List.append_nil t.text]; exact hbefore []⟩
    · obtain ⟨hq, hq', hb⟩ := not_or.1 hmark |>.imp id not_or.1
      have hstop := composite?_append hq hq' hb breaks_brace (.inr (by decide)) cs
      cases hcomposite : composite? (c :: cs) with
      | none =>
        rw [hcomposite] at hstop
        obtain ⟨hs, htext, rfl⟩ := read_eq_symbol (hstop tail) h
        obtain ⟨kind, text⟩ := t
        cases htext
        exact .inl ⟨cs ++ ['\x7d'], by simp, read_symbol hs _⟩
      | some found =>
        rw [hcomposite] at hstop
        rw [read_of_composite? (hstop tail)] at h
        cases h
        exact .inl ⟨found.2 ++ ['\x7d'], by simp, read_of_composite? (hstop [])⟩

end Token
end Stencil
