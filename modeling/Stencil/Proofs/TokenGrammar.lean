import Stencil.Proofs.Tokens

set_option autoImplicit false

/-!
# The token grammar

The texts of a tag's tokens by class: constants, names, white space and symbols. What is read in
front of a text is of the first class that any part in front belongs to, and the longest of that
class (`Token.preferred_of_read`); where nothing is read, no part in front belongs to any class
(`Token.unmatched_of_read`).
-/
namespace Stencil
namespace Token

def Run (p : Char → Bool) (text : List Char) : Prop := text ≠ [] ∧ ∀ c ∈ text, p c = true

/-- What may stand between two quotes: a backslash takes the next character with it, which is not a
line break. -/
inductive Quotable (quote : Char) : List Char → Prop
  | nil : Quotable quote []
  | single {c : Char} {cs : List Char} (hquote : c ≠ quote) (hbackslash : c ≠ '\\')
      (hcs : Quotable quote cs) : Quotable quote (c :: cs)
  | pair {c : Char} {cs : List Char} (hc : c ≠ '\n') (hcs : Quotable quote cs) :
      Quotable quote ('\\' :: c :: cs)

def Quotation (text : List Char) : Prop :=
  ∃ quote body, (quote = '"' ∨ quote = '\'') ∧ Quotable quote body ∧ text = quote :: (body ++ [quote])

def Decimals (text : List Char) : Prop :=
  Run Char.isDigit text ∨
    ∃ whole places, Run Char.isDigit whole ∧ Run Char.isDigit places ∧ text = whole ++ '.' :: places

def Numeral (text : List Char) : Prop :=
  Decimals text ∨ ∃ decimals, Decimals decimals ∧ text = '-' :: decimals

def Bracketed (text : List Char) : Prop :=
  ∃ inner, Run (· ≠ ']') inner ∧ text = '[' :: inner ++ [']']

inductive TokenClass
  | constant | name | space | symbol
  deriving Repr, DecidableEq

def TokenClass.rank : TokenClass → Nat
  | .constant => 0
  | .name => 1
  | .space => 2
  | .symbol => 3

/-- A text of a class, with what stands behind it: a number may not run into a word. -/
def Matches : TokenClass → List Char → List Char → Prop
  | .constant, text, rest => Quotation text ∨ Numeral text ∧ endsWord rest = true
  | .name, text, _ => Run isNameChar text ∨ Bracketed text
  | .space, text, _ => Run Text.isBlank text
  | .symbol, text, _ => ∃ c kind, symbol? c = some kind ∧ text = [c]

def Sorted : TokenClass → Token → Prop
  | .constant, t => t.kind = .const
  | .name, t => t.kind = word t.text
  | .space, t => t.kind = .space
  | .symbol, t => ∃ c, symbol? c = some t.kind ∧ t.text = [c]

/-- Of all that could stand in front of a text, the first by class and then the longest. -/
structure Preferred (cs : List Char) (cl : TokenClass) (text rest : List Char) : Prop where
  parts : text ++ rest = cs
  fits : Matches cl text rest
  best : ∀ cl' text' rest', text' ++ rest' = cs → Matches cl' text' rest' →
    cl.rank < cl'.rank ∨ cl = cl' ∧ text'.length ≤ text.length

def Unmatched (cs : List Char) : Prop :=
  ∀ cl text rest, text ++ rest = cs → ¬ Matches cl text rest

/-- A search for a part in front of a text finds the longest one that is fit, if there is any. -/
structure Finds (fit : List Char → List Char → Prop)
    (find : List Char → Option (List Char × List Char)) : Prop where
  sound : ∀ {cs text rest}, find cs = some (text, rest) → text ++ rest = cs ∧ fit text rest
  longest : ∀ {text rest}, fit text rest →
    ∃ found, find (text ++ rest) = some found ∧ text.length ≤ found.1.length

variable {fit fit' : List Char → List Char → Prop}
  {find find' : List Char → Option (List Char × List Char)}

/-- Two searches one after the other, if nothing is fit for both. -/
theorem Finds.or (h : Finds fit find) (h' : Finds fit' find')
    (hapart : ∀ {text rest text' rest'}, fit text rest → fit' text' rest' →
      text ++ rest ≠ text' ++ rest') :
    Finds (fun text rest => fit text rest ∨ fit' text rest) (fun cs => (find cs).or (find' cs)) where
  sound hfind := by
    rcases Option.or_eq_some_iff.1 hfind with hfind | ⟨-, hfind⟩
    · exact (h.sound hfind).imp_right .inl
    · exact (h'.sound hfind).imp_right .inr
  longest hfit := by
    rcases hfit with hfit | hfit
    · obtain ⟨found, hfound, hlength⟩ := h.longest hfit
      exact ⟨found, by rw [hfound, Option.some_or], hlength⟩
    · obtain ⟨found, hfound, hlength⟩ := h'.longest hfit
      refine ⟨found, ?_, hlength⟩
      cases hfirst : find _ with
      | none => rw [Option.none_or, hfound]
      | some first => exact absurd (h.sound hfirst).1 (hapart (h.sound hfirst).2 hfit)

theorem Finds.eq_none (h : Finds fit find) {cs text rest : List Char} (hnone : find cs = none)
    (hparts : text ++ rest = cs) : ¬ fit text rest := by
  rintro hfit
  obtain ⟨found, hfound, -⟩ := h.longest hfit
  rw [hparts, hnone] at hfound
  cases hfound

theorem Finds.length_le (h : Finds fit find) {cs text rest text' rest' : List Char}
    (hfound : find cs = some (text, rest)) (hparts : text' ++ rest' = cs) (hfit : fit text' rest') :
    text'.length ≤ text.length := by
  obtain ⟨found, hfound', hlength⟩ := h.longest hfit
  rw [hparts, hfound] at hfound'
  cases hfound'
  exact hlength

theorem run_of_run? {p : Char → Bool} {cs text rest : List Char} (h : run? p cs = some (text, rest)) :
    Run p text :=
  ⟨(append_of_run? h).2, forall_of_run? h⟩

theorem finds_run (p : Char → Bool) : Finds (fun text _ => Run p text) (run? p) where
  sound h := ⟨(append_of_run? h).1, run_of_run? h⟩
  longest {text rest} h := by
    have htake : (text ++ rest).takeWhile p = text ++ rest.takeWhile p :=
      List.takeWhile_append_of_pos h.2
    refine ⟨_, if_neg ?_, ?_⟩
    · rw [htake]
      exact List.append_ne_nil_of_left_ne_nil h.1 _
    · change text.length ≤ ((text ++ rest).takeWhile p).length
      rw [htake, List.length_append]
      omega

/-- A run is cut off where a character of another sort follows. -/
theorem run?_cut {p : Char → Bool} {text rest : List Char} (h : Run p text)
    (hrest : ∀ c cs, rest = c :: cs → p c = false) : run? p (text ++ rest) = some (text, rest) := by
  cases rest with
  | nil =>
    unfold run?
    rw [List.takeWhile_append_of_pos h.2, List.dropWhile_append_of_pos h.2, List.takeWhile_nil,
      List.append_nil, if_neg h.1, List.dropWhile_nil]
  | cons c cs => exact run?_all h.1 h.2 (hrest c cs rfl) cs

theorem quotable_of_closeQuote {quote : Char} {cs text rest : List Char}
    (h : closeQuote quote cs = some (text, rest)) :
    ∃ body, Quotable quote body ∧ text = body ++ [quote] := by
  fun_induction closeQuote quote cs generalizing text with
  | case1 => cases h
  | case2 => cases h
  | case3 c cs hc ih =>
    obtain ⟨⟨text', rest'⟩, h', he⟩ := Option.map_eq_some_iff.1 h
    cases he
    obtain ⟨body, hbody, rfl⟩ := ih h'
    exact ⟨_, hbody.pair hc, rfl⟩
  | case4 => cases h; exact ⟨[], .nil, rfl⟩
  | case5 => cases h
  | case6 c cs _ hquote hbackslash ih =>
    obtain ⟨⟨text', rest'⟩, h', he⟩ := Option.map_eq_some_iff.1 h
    cases he
    obtain ⟨body, hbody, rfl⟩ := ih h'
    exact ⟨_, hbody.single hquote hbackslash, rfl⟩

theorem Quotable.closeQuote {quote : Char} (hquote : quote ≠ '\\') {body : List Char}
    (h : Quotable quote body) (rest : List Char) :
    closeQuote quote (body ++ quote :: rest) = some (body ++ [quote], rest) := by
  induction h with
  | nil => rw [List.nil_append, closeQuote_cons hquote, if_pos rfl, List.nil_append]
  | single hc hbackslash _ ih =>
    rw [List.cons_append, closeQuote_cons hbackslash, if_neg hc, ih]
    rfl
  | pair hc _ ih =>
    rw [List.cons_append, List.cons_append, Token.closeQuote, if_neg hc, ih]
    rfl

theorem quotation_of_closeQuote {quote : Char} (hquote : quote = '"' ∨ quote = '\'')
    {cs text rest : List Char}
    (h : (closeQuote quote cs).map (fun found => (quote :: found.1, found.2)) = some (text, rest)) :
    Quotation text := by
  obtain ⟨⟨text', rest'⟩, h', he⟩ := Option.map_eq_some_iff.1 h
  cases he
  obtain ⟨body, hbody, rfl⟩ := quotable_of_closeQuote h'
  exact ⟨quote, body, hquote, hbody, rfl⟩

theorem finds_quotation : Finds (fun text _ => Quotation text) quotation? where
  sound h := by
    refine ⟨(append_of_quotation? h).1, ?_⟩
    unfold quotation? at h
    split at h
    · exact quotation_of_closeQuote (.inl rfl) h
    · exact quotation_of_closeQuote (.inr rfl) h
    · cases h
  longest {text rest} h := by
    refine ⟨(text, rest), ?_, Nat.le_refl _⟩
    obtain ⟨quote, body, hquote, hbody, rfl⟩ := h
    have hclose := hbody.closeQuote (by rcases hquote with rfl | rfl <;> decide) rest
    rw [List.cons_append, List.append_assoc, List.singleton_append]
    rcases hquote with rfl | rfl
    · rw [quotation?, hclose]
      rfl
    · rw [quotation?, hclose]
      rfl

theorem not_digit_of_endsWord {rest : List Char} (h : endsWord rest = true) :
    ∀ c cs, rest = c :: cs → c.isDigit = false := by
  rintro c cs rfl
  have hword : Text.isWord c = false := by simpa [endsWord] using h
  cases hdigit : c.isDigit with
  | false => rfl
  | true =>
    have halnum : Text.asciiWord c = true := by simp [Text.asciiWord, Char.isAlphanum, hdigit]
    have hascii : c.toNat < 128 := by
      simp only [Char.isDigit, Bool.and_eq_true, decide_eq_true_eq] at hdigit
      have : c.toNat ≤ 57 := hdigit.2
      omega
    rw [Text.isWord, if_pos hascii, halnum] at hword
    cases hword

theorem finds_digits : Finds (fun text rest => Decimals text ∧ endsWord rest = true) digits? where
  sound {cs text rest} h := by
    refine ⟨(append_of_digits? h).1, ?_⟩
    unfold digits? at h
    split at h
    · next hwhole =>
      split at h
      · next hplaces =>
        split at h
        · next hends =>
          cases h
          exact ⟨.inr ⟨_, _, run_of_run? hwhole, run_of_run? hplaces, rfl⟩, hends⟩
        · cases h
          exact ⟨.inl (run_of_run? hwhole), rfl⟩
      · cases h
        exact ⟨.inl (run_of_run? hwhole), rfl⟩
    · next hwhole =>
      split at h
      · next hends => cases h; exact ⟨.inl (run_of_run? hwhole), hends⟩
      · cases h
    · cases h
  longest {text rest} h := by
    obtain ⟨hwhole | ⟨whole, places, hwhole, hplaces, rfl⟩, hends⟩ := h
    · have hrun := run?_cut hwhole (not_digit_of_endsWord hends)
      by_cases hpoint : ∃ after, rest = '.' :: after
      · obtain ⟨after, rfl⟩ := hpoint
        rw [digits?_of_point hrun]
        split
        · split
          · exact ⟨_, rfl, by simp⟩
          · exact ⟨_, rfl, Nat.le_refl _⟩
        · exact ⟨_, rfl, Nat.le_refl _⟩
      · rw [digits?_of_end hrun fun after he => hpoint ⟨after, he⟩, if_pos hends]
        exact ⟨_, rfl, Nat.le_refl _⟩
    · have hrun : run? Char.isDigit (whole ++ '.' :: (places ++ rest)) = _ :=
        run?_cut hwhole (by rintro c cs he; cases he; decide)
      rw [List.append_assoc, List.cons_append, digits?_of_point hrun,
        run?_cut hplaces (not_digit_of_endsWord hends)]
      exact ⟨_, if_pos hends, Nat.le_refl _⟩

theorem Decimals.exists_cons {text : List Char} (h : Decimals text) :
    ∃ c cs, text = c :: cs ∧ c.isDigit = true := by
  rcases h with ⟨hne, hall⟩ | ⟨whole, places, ⟨hne, hall⟩, -, rfl⟩
  · obtain ⟨c, cs, rfl⟩ := List.exists_cons_of_ne_nil hne
    exact ⟨c, cs, rfl, hall c List.mem_cons_self⟩
  · obtain ⟨c, cs, rfl⟩ := List.exists_cons_of_ne_nil hne
    exact ⟨c, _, rfl, hall c List.mem_cons_self⟩

theorem finds_number : Finds (fun text rest => Numeral text ∧ endsWord rest = true) number? where
  sound h := by
    refine ⟨(append_of_number? h).1, ?_⟩
    unfold number? at h
    split at h
    · obtain ⟨⟨text', rest'⟩, h', he⟩ := Option.map_eq_some_iff.1 h
      cases he
      obtain ⟨hdecimals, hends⟩ := (finds_digits.sound h').2
      exact ⟨.inr ⟨_, hdecimals, rfl⟩, hends⟩
    · exact (finds_digits.sound h).2.imp_left .inl
  longest {text rest} h := by
    obtain ⟨hdecimals | ⟨decimals, hdecimals, rfl⟩, hends⟩ := h
    · obtain ⟨found, hfound, hlength⟩ := finds_digits.longest ⟨hdecimals, hends⟩
      obtain ⟨c, cs, rfl, hdigit⟩ := hdecimals.exists_cons
      have hc : c ≠ '-' := by
        rintro rfl
        cases hdigit
      rw [List.cons_append, number?_unsigned hc]
      exact ⟨found, hfound, hlength⟩
    · obtain ⟨found, hfound, hlength⟩ := finds_digits.longest ⟨hdecimals, hends⟩
      rw [List.cons_append, number?, hfound]
      exact ⟨_, rfl, Nat.succ_le_succ hlength⟩

theorem finds_bracketed : Finds (fun text _ => Bracketed text) bracketed? where
  sound h := by
    refine ⟨(append_of_bracketed? h).1, ?_⟩
    unfold bracketed? at h
    split at h
    · split at h
      · next hrun =>
        cases h
        exact ⟨_, run_of_run? hrun, rfl⟩
      · cases h
    · cases h
  longest {text rest} h := by
    refine ⟨(text, rest), ?_, Nat.le_refl _⟩
    obtain ⟨inner, hinner, rfl⟩ := h
    have hrun : run? (· ≠ ']') (inner ++ ']' :: rest) = _ :=
      run?_cut hinner (by rintro c cs he; cases he; decide)
    rw [List.append_assoc, List.cons_append, bracketed?, List.singleton_append, hrun]
    rfl

theorem finds_constant :
    Finds (Matches .constant) (fun cs => (quotation? cs).or (number? cs)) := by
  refine finds_quotation.or finds_number ?_
  rintro text rest text' rest' ⟨quote, body, hquote, -, rfl⟩ ⟨hnumeral, -⟩ he
  rcases hnumeral with hdecimals | ⟨decimals, -, rfl⟩
  · obtain ⟨c, cs, rfl, hdigit⟩ := hdecimals.exists_cons
    obtain rfl : quote = c := (List.cons.inj he).1
    rcases hquote with rfl | rfl <;> cases hdigit
  · obtain rfl : quote = '-' := (List.cons.inj he).1
    rcases hquote with h | h <;> cases h

theorem finds_name :
    Finds (Matches .name) (fun cs => (run? isNameChar cs).or (bracketed? cs)) := by
  refine (finds_run isNameChar).or finds_bracketed ?_
  rintro text rest text' rest' ⟨hne, hall⟩ ⟨inner, -, rfl⟩ he
  obtain ⟨c, cs, rfl⟩ := List.exists_cons_of_ne_nil hne
  obtain rfl : c = '[' := (List.cons.inj he).1
  exact absurd (hall '[' List.mem_cons_self) (by decide)

def search : TokenClass → List Char → Option (List Char × List Char)
  | .constant, cs => (quotation? cs).or (number? cs)
  | .name, cs => (run? isNameChar cs).or (bracketed? cs)
  | .space, cs => run? Text.isBlank cs
  | .symbol, [] => none
  | .symbol, c :: cs => (symbol? c).map fun _ => ([c], cs)

theorem finds_search (cl : TokenClass) : Finds (Matches cl) (search cl) := by
  cases cl with
  | constant => exact finds_constant
  | name => exact finds_name
  | space => exact finds_run Text.isBlank
  | symbol =>
    refine ⟨fun {cs text rest} h => ?_, ?_⟩
    · cases cs with
      | nil => cases h
      | cons c cs =>
        obtain ⟨kind, hkind, he⟩ := Option.map_eq_some_iff.1 h
        cases he
        exact ⟨rfl, c, kind, hkind, rfl⟩
    · rintro _ rest ⟨c, kind, hkind, rfl⟩
      exact ⟨([c], rest), by rw [List.singleton_append, search, hkind, Option.map_some], Nat.le_refl _⟩

/-- What the search of a class finds is preferred if the searches before it find nothing. -/
theorem preferred_of_search {cl : TokenClass} {cs text rest : List Char}
    (hfound : search cl cs = some (text, rest))
    (hbefore : ∀ cl', cl'.rank < cl.rank → search cl' cs = none) : Preferred cs cl text rest where
  parts := ((finds_search cl).sound hfound).1
  fits := ((finds_search cl).sound hfound).2
  best cl' text' rest' hparts hfits := by
    rcases Nat.lt_trichotomy cl.rank cl'.rank with hlater | hsame | hearlier
    · exact .inl hlater
    · obtain rfl : cl = cl' := by cases cl <;> cases cl' <;> first | rfl | cases hsame
      exact .inr ⟨rfl, (finds_search cl).length_le hfound hparts hfits⟩
    · exact absurd hfits ((finds_search cl').eq_none (hbefore cl' hearlier) hparts)

theorem search_of_composite? {cs rest : List Char} {t : Token} (h : composite? cs = some (t, rest)) :
    ∃ cl, search cl cs = some (t.text, rest) ∧ (∀ cl', cl'.rank < cl.rank → search cl' cs = none) ∧
      Sorted cl t := by
  unfold composite? at h
  rcases Option.or_eq_some_iff.1 h with hconstant | ⟨hconstant, h⟩
  · obtain ⟨found, hfound, he⟩ := Option.map_eq_some_iff.1 hconstant
    cases he
    exact ⟨.constant, hfound, fun cl' hrank => absurd hrank (Nat.not_lt_zero _), rfl⟩
  have hconstant : search .constant cs = none := Option.map_eq_none_iff.1 hconstant
  rcases Option.or_eq_some_iff.1 h with hname | ⟨hname, hspace⟩
  · obtain ⟨found, hfound, he⟩ := Option.map_eq_some_iff.1 hname
    cases he
    refine ⟨.name, hfound, fun cl' hrank => ?_, rfl⟩
    cases cl' with
    | constant => exact hconstant
    | name | space | symbol => exact absurd hrank (by decide)
  have hname : search .name cs = none := Option.map_eq_none_iff.1 hname
  obtain ⟨found, hfound, he⟩ := Option.map_eq_some_iff.1 hspace
  cases he
  refine ⟨.space, hfound, fun cl' hrank => ?_, rfl⟩
  cases cl' with
  | constant => exact hconstant
  | name => exact hname
  | space | symbol => exact absurd hrank (by decide)

theorem search_of_not_composite? {cs : List Char} (h : composite? cs = none) {cl : TokenClass}
    (hcl : cl ≠ .symbol) : search cl cs = none := by
  unfold composite? at h
  obtain ⟨hconstant, h⟩ := Option.or_eq_none_iff.1 h
  obtain ⟨hname, hspace⟩ := Option.or_eq_none_iff.1 h
  cases cl with
  | constant => exact Option.map_eq_none_iff.1 hconstant
  | name => exact Option.map_eq_none_iff.1 hname
  | space => exact Option.map_eq_none_iff.1 hspace
  | symbol => exact absurd rfl hcl

/-- The token read in front of a text is the preferred one. -/
theorem preferred_of_read {cs rest : List Char} {t : Token} (h : read cs = .ok (t, rest)) :
    ∃ cl, Preferred cs cl t.text rest ∧ Sorted cl t := by
  cases hc : composite? cs with
  | some found =>
    rw [read_of_composite? hc] at h
    cases h
    obtain ⟨cl, hfound, hbefore, hsorted⟩ := search_of_composite? hc
    exact ⟨cl, preferred_of_search hfound hbefore, hsorted⟩
  | none =>
    obtain ⟨hparts, hne⟩ := append_of_read h
    obtain ⟨c, ds, hds⟩ := List.exists_cons_of_ne_nil hne
    rw [hds, List.cons_append] at hparts
    subst hparts
    obtain ⟨hsymbol, htext, hrest⟩ := read_eq_symbol hc h
    have hfound : search .symbol (c :: (ds ++ rest)) = some (t.text, rest) := by
      rw [search, hsymbol, htext, ← hrest]
      rfl
    refine ⟨.symbol, preferred_of_search hfound fun cl' hrank => search_of_not_composite? hc ?_,
      c, hsymbol, htext⟩
    rintro rfl
    exact absurd hrank (Nat.lt_irrefl _)

theorem unmatched_of_search {cs : List Char} (hc : composite? cs = none)
    (hsymbol : search .symbol cs = none) : Unmatched cs := by
  intro cl text rest hparts
  refine (finds_search cl).eq_none ?_ hparts
  by_cases hcl : cl = .symbol
  · rw [hcl, hsymbol]
  · exact search_of_not_composite? hc hcl

/-- A point that no digits follow up to the end of the word is not part of the number. -/
example : (read "1.5e".toList).toOption.map (fun found => found.1) = some ⟨.const, ['1']⟩ := by decide

theorem unmatched_of_read {cs : List Char} {e : Failure} (h : read cs = .error e) : Unmatched cs := by
  cases hc : composite? cs with
  | some found =>
    rw [read_of_composite? hc] at h
    cases h
  | none =>
    cases cs with
    | nil => exact unmatched_of_search hc rfl
    | cons c rest =>
      cases hsymbol : symbol? c with
      | some kind =>
        rw [read_symbol hsymbol] at h
        cases h
      | none => exact unmatched_of_search hc (Option.map_eq_none_iff.2 hsymbol)

/-- Where no token is read, the failure is that of the end or names the character that stands there. -/
theorem failure_of_read {cs : List Char} {e : Failure} (h : read cs = .error e) :
    e.left = cs.length ∧
      (cs = [] ∧ e.kind = .unexpectedEnd ∨
        ∃ c rest, cs = c :: rest ∧ e.kind = .unknownSymbol (String.singleton c)) := by
  unfold read at h
  split at h
  · cases h
  · split at h
    · cases h
      exact ⟨rfl, .inl ⟨rfl, rfl⟩⟩
    · split at h <;> cases h
      exact ⟨rfl, .inr ⟨_, _, rfl, rfl⟩⟩

end Token
end Stencil
