import Stencil.Proofs.Tokens

set_option autoImplicit false

/-!
# Texts that are one token

Names, words and white space as they are written, each read back as one token when what follows
cannot continue it.
-/
namespace Stencil
namespace Token

def IsName (n : List Char) : Prop := read n = .ok (⟨.ident, n⟩, [])

theorem digits?_append_none {cs : List Char} {c : Char} (h : digits? cs = none)
    (hc : c.isDigit = false) (more : List Char) : digits? (cs ++ c :: more) = none := by
  have hrun := run?_append_stop hc cs more
  cases hcs : run? Char.isDigit cs with
  | none =>
    rw [hcs] at hrun
    unfold digits?
    rw [hrun]
    rfl
  | some found =>
    obtain ⟨whole, rest⟩ := found
    rw [hcs] at hrun
    have hpoint : ∀ after, rest ≠ '.' :: after := by
      rintro after rfl
      rw [digits?_of_point hcs] at h
      split at h
      · split at h <;> cases h
      · cases h
    rw [digits?_of_end hcs hpoint] at h
    cases rest with
    | nil => simp [endsWord] at h
    | cons d rest =>
      have hmore : ∀ after, d :: rest ++ c :: more ≠ '.' :: after := by
        intro after he
        exact hpoint rest (by rw [(List.cons.inj he).1])
      have hend : endsWord (d :: rest) = false := by
        cases hword : endsWord (d :: rest) with
        | false => rfl
        | true => rw [if_pos hword] at h; cases h
      rw [digits?_of_end hrun hmore]
      exact if_neg (by rw [List.cons_append]; simpa [endsWord] using hend)

theorem number?_append_none {cs : List Char} {c : Char} (hne : cs ≠ []) (h : number? cs = none)
    (hc : c.isDigit = false) (more : List Char) : number? (cs ++ c :: more) = none := by
  obtain ⟨d, ds, rfl⟩ := List.exists_cons_of_ne_nil hne
  by_cases hd : d = '-'
  · subst hd
    have hds : digits? ds = none := by simpa [number?] using h
    change Option.map _ (digits? (ds ++ c :: more)) = none
    rw [digits?_append_none hds hc]
    rfl
  · rw [number?_unsigned hd] at h
    rw [List.cons_append, number?_unsigned hd, ← List.cons_append]
    exact digits?_append_none h hc more

theorem ne_of_isNameChar {c d : Char} (hc : isNameChar c = true) (hd : isNameChar d = false) :
    c ≠ d := by
  rintro rfl
  rw [hc] at hd
  cases hd

theorem read_run {text : List Char} {c : Char} (hne : text ≠ [])
    (hall : ∀ x ∈ text, isNameChar x = true) (hc : isNameChar c = false) (cs : List Char)
    (hnumber : number? (text ++ c :: cs) = none) :
    read (text ++ c :: cs) = .ok (⟨word text, text⟩, c :: cs) := by
  apply read_of_composite?
  have hquote : quotation? (text ++ c :: cs) = none := by
    obtain ⟨d, ds, rfl⟩ := List.exists_cons_of_ne_nil hne
    have hd := hall d List.mem_cons_self
    exact quotation?_eq_none (ne_of_isNameChar hd (by decide)) (ne_of_isNameChar hd (by decide)) _
  unfold composite?
  rw [hquote, hnumber, run?_all hne hall hc]
  rfl

theorem symbol?_ne_ident {c : Char} : symbol? c ≠ some .ident := by
  unfold symbol?
  split <;> simp

theorem IsName.cases {n : List Char} (h : IsName n) :
    (n ≠ [] ∧ (∀ x ∈ n, isNameChar x = true) ∧ number? n = none ∧ word n = .ident) ∨
      bracketed? n = some (n, []) ∧ word n = .ident := by
  have hne : n ≠ [] := (append_of_read h).2
  obtain ⟨c, cs, rfl⟩ := List.exists_cons_of_ne_nil hne
  cases hc : composite? (c :: cs) with
  | none =>
    obtain ⟨hs, -, -⟩ := read_eq_symbol hc h
    exact absurd hs symbol?_ne_ident
  | some found =>
    obtain ⟨t, rest⟩ := found
    have hfound := read_of_composite? hc
    rw [h] at hfound
    cases hfound
    unfold composite? at hc
    rcases Option.or_eq_some_iff.1 hc with hconst | ⟨hconst, hrest⟩
    · obtain ⟨split, -, he⟩ := Option.map_eq_some_iff.1 hconst
      simp at he
    · have hnumber : number? (c :: cs) = none := by
        have hnone := Option.map_eq_none_iff.1 hconst
        exact (Option.or_eq_none_iff.1 hnone).2
      rcases Option.or_eq_some_iff.1 hrest with hname | ⟨-, hspace⟩
      · have hsplit := of_tokenOf hname
        obtain ⟨split, -, he⟩ := Option.map_eq_some_iff.1 hname
        have hword : word (c :: cs) = .ident := by
          simp only [Prod.mk.injEq, Token.mk.injEq] at he
          rw [← he.1.2]
          exact he.1.1
        rcases Option.or_eq_some_iff.1 hsplit with hrun | ⟨-, hbracket⟩
        · exact .inl ⟨hne, forall_of_run? hrun, hnumber, hword⟩
        · exact .inr ⟨hbracket, hword⟩
      · obtain ⟨split, -, he⟩ := Option.map_eq_some_iff.1 hspace
        simp at he

theorem exists_cons_of_bracketed? {n : List Char} {found : List Char × List Char}
    (h : bracketed? n = some found) : ∃ inner, n = '[' :: inner := by
  unfold bracketed? at h
  split at h
  · exact ⟨_, rfl⟩
  · cases h

/-- A name is read as one token wherever a character follows that is not a name's. -/
theorem IsName.read_append {n : List Char} {c : Char} (h : IsName n) (hname : isNameChar c = false)
    (hdigit : c.isDigit = false) (cs : List Char) :
    read (n ++ c :: cs) = .ok (⟨.ident, n⟩, c :: cs) := by
  rcases h.cases with ⟨hne, hall, hnumber, hword⟩ | ⟨hbracket, hword⟩
  · rw [read_run hne hall hname cs (number?_append_none hne hnumber hdigit cs), hword]
  · obtain ⟨inner, rfl⟩ := exists_cons_of_bracketed? hbracket
    apply read_of_composite?
    rw [List.cons_append, composite?_of_bracket, ← List.cons_append, bracketed?_append hbracket]
    simp [tokenOf, hword]

theorem isName_bracketed {inner : List Char} (hne : inner ≠ []) (hinner : ']' ∉ inner) :
    IsName ('[' :: inner ++ [']']) := by
  have hall : ∀ x ∈ inner, decide (x ≠ ']') = true := by
    intro x hx
    simp only [decide_eq_true_eq]
    rintro rfl
    exact hinner hx
  apply read_of_composite?
  rw [List.cons_append, composite?_of_bracket]
  have hbracket : bracketed? ('[' :: (inner ++ [']'])) = some ('[' :: inner ++ [']'], []) := by
    rw [bracketed?, run?_all hne hall (by decide)]
    rfl
  rw [hbracket]
  rfl

theorem isNameChar_of_isBlank {c : Char} (h : Text.isBlank c = true) : isNameChar c = false := by
  simp [isNameChar, h]

theorem isDigit_of_isBlank {c : Char} (h : Text.isBlank c = true) : c.isDigit = false := by
  cases hdigit : c.isDigit with
  | false => rfl
  | true =>
    simp only [Char.isDigit, Bool.and_eq_true, decide_eq_true_eq] at hdigit
    have hlow : 48 ≤ c.toNat := hdigit.1
    have hhigh : c.toNat ≤ 57 := hdigit.2
    simp only [Text.isBlank, Bool.or_eq_true, Bool.and_eq_true, decide_eq_true_eq] at h
    omega

theorem IsName.exists_cons {n : List Char} (h : IsName n) :
    ∃ c cs, n = c :: cs ∧ Text.isBlank c = false := by
  rcases h.cases with ⟨hne, hall, -⟩ | ⟨hbracket, -⟩
  · obtain ⟨c, cs, rfl⟩ := List.exists_cons_of_ne_nil hne
    refine ⟨c, cs, rfl, ?_⟩
    cases hblank : Text.isBlank c with
    | false => rfl
    | true =>
      have hname := hall c List.mem_cons_self
      rw [isNameChar_of_isBlank hblank] at hname
      cases hname
  · obtain ⟨inner, rfl⟩ := exists_cons_of_bracketed? hbracket
    exact ⟨'[', inner, rfl, by decide⟩

theorem read_blank {b : Char} (hb : Text.isBlank b = true) (cs : List Char) :
    read (b :: cs) = .ok (⟨.space, (b :: cs).takeWhile Text.isBlank⟩,
      (b :: cs).dropWhile Text.isBlank) := by
  have hnot : ∀ e : Char, Text.isBlank e = false → b ≠ e := by
    rintro e he rfl
    rw [hb] at he
    cases he
  have hnumber : number? (b :: cs) = none := by
    rw [number?_unsigned (hnot '-' (by decide)), digits?, run?_eq_none (isDigit_of_isBlank hb)]
  have hrun : run? Text.isBlank (b :: cs) =
      some ((b :: cs).takeWhile Text.isBlank, (b :: cs).dropWhile Text.isBlank) := by
    unfold run?
    rw [if_neg (by simp [hb])]
  apply read_of_composite?
  unfold composite?
  rw [hnumber, run?_eq_none (isNameChar_of_isBlank hb), hrun,
    quotation?_eq_none (hnot _ (by decide)) (hnot _ (by decide)),
    bracketed?_eq_none (hnot _ (by decide))]
  rfl

theorem read_space {text : List Char} {c : Char} (hne : text ≠ [])
    (hall : ∀ x ∈ text, Text.isBlank x = true) (hc : Text.isBlank c = false) (cs : List Char) :
    read (text ++ c :: cs) = .ok (⟨.space, text⟩, c :: cs) := by
  have htake : (text ++ c :: cs).takeWhile Text.isBlank = text := by
    rw [List.takeWhile_append_of_pos hall, List.takeWhile_cons_of_neg (by simp [hc]),
      List.append_nil]
  have hdrop : (text ++ c :: cs).dropWhile Text.isBlank = c :: cs := by
    rw [List.dropWhile_append_of_pos hall, List.dropWhile_cons_of_neg (by simp [hc])]
  obtain ⟨b, bs, rfl⟩ := List.exists_cons_of_ne_nil hne
  have hread := read_blank (hall b List.mem_cons_self) (bs ++ c :: cs)
  rwa [← List.cons_append, htake, hdrop] at hread

theorem kind_cases {cs rest : List Char} {t : Token} (h : read cs = .ok (t, rest)) :
    t.kind = .const ∨ t.kind = word t.text ∨
      (t.kind = .space ∧ ∀ x ∈ t.text, Text.isBlank x = true) ∨
        ∃ c, t.text = [c] ∧ symbol? c = some t.kind := by
  obtain ⟨happend, hne⟩ := append_of_read h
  cases hc : composite? cs with
  | none =>
    obtain ⟨c, ds, hds⟩ := List.exists_cons_of_ne_nil hne
    rw [hds] at happend
    subst happend
    obtain ⟨hsymbol, htext, -⟩ := read_eq_symbol hc h
    exact .inr (.inr (.inr ⟨c, htext, hsymbol⟩))
  | some found =>
    rw [read_of_composite? hc] at h
    cases h
    unfold composite? at hc
    rcases Option.or_eq_some_iff.1 hc with hc | ⟨-, hc⟩
    · obtain ⟨split, -, he⟩ := Option.map_eq_some_iff.1 hc
      cases he
      exact .inl rfl
    · rcases Option.or_eq_some_iff.1 hc with hc | ⟨-, hc⟩
      · obtain ⟨split, -, he⟩ := Option.map_eq_some_iff.1 hc
        cases he
        exact .inr (.inl rfl)
      · obtain ⟨split, hrun, he⟩ := Option.map_eq_some_iff.1 hc
        cases he
        exact .inr (.inr (.inl ⟨rfl, forall_of_run? hrun⟩))

theorem word_ne_space (cs : List Char) : word cs ≠ .space := by
  unfold word
  repeat' split
  all_goals exact TokenKind.noConfusion

theorem symbol?_ne_word {c : Char} (cs : List Char) : symbol? c ≠ some (word cs) := by
  unfold symbol? word
  repeat' split
  all_goals simp

theorem symbol?_injective {c d : Char} {kind : TokenKind} (hc : symbol? c = some kind)
    (hd : symbol? d = some kind) : c = d := by
  unfold symbol? at hc hd
  split at hc <;> cases hc <;> split at hd <;> first | rfl | cases hd

theorem symbol?_ne {c : Char} : symbol? c ≠ some .const ∧ symbol? c ≠ some .space := by
  unfold symbol?
  split <;> simp

theorem text_of_symbol {cs rest : List Char} {t : Token} (h : read cs = .ok (t, rest)) {c : Char}
    (hc : symbol? c = some t.kind) : t.text = [c] := by
  rcases kind_cases h with hkind | hkind | ⟨hkind, -⟩ | ⟨d, htext, hd⟩
  · exact absurd (hkind ▸ hc) symbol?_ne.1
  · exact absurd (hkind ▸ hc) (symbol?_ne_word _)
  · exact absurd (hkind ▸ hc) symbol?_ne.2
  · rw [htext, symbol?_injective hd hc]

theorem blank_of_space {cs rest : List Char} {t : Token} (h : read cs = .ok (t, rest))
    (hkind : t.kind = .space) : ∀ x ∈ t.text, Text.isBlank x = true := by
  rcases kind_cases h with hk | hk | ⟨-, hblank⟩ | ⟨d, -, hd⟩
  · rw [hkind] at hk
    cases hk
  · exact absurd (hk.symm.trans hkind) (word_ne_space _)
  · exact hblank
  · exact absurd (hkind ▸ hd) symbol?_ne.2

end Token
end Stencil
