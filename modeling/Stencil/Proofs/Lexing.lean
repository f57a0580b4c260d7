import Stencil.Proofs.Abreast

set_option autoImplicit false

/-!
# Tokens of a text

A tag is a list of tokens in front of its closer. With white space put into its gaps it is read as the
same tokens and that white space, because white space ends a token like what stood there before.
-/
namespace Stencil

theorem Text.isWord_of_isBlank {c : Char} (h : isBlank c = true) : isWord c = false := by
  have hall : ∀ n ∈ [0x20, 9, 0xA, 0xB, 0xC, 0xD, 0x85, 0xA0, 0x1680, 0x2000, 0x2001, 0x2002, 0x2003,
      0x2004, 0x2005, 0x2006, 0x2007, 0x2008, 0x2009, 0x200A, 0x2028, 0x2029, 0x202F, 0x205F, 0x3000],
      isWord (Char.ofNat n) = false := by
    decide +kernel
  rw [← Char.ofNat_toNat c]
  refine hall _ ?_
  simp only [isBlank, Bool.or_eq_true, Bool.and_eq_true, decide_eq_true_eq] at h
  simp only [List.mem_cons, List.not_mem_nil, or_false]
  omega

namespace Token

theorem breaks_blank {c : Char} (h : Text.isBlank c = true) : Breaks c where
  name := isNameChar_of_isBlank h
  digit := isDigit_of_isBlank h
  word := Text.isWord_of_isBlank h
  point := by
    rintro rfl
    exact absurd h (by decide)

def EndsTag (tail : List Char) : Prop := ∃ x rest, tail = x :: rest ∧ (x = '~' ∨ x = '\x7d')

theorem EndsTag.breaks {tail : List Char} (h : EndsTag tail) :
    ∃ x rest, tail = x :: rest ∧ Breaks x ∧ Text.isBlank x = false := by
  obtain ⟨x, rest, rfl, rfl | rfl⟩ := h
  · exact ⟨_, rest, rfl, ⟨by decide, by decide, by decide, by decide⟩, by decide⟩
  · exact ⟨_, rest, rfl, breaks_brace, by decide⟩

/-- Texts that are the same up to where each has a character that ends any token. -/
def Agree (cs cs' : List Char) : Prop :=
  ∃ before x rest x' rest', cs = before ++ x :: rest ∧ cs' = before ++ x' :: rest' ∧
    Breaks x ∧ Breaks x'

theorem Agree.prepend {cs cs' : List Char} (h : Agree cs cs') (text : List Char) :
    Agree (text ++ cs) (text ++ cs') := by
  obtain ⟨before, x, rest, x', rest', rfl, rfl, hx, hx'⟩ := h
  exact ⟨text ++ before, x, rest, x', rest', (List.append_assoc _ _ _).symm,
    (List.append_assoc _ _ _).symm, hx, hx'⟩

theorem head_nonblank {cs rest : List Char} {t : Token} (h : read cs = .ok (t, rest))
    (ht : t.kind ≠ .space) : ∃ c text, t.text = c :: text ∧ Text.isBlank c = false := by
  obtain ⟨rfl, hne⟩ := append_of_read h
  obtain ⟨c, text, htext⟩ := List.exists_cons_of_ne_nil hne
  refine ⟨c, text, htext, ?_⟩
  cases hblank : Text.isBlank c with
  | false => rfl
  | true =>
    rw [htext, List.cons_append, read_blank hblank] at h
    have hkind := congrArg (fun found => found.1.kind) (Except.ok.inj h)
    exact absurd hkind.symm ht

/-- What stands behind a token has no part in it up to the first character that ends any token. -/
theorem read_agree {t : Token} (ht : t.kind ≠ .space) {cs cs' : List Char} (h : Agree cs cs')
    (hread : read (t.text ++ cs) = .ok (t, cs)) : read (t.text ++ cs') = .ok (t, cs') := by
  obtain ⟨before, x, rest, x', rest', rfl, rfl, hx, hx'⟩ := h
  obtain ⟨c, text, htext, hc⟩ := head_nonblank hread ht
  by_cases hmark : c = '"' ∨ c = '\'' ∨ c = '['
  · rw [htext, List.cons_append] at hread
    exact (read_before hmark hread).2 _
  · obtain ⟨hq, hq', hb⟩ := not_or.1 hmark |>.imp id not_or.1
    have hstop {e : Char} (he : Breaks e) (more : List Char) :
        composite? (t.text ++ (before ++ e :: more)) =
          (composite? (c :: (text ++ before))).map fun found => (found.1, found.2 ++ e :: more) := by
      rw [← composite?_append hq hq' hb he (.inl hc), htext, List.cons_append, List.cons_append,
        List.append_assoc]
    cases hcomposite : composite? (c :: (text ++ before)) with
    | none =>
      have hnone := hstop hx rest
      rw [hcomposite, htext, List.cons_append] at hnone
      rw [htext, List.cons_append] at hread ⊢
      obtain ⟨hsymbol, hsingle, -⟩ := read_eq_symbol hnone hread
      rw [htext] at hsingle
      obtain ⟨kind, _⟩ := t
      cases htext
      cases hsingle
      exact read_symbol hsymbol _
    | some found =>
      obtain ⟨u, after⟩ := found
      have hsome := hstop hx rest
      have hsome' := hstop hx' rest'
      rw [hcomposite] at hsome hsome'
      rw [read_of_composite? hsome] at hread
      obtain ⟨rfl, hafter⟩ := Prod.mk.inj (Except.ok.inj hread)
      have hbefore : after = before := List.append_cancel_right hafter
      rw [read_of_composite? hsome', hbefore]

def texts (ts : List Token) : List Char := ts.flatMap Token.text

theorem texts_cons (t : Token) (ts : List Token) : texts (t :: ts) = t.text ++ texts ts :=
  List.flatMap_cons

/-- In front of `tail` the text of the tokens is read as these tokens. None of them begins a closer. -/
inductive Lexes (tail : List Char) : List Token → Prop
  | nil : Lexes tail []
  | cons {t : Token} {ts : List Token} (hclose : t.kind.isCloser = false)
    (hread : read (t.text ++ (texts ts ++ tail)) = .ok (t, texts ts ++ tail))
    (h : Lexes tail ts) : Lexes tail (t :: ts)

/-- Behind white space no more white space is read. -/
theorem Lexes.nonblank {tail : List Char} (htail : EndsTag tail) {s : Token} {ts : List Token}
    (h : Lexes tail (s :: ts)) (hs : s.kind = .space) :
    ∃ c cs, texts ts ++ tail = c :: cs ∧ Text.isBlank c = false := by
  cases h with
  | cons hclose hread h =>
    obtain ⟨x, rest, rfl, -, -⟩ := htail.breaks
    obtain ⟨c, cs, hcs⟩ : ∃ c cs, texts ts ++ x :: rest = c :: cs :=
      List.exists_cons_of_ne_nil (by simp)
    obtain ⟨b, bs, hbs⟩ := List.exists_cons_of_ne_nil (append_of_read hread).2
    have hblank := blank_of_space hread hs b (hbs ▸ List.mem_cons_self)
    rw [hbs, List.cons_append, read_blank hblank] at hread
    have hrest := congrArg Prod.snd (Except.ok.inj hread)
    have hnot := List.head?_dropWhile_not Text.isBlank (b :: (bs ++ (texts ts ++ x :: rest)))
    dsimp only at hrest
    rw [hrest, hcs] at hnot
    exact ⟨c, cs, hcs, hnot⟩

theorem Lexes.ne_space {tail : List Char} (htail : EndsTag tail) {s t : Token} {ts : List Token}
    (h : Lexes tail (s :: t :: ts)) (hs : s.kind = .space) : t.kind ≠ .space := by
  intro ht
  obtain ⟨c, cs, hcs, hc⟩ := h.nonblank htail hs
  cases h with
  | cons _ _ h =>
    cases h with
    | cons _ hread _ =>
      obtain ⟨b, bs, hbs⟩ := List.exists_cons_of_ne_nil (append_of_read hread).2
      have hblank := blank_of_space hread ht b (hbs ▸ List.mem_cons_self)
      rw [texts_cons, hbs] at hcs
      rw [(List.cons.inj hcs).1, hc] at hblank
      cases hblank

structure White (s : Token) : Prop where
  kind : s.kind = .space
  blank : ∀ x ∈ s.text, Text.isBlank x = true
  nonempty : s.text ≠ []

theorem White.read {s : Token} (h : s.White) {cs : List Char}
    (hcs : ∃ c rest, cs = c :: rest ∧ Text.isBlank c = false) :
    Token.read (s.text ++ cs) = .ok (s, cs) := by
  obtain ⟨kind, text⟩ := s
  obtain ⟨hkind, hblank, hne⟩ := h
  obtain ⟨c, rest, rfl, hc⟩ := hcs
  cases hkind
  exact read_space hne hblank hc rest

theorem White.breaks {s : Token} (h : s.White) (cs : List Char) :
    ∃ x rest, s.text ++ cs = x :: rest ∧ Breaks x := by
  obtain ⟨x, rest, hx⟩ := List.exists_cons_of_ne_nil h.nonempty
  exact ⟨x, rest ++ cs, by rw [hx]; rfl, breaks_blank (h.blank x (hx ▸ List.mem_cons_self))⟩

end Token

open Token in
/-- The tokens of a tag behind `trail`, with white space put into gaps and other white space for what
there is. -/
inductive Padded (d : Dialect) : List Token → List Token → List Token → Prop
  | nil {trail : List Token} : Padded d trail [] []
  | same {trail ts ts' : List Token} {t : Token} (ht : t.kind ≠ .space)
    (h : Padded d (t :: trail) ts ts') : Padded d trail (t :: ts) (t :: ts')
  | space {trail ts ts' : List Token} {s s' : Token} (hs : s.kind = .space) (hs' : s'.White)
    (h : Padded d (s :: trail) ts ts') : Padded d trail (s :: ts) (s' :: ts')
  | gap {trail ts ts' : List Token} {s t : Token} (hs : s.White) (ht : t.kind ≠ .space)
    (hbehind : ∀ b ∈ trail.head?, b.kind ≠ .space) (hgap : Gap d trail t.kind)
    (h : Padded d (t :: trail) ts ts') : Padded d trail (t :: ts) (s :: t :: ts')
  | last {trail : List Token} {s : Token} (hs : s.White)
    (hbehind : ∀ b ∈ trail.head?, b.kind ≠ .space) : Padded d trail [] [s]

namespace Padded
open Token
variable {d : Dialect} {trail ts ts' : List Token} {tail tail' : List Char}

theorem refl (h : Lexes tail ts) (trail : List Token) : Padded d trail ts ts := by
  induction h generalizing trail with
  | nil => exact .nil
  | @cons t ts hclose hread h ih =>
    by_cases ht : t.kind = .space
    · exact .space ht ⟨ht, blank_of_space hread ht, (append_of_read hread).2⟩ (ih _)
    · exact .same ht (ih _)

theorem agree_paren {t : Token} {rest : List Char} (ht : t.kind = .leftParen)
    (hread : Token.read (t.text ++ rest) = .ok (t, rest)) (cs cs' : List Char) :
    Agree (t.text ++ cs) (t.text ++ cs') := by
  rw [text_of_symbol (c := '(') hread (by rw [ht]; rfl)]
  have hbreaks : Breaks '(' := ⟨by decide, by decide, by decide, by decide⟩
  exact ⟨[], '(', cs, '(', cs', rfl, rfl, hbreaks, hbreaks⟩

/-- Behind a token that is no opening parenthesis, the texts go on alike up to what ends any token. -/
theorem agree (h : Padded d trail ts ts') (hts : Lexes tail ts) (htail : EndsTag tail)
    (htail' : EndsTag tail') (hbehind : ∃ t before, trail = t :: before ∧ t.kind ≠ .leftParen) :
    Agree (texts ts ++ tail) (texts ts' ++ tail') := by
  obtain ⟨x, rest, hx, hbreaks, -⟩ := htail.breaks
  obtain ⟨x', rest', hx', hbreaks', -⟩ := htail'.breaks
  induction h with
  | nil => exact ⟨[], x, rest, x', rest', hx, hx', hbreaks, hbreaks'⟩
  | @same trail ts ts' t ht h ih =>
    rw [texts_cons, texts_cons, List.append_assoc, List.append_assoc]
    cases hts with
    | cons hclose hread hts =>
      by_cases hparen : t.kind = .leftParen
      · exact agree_paren hparen hread _ _
      · exact (ih hts ⟨t, trail, rfl, hparen⟩).prepend t.text
  | @space trail ts ts' s s' hs hs' h ih =>
    rw [texts_cons, texts_cons, List.append_assoc, List.append_assoc]
    cases hts with
    | cons hclose hread hts =>
      have hwhite : s.White := ⟨hs, blank_of_space hread hs, (append_of_read hread).2⟩
      obtain ⟨y, more, hy, hbreak⟩ := hwhite.breaks (texts ts ++ tail)
      obtain ⟨y', more', hy', hbreak'⟩ := hs'.breaks (texts ts' ++ tail')
      exact ⟨[], y, more, y', more', hy, hy', hbreak, hbreak'⟩
  | @gap trail ts ts' s t hs ht _ hgap h ih =>
    rw [texts_cons, texts_cons, List.append_assoc, List.append_assoc]
    obtain ⟨b, before, rfl, hb⟩ := hbehind
    obtain ⟨y, more, hy, hbreak⟩ := hs.breaks (texts (t :: ts') ++ tail')
    cases hts with
    | cons hclose hread hts =>
      have hclosing : t.kind = .rightParen := by
        have hover := hgap.isOver_of_cons hb
        generalize t.kind = kind at hover hclose
        cases hover with
        | closer h => cases hclose.symm.trans h
        | rightParen => rfl
      rw [text_of_symbol (c := ')') hread (by rw [hclosing]; rfl)]
      have hbreaks : Breaks ')' := ⟨by decide, by decide, by decide, by decide⟩
      exact ⟨[], ')', texts ts ++ tail, y, more, rfl, hy, hbreaks, hbreak⟩
  | @last trail s hs _ =>
    obtain ⟨y, more, hy, hbreak⟩ := hs.breaks (texts [] ++ tail')
    rw [texts_cons, List.append_assoc]
    exact ⟨[], x, rest, y, more, hx, hy, hbreaks, hbreak⟩

theorem nonblank {s : Token} (h : Padded d (s :: trail) ts ts') (hs : s.kind = .space)
    (hts : Lexes tail (s :: ts)) (htail : EndsTag tail) (htail' : EndsTag tail') :
    ∃ c rest, texts ts' ++ tail' = c :: rest ∧ Text.isBlank c = false := by
  cases h with
  | nil =>
    obtain ⟨x, rest, hx, -, hblank⟩ := htail'.breaks
    exact ⟨x, rest, hx, hblank⟩
  | @same _ ts ts' t ht h =>
    cases hts with
    | cons _ _ hts =>
      cases hts with
      | cons _ hread _ =>
        obtain ⟨c, text, htext, hc⟩ := head_nonblank hread ht
        exact ⟨c, text ++ texts ts' ++ tail', by rw [texts_cons, htext]; rfl, hc⟩
  | space hu _ _ => exact absurd hu (hts.ne_space htail hs)
  | gap _ _ hbehind => exact absurd hs (hbehind s rfl)
  | last _ hbehind => exact absurd hs (hbehind s rfl)

/-- The token is read in the second text as in the first. -/
theorem read_same {t : Token} (ht : t.kind ≠ .space) (h : Padded d (t :: trail) ts ts')
    (hts : Lexes tail (t :: ts)) (htail : EndsTag tail) (htail' : EndsTag tail') :
    Token.read (t.text ++ (texts ts' ++ tail')) = .ok (t, texts ts' ++ tail') := by
  cases hts with
  | cons hclose hread hts =>
    by_cases hparen : t.kind = .leftParen
    · have hsymbol : symbol? '(' = some t.kind := by
        rw [hparen]
        rfl
      have htext := text_of_symbol hread hsymbol
      obtain ⟨kind, text⟩ := t
      cases htext
      exact read_symbol hsymbol _
    · exact read_agree ht (h.agree hts htail htail' ⟨t, trail, rfl, hparen⟩) hread

/-- With white space in its gaps a text is read as its tokens and the white space. -/
theorem lexes (h : Padded d trail ts ts') (hts : Lexes tail ts) (htail : EndsTag tail)
    (htail' : EndsTag tail') : Lexes tail' ts' := by
  have hwhite {s : Token} (hs : s.White) : s.kind.isCloser = false := by
    rw [hs.kind]
    rfl
  induction h with
  | nil => exact .nil
  | same ht h ih =>
    have hread := read_same ht h hts htail htail'
    cases hts with
    | cons hclose _ hts => exact .cons hclose hread (ih hts)
  | space hs hs' h ih =>
    have hnext := h.nonblank hs hts htail htail'
    cases hts with
    | cons _ _ hts => exact .cons (hwhite hs') (hs'.read hnext) (ih hts)
  | @gap trail ts ts' s t hs ht _ _ h ih =>
    have hread := read_same ht h hts htail htail'
    cases hts with
    | cons hclose _ hts =>
      obtain ⟨c, text, htext, hc⟩ := head_nonblank hread ht
      have hnext : ∃ c rest, texts (t :: ts') ++ tail' = c :: rest ∧ Text.isBlank c = false :=
        ⟨c, text ++ texts ts' ++ tail', by rw [texts_cons, htext]; rfl, hc⟩
      exact .cons (hwhite hs) (hs.read hnext) (.cons hclose hread (ih hts))
  | last hs _ =>
    obtain ⟨x, rest, hx, -, hblank⟩ := htail'.breaks
    exact .cons (hwhite hs) (hs.read ⟨x, rest, hx, hblank⟩) .nil

end Padded

namespace Cursor
open Token
variable {tail tail' : List Char} {ts : List Token} {t : Token} {c n : Cursor}

theorem exists_of_endsTag (htail : EndsTag tail) : ∃ e : Cursor, e.At tail := by
  obtain ⟨x, rest, rfl, rfl | rfl⟩ := htail
  · exact ⟨⟨⟨.tilde, ['~']⟩, rest⟩, read_symbol rfl rest⟩
  · exact ⟨⟨⟨.brace, ['\x7d']⟩, rest⟩, read_symbol rfl rest⟩

theorem At.isCloser (h : c.At tail) (htail : EndsTag tail) : c.token.kind.isCloser = true := by
  obtain ⟨x, rest, rfl, rfl | rfl⟩ := htail
  · rw [h.eq (read_symbol (c := '~') rfl rest)]
    rfl
  · rw [h.eq (read_symbol (c := '\x7d') rfl rest)]
    rfl

structure Stands (tail : List Char) (ts : List Token) (c : Cursor) : Prop where
  at_texts : c.At (texts ts ++ tail)
  lexes : Lexes tail ts

namespace Stands

theorem exists_of_lexes (htail : EndsTag tail) (h : Lexes tail ts) :
    ∃ c : Cursor, c.Stands tail ts := by
  cases h with
  | nil =>
    obtain ⟨e, he⟩ := exists_of_endsTag htail
    exact ⟨e, he, .nil⟩
  | @cons t ts hclose hread h =>
    refine ⟨⟨t, texts ts ++ tail⟩, ?_, .cons hclose hread h⟩
    unfold At
    rw [texts_cons, List.append_assoc]
    exact hread

theorem eq_of_cons (h : c.Stands tail (t :: ts)) : c = ⟨t, texts ts ++ tail⟩ := by
  obtain ⟨hat, hlexes⟩ := h
  cases hlexes with
  | cons _ hread _ =>
    rw [texts_cons, List.append_assoc] at hat
    exact hat.eq hread

theorem isCloser_of_cons (h : c.Stands tail (t :: ts)) : t.kind.isCloser = false := by
  cases h.lexes with
  | cons hclose _ _ => exact hclose

theorem next (h : c.Stands tail (t :: ts)) (hn : n.At c.rest) : n.Stands tail ts := by
  rw [h.eq_of_cons] at hn
  cases h.lexes with
  | cons _ _ hlexes => exact ⟨hn, hlexes⟩

theorem isCloser_of_nil (h : c.Stands tail []) (htail : EndsTag tail) :
    c.token.kind.isCloser = true := h.at_texts.isCloser htail

theorem exists_next (h : c.Stands tail (t :: ts)) (htail : EndsTag tail) :
    ∃ n : Cursor, n.At c.rest ∧ n.Stands tail ts := by
  cases h.lexes with
  | cons _ _ hlexes =>
    obtain ⟨n, hn⟩ := exists_of_lexes htail hlexes
    rw [h.eq_of_cons]
    exact ⟨n, hn.at_texts, hn⟩

theorem eq_nil (h : c.Stands tail ts) (hc : c.token.kind.isCloser = true) : ts = [] := by
  cases ts with
  | nil => rfl
  | cons t ts =>
    have hclose := h.isCloser_of_cons
    rw [h.eq_of_cons, hclose] at hc
    cases hc

end Stands

/-- The tokens that are passed are the text up to where the cursor stands then. -/
theorem Passes.lexes {e : Cursor} (h : c.Passes ts e) (hc : c.At c.chars) :
    Lexes e.chars ts ∧ e.At e.chars := by
  induction h with
  | here c => exact ⟨.nil, hc⟩
  | @next c n e ts hclose hn h ih =>
    have hchars : c.rest = texts ts ++ e.chars := by
      rw [← hn.chars]
      exact h.chars
    obtain ⟨hlexes, he⟩ := ih (hn.chars.symm ▸ hn)
    refine ⟨.cons hclose ?_ hlexes, he⟩
    have hat : Token.read (c.token.text ++ c.rest) = .ok (c.token, c.rest) := hc
    rwa [hchars] at hat

end Cursor

namespace Padded
open Token Cursor
variable {d : Dialect} {tail tail' : List Char} {trail ts ts' : List Token} {c c' n : Cursor}

def Aligned (d : Dialect) (tail tail' : List Char) (trail : List Token) (c c' : Cursor) : Prop :=
  ∃ ts ts', c.Stands tail ts ∧ c'.Stands tail' ts' ∧ Padded d trail ts ts' ∧
    (c'.token.kind = .space → c.token.kind = .space)

/-- The cursors are in front of the same tokens, or one is in front of a gap. -/
theorem beside (h : Padded d trail ts ts') (htail : EndsTag tail) (htail' : EndsTag tail')
    (hc : c.Stands tail ts) (hc' : c'.Stands tail' ts') :
    Aligned d tail tail' trail c c' ∨ Cursor.Extra d (Aligned d tail tail') trail c c' := by
  have hclose {e : Cursor} (he : e.token.kind.isCloser = true) : e.token.kind ≠ .space := by
    intro heq
    rw [heq] at he
    cases he
  cases h with
  | nil =>
    exact .inl ⟨[], [], hc, hc', .nil, fun h => absurd h (hclose (hc'.isCloser_of_nil htail'))⟩
  | same ht h =>
    refine .inl ⟨_, _, hc, hc', .same ht h, fun hspace => absurd hspace ?_⟩
    rw [hc'.eq_of_cons]
    exact ht
  | space hs hs' h =>
    refine .inl ⟨_, _, hc, hc', .space hs hs' h, fun _ => ?_⟩
    rw [hc.eq_of_cons]
    exact hs
  | gap hs ht hbehind hgap h =>
    obtain ⟨m, hm, hstands⟩ := hc'.exists_next htail'
    refine .inr ⟨?_, ?_, ?_, hbehind, m, hm, _, _, hc, hstands, .same ht h, fun hspace => ?_⟩
    · rw [hc'.eq_of_cons]
      exact hs.kind
    · rw [hc.eq_of_cons]
      exact ht
    · rw [hc.eq_of_cons]
      exact hgap
    · rw [hstands.eq_of_cons] at hspace
      exact absurd hspace ht
  | last hs hbehind =>
    obtain ⟨m, hm, hstands⟩ := hc'.exists_next htail'
    have hcloser := hc.isCloser_of_nil htail
    refine .inr ⟨?_, hclose hcloser, .ended (.closer hcloser), hbehind, m, hm, _, _, hc, hstands, .nil,
      fun hspace => absurd hspace (hclose (hstands.isCloser_of_nil htail'))⟩
    rw [hc'.eq_of_cons]
    exact hs.kind

theorem like (h : Aligned d tail tail' trail c c') (htail : EndsTag tail) (htail' : EndsTag tail') :
    c.token.Like c'.token := by
  obtain ⟨ts, ts', hc, hc', hpadded, hspace⟩ := h
  cases hpadded with
  | nil => exact .closer (hc.isCloser_of_nil htail) (hc'.isCloser_of_nil htail')
  | same ht h =>
    have hclose := hc.isCloser_of_cons
    rw [hc.eq_of_cons, hc'.eq_of_cons]
    exact .same hclose
  | space hs hs' h =>
    rw [hc.eq_of_cons, hc'.eq_of_cons]
    exact .space hs hs'.kind
  | gap hs ht _ _ h =>
    rw [hc.eq_of_cons, hc'.eq_of_cons] at hspace
    exact absurd (hspace hs.kind) ht
  | last hs _ =>
    rw [hc'.eq_of_cons] at hspace
    have hcloser := hc.isCloser_of_nil htail
    rw [hspace hs.kind] at hcloser
    cases hcloser

theorem next (h : Aligned d tail tail' trail c c') (htail : EndsTag tail) (htail' : EndsTag tail')
    (hclose : c.token.kind.isCloser = false) (hn : n.At c.rest) : ∃ n' : Cursor, n'.At c'.rest ∧
      (Aligned d tail tail' (c.token :: trail) n n' ∨
        Cursor.Extra d (Aligned d tail tail') (c.token :: trail) n n') := by
  obtain ⟨ts, ts', hc, hc', hpadded, hspace⟩ := h
  cases hpadded with
  | nil => cases hclose.symm.trans (hc.isCloser_of_nil htail)
  | same ht h =>
    obtain ⟨n', hn', hstands⟩ := hc'.exists_next htail'
    refine ⟨n', hn', ?_⟩
    rw [show c.token = _ from congrArg Cursor.token hc.eq_of_cons]
    exact h.beside htail htail' (hc.next hn) hstands
  | space hs hs' h =>
    obtain ⟨n', hn', hstands⟩ := hc'.exists_next htail'
    refine ⟨n', hn', ?_⟩
    rw [show c.token = _ from congrArg Cursor.token hc.eq_of_cons]
    exact h.beside htail htail' (hc.next hn) hstands
  | gap hs ht _ _ h =>
    rw [hc.eq_of_cons, hc'.eq_of_cons] at hspace
    exact absurd (hspace hs.kind) ht
  | last hs _ => cases hclose.symm.trans (hc.isCloser_of_nil htail)

def pairing (d : Dialect) (htail : EndsTag tail) (htail' : EndsTag tail') : Pairing d where
  aligned := Aligned d tail tail'
  like h := like h htail htail'
  next h := next h htail htail'

end Padded
end Stencil
