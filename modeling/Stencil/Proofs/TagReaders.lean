import Stencil.Proofs.Lexing
import Stencil.Proofs.Pieces
import Stencil.Proofs.Readers

set_option autoImplicit false

/-!
# Tags abreast

The readers of tags, from the first token to the closer, in two tags that differ in white space. The
closers may differ in their tilde and in what stands behind them.
-/
namespace Stencil

def Pairing.Moves {d : Dialect} (P : Pairing d) (t t' : Tag) (trail : List Token) (c c' : Cursor) :
    Prop :=
  t.Moved t' ∧ P.Met trail c c'

namespace Cursor
variable {d : Dialect} {P : Pairing d} {trail : List Token} {c c' : Cursor}

theorem atCloser_eq (c : Cursor) : c.atCloser = c.token.kind.isCloser := by
  unfold atCloser
  cases c.token.kind <;> rfl

theorem blockCall_follows (hc : P.Met trail c c') :
    Follows False trail c c' P.Meets (c.blockCall d) (c'.blockCall d) := by
  unfold blockCall
  refine Follows.bind ((followsBelow _).call d.blockFallback hc (Nat.lt_succ_self _)) id ?_
  rintro ⟨call, e, he⟩ ⟨_, e', he'⟩ ts - - ⟨rfl, hee⟩
  exact .check_bind call d e e' (.done ⟨rfl, hee.met⟩)

theorem valueTag_follows (hc : P.Met trail c c') (escape : Bool) :
    Follows False trail c c' P.Meets (c.valueTag d escape) (c'.valueTag d escape) :=
  .map ((followsBelow _).expression hc (Nat.lt_succ_self _)) fun _ _ _ _ _ h =>
    ⟨congrArg _ h.1, h.met⟩

theorem otherwiseTag_follows (hc : P.Met trail c c') (place : Option Branch) :
    Follows False trail c c' P.Meets (c.otherwiseTag place) (c'.otherwiseTag place) := by
  unfold otherwiseTag
  split
  · exact .error
  · exact .error
  · exact .done ⟨rfl, hc⟩

theorem otherwiseOpeningTag_follows (hc : P.Met trail c c') (place : Option Branch) :
    Follows False trail c c' P.Meets (c.otherwiseOpeningTag d place)
      (c'.otherwiseOpeningTag d place) := by
  unfold otherwiseOpeningTag
  split
  · exact .error
  · refine Follows.bind (blockCall_follows hc) id ?_
    rintro ⟨call, e, he⟩ ⟨_, e', he'⟩ ts - - ⟨rfl, hee⟩
    exact .done ⟨rfl, hee⟩

/-- Where no parenthesis is open, an expression is over only in front of a closer. -/
theorem isCloser_of_gap {kind : TokenKind} (h : Gap d trail kind)
    (hparen : ∀ t ∈ trail, t.kind ≠ .leftParen) (hne : trail ≠ []) : kind.isCloser = true := by
  cases h with
  | opener => exact absurd rfl hne
  | paren hp => exact absurd hp (hparen _ List.mem_cons_self)
  | ended h =>
    cases h with
    | closer h => exact h
    | rightParen hopen =>
      obtain ⟨p, hmem, hp⟩ := hopen
      exact absurd hp (hparen p hmem)

theorem forall_ne_of_skipped {us : List Token}
    (h : us = trail ∨ ∃ s : Token, s.kind = .space ∧ us = s :: trail)
    (hparen : ∀ t ∈ trail, t.kind ≠ .leftParen) : ∀ t ∈ us, t.kind ≠ .leftParen := by
  rcases h with rfl | ⟨s, hs, rfl⟩
  · exact hparen
  · exact List.forall_mem_cons.2 ⟨by rw [hs]; decide, hparen⟩

theorem escapedTag_follows (hc : P.Met trail c c') (hparen : ∀ t ∈ trail, t.kind ≠ .leftParen)
    (place : Option Branch) :
    Follows False trail c c' P.Meets (c.escapedTag d place) (c'.escapedTag d place) := by
  unfold escapedTag
  refine Follows.eat_aligned_bind (fun h => hc.aligned_of (by rw [h]; rfl)) rfl (fun h => ?_) ?_
  · rw [eat_eq_none (mt (hc.kind rfl).1 h)]
    exact valueTag_follows hc true
  · rintro ⟨e, he⟩ ⟨e', he'⟩ hee hword
    have hmet : P.Met (c.token :: trail) e e' := hee.met (by rw [hword]; decide)
    have hparen' : ∀ t ∈ c.token :: trail, t.kind ≠ .leftParen :=
      List.forall_mem_cons.2 ⟨by rw [hword]; decide, hparen⟩
    dsimp only
    split
    · refine Follows.bind (otherwiseTag_follows hmet place) id ?_
      rintro ⟨tag, f, hf⟩ ⟨_, f', hf'⟩ ts - - ⟨rfl, hff⟩
      exact .done ⟨rfl, hff⟩
    · refine Follows.bind (skip_space_follows hee) id ?_
      rintro ⟨space, f, hf⟩ ⟨space', f', hf'⟩ ts - - ⟨hff, hts, hspace⟩
      dsimp only at hff hspace ⊢
      have hcloser : f'.atCloser = f.atCloser := by
        rw [atCloser_eq, atCloser_eq, (P.like hff).isCloser]
      have hbranch : (space' && !f'.atCloser) = (space && !f.atCloser) := by
        rcases hspace with rfl | ⟨rfl, hgap⟩
        · rw [hcloser]
        · have hclose := isCloser_of_gap hgap (forall_ne_of_skipped hts hparen') (by simp)
          rw [atCloser_eq, (P.like hff).isCloser, hclose]
          exact Bool.and_false space'
      rw [hbranch]
      split
      · refine Follows.bind (otherwiseOpeningTag_follows (.aligned hff) place) id ?_
        rintro ⟨tag, g, hg⟩ ⟨_, g', hg'⟩ us - - ⟨rfl, hgg⟩
        exact .done ⟨rfl, hgg⟩
      · refine Follows.bind (otherwiseTag_follows (.aligned hff) place) id ?_
        rintro ⟨tag, g, hg⟩ ⟨_, g', hg'⟩ us - - ⟨rfl, hgg⟩
        exact .done ⟨rfl, hgg⟩

theorem negatedTag_follows (hc : P.aligned trail c c') (place : Option Branch) :
    Follows False trail c c' P.Meets (c.negatedTag d place) (c'.negatedTag d place) := by
  have hcloser : c'.atCloser = c.atCloser := by
    rw [atCloser_eq, atCloser_eq, (P.like hc).isCloser]
  unfold negatedTag
  rw [hcloser]
  split
  · exact otherwiseTag_follows (.aligned hc) place
  · refine Follows.bind (reference?_follows (Z := fun _ _ _ => True) (.aligned hc) trivial
      fun _ _ _ _ _ _ => trivial) (fun _ => trivial) ?_
    rintro ⟨r, e, he⟩ ⟨_, e', he'⟩ ts - hpassage ⟨rfl, hee, -⟩
    cases r with
    | none => exact .error
    | some r =>
      refine .done ⟨?_, hee⟩
      dsimp only at hpassage ⊢
      rw [hpassage.upTo]

theorem closingTag_follows (hc : P.Met trail c c') :
    Follows False trail c c' P.Moves c.closingTag c'.closingTag := by
  unfold closingTag
  refine Follows.bind (names?_follows (Z := fun _ _ _ => True) hc trivial) (fun _ => trivial) ?_
  rintro ⟨path, e, he⟩ ⟨_, e', he'⟩ ts - hpassage ⟨rfl, hee, -⟩
  refine .done ⟨?_, hee⟩
  dsimp only at hpassage ⊢
  rw [hpassage.upTo]
  exact .closing _ _ _

theorem tag_follows (hc : P.aligned trail c c') (hparen : ∀ t ∈ trail, t.kind ≠ .leftParen)
    (place : Option Branch) (sigil : Sigil) :
    Follows False trail c c' P.Moves (c.tag d place sigil) (c'.tag d place sigil) := by
  have hsame (t t' : Tag) (us : List Token) (e e' : Cursor) (h : P.Meets t t' us e e') :
      P.Moves t t' us e e' := ⟨h.1 ▸ .same t, h.2⟩
  cases sigil with
  | unescaped | triple => exact (valueTag_follows (.aligned hc) false).imp id hsame
  | opening =>
    refine (blockCall_follows (.aligned hc)).map fun call call' us e e' h => ?_
    exact hsame _ _ us e e' ⟨congrArg _ h.1, h.2⟩
  | negated => exact (negatedTag_follows hc place).imp id hsame
  | closing => exact closingTag_follows (.aligned hc)
  | _ => exact (escapedTag_follows (.aligned hc) hparen place).imp id hsame

theorem inclusionName_follows (hc : P.Met trail c c') :
    Follows False trail c c' P.Meets c.inclusionName c'.inclusionName := by
  refine ((names_follows hc).imp False.elim fun _ _ _ _ _ => id).map ?_
  rintro path _ us e e' ⟨rfl, hee⟩
  exact ⟨rfl, hee⟩

theorem inclusionTag_follows (hc : P.Met trail c c') (name : String) :
    Follows False trail c c' P.Meets (c.inclusionTag d name) (c'.inclusionTag d name) := by
  unfold inclusionTag
  refine Follows.bind ((followsBelow _).arguments hc (Nat.lt_succ_self _)) id ?_
  rintro ⟨args, e, he⟩ ⟨_, e', he'⟩ ts - - ⟨rfl, hee⟩
  exact .done ⟨rfl, hee.met⟩

def closerText (extra : Nat) (trims : Bool) : List Char :=
  tildeIf trims ++ List.replicate (extra + 2) '\x7d'

theorem endsTag_closerText (extra : Nat) (trims : Bool) (rest : List Char) :
    Token.EndsTag (closerText extra trims ++ rest) := by
  cases trims with
  | true => exact ⟨'~', _, rfl, .inl rfl⟩
  | false => exact ⟨'\x7d', List.replicate (extra + 1) '\x7d' ++ rest, rfl, .inr rfl⟩

def BeforeCloser (c f : Cursor) : Prop :=
  (f = c ∨ c.token.kind = .space ∧ f.At c.rest) ∧ f.token.kind.isCloser = true

theorem BeforeCloser.skip {f : Cursor} (h : c.BeforeCloser f) :
    ∃ a, c.skip .space = .ok a ∧ a.cursor = f := by
  obtain ⟨rfl | ⟨hspace, hf⟩, hclose⟩ := h
  · have hne : f.token.kind ≠ .space := by
      intro heq
      rw [heq] at hclose
      cases hclose
    exact ⟨f.here false, skip_eq_false hne, rfl⟩
  · exact ⟨_, skip_eq_true hspace hf, rfl⟩

theorem BeforeCloser.gives {f : Cursor} (h : c.BeforeCloser f) {extra : Nat} {trims : Bool}
    {rest : List Char} (hf : f.At (closerText extra trims ++ rest)) :
    ∃ a, c.closer extra = .ok a ∧ a.result = trims ∧ a.cursor.rest = rest := by
  obtain ⟨space, hspace, rfl⟩ := h.skip
  obtain ⟨hle, hbraces⟩ := braces_gives (extra + 1) rest
  have hat := at_brace (List.replicate (extra + 1) '\x7d' ++ rest)
  have htilde : ∃ tilde, space.cursor.skip .tilde = .ok tilde ∧ tilde.result = trims ∧
      tilde.cursor = brace (List.replicate (extra + 1) '\x7d' ++ rest) := by
    cases trims with
    | true =>
      have hcursor : space.cursor = ⟨⟨.tilde, ['~']⟩, _⟩ := hf.eq (Token.read_symbol rfl _)
      rw [hcursor]
      exact ⟨_, skip_eq_true rfl hat, rfl, rfl⟩
    | false =>
      have hcursor : space.cursor = brace _ := hf.eq (Token.read_symbol rfl _)
      rw [hcursor]
      exact ⟨_, skip_eq_false (fun h : TokenKind.brace = .tilde => nomatch h), rfl, rfl⟩
  obtain ⟨⟨result, e, he⟩, htilde, rfl, heq⟩ := htilde
  dsimp only at heq
  subst heq
  unfold closer
  rw [hspace, ok_bind, htilde, ok_bind]
  dsimp only
  rw [hbraces, ok_bind]
  exact ⟨_, rfl, rfl, rfl⟩

theorem text_of_brace (hc : c.At c.chars) (h : c.token.kind = .brace) :
    c.chars = '\x7d' :: c.rest := by
  unfold chars
  rw [Token.text_of_symbol (c := '\x7d') hc (by rw [h]; rfl)]
  rfl

theorem chars_of_braces {n : Nat} (hc : c.At c.chars) {a : c.Ahead Unit} (h : c.braces n = .ok a) :
    c.chars = List.replicate n '\x7d' ++ a.cursor.chars ∧ a.cursor.At a.cursor.chars := by
  induction n generalizing c with
  | zero =>
    cases h
    exact ⟨rfl, hc⟩
  | succ n ih =>
    rw [braces] at h
    obtain ⟨past, hpast, h⟩ := bind_eq_ok.1 h
    obtain ⟨ahead, hahead, h⟩ := bind_eq_ok.1 h
    cases h
    unfold expect at hpast
    obtain ⟨found, hfound, hpast⟩ := bind_eq_ok.1 hpast
    cases found with
    | none => cases hpast
    | some p =>
      cases hpast
      obtain ⟨hkind, hnext⟩ := eat_always .brace _ hfound _ rfl
      have hat := at_of_start hnext
      obtain ⟨hchars, hend⟩ := ih (hat.chars.symm ▸ hat) hahead
      refine ⟨?_, hend⟩
      rw [text_of_brace hc hkind, ← hat.chars, hchars]
      rfl

theorem skip_cases {kind : TokenKind} (hc : c.At c.chars) {a : c.Ahead Bool}
    (h : c.skip kind = .ok a) : a.cursor.At a.cursor.chars ∧
      (a.result = false ∧ c.token.kind ≠ kind ∧ a.cursor = c ∨
        a.result = true ∧ c.token.kind = kind ∧ a.cursor.At c.rest) := by
  by_cases hkind : c.token.kind = kind
  · unfold skip eat at h
    rw [if_pos hkind] at h
    obtain ⟨past, hpast, h⟩ := bind_eq_ok.1 h
    rw [map_eq_pure_bind] at hpast
    obtain ⟨p, hnext, hp⟩ := bind_eq_ok.1 hpast
    cases hp
    cases h
    have hat := at_of_start hnext
    exact ⟨hat.chars.symm ▸ hat, .inr ⟨rfl, hkind, hat⟩⟩
  · rw [skip_eq_false hkind] at h
    cases h
    exact ⟨hc, .inl ⟨rfl, hkind, rfl⟩⟩

theorem exists_beforeCloser {extra : Nat} (hc : c.At c.chars) {a : c.Ahead Bool}
    (h : c.closer extra = .ok a) :
    ∃ f, c.BeforeCloser f ∧ f.At (closerText extra a.result ++ a.cursor.rest) := by
  unfold closer at h
  obtain ⟨space, hspace, h⟩ := bind_eq_ok.1 h
  obtain ⟨tilde, htilde, h⟩ := bind_eq_ok.1 h
  obtain ⟨braces, hbraces, h⟩ := bind_eq_ok.1 h
  split at h
  · next hbrace =>
    cases h
    obtain ⟨hat, hfirst⟩ := skip_cases hc hspace
    obtain ⟨hat', hsecond⟩ := skip_cases hat htilde
    obtain ⟨hchars, hend⟩ := chars_of_braces hat' hbraces
    have hclosing : tilde.cursor.chars =
        List.replicate (extra + 2) '\x7d' ++ braces.cursor.rest := by
      rw [hchars, text_of_brace hend hbrace, List.append_cons, ← List.replicate_succ']
    have hf : space.cursor.At (closerText extra tilde.result ++ braces.cursor.rest) := by
      rcases hsecond with ⟨hresult, -, hcursor⟩ | ⟨hresult, hkind, hnext⟩
      · rw [hresult]
        have hsame : space.cursor.chars = tilde.cursor.chars := (congrArg chars hcursor).symm
        rwa [hsame, hclosing] at hat
      · have htext := Token.text_of_symbol (c := '~') hat (by rw [hkind]; rfl)
        unfold chars at hat
        rw [htext, ← hnext.chars, hclosing, ← List.append_assoc] at hat
        rw [hresult]
        exact hat
    refine ⟨space.cursor, ⟨?_, hf.isCloser (endsTag_closerText _ _ _)⟩, hf⟩
    rcases hfirst with ⟨-, -, hcursor⟩ | ⟨-, hkind, hnext⟩
    · exact .inl hcursor
    · exact .inr ⟨hkind, hnext⟩
  · cases h

end Cursor
end Stencil
