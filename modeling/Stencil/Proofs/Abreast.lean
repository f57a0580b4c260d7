import Stencil.Proofs.Rereading

set_option autoImplicit false

/-!
# Readings abreast

Two tags are read side by side whose tokens are the same but for white space. What white space is
there does not matter, and in the gaps behind an opener and behind a parenthesis, and in front of
closers and of closing parentheses, there may be some in one tag and none in the other. A reader that
ends well in the first tag then does the same in the second.
-/
namespace Stencil

namespace TokenKind

def isCloser : TokenKind → Bool
  | .tilde | .brace => true
  | _ => false

def spells : TokenKind → Bool
  | .ident | .thisWord | .dot | .slash | .atSign => true
  | _ => false

def idle : TokenKind → Bool
  | .space | .rightParen | .tilde | .brace => true
  | _ => false

theorem idle_of_isCloser {kind : TokenKind} (h : kind.isCloser = true) : kind.idle = true := by
  cases kind <;> first | rfl | cases h

theorem spells_of_idle {kind : TokenKind} (h : kind.idle = true) : kind.spells = false := by
  cases kind <;> first | rfl | cases h

end TokenKind

/-- Tokens that are read alike. Closers are told apart later on. -/
inductive Token.Like : Token → Token → Prop
  | same {t : Token} (h : t.kind.isCloser = false) : Token.Like t t
  | space {t t' : Token} (h : t.kind = .space) (h' : t'.kind = .space) : Token.Like t t'
  | closer {t t' : Token} (h : t.kind.isCloser = true) (h' : t'.kind.isCloser = true) :
    Token.Like t t'

namespace Token.Like
variable {t t' : Token}

theorem refl (t : Token) : t.Like t := by
  cases h : t.kind.isCloser with
  | false => exact .same h
  | true => exact .closer h h

theorem eq_of_idle (h : t.Like t') (ht : t.kind.idle = false) : t' = t := by
  cases h with
  | same => rfl
  | space h =>
    rw [h] at ht
    cases ht
  | closer h =>
    rw [TokenKind.idle_of_isCloser h] at ht
    cases ht

theorem idle (h : t.Like t') (ht : t.kind.idle = true) : t'.kind.idle = true := by
  cases h with
  | same => exact ht
  | space _ h' => rw [h']; rfl
  | closer _ h' => exact TokenKind.idle_of_isCloser h'

theorem kind_eq (h : t.Like t') (ht : t.kind.isCloser = false) : t'.kind = t.kind := by
  cases h with
  | same => rfl
  | space h h' => rw [h, h']
  | closer h =>
    rw [h] at ht
    cases ht

theorem isCloser (h : t.Like t') : t'.kind.isCloser = t.kind.isCloser := by
  cases h with
  | same => rfl
  | space h h' => rw [h, h']
  | closer h h' => rw [h, h']

theorem space_iff (h : t.Like t') : t'.kind = .space ↔ t.kind = .space := by
  cases h with
  | same => exact Iff.rfl
  | space h h' => exact iff_of_true h' h
  | closer h h' =>
    refine iff_of_false ?_ ?_
    · intro heq
      rw [heq] at h'
      cases h'
    · intro heq
      rw [heq] at h
      cases h

end Token.Like

/-- Tokens that spell a reference, and not just the name of a helper. -/
def Bare (d : Dialect) (ts : List Token) : Prop :=
  (∀ t ∈ ts, t.kind.spells = true) ∧
    ∀ t, ts = [t] → t.kind = .ident → d.helpers.get? t.name = none

/-- Directly behind an opening parenthesis, white space apart. The last token comes first. -/
inductive Opens : List Token → Prop
  | paren {p : Token} {before : List Token} (hp : p.kind = .leftParen) : Opens (p :: before)
  | space {s p : Token} {before : List Token} (hs : s.kind = .space) (hp : p.kind = .leftParen) :
    Opens (s :: p :: before)

/-- Where no white space may be in front of a closing parenthesis: behind a reference that is alone in
its parentheses, and behind an `@`. -/
inductive Tight (d : Dialect) : List Token → Prop
  | atSign {t : Token} {before : List Token} (ht : t.kind = .atSign) : Tight d (t :: before)
  | bare {ts before : List Token} (hbefore : Opens before) (hts : Bare d ts) :
    Tight d (ts.reverse ++ before)

/-- Tokens behind which, and a kind of token in front of which, an expression is over. -/
inductive IsOver (d : Dialect) (trail : List Token) : TokenKind → Prop
  | closer {kind : TokenKind} (h : kind.isCloser = true) : IsOver d trail kind
  | rightParen (hopen : ∃ p ∈ trail, p.kind = .leftParen) (h : ¬ Tight d trail) :
    IsOver d trail .rightParen

/-- Between these tokens of a tag, the last one first, and the next one white space may be put. -/
inductive Gap (d : Dialect) : List Token → TokenKind → Prop
  | opener (kind : TokenKind) : Gap d [] kind
  | paren {p : Token} {before : List Token} (hp : p.kind = .leftParen) (kind : TokenKind) :
    Gap d (p :: before) kind
  | ended {trail : List Token} {kind : TokenKind} (h : IsOver d trail kind) : Gap d trail kind

theorem IsOver.idle {d : Dialect} {trail : List Token} {kind : TokenKind} (h : IsOver d trail kind) :
    kind.idle = true := by
  cases h with
  | closer h => exact TokenKind.idle_of_isCloser h
  | rightParen => rfl

theorem Gap.isOver_of_cons {d : Dialect} {t : Token} {trail : List Token} {kind : TokenKind}
    (h : Gap d (t :: trail) kind) (ht : t.kind ≠ .leftParen) : IsOver d (t :: trail) kind := by
  cases h with
  | paren hp => exact absurd hp ht
  | ended h => exact h

namespace Cursor
variable {d : Dialect} {trail : List Token} {c c' : Cursor}

/-- The second cursor is in front of white space that the first tag does not have. -/
structure Extra (d : Dialect) (aligned : List Token → Cursor → Cursor → Prop) (trail : List Token)
    (c c' : Cursor) : Prop where
  space : c'.token.kind = .space
  solid : c.token.kind ≠ .space
  gap : Gap d trail c.token.kind
  behind : ∀ t ∈ trail.head?, t.kind ≠ .space
  passed : ∃ m : Cursor, m.At c'.rest ∧ aligned trail c m

end Cursor

/-- Cursors in two tags that are in front of the same, and what stands in front of them. -/
structure Pairing (d : Dialect) where
  aligned : List Token → Cursor → Cursor → Prop
  like : ∀ {trail : List Token} {c c' : Cursor}, aligned trail c c' → c.token.Like c'.token
  next : ∀ {trail : List Token} {c c' n : Cursor}, aligned trail c c' →
    c.token.kind.isCloser = false → n.At c.rest → ∃ n' : Cursor, n'.At c'.rest ∧
      (aligned (c.token :: trail) n n' ∨ Cursor.Extra d aligned (c.token :: trail) n n')

def Pairing.self (d : Dialect) : Pairing d where
  aligned := fun _ c c' => c = c'
  like := fun h => h ▸ .refl _
  next := fun h _ hn => ⟨_, h ▸ hn, .inl rfl⟩

namespace Pairing
variable {d : Dialect} (P : Pairing d) {trail : List Token} {c c' : Cursor}

def Beside (trail : List Token) (c c' : Cursor) : Prop :=
  P.aligned trail c c' ∨ Cursor.Extra d P.aligned trail c c'

inductive Met (trail : List Token) (c c' : Cursor) : Prop
  | aligned (h : P.aligned trail c c')
  | extra (h : Cursor.Extra d P.aligned trail c c') (hover : IsOver d trail c.token.kind)

def Rested (trail : List Token) (c c' : Cursor) : Prop :=
  P.aligned trail c c' ∨
    P.Met trail c c' ∧ ∃ (t : Token) (before : List Token), t.kind = .atSign ∧ trail = t :: before

variable {P}

theorem Rested.met (h : P.Rested trail c c') : P.Met trail c c' := by
  rcases h with h | ⟨h, -⟩
  · exact .aligned h
  · exact h

theorem Beside.met {t : Token} (h : P.Beside (t :: trail) c c') (ht : t.kind ≠ .leftParen) :
    P.Met (t :: trail) c c' := by
  rcases h with h | h
  · exact .aligned h
  · exact .extra h (h.gap.isOver_of_cons ht)

namespace Met

theorem aligned_of (h : P.Met trail c c') (hc : c.token.kind.idle = false) :
    P.aligned trail c c' := by
  cases h with
  | aligned h => exact h
  | extra h hover =>
    rw [hover.idle] at hc
    cases hc

theorem token (h : P.Met trail c c') (hc : c.token.kind.idle = false) : c'.token = c.token :=
  (P.like (h.aligned_of hc)).eq_of_idle hc

theorem idle (h : P.Met trail c c') (hc : c.token.kind.idle = true) :
    c'.token.kind.idle = true := by
  cases h with
  | aligned h => exact (P.like h).idle hc
  | extra h => rw [h.space]; rfl

/-- The cursors are at the same tokens, but for those at which expressions end. -/
theorem kind (h : P.Met trail c c') {kind : TokenKind} (hkind : kind.idle = false) :
    c'.token.kind = kind ↔ c.token.kind = kind := by
  cases hc : c.token.kind.idle with
  | false => rw [h.token hc]
  | true =>
    have hc' := h.idle hc
    constructor
    · rintro rfl
      rw [hc'] at hkind
      cases hkind
    · rintro rfl
      rw [hc] at hkind
      cases hkind

/-- Where no parenthesis is passed, the next cursors meet. -/
theorem next (h : P.Met trail c c') (hc : c.token.kind.idle = false)
    (hparen : c.token.kind ≠ .leftParen) {n : Cursor} (hn : n.At c.rest) :
    ∃ n' : Cursor, n'.At c'.rest ∧ P.Met (c.token :: trail) n n' := by
  have hclose : c.token.kind.isCloser = false := by
    cases hcloser : c.token.kind.isCloser with
    | false => rfl
    | true =>
      rw [TokenKind.idle_of_isCloser hcloser] at hc
      cases hc
  obtain ⟨n', hn', hbeside⟩ := P.next (h.aligned_of hc) hclose hn
  exact ⟨n', hn', Beside.met hbeside hparen⟩

/-- Behind a reference that is alone in its parentheses, and behind an `@`, the cursors are at the
same closing parenthesis. -/
theorem aligned_of_tight (h : P.Met trail c c') (htight : Tight d trail)
    (hc : c.token.kind = .rightParen) : P.aligned trail c c' := by
  cases h with
  | aligned h => exact h
  | extra h hover =>
    rw [hc] at hover
    cases hover with
    | closer hclose => cases hclose
    | rightParen _ hloose => exact absurd htight hloose

end Met

theorem met_self (d : Dialect) (c : Cursor) : (self d).Met [] c c := .aligned rfl

theorem next_space (h : P.aligned trail c c') (hc : c.token.kind = .space) {n : Cursor}
    (hn : n.At c.rest) : ∃ n' : Cursor, n'.At c'.rest ∧ P.aligned (c.token :: trail) n n' := by
  obtain ⟨n', hn', halign | hextra⟩ := P.next h (by rw [hc]; rfl) hn
  · exact ⟨n', hn', halign⟩
  · exact absurd hc (hextra.behind c.token rfl)

end Pairing

namespace Cursor

inductive Passes : Cursor → List Token → Cursor → Prop
  | here (c : Cursor) : Passes c [] c
  | next {c n e : Cursor} {ts : List Token} (hclose : c.token.kind.isCloser = false)
    (hn : n.At c.rest) (h : Passes n ts e) : Passes c (c.token :: ts) e

theorem Passes.trans {c d e : Cursor} {ts us : List Token} (h : c.Passes ts d) (h' : d.Passes us e) :
    c.Passes (ts ++ us) e := by
  induction h with
  | here c => exact h'
  | next hclose hn _ ih => exact .next hclose hn (ih h')

theorem Passes.single {c n : Cursor} (hclose : c.token.kind.isCloser = false) (hn : n.At c.rest) :
    c.Passes [c.token] n :=
  .next hclose hn (.here n)

theorem Passes.chars {c d : Cursor} {ts : List Token} (h : c.Passes ts d) :
    c.chars = ts.flatMap Token.text ++ d.chars := by
  induction h with
  | here c => rfl
  | next hclose hn _ ih =>
    rw [List.flatMap_cons, List.append_assoc, ← ih, hn.chars]
    rfl

theorem Passes.upTo {c d : Cursor} {ts : List Token} (h : c.Passes ts d) :
    c.upTo d = String.ofList (ts.flatMap Token.text) := by
  have hlength : c.left - d.left = (ts.flatMap Token.text).length := by
    unfold left
    rw [h.chars, List.length_append, Nat.add_sub_cancel]
  unfold Cursor.upTo
  rw [hlength, h.chars, List.take_left]

/-- What is passed on the way in the first tag. Where it spells a reference, it is the same in the
second. -/
structure Passage (spelled : Prop) (ts : List Token) (c c' d d' : Cursor) : Prop where
  passes : c.Passes ts d
  spelled : spelled → (∀ t ∈ ts, t.kind.spells = true) ∧ c'.Passes ts d'

namespace Passage
variable {spelled : Prop} {ts us : List Token} {c c' d d' e e' : Cursor}

theorem refl (spelled : Prop) (c c' : Cursor) : Passage spelled [] c c' c c' :=
  ⟨.here c, fun _ => ⟨List.forall_mem_nil _, .here c'⟩⟩

theorem trans (h : Passage spelled ts c c' d d') (h' : Passage spelled us d d' e e') :
    Passage spelled (ts ++ us) c c' e e' where
  passes := h.passes.trans h'.passes
  spelled hs := ⟨List.forall_mem_append.2 ⟨(h.spelled hs).1, (h'.spelled hs).1⟩,
    (h.spelled hs).2.trans (h'.spelled hs).2⟩

theorem imp {other : Prop} (h : Passage spelled ts c c' d d') (himp : other → spelled) :
    Passage other ts c c' d d' :=
  ⟨h.passes, fun ho => h.spelled (himp ho)⟩

theorem upTo (h : Passage True ts c c' d d') : c'.upTo d' = c.upTo d := by
  rw [(h.spelled True.intro).2.upTo, h.passes.upTo]

end Passage

/-- If the first computation ends well, so does the second, and what comes out is related at the place
where they end. -/
def Follows (spelled : Prop) {o o' : Cursor} {α β : Type} (trail : List Token) (c c' : Cursor)
    (post : α → β → List Token → Cursor → Cursor → Prop) (x : Except Failure (o.Ahead α))
    (y : Except Failure (o'.Ahead β)) : Prop :=
  ∀ a, x = .ok a → ∃ b ts, y = .ok b ∧ Passage spelled ts c c' a.cursor b.cursor ∧
    post a.result b.result (ts.reverse ++ trail) a.cursor b.cursor

namespace Follows
variable {α β γ δ : Type} {o o' p p' c c' e e' : Cursor} {spelled other : Prop} {trail : List Token}
  {post post' : α → β → List Token → Cursor → Cursor → Prop}
  {after : γ → δ → List Token → Cursor → Cursor → Prop}

theorem error {f : Failure} {y : Except Failure (o'.Ahead β)} :
    Follows spelled (o := o) trail c c' post (.error f) y := by
  intro a ha
  cases ha

theorem done {r : α} {r' : β} (h : post r r' trail c c') {hc : c.rest.length ≤ o.rest.length}
    {hc' : c'.rest.length ≤ o'.rest.length} :
    Follows spelled trail c c' post (.ok (⟨r, c, hc⟩ : o.Ahead α))
      (.ok (⟨r', c', hc'⟩ : o'.Ahead β)) := by
  intro a ha
  cases ha
  exact ⟨_, [], rfl, .refl spelled c c', h⟩

theorem imp {x : Except Failure (o.Ahead α)} {y : Except Failure (o'.Ahead β)}
    (h : Follows spelled trail c c' post x y) (hspelled : other → spelled)
    (himp : ∀ r r' us e e', post r r' us e e' → post' r r' us e e') :
    Follows other trail c c' post' x y := by
  intro a ha
  obtain ⟨b, ts, hb, hpassage, hpost⟩ := h a ha
  exact ⟨b, ts, hb, hpassage.imp hspelled, himp _ _ _ _ _ hpost⟩

theorem of_passage {ts : List Token} {x : Except Failure (o.Ahead α)} {y : Except Failure (o'.Ahead β)}
    (h : Follows spelled (ts.reverse ++ trail) e e' post x y) (hpassage : Passage spelled ts c c' e e') :
    Follows spelled trail c c' post x y := by
  intro a ha
  obtain ⟨b, us, hb, hpassage', hpost⟩ := h a ha
  refine ⟨b, ts ++ us, hb, hpassage.trans hpassage', ?_⟩
  rw [List.reverse_append, List.append_assoc]
  exact hpost

theorem bind {x : Except Failure (o.Ahead α)} {y : Except Failure (o'.Ahead β)}
    (h : Follows other trail c c' post x y) (hspelled : spelled → other)
    {f : o.Ahead α → Except Failure (p.Ahead γ)} {g : o'.Ahead β → Except Failure (p'.Ahead δ)}
    (hf : ∀ a b ts, x = .ok a → Passage other ts c c' a.cursor b.cursor →
      post a.result b.result (ts.reverse ++ trail) a.cursor b.cursor →
        Follows spelled (ts.reverse ++ trail) a.cursor b.cursor after (f a) (g b)) :
    Follows spelled trail c c' after (x >>= f) (y >>= g) := by
  cases hx : x with
  | error e => exact error
  | ok a =>
    obtain ⟨b, ts, rfl, hpassage, hpost⟩ := h a hx
    exact (hf a b ts hx hpassage hpost).of_passage (hpassage.imp hspelled)

theorem map {x : Except Failure (o.Ahead α)} {y : Except Failure (o'.Ahead β)} {f : α → γ} {g : β → δ}
    (h : Follows spelled trail c c' post x y)
    (hfg : ∀ r r' us e e', post r r' us e e' → after (f r) (g r') us e e') :
    Follows spelled trail c c' after (Ahead.map f <$> x) (Ahead.map g <$> y) := by
  rw [map_eq_pure_bind, map_eq_pure_bind]
  exact bind h id fun a b _ _ _ hpost => done (hfg _ _ _ _ _ hpost)

theorem check_bind {ε : Type} (call : Call ε) (dialect : Dialect) (e e' : Cursor)
    {f : Unit → Except Failure (o.Ahead α)} {g : Unit → Except Failure (o'.Ahead β)}
    (h : Follows spelled trail c c' post (f ()) (g ())) :
    Follows spelled trail c c' post (call.check dialect e >>= f) (call.check dialect e' >>= g) := by
  unfold Call.check
  split
  · exact h
  · split
    · exact error
    · exact h

variable {d : Dialect} {P : Pairing d}

theorem next_bind (hc : P.Met trail c c') (hidle : c.token.kind.idle = false)
    (hparen : c.token.kind ≠ .leftParen) (hspelled : spelled → c.token.kind.spells = true)
    {f : c.Past → Except Failure (p.Ahead γ)} {g : c'.Past → Except Failure (p'.Ahead δ)}
    (hf : ∀ n n', P.Met (c.token :: trail) n.1 n'.1 →
      Follows spelled (c.token :: trail) n.1 n'.1 after (f n) (g n')) :
    Follows spelled trail c c' after (c.next >>= f) (c'.next >>= g) := by
  cases hnext : c.next with
  | error e => exact error
  | ok n =>
    have hn := at_of_start hnext
    obtain ⟨n', hn', hmet⟩ := hc.next hidle hparen hn
    rw [next_eq hn']
    have hclose : c.token.kind.isCloser = false := by
      cases hcloser : c.token.kind.isCloser with
      | false => rfl
      | true =>
        rw [TokenKind.idle_of_isCloser hcloser] at hidle
        cases hidle
    have htoken := hc.token hidle
    have hpassage : Passage spelled [c.token] c c' n.1 n' :=
      ⟨.single hclose hn, fun hs => ⟨List.forall_mem_singleton.2 (hspelled hs),
        htoken ▸ .single (htoken ▸ hclose) hn'⟩⟩
    exact (hf n ⟨n', _⟩ hmet).of_passage hpassage

theorem eat_bind (hc : P.Met trail c c') {kind : TokenKind} (hidle : kind.idle = false)
    (hparen : kind ≠ .leftParen) (hspelled : spelled → kind.spells = true)
    {f : Option c.Past → Except Failure (p.Ahead γ)} {g : Option c'.Past → Except Failure (p'.Ahead δ)}
    (hnone : c.token.kind ≠ kind → Follows spelled trail c c' after (f none) (g none))
    (hsome : ∀ n n', c.token.kind = kind → P.Met (c.token :: trail) n.1 n'.1 →
      Follows spelled (c.token :: trail) n.1 n'.1 after (f (some n)) (g (some n'))) :
    Follows spelled trail c c' after (c.eat kind >>= f) (c'.eat kind >>= g) := by
  by_cases hkind : c.token.kind = kind
  · have hl : c.eat kind = some <$> c.next := if_pos hkind
    have hr : c'.eat kind = some <$> c'.next := if_pos ((hc.kind hidle).2 hkind)
    subst hkind
    rw [hl, hr, map_eq_pure_bind, map_eq_pure_bind, bind_assoc, bind_assoc]
    exact next_bind hc hidle hparen hspelled fun n n' hn => hsome n n' rfl hn
  · rw [eat_eq_none hkind, eat_eq_none (mt (hc.kind hidle).1 hkind)]
    exact hnone hkind

theorem eat_aligned_bind {kind : TokenKind} (hc : c.token.kind = kind → P.aligned trail c c')
    (hclose : kind.isCloser = false)
    {f : Option c.Past → Except Failure (p.Ahead γ)} {g : Option c'.Past → Except Failure (p'.Ahead δ)}
    (hnone : c.token.kind ≠ kind → Follows False trail c c' after (f none) (c'.eat kind >>= g))
    (hsome : ∀ n n', P.Beside (c.token :: trail) n.1 n'.1 → c.token.kind = kind →
      Follows False (c.token :: trail) n.1 n'.1 after (f (some n)) (g (some n'))) :
    Follows False trail c c' after (c.eat kind >>= f) (c'.eat kind >>= g) := by
  by_cases heq : c.token.kind = kind
  · subst heq
    have hlike := P.like (hc rfl)
    have htoken : c'.token.kind = c.token.kind := hlike.kind_eq hclose
    have hl : c.eat c.token.kind = some <$> c.next := if_pos rfl
    have hr : c'.eat c.token.kind = some <$> c'.next := if_pos htoken
    rw [hl, hr, map_eq_pure_bind, map_eq_pure_bind, bind_assoc, bind_assoc]
    cases hnext : c.next with
    | error e => exact error
    | ok n =>
      have hn := at_of_start hnext
      obtain ⟨n', hn', hbeside⟩ := P.next (hc rfl) hclose hn
      rw [next_eq hn']
      exact (hsome n ⟨n', _⟩ hbeside rfl).of_passage ⟨.single hclose hn, False.elim⟩
  · rw [eat_eq_none heq]
    exact hnone heq

theorem expect_paren_bind (hc : c.token.kind = .rightParen → P.aligned trail c c')
    {f : c.Past → Except Failure (p.Ahead γ)} {g : c'.Past → Except Failure (p'.Ahead δ)}
    (hf : ∀ n n', P.Met (c.token :: trail) n.1 n'.1 →
      Follows False (c.token :: trail) n.1 n'.1 after (f n) (g n')) :
    Follows False trail c c' after (c.expect .rightParen >>= f) (c'.expect .rightParen >>= g) := by
  unfold expect
  rw [bind_assoc, bind_assoc]
  refine eat_aligned_bind hc rfl (fun _ => error) fun n n' hnn hkind => ?_
  exact hf n n' (hnn.met (by rw [hkind]; decide))

end Follows
end Cursor
end Stencil
