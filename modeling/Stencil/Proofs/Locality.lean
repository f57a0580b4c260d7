import Stencil.Proofs.Cursors
import Stencil.Expr.Reader

set_option autoImplicit false

/-!
# Reading is local

What is read up to a brace does not change with the text behind that brace. Two texts that are the
same up to a brace are read side by side: as long as one reading has not gone beyond the brace, the
other does the same. One that has gone beyond it does not come back.
-/
namespace Stencil
namespace Cursor

def append (c : Cursor) (more : List Char) : Cursor := ⟨c.token, c.rest ++ more⟩

structure Braced (c : Cursor) : Prop where
  at_chars : c.At c.chars
  last : c.chars.getLast? = some '\x7d'

def Inside (tail : List Char) (c : Cursor) : Prop := ∃ e : Cursor, e.Braced ∧ c = e.append tail

/-- Cursors in texts that are the same up to a brace and go on with `tail` and with `more`. Beyond
the brace they are hardly related. -/
structure Alike (tail more : List Char) (c d : Cursor) : Prop where
  token : d.token = c.token
  le : c.rest.length ≤ d.rest.length
  same : tail.length ≤ c.rest.length → ∃ e : Cursor, e.Braced ∧ c = e.append tail ∧ d = e.append more

def Reaches (c d : Cursor) : Prop := d = c ∨ d.At d.chars ∧ d.chars <:+ c.rest

/-- If the first computation ends well, it ends ahead of `c`; and unless that is beyond the brace,
the second ends at the same place, with a related result. -/
def Carries (tail more : List Char) {o o' : Cursor} {α β : Type} (c : Cursor) (R : α → β → Prop)
    (x : Except Failure (o.Ahead α)) (y : Except Failure (o'.Ahead β)) : Prop :=
  ∀ a, x = .ok a → c.Reaches a.cursor ∧
    (tail.length ≤ a.cursor.rest.length →
      ∃ b, y = .ok b ∧ R a.result b.result ∧ Alike tail more a.cursor b.cursor)

variable {tail more : List Char} {c c' d d' : Cursor}

theorem chars_append (c : Cursor) (more : List Char) : (c.append more).chars = c.chars ++ more :=
  (List.append_assoc _ _ _).symm

theorem append_nil (c : Cursor) : c.append [] = c := by
  unfold append
  rw [List.append_nil]

theorem left_append (c : Cursor) (more : List Char) :
    (c.append more).left = c.left + more.length := by
  unfold left
  rw [chars_append, List.length_append]

theorem upTo_append (c d : Cursor) (more : List Char) :
    (c.append more).upTo (d.append more) = c.upTo d := by
  have hle : c.left - d.left ≤ c.chars.length := Nat.sub_le _ _
  unfold upTo
  rw [chars_append, left_append, left_append, Nat.add_sub_add_right,
    List.take_append_of_le_length hle]

theorem At.braced {cs : List Char} (h : c.At cs) (hcs : cs.getLast? = some '\x7d') : c.Braced := by
  constructor <;> rw [h.chars]
  · exact h
  · exact hcs

theorem Braced.at_append (h : c.Braced) (more : List Char) : (c.append more).At (c.chars ++ more) := by
  obtain ⟨before, hbefore⟩ := List.getLast?_eq_some_iff.1 h.last
  have hat := h.at_chars
  rw [hbefore] at hat ⊢
  rw [List.append_assoc]
  exact Token.read_append hat more

namespace Reaches

theorem refl (c : Cursor) : c.Reaches c := .inl rfl

theorem le (h : c.Reaches d) : d.rest.length ≤ c.rest.length := by
  rcases h with rfl | ⟨-, h⟩
  · exact Nat.le_refl _
  · have hlength := h.length_le
    unfold chars at hlength
    rw [List.length_append] at hlength
    omega

theorem trans {e : Cursor} (h : c.Reaches d) (h' : d.Reaches e) : c.Reaches e := by
  rcases h with rfl | ⟨hat, h⟩
  · exact h'
  · rcases h' with rfl | ⟨hat', h'⟩
    · exact .inr ⟨hat, h⟩
    · exact .inr ⟨hat', h'.trans ((List.suffix_append _ _).trans h)⟩

theorem of_next {p : c.Past} (h : c.next = .ok p) : c.Reaches p.1 := by
  have hat := at_of_start h
  exact .inr ⟨hat.chars.symm ▸ hat, hat.chars.symm ▸ List.suffix_refl _⟩

theorem at_chars (h : c.Reaches d) (hc : c.At c.chars) : d.At d.chars := by
  rcases h with rfl | ⟨hat, -⟩
  · exact hc
  · exact hat

theorem chars_suffix (h : c.Reaches d) : d.chars <:+ c.chars := by
  rcases h with rfl | ⟨-, h⟩
  · exact List.suffix_refl _
  · exact h.trans (List.suffix_append _ _)

end Reaches

theorem Inside.le (h : c.Inside tail) : tail.length ≤ c.rest.length := by
  obtain ⟨e, -, rfl⟩ := h
  exact Nat.le_trans (Nat.le_add_left _ _) (Nat.le_of_eq List.length_append.symm)

theorem Braced.getLast?_rest (h : c.Braced) (hne : c.rest ≠ []) : c.rest.getLast? = some '\x7d' := by
  have hlast := h.last
  unfold chars at hlast
  rw [List.getLast?_append, List.getLast?_eq_some_getLast hne] at hlast
  rw [List.getLast?_eq_some_getLast hne]
  exact hlast

/-- Behind the next token the reading is still inside, or it has gone beyond the brace: from the
brace itself, or with a constant or a name that holds it. -/
theorem next_cases {e : Cursor} (he : e.Braced) {p : (e.append tail).Past}
    (hp : (e.append tail).next = .ok p) :
    (∃ d : Cursor, d.Braced ∧ p.1 = d.append tail ∧ d.At e.rest) ∨
      p.1.rest.length < tail.length ∧
        (e.rest = [] ∨ p.1.token.kind = .const ∨ p.1.token.kind = .ident) := by
  obtain ⟨p, hlt⟩ := p
  by_cases hne : e.rest = []
  · unfold append at hlt
    rw [hne, List.nil_append] at hlt
    exact .inr ⟨hlt, .inl hne⟩
  · obtain ⟨before, hbefore⟩ := List.getLast?_eq_some_iff.1 (he.getLast?_rest hne)
    have hat : p.At (e.rest ++ tail) := at_of_start hp
    rw [hbefore, ← List.append_cons] at hat
    rcases Token.read_cut hat with ⟨r, hr, hread⟩ | ⟨hlength, hkind⟩
    · have hd : At ⟨p.token, r⟩ e.rest := by
        rw [hbefore]
        exact hread
      refine .inl ⟨⟨p.token, r⟩, hd.braced (he.getLast?_rest hne), ?_, hd⟩
      change p = ⟨p.token, r ++ tail⟩
      rw [← hr]
    · exact .inr ⟨hlength, .inr hkind⟩

namespace Alike

theorem of_braced (hc : c.Braced) (h : tail.length ≤ more.length) :
    Alike tail more (c.append tail) (c.append more) where
  token := rfl
  le := by
    unfold append
    rw [List.length_append, List.length_append]
    exact Nat.add_le_add_left h _
  same := fun _ => ⟨c, hc, rfl, rfl⟩

theorem of_nil (hc : c.Braced) : Alike [] more c (c.append more) := by
  have halike : Alike [] more (c.append []) (c.append more) := of_braced hc (Nat.zero_le _)
  rwa [append_nil] at halike

theorem eq_of_nil (h : Alike [] more c c') : c.Braced ∧ c' = c.append more := by
  obtain ⟨e, he, rfl, rfl⟩ := h.same (Nat.zero_le _)
  rw [append_nil]
  exact ⟨he, rfl⟩

theorem of_beyond (h : c.rest.length < tail.length) : Alike tail more c c where
  token := rfl
  le := Nat.le_refl _
  same := fun hle => absurd h (Nat.not_lt.2 hle)

theorem inside (h : Alike tail more c c') (hle : tail.length ≤ c.rest.length) : c.Inside tail := by
  obtain ⟨e, he, rfl, -⟩ := h.same hle
  exact ⟨e, he, rfl⟩

theorem found (h : Alike tail more c c') : c'.found = c.found := by
  unfold Cursor.found
  rw [h.token]

theorem upTo (hc : Alike tail more c c') (hd : Alike tail more d d')
    (hle : tail.length ≤ d.rest.length) (hcd : d.rest.length ≤ c.rest.length) :
    c'.upTo d' = c.upTo d := by
  obtain ⟨e, -, rfl, rfl⟩ := hc.same (Nat.le_trans hle hcd)
  obtain ⟨f, -, rfl, rfl⟩ := hd.same hle
  rw [upTo_append, upTo_append]

theorem next (hc : Alike tail more c c') {p : c.Past} (hp : c.next = .ok p)
    (hle : tail.length ≤ p.1.rest.length) :
    ∃ q, c'.next = .ok q ∧ Alike tail more p.1 q.1 := by
  have hcle := Nat.le_trans hle (Nat.le_of_lt p.2)
  have hmore := hc.le
  obtain ⟨e, he, rfl, rfl⟩ := hc.same hcle
  rcases next_cases he hp with ⟨d, hd, hpd, hat⟩ | ⟨hlt, -⟩
  · have hnext : (d.append more).At (e.append more).rest := by
      have := hd.at_append more
      rwa [hat.chars] at this
    refine ⟨_, next_eq hnext, ?_⟩
    rw [hpd]
    refine of_braced hd ?_
    unfold append at hmore
    rw [List.length_append, List.length_append] at hmore
    omega
  · exact absurd hlt (Nat.not_lt.2 hle)

end Alike

/-- Where every text is beyond the brace, a reader still goes on in the text. -/
theorem alike_beyond (c : Cursor) : Alike ('\x7d' :: c.rest) [] c c :=
  .of_beyond (Nat.lt_succ_self _)

namespace Carries
variable {α β γ δ : Type} {o o' p p' : Cursor} {R : α → β → Prop} {S : γ → δ → Prop}

theorem error {e : Failure} {y : Except Failure (o'.Ahead β)} :
    Carries tail more (o := o) c R (.error e) y := by
  intro a ha
  cases ha

theorem done {r : α} {r' : β} (hd : Alike tail more d d')
    (hr : tail.length ≤ d.rest.length → R r r') {h : d.rest.length ≤ o.rest.length}
    {h' : d'.rest.length ≤ o'.rest.length} :
    Carries tail more d R (.ok (⟨r, d, h⟩ : o.Ahead α)) (.ok (⟨r', d', h'⟩ : o'.Ahead β)) := by
  intro a ha
  cases ha
  exact ⟨.refl d, fun hle => ⟨_, rfl, hr hle, hd⟩⟩

theorem of_reaches {x : Except Failure (o.Ahead α)} {y : Except Failure (o'.Ahead β)}
    (h : Carries tail more d R x y) (hcd : c.Reaches d) : Carries tail more c R x y :=
  fun a ha => ⟨hcd.trans (h a ha).1, (h a ha).2⟩

theorem bind_rel {x : Except Failure (o.Ahead α)} {y : Except Failure (o'.Ahead α)}
    {R : α → α → Prop} (ho : Alike tail more o o') (hR : ∀ r, R r r) (h : Carries tail more c R x y)
    {f : o.Ahead α → Except Failure (p.Ahead γ)} {g : o'.Ahead α → Except Failure (p'.Ahead δ)}
    (hf : ∀ r r' d d' hd hd', x = .ok ⟨r, d, hd⟩ → R r r' → Alike tail more d d' →
      Carries tail more d S (f ⟨r, d, hd⟩) (g ⟨r', d', hd'⟩)) :
    Carries tail more c S (x >>= f) (y >>= g) := by
  cases x with
  | error e => exact error
  | ok a =>
    obtain ⟨r, d, hd⟩ := a
    obtain ⟨hreaches, hinside⟩ := h _ rfl
    by_cases hle : tail.length ≤ d.rest.length
    · obtain ⟨⟨r', d', hd'⟩, rfl, hr, hdd'⟩ := hinside hle
      exact (hf r r' d d' hd hd' rfl hr hdd').of_reaches hreaches
    · have hdd : Alike tail more d d := .of_beyond (Nat.not_le.1 hle)
      intro a ha
      have ha' := (hf r r d d hd (Nat.le_trans hd ho.le) rfl (hR r) hdd a ha).1
      exact ⟨hreaches.trans ha', fun hle' => absurd (Nat.le_trans hle' ha'.le) hle⟩

theorem bind {x : Except Failure (o.Ahead α)} {y : Except Failure (o'.Ahead α)}
    (ho : Alike tail more o o') (h : Carries tail more c Eq x y)
    {f : o.Ahead α → Except Failure (p.Ahead γ)} {g : o'.Ahead α → Except Failure (p'.Ahead δ)}
    (hf : ∀ r d d' hd hd', Alike tail more d d' →
      Carries tail more d S (f ⟨r, d, hd⟩) (g ⟨r, d', hd'⟩)) :
    Carries tail more c S (x >>= f) (y >>= g) := by
  apply bind_rel ho (fun _ => rfl) h
  rintro r _ d d' hd hd' - rfl hdd
  exact hf r d d' hd hd' hdd

theorem next_bind (hc : Alike tail more c c') {f : c.Past → Except Failure (p.Ahead γ)}
    {g : c'.Past → Except Failure (p'.Ahead δ)}
    (hf : ∀ d d' hd hd', Alike tail more d d' →
      Carries tail more d S (f ⟨d, hd⟩) (g ⟨d', hd'⟩)) :
    Carries tail more c S (c.next >>= f) (c'.next >>= g) := by
  cases hnext : c.next with
  | error e => exact error
  | ok past =>
    obtain ⟨d, hd⟩ := past
    have hreaches := Reaches.of_next hnext
    by_cases hle : tail.length ≤ d.rest.length
    · obtain ⟨⟨d', hd'⟩, hnext', hdd'⟩ := hc.next hnext hle
      rw [hnext']
      exact (hf d d' hd hd' hdd').of_reaches hreaches
    · have hdd : Alike tail more d d := .of_beyond (Nat.not_le.1 hle)
      intro a ha
      have ha' := (hf d d hd (Nat.lt_of_lt_of_le hd hc.le) hdd a ha).1
      exact ⟨hreaches.trans ha', fun hle' => absurd (Nat.le_trans hle' ha'.le) hle⟩

theorem eat_bind (hc : Alike tail more c c') {kind : TokenKind}
    {f : Option c.Past → Except Failure (p.Ahead γ)}
    {g : Option c'.Past → Except Failure (p'.Ahead δ)}
    (hnone : Carries tail more c S (f none) (g none))
    (hsome : ∀ d d' hd hd', Alike tail more d d' →
      Carries tail more d S (f (some ⟨d, hd⟩)) (g (some ⟨d', hd'⟩))) :
    Carries tail more c S (c.eat kind >>= f) (c'.eat kind >>= g) := by
  by_cases hkind : c.token.kind = kind
  · have hl : c.eat kind = some <$> c.next := if_pos hkind
    have hr : c'.eat kind = some <$> c'.next := if_pos (hc.token ▸ hkind)
    rw [hl, hr, map_eq_pure_bind, map_eq_pure_bind, bind_assoc, bind_assoc]
    exact next_bind hc hsome
  · rw [eat_eq_none hkind, eat_eq_none (c := c') (hc.token ▸ hkind)]
    exact hnone

theorem expect_bind (hc : Alike tail more c c') {kind : TokenKind}
    {f : c.Past → Except Failure (p.Ahead γ)} {g : c'.Past → Except Failure (p'.Ahead δ)}
    (hf : ∀ d d' hd hd', Alike tail more d d' →
      Carries tail more d S (f ⟨d, hd⟩) (g ⟨d', hd'⟩)) :
    Carries tail more c S (c.expect kind >>= f) (c'.expect kind >>= g) := by
  unfold expect
  rw [bind_assoc, bind_assoc]
  exact eat_bind hc error hf

theorem check_bind {ε : Type} (call : Call ε) (dialect : Dialect) (e e' : Cursor)
    {f : Unit → Except Failure (o.Ahead α)} {g : Unit → Except Failure (o'.Ahead β)}
    (h : Carries tail more c R (f ()) (g ())) :
    Carries tail more c R (call.check dialect e >>= f) (call.check dialect e' >>= g) := by
  unfold Call.check
  split
  · exact h
  · split
    · exact error
    · exact h

theorem imp {R' : α → β → Prop} {x : Except Failure (o.Ahead α)} {y : Except Failure (o'.Ahead β)}
    (h : Carries tail more c R x y) (himp : ∀ r r', R r r' → R' r r') :
    Carries tail more c R' x y := by
  intro a ha
  obtain ⟨hreaches, hinside⟩ := h a ha
  refine ⟨hreaches, fun hle => ?_⟩
  obtain ⟨b, hb, hr, hab⟩ := hinside hle
  exact ⟨b, hb, himp _ _ hr, hab⟩

theorem map {x : Except Failure (o.Ahead α)} {y : Except Failure (o'.Ahead α)}
    (ho : Alike tail more o o') (h : Carries tail more c Eq x y) (f : α → γ) :
    Carries tail more c Eq (Ahead.map f <$> x) (Ahead.map f <$> y) := by
  rw [map_eq_pure_bind, map_eq_pure_bind]
  apply bind ho h
  intro r d d' _ _ hd
  exact .done hd fun _ => rfl

theorem ite {q : Prop} [Decidable q] {x x' : Except Failure (o.Ahead α)}
    {y y' : Except Failure (o'.Ahead β)} (h : q → Carries tail more c R x y)
    (h' : ¬ q → Carries tail more c R x' y') :
    Carries tail more c R (if q then x else x') (if q then y else y') := by
  by_cases hq : q
  · rw [if_pos hq, if_pos hq]
    exact h hq
  · rw [if_neg hq, if_neg hq]
    exact h' hq

end Carries

theorem skip_carries (hc : Alike tail more c c') (kind : TokenKind) :
    Carries tail more c Eq (c.skip kind) (c'.skip kind) := by
  unfold skip
  apply Carries.eat_bind hc
  · exact .done hc fun _ => rfl
  · intro d d' _ _ hd
    exact .done hd fun _ => rfl

theorem steps_carries (hc : Alike tail more c c') (separator : String) :
    Carries tail more c Eq (c.steps separator) (c'.steps separator) := by
  induction hn : c.rest.length using Nat.strongRecOn generalizing c c' separator with
  | ind n ih =>
    subst hn
    rw [steps, steps, hc.token]
    apply Carries.ite
    · intro _
      apply Carries.next_bind hc
      intro d d' hd _ hdd
      dsimp only
      rw [hdd.token]
      apply Carries.ite
      · intro _
        apply Carries.next_bind hdd
        intro e e' he _ hee
        dsimp only
        rw [hdd.found]
        apply Carries.bind hee (ih e.rest.length (Nat.lt_trans he hd) hee d.found rfl)
        intro later f f' _ _ hff
        exact .done hff fun _ => rfl
      · intro _
        exact .done hdd fun _ => rfl
    · intro _
      exact .error

theorem names?_carries (hc : Alike tail more c c') : Carries tail more c Eq c.names? c'.names? := by
  unfold names?
  rw [hc.token]
  apply Carries.ite
  · intro _
    apply Carries.bind hc (steps_carries hc "")
    intro path d d' _ _ hd
    exact .done hd fun _ => rfl
  · intro _
    exact .done hc fun _ => rfl

theorem climb_carries (hc : Alike tail more c c') (up : Nat) (here : Bool) :
    Carries tail more c Eq (c.climb up here) (c'.climb up here) := by
  induction hn : c.rest.length using Nat.strongRecOn generalizing c c' up here with
  | ind n ih =>
    subst hn
    rw [climb, climb]
    apply Carries.eat_bind hc
    · exact .done hc fun _ => rfl
    · intro d d' hd _ hdd
      apply Carries.eat_bind hdd
      · apply Carries.eat_bind hdd
        · exact .done hdd fun _ => rfl
        · intro e e' he _ hee
          apply Carries.bind hee (ih e.rest.length (Nat.lt_trans he hd) hee up true rfl)
          intro r f f' _ _ hff
          exact .done hff fun _ => rfl
      · intro e e' he _ hee
        apply Carries.eat_bind hee
        · exact .done hee fun _ => rfl
        · intro f f' hf _ hff
          have hlt := Nat.lt_trans hf (Nat.lt_trans he hd)
          apply Carries.bind hff (ih f.rest.length hlt hff (up + 1) here rfl)
          intro r g g' _ _ hgg
          exact .done hgg fun _ => rfl

theorem referenceNames_carries (hc : Alike tail more c c') (data : Bool) (up : Nat)
    (required : Bool) :
    Carries tail more c Eq (c.referenceNames data up required)
      (c'.referenceNames data up required) := by
  unfold referenceNames
  apply Carries.bind hc (names?_carries hc)
  intro path d d' _ _ hd
  cases path with
  | some path => exact .done hd fun _ => rfl
  | none =>
    apply Carries.ite
    · intro _
      exact .error
    · intro _
      exact .done hd fun _ => rfl

theorem reference?_carries (hc : Alike tail more c c') :
    Carries tail more c Eq c.reference? c'.reference? := by
  unfold reference?
  apply Carries.bind hc (skip_carries hc .atSign)
  intro data d d' _ _ hd
  apply Carries.eat_bind hd
  · apply Carries.bind hd (climb_carries hd 0 false)
    rintro ⟨up, required⟩ e e' _ _ he
    cases required with
    | none => exact .done he fun _ => rfl
    | some required =>
      apply Carries.bind he (referenceNames_carries he data up required)
      intro r f f' _ _ hf
      exact .done hf fun _ => rfl
  · intro e e' _ _ he
    apply Carries.bind he (skip_carries he .dot)
    intro dotted f f' _ _ hf
    apply Carries.ite
    · intro _
      apply Carries.bind hf (referenceNames_carries hf data 0 true)
      intro r g g' _ _ hg
      exact .done hg fun _ => rfl
    · intro _
      exact .done hf fun _ => rfl

theorem head_carries (hc : Alike tail more c c') (dialect : Dialect) (fallback : Option Helper) :
    Carries tail more c Eq (c.head dialect fallback) (c'.head dialect fallback) := by
  unfold head
  apply Carries.bind hc (names?_carries hc)
  intro path d d' _ _ hd
  cases path with
  | some path =>
    dsimp only
    split
    · exact .done hd fun _ => rfl
    · exact .done hd fun _ => rfl
  | none =>
    apply Carries.bind hd (reference?_carries hd)
    intro r e e' _ _ he
    cases r with
    | some r => exact .done he fun _ => rfl
    | none => exact .error

end Cursor
end Stencil
