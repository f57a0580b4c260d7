import Stencil.Proofs.Rereading
import Stencil.Tag.Reader

set_option autoImplicit false

/-!
# Tags and what stands behind them

A tag is read up to the last brace of its closer, so it is read the same whatever stands behind
that. The beginning of a tag, a comment and a raw block are found in the same place, too.
-/
namespace Stencil
namespace Cursor
variable {tail more : List Char} {c c' : Cursor}

theorem braces_carries (hc : Alike tail more c c') (n : Nat) :
    Carries tail more c Eq (c.braces n) (c'.braces n) := by
  induction n generalizing c c' with
  | zero => exact .done hc fun _ => rfl
  | succ n ih =>
    rw [braces, braces]
    apply Carries.expect_bind hc
    intro d d' _ _ hd
    apply Carries.bind hd (ih hd)
    intro r e e' _ _ he
    exact .done he fun _ => rfl

theorem closer_carries (hc : Alike tail more c c') (extra : Nat) :
    Carries tail more c Eq (c.closer extra) (c'.closer extra) := by
  unfold closer
  apply Carries.bind hc (skip_carries hc .space)
  intro space d d' _ _ hd
  apply Carries.bind hd (skip_carries hd .tilde)
  intro tilde e e' _ _ he
  apply Carries.bind he (braces_carries he (extra + 1))
  intro _ f f' _ _ hf
  dsimp only
  rw [hf.token]
  apply Carries.ite
  · intro _
    exact .done hf fun _ => rfl
  · intro _
    exact .error

theorem blockCall_carries (hc : Alike tail more c c') (dialect : Dialect) :
    Carries tail more c Eq (c.blockCall dialect) (c'.blockCall dialect) := by
  unfold blockCall
  apply Carries.bind hc ((localBelow dialect tail more _).call _ hc (Nat.lt_succ_self _))
  intro call d d' _ _ hd
  exact .check_bind call dialect d d' (.done hd fun _ => rfl)

theorem otherwiseTag_carries (hc : Alike tail more c c') (place : Option Branch) :
    Carries tail more c Eq (c.otherwiseTag place) (c'.otherwiseTag place) := by
  unfold otherwiseTag
  split
  · exact .error
  · exact .error
  · exact .done hc fun _ => rfl

theorem otherwiseOpeningTag_carries (hc : Alike tail more c c') (dialect : Dialect)
    (place : Option Branch) :
    Carries tail more c Eq (c.otherwiseOpeningTag dialect place)
      (c'.otherwiseOpeningTag dialect place) := by
  unfold otherwiseOpeningTag
  apply Carries.ite
  · intro _
    exact .error
  · intro _
    apply Carries.bind hc (blockCall_carries hc dialect)
    intro call d d' _ _ hd
    exact .done hd fun _ => rfl

theorem valueTag_carries (hc : Alike tail more c c') (dialect : Dialect) (escape : Bool) :
    Carries tail more c Eq (c.valueTag dialect escape) (c'.valueTag dialect escape) :=
  .map hc ((localBelow dialect tail more _).expression hc (Nat.lt_succ_self _)) _

theorem escapedTag_carries (hc : Alike tail more c c') (dialect : Dialect)
    (place : Option Branch) :
    Carries tail more c Eq (c.escapedTag dialect place) (c'.escapedTag dialect place) := by
  unfold escapedTag
  apply Carries.eat_bind hc
  · exact valueTag_carries hc dialect true
  · intro d d' _ _ hd
    apply Carries.ite
    · intro _
      apply Carries.bind hd (otherwiseTag_carries hd place)
      intro tag e e' _ _ he
      exact .done he fun _ => rfl
    · intro _
      apply Carries.bind hd (skip_carries hd .space)
      intro space e e' _ _ he
      have hcloser : e'.atCloser = e.atCloser := by
        unfold atCloser
        rw [he.token]
      dsimp only
      rw [hcloser]
      apply Carries.ite
      · intro _
        apply Carries.bind he (otherwiseOpeningTag_carries he dialect place)
        intro tag f f' _ _ hf
        exact .done hf fun _ => rfl
      · intro _
        apply Carries.bind he (otherwiseTag_carries he place)
        intro tag f f' _ _ hf
        exact .done hf fun _ => rfl

theorem negatedTag_carries (hc : Alike tail more c c') (dialect : Dialect)
    (place : Option Branch) :
    Carries tail more c Eq (c.negatedTag dialect place) (c'.negatedTag dialect place) := by
  have hcloser : c'.atCloser = c.atCloser := by
    unfold atCloser
    rw [hc.token]
  unfold negatedTag
  rw [hcloser]
  apply Carries.ite
  · intro _
    exact otherwiseTag_carries hc place
  · intro _
    apply Carries.bind hc (reference?_carries hc)
    intro r d d' hd _ hdd
    cases r with
    | none => exact .error
    | some r =>
      refine .done hdd fun hle => ?_
      rw [hc.upTo hdd hle hd]

end Cursor

inductive Tag.Moved : Tag → Tag → Prop
  | same (t : Tag) : Tag.Moved t t
  | closing (name : String) (left left' : Nat) :
    Tag.Moved (.closing name left) (.closing name left')

theorem Tag.Moved.rel_refl (tag : Option Tag) : Option.Rel Tag.Moved tag tag := by
  cases tag with
  | none => exact .none
  | some tag => exact .some (.same tag)

namespace Cursor
variable {tail more : List Char} {c c' : Cursor}

theorem closingTag_carries (hc : Alike tail more c c') :
    Carries tail more c Tag.Moved c.closingTag c'.closingTag := by
  unfold closingTag
  apply Carries.bind hc (names?_carries hc)
  intro path d d' hd _ hdd
  refine .done hdd fun hle => ?_
  rw [hc.upTo hdd hle hd]
  exact .closing _ _ _

theorem tag_carries (hc : Alike tail more c c') (dialect : Dialect) (place : Option Branch)
    (sigil : Sigil) :
    Carries tail more c Tag.Moved (c.tag dialect place sigil) (c'.tag dialect place sigil) := by
  have hsame (t t' : Tag) (h : t = t') : t.Moved t' := h ▸ .same t
  cases sigil with
  | unescaped | triple => exact (valueTag_carries hc dialect false).imp hsame
  | opening => exact (Carries.map hc (blockCall_carries hc dialect) _).imp hsame
  | negated => exact (negatedTag_carries hc dialect place).imp hsame
  | closing => exact closingTag_carries hc
  | _ => exact (escapedTag_carries hc dialect place).imp hsame

def inFront (cs : List Char) : Cursor := ⟨⟨.dot, ['.']⟩, cs⟩

theorem inFront_braced {cs : List Char} (h : cs.getLast? = some '\x7d') : (inFront cs).Braced where
  at_chars := Token.read_symbol rfl cs
  last := by
    unfold chars inFront
    rw [List.getLast?_append, h]
    rfl

theorem enter_carries {cs cs' : List Char} (h : Alike tail more (inFront cs) (inFront cs'))
    {p : { c : Cursor // c.rest.length < cs.length }} (hp : enter cs = .ok p) :
    (inFront cs).Reaches p.1 ∧ (tail.length ≤ p.1.rest.length →
      ∃ q, enter cs' = .ok q ∧ Alike tail more p.1 q.1) := by
  unfold enter at hp ⊢
  cases hstart : start cs with
  | error e =>
    rw [hstart] at hp
    cases hp
  | ok past =>
    obtain ⟨c, hc⟩ := past
    have hnext : (inFront cs).next = .ok ⟨c, hc⟩ := hstart
    have hfirst : ∃ c', Alike tail more c c' ∧ (tail.length ≤ c.rest.length →
        ∃ hc', start cs' = .ok ⟨c', hc'⟩) := by
      by_cases hle : tail.length ≤ c.rest.length
      · obtain ⟨⟨c', hc'⟩, hnext', hcc⟩ := h.next hnext hle
        exact ⟨c', hcc, fun _ => ⟨hc', hnext'⟩⟩
      · exact ⟨c, .of_beyond (Nat.not_le.1 hle), fun hle' => absurd hle' hle⟩
    obtain ⟨c', hcc, hstart'⟩ := hfirst
    rw [hstart, ok_bind] at hp
    dsimp only at hp
    cases hskip : c.skip .space with
    | error e =>
      rw [hskip] at hp
      cases hp
    | ok space =>
      rw [hskip] at hp
      cases hp
      obtain ⟨hreaches, hinside⟩ := skip_carries hcc .space space hskip
      refine ⟨(Reaches.of_next hnext).trans hreaches, fun hle => ?_⟩
      obtain ⟨hc', hstart'⟩ := hstart' (Nat.le_trans hle space.le)
      obtain ⟨space', hskip', -, hdd⟩ := hinside hle
      rw [hstart', ok_bind]
      dsimp only
      rw [hskip', ok_bind]
      exact ⟨_, rfl, hdd⟩

theorem Reaches.at_inFront {cs : List Char} (h : (inFront cs).Reaches c)
    (hkind : c.token.kind ≠ .dot) : c.At c.chars ∧ c.chars <:+ cs := by
  rcases h with rfl | h
  · exact absurd rfl hkind
  · exact h

/-- The token at a cursor inside a text is in that text. -/
theorem Reaches.mem_of_symbol {cs : List Char} (h : (inFront cs).Reaches c) {x : Char}
    (hx : Token.symbol? x = some c.token.kind) (hdot : c.token.kind ≠ .dot) : x ∈ cs := by
  obtain ⟨hat, hsuffix⟩ := h.at_inFront hdot
  have hmem : x ∈ c.chars := by
    unfold chars
    rw [Token.text_of_symbol hat hx]
    exact List.mem_cons_self
  exact hsuffix.mem hmem

theorem enter_reaches {cs : List Char} {p : { c : Cursor // c.rest.length < cs.length }}
    (hp : enter cs = .ok p) : (inFront cs).Reaches p.1 :=
  (enter_carries (alike_beyond (inFront cs)) hp).1

/-- A closer ends at a brace, and if it has a tilde, there is one ahead. -/
theorem closer_always (extra : Nat) : Always (fun a => a.cursor.token.kind = .brace ∧
    (a.result = true → ∃ d : Cursor, c.Reaches d ∧ d.token.kind = .tilde)) (c.closer extra) := by
  unfold closer
  refine .bind (fun a ha => (skip_carries (alike_beyond c) .space a ha).1) fun space hspace => ?_
  refine .bind (p := fun a => a.result = true → space.cursor.token.kind = .tilde) ?_
    fun tilde htilde => ?_
  · unfold skip
    refine .bind (eat_always .tilde) fun past hpast => ?_
    cases past with
    | none => exact .ok nofun
    | some p => exact .ok fun _ => (hpast p rfl).1
  · refine .bind .trivial fun braces _ => ?_
    split
    · next hbrace => exact .ok ⟨hbrace, fun h => ⟨_, hspace, htilde h⟩⟩
    · exact .error

def enclosed {α : Type} (extra : Nat) (x : Except Failure (c.Ahead α)) :
    Except Failure (c.Ahead (α × Bool)) := do
  let a ← x
  let trims ← a.cursor.closer extra
  return a.goOn (trims.map fun trims => (a.result, trims))

theorem enclosed_carries {α : Type} {R : α → α → Prop} (hR : ∀ r, R r r)
    (hc : Alike tail more c c') {x : Except Failure (c.Ahead α)} {y : Except Failure (c'.Ahead α)}
    (h : Carries tail more c R x y) (extra : Nat) :
    Carries tail more c (fun r r' => R r.1 r'.1 ∧ r.2 = r'.2) (enclosed extra x)
      (enclosed extra y) := by
  unfold enclosed
  apply Carries.bind_rel hc hR h
  intro r r' d d' _ _ _ hr hd
  apply Carries.bind hd (closer_carries hd extra)
  intro trims e e' _ _ he
  exact .done he fun _ => ⟨hr, rfl⟩

/-- What is known of a reading with a closer: it is given the text up to the last brace, and what
stands behind that has no part in it. -/
structure Local {α : Type} (R : α → α → Prop) (F : (c : Cursor) → Except Failure (c.Ahead α))
    (extra : Nat) (cs : List Char) (r : α) (trims : Bool) (rest : List Char) : Prop where
  suffix : '\x7d' :: rest <:+ cs
  tilde : trims = true → '~' ∈ cs
  append : ∀ more, ∃ q b, enter (cs ++ more) = .ok q ∧ enclosed extra (F q.1) = .ok b ∧
    R r b.result.1 ∧ b.result.2 = trims ∧ b.cursor.rest = rest ++ more

theorem enter_local {α : Type} {R : α → α → Prop} (hR : ∀ r, R r r)
    {F : (c : Cursor) → Except Failure (c.Ahead α)}
    (hF : ∀ {tail more : List Char} {c c' : Cursor}, Alike tail more c c' →
      Carries tail more c R (F c) (F c'))
    {extra : Nat} {cs : List Char} {p : { c : Cursor // c.rest.length < cs.length }}
    (hp : enter cs = .ok p) {a : p.1.Ahead (α × Bool)} (ha : enclosed extra (F p.1) = .ok a) :
    Local R F extra cs a.result.1 a.result.2 a.cursor.rest := by
  have hbeyond := alike_beyond p.1
  have hreaches : (inFront cs).Reaches a.cursor :=
    (enter_reaches hp).trans (enclosed_carries hR hbeyond (hF hbeyond) extra a ha).1
  have hcloser : Always (fun a => a.cursor.token.kind = .brace ∧ (a.result.2 = true →
      ∃ d : Cursor, p.1.Reaches d ∧ d.token.kind = .tilde)) (enclosed extra (F p.1)) := by
    refine .bind (fun a ha => (hF hbeyond a ha).1) fun a hreaches => ?_
    refine .bind (closer_always extra) fun b hb => .ok ⟨hb.1, fun htrims => ?_⟩
    obtain ⟨d, hd, htilde⟩ := hb.2 htrims
    exact ⟨d, hreaches.trans hd, htilde⟩
  obtain ⟨hbrace, htilde⟩ := hcloser a ha
  obtain ⟨hat, hsuffix⟩ := hreaches.at_inFront (by rw [hbrace]; decide)
  have htext : a.cursor.token.text = ['\x7d'] := Token.text_of_symbol hat (by rw [hbrace]; rfl)
  unfold chars at hsuffix
  rw [htext] at hsuffix
  refine ⟨hsuffix, fun htrims => ?_, fun more => ?_⟩
  · obtain ⟨d, hd, hkind⟩ := htilde htrims
    exact ((enter_reaches hp).trans hd).mem_of_symbol (by rw [hkind]; rfl) (by rw [hkind]; decide)
  · obtain ⟨before, hbefore⟩ := hsuffix
    generalize htail : a.cursor.rest = tail at hbefore
    have hfirst : Alike tail (tail ++ more) (inFront cs) (inFront (cs ++ more)) := by
      have hbraced : (inFront (before ++ ['\x7d'])).Braced := inFront_braced (by simp)
      have halike : Alike tail (tail ++ more) _ _ := Alike.of_braced hbraced (by simp)
      unfold append inFront at halike
      rw [← List.append_assoc, List.append_assoc before, hbefore] at halike
      exact halike
    obtain ⟨q, hq, hpq⟩ := (enter_carries hfirst hp).2 (htail ▸ a.le)
    have hle : tail.length ≤ a.cursor.rest.length := Nat.le_of_eq (htail ▸ rfl)
    obtain ⟨b, hb, ⟨hr, htrims⟩, hab⟩ := (enclosed_carries hR hpq (hF hpq) extra a ha).2 hle
    refine ⟨q, b, hq, hb, hr, htrims.symm, ?_⟩
    obtain ⟨e, -, he, he'⟩ := hab.same hle
    have hnil : e.rest = [] := by
      rw [he] at htail
      exact List.append_left_eq_self.1 htail
    rw [he']
    unfold append
    rw [hnil, List.nil_append]

end Cursor
end Stencil
