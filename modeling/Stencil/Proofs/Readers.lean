import Stencil.Proofs.Abreast

set_option autoImplicit false

/-!
# Expressions abreast

The readers of expressions end at the same place in two tags that differ in white space. One that
finds nothing stays where it is, but for an `@`; behind arguments no gap is left, but for that.
-/
namespace Stencil

namespace Pairing
variable {d : Dialect} (P : Pairing d) {α : Type}

def Meets (r r' : α) (trail : List Token) (c c' : Cursor) : Prop := r = r' ∧ P.Met trail c c'

/-- The same result, and cursors that meet. Where there is no result, something is known of them. -/
def Settles (Z : List Token → Cursor → Cursor → Prop) (r r' : Option α) (trail : List Token)
    (c c' : Cursor) : Prop :=
  r = r' ∧ P.Met trail c c' ∧ (r = none → Z trail c c')

def Rests (r r' : α) (trail : List Token) (c c' : Cursor) : Prop := r = r' ∧ P.Rested trail c c'

/-- The same expression, and cursors that rest or are behind a bare reference. -/
def Stays (before : List Token) (e e' : Expr) (trail : List Token) (c c' : Cursor) : Prop :=
  e = e' ∧ (P.Rested trail c c' ∨ P.Met trail c c' ∧ ∃ ts, Bare d ts ∧ trail = ts.reverse ++ before)

variable {P}

theorem Stays.met {before : List Token} {e e' : Expr} {trail : List Token} {c c' : Cursor}
    (h : P.Stays before e e' trail c c') : P.Met trail c c' := by
  obtain ⟨-, h | ⟨h, -⟩⟩ := h
  · exact h.met
  · exact h

theorem Stays.aligned {before : List Token} {e e' : Expr} {trail : List Token} {c c' : Cursor}
    (h : P.Stays before e e' trail c c') (hbefore : Opens before)
    (hclose : c.token.kind = .rightParen) : P.aligned trail c c' := by
  obtain ⟨-, (h | ⟨h, t, behind, hat, rfl⟩) | ⟨h, ts, hbare, rfl⟩⟩ := h
  · exact h
  · exact h.aligned_of_tight (.atSign hat) hclose
  · exact h.aligned_of_tight (.bare hbefore hbare) hclose

end Pairing

namespace Cursor
variable {d : Dialect} {P : Pairing d} {Z : List Token → Cursor → Cursor → Prop}
  {trail : List Token} {c c' : Cursor}

theorem steps_follows (hc : P.Met trail c c') (separator : String) :
    Follows True trail c c' P.Meets (c.steps separator) (c'.steps separator) := by
  induction hn : c.rest.length using Nat.strongRecOn generalizing trail c c' separator with
  | ind n ih =>
    subst hn
    rw [steps, steps]
    by_cases hident : c.token.kind = .ident
    · have hidle : c.token.kind.idle = false := by
        rw [hident]
        rfl
      rw [if_pos hident, if_pos ((hc.kind rfl).2 hident), hc.token hidle]
      refine Follows.next_bind hc hidle (by rw [hident]; decide) (fun _ => by rw [hident]; rfl)
        fun n n' hnn => ?_
      obtain ⟨n, hlt⟩ := n
      obtain ⟨n', hlt'⟩ := n'
      dsimp only at hnn ⊢
      have hseparator : (n'.token.kind = .dot ∨ n'.token.kind = .slash) ↔
          (n.token.kind = .dot ∨ n.token.kind = .slash) :=
        or_congr (hnn.kind rfl) (hnn.kind rfl)
      by_cases hkind : n.token.kind = .dot ∨ n.token.kind = .slash
      · rw [if_pos hkind, if_pos (hseparator.2 hkind)]
        have hidle' : n.token.kind.idle = false := by
          rcases hkind with hkind | hkind <;> rw [hkind] <;> rfl
        have hfound : n'.found = n.found := by
          unfold found
          rw [hnn.token hidle']
        rw [hfound]
        refine Follows.next_bind hnn hidle' ?_ (fun _ => ?_) fun e e' hee => ?_
        · rcases hkind with hkind | hkind <;> rw [hkind] <;> decide
        · rcases hkind with hkind | hkind <;> rw [hkind] <;> rfl
        · refine Follows.bind (ih e.1.rest.length (Nat.lt_trans e.2 hlt) hee n.found rfl) id ?_
          rintro ⟨later, f, hf⟩ ⟨_, f', hf'⟩ ts - - ⟨rfl, hff⟩
          exact .done ⟨rfl, hff⟩
      · rw [if_neg hkind, if_neg (mt hseparator.1 hkind)]
        exact .done ⟨rfl, hnn⟩
    · rw [if_neg hident]
      exact .error

theorem names?_follows (hc : P.Met trail c c') (hZ : Z trail c c') :
    Follows True trail c c' (P.Settles Z) c.names? c'.names? := by
  unfold names?
  by_cases hident : c.token.kind = .ident
  · rw [if_pos hident, if_pos ((hc.kind rfl).2 hident)]
    refine Follows.bind (steps_follows hc "") id ?_
    rintro ⟨path, e, he⟩ ⟨_, e', he'⟩ ts - - ⟨rfl, hee⟩
    exact .done ⟨rfl, hee, nofun⟩
  · rw [if_neg hident, if_neg (mt (hc.kind rfl).1 hident)]
    exact .done ⟨rfl, hc, fun _ => hZ⟩

theorem names_follows (hc : P.Met trail c c') :
    Follows True trail c c' P.Meets c.names c'.names := by
  unfold names
  refine Follows.bind (names?_follows (Z := fun _ _ _ => True) hc trivial) id ?_
  rintro ⟨path, e, he⟩ ⟨_, e', he'⟩ ts - - ⟨rfl, hee, -⟩
  cases path with
  | some path => exact .done ⟨rfl, hee⟩
  | none => exact .error

theorem climb_follows (hc : P.Met trail c c') (up : Nat) (here : Bool)
    (hZ : up = 0 → here = false → Z trail c c') :
    Follows True trail c c' (fun r r' us e e' => r = r' ∧ P.Met us e e' ∧
      (r.2 = some false → Z us e e')) (c.climb up here) (c'.climb up here) := by
  induction hn : c.rest.length using Nat.strongRecOn generalizing trail c c' up here with
  | ind n ih =>
    subst hn
    rw [climb, climb]
    refine Follows.eat_bind hc rfl (by decide) (fun _ => rfl) (fun _ => ?_) fun n n' hdot hnn => ?_
    · refine .done ⟨rfl, hc, fun hrequired => ?_⟩
      obtain ⟨hhere, hup⟩ := Bool.or_eq_false_iff.1 (Option.some.inj hrequired)
      exact hZ (Nat.eq_zero_of_not_pos (of_decide_eq_false hup)) hhere
    · obtain ⟨n, hlt⟩ := n
      obtain ⟨n', hlt'⟩ := n'
      refine Follows.eat_bind hnn rfl (by decide) (fun _ => rfl) (fun _ => ?_) fun e e' _ hee => ?_
      · refine Follows.eat_bind hnn rfl (by decide) (fun _ => rfl) (fun _ => ?_) fun e e' _ hee => ?_
        · exact .done ⟨rfl, hnn, fun hrequired => by cases hrequired⟩
        · have hfree : up = 0 → true = false → Z (n.token :: c.token :: trail) e.1 e'.1 :=
            fun _ h => absurd h (by decide)
          refine Follows.bind (ih e.1.rest.length (Nat.lt_trans e.2 hlt) hee up true hfree rfl) id ?_
          rintro ⟨r, f, hf⟩ ⟨_, f', hf'⟩ ts - - ⟨rfl, hff, hZ'⟩
          exact .done ⟨rfl, hff, hZ'⟩
      · refine Follows.eat_bind hee rfl (by decide) (fun _ => rfl) (fun _ => ?_) fun f f' _ hff => ?_
        · exact .done ⟨rfl, hee, fun hrequired => by cases hrequired⟩
        · have hlt'' := Nat.lt_trans f.2 (Nat.lt_trans e.2 hlt)
          have hfree : up + 1 = 0 → here = false →
              Z (e.1.token :: n.token :: c.token :: trail) f.1 f'.1 :=
            fun h => absurd h (Nat.succ_ne_zero up)
          refine Follows.bind (ih f.1.rest.length hlt'' hff (up + 1) here hfree rfl) id ?_
          rintro ⟨r, g, hg⟩ ⟨_, g', hg'⟩ ts - - ⟨rfl, hgg, hZ'⟩
          exact .done ⟨rfl, hgg, hZ'⟩

theorem referenceNames_follows (hc : P.Met trail c c') (data : Bool) (up : Nat) (required : Bool)
    (hZ : required = false → Z trail c c') :
    Follows True trail c c' (P.Settles Z) (c.referenceNames data up required)
      (c'.referenceNames data up required) := by
  unfold referenceNames
  refine Follows.bind (names?_follows (Z := fun us e e' => required = false → Z us e e') hc hZ) id ?_
  rintro ⟨path, e, he⟩ ⟨_, e', he'⟩ ts - - ⟨rfl, hee, hnone⟩
  cases path with
  | some path => exact .done ⟨rfl, hee, nofun⟩
  | none =>
    cases required with
    | true => exact .error
    | false => exact .done ⟨rfl, hee, fun _ => hnone rfl rfl⟩

theorem skip_follows (hc : P.Met trail c c') {kind : TokenKind} (hidle : kind.idle = false)
    (hparen : kind ≠ .leftParen) (hspells : kind.spells = true) (hstay : Z trail c c')
    (hpast : ∀ n n', c.token.kind = kind → P.Met (c.token :: trail) n n' →
      Z (c.token :: trail) n n') :
    Follows True trail c c' (fun r r' us e e' => r = r' ∧ P.Met us e e' ∧ Z us e e') (c.skip kind)
      (c'.skip kind) := by
  unfold skip
  refine Follows.eat_bind hc hidle hparen (fun _ => hspells) (fun _ => ?_) fun n n' hkind hnn => ?_
  · exact .done ⟨rfl, hc, hstay⟩
  · exact .done ⟨rfl, hnn, hpast _ _ hkind hnn⟩

/-- A reference, or what was known before and is true behind an `@`. -/
theorem reference?_follows (hc : P.Met trail c c') (hZ : Z trail c c')
    (hat : ∀ (t : Token) (us : List Token) (e e' : Cursor), P.Met (t :: us) e e' →
      t.kind = .atSign → Z (t :: us) e e') :
    Follows True trail c c' (P.Settles Z) c.reference? c'.reference? := by
  unfold reference?
  refine Follows.bind (skip_follows hc rfl (by decide) rfl hZ fun n n' hkind hnn => ?_) id ?_
  · exact hat c.token trail n n' hnn hkind
  rintro ⟨data, e, he⟩ ⟨_, e', he'⟩ ts - - ⟨rfl, hee, hZ'⟩
  refine Follows.eat_bind hee rfl (by decide) (fun _ => rfl) (fun _ => ?_) fun f f' _ hff => ?_
  · refine Follows.bind (climb_follows (Z := Z) hee 0 false fun _ _ => hZ') id ?_
    rintro ⟨⟨up, required⟩, f, hf⟩ ⟨_, f', hf'⟩ us - - ⟨rfl, hff, hfalse⟩
    cases required with
    | none => exact .done ⟨rfl, hff, nofun⟩
    | some required =>
      refine Follows.bind (referenceNames_follows (Z := Z) hff data up required ?_) id ?_
      · rintro rfl
        exact hfalse rfl
      · rintro ⟨r, g, hg⟩ ⟨_, g', hg'⟩ ws - - ⟨rfl, hgg, hnone⟩
        exact .done ⟨rfl, hgg, hnone⟩
  · refine Follows.bind (skip_follows (Z := fun _ _ _ => True) hff rfl (by decide) rfl trivial
      fun _ _ _ _ => trivial) id ?_
    rintro ⟨dotted, g, hg⟩ ⟨_, g', hg'⟩ us - - ⟨rfl, hgg, -⟩
    cases dotted with
    | true =>
      refine Follows.bind (referenceNames_follows (Z := Z) hgg data 0 true nofun) id ?_
      rintro ⟨r, i, hi⟩ ⟨_, i', hi'⟩ ws - - ⟨rfl, hii, hnone⟩
      exact .done ⟨rfl, hii, hnone⟩
    | false => exact .done ⟨rfl, hgg, nofun⟩

theorem head_follows (hc : P.Met trail c c') (fallback : Option Helper) :
    Follows True trail c c' P.Meets (c.head d fallback) (c'.head d fallback) := by
  unfold head
  refine Follows.bind (names?_follows (Z := fun _ _ _ => True) hc trivial) id ?_
  rintro ⟨path, e, he⟩ ⟨_, e', he'⟩ ts - - ⟨rfl, hee, -⟩
  cases path with
  | some path =>
    dsimp only
    split
    · exact .done ⟨rfl, hee⟩
    · exact .done ⟨rfl, hee⟩
  | none =>
    refine Follows.bind (reference?_follows (Z := fun _ _ _ => True) hee trivial
      fun _ _ _ _ _ _ => trivial) id ?_
    rintro ⟨r, f, hf⟩ ⟨_, f', hf'⟩ us - - ⟨rfl, hff, -⟩
    cases r with
    | some r => exact .done ⟨rfl, hff⟩
    | none => exact .error

/-- White space is passed by whichever tag has it, and then the cursors are in front of the same. If
only the second tag has it, there is a gap. -/
theorem skip_space_follows (hc : P.Beside trail c c') :
    Follows False trail c c' (fun r r' us e e' => P.aligned us e e' ∧
      (us = trail ∨ ∃ s : Token, s.kind = .space ∧ us = s :: trail) ∧
        (r' = r ∨ r = false ∧ Gap d us e.token.kind)) (c.skip .space) (c'.skip .space) := by
  by_cases hspace : c.token.kind = .space
  · have halign : P.aligned trail c c' := hc.resolve_right fun h => h.solid hspace
    unfold skip
    refine Follows.eat_aligned_bind (fun _ => halign) rfl (fun h => absurd hspace h) ?_
    rintro n n' hnn -
    refine .done ⟨hnn.resolve_right fun h => h.behind c.token rfl hspace, ?_, .inl rfl⟩
    exact .inr ⟨c.token, hspace, rfl⟩
  · rw [skip_eq_false hspace]
    rcases hc with halign | hextra
    · rw [skip_eq_false (mt (P.like halign).space_iff.1 hspace)]
      exact .done ⟨halign, .inl rfl, .inl rfl⟩
    · obtain ⟨m, hm, halign⟩ := hextra.passed
      rw [skip_eq_true hextra.space hm]
      intro a ha
      cases ha
      exact ⟨_, [], rfl, ⟨.here c, False.elim⟩, halign, .inl rfl, .inr ⟨rfl, hextra.gap⟩⟩

theorem value?_of_idle {t : Token} (h : t.kind.idle = true) : t.value? = none := by
  obtain ⟨kind, text⟩ := t
  cases kind <;> first | rfl | cases h

theorem value?_met (h : P.Met trail c c') : c'.token.value? = c.token.value? := by
  cases hc : c.token.kind.idle with
  | false => rw [h.token hc]
  | true => rw [value?_of_idle hc, value?_of_idle (h.idle hc)]

theorem argument?_idle (h : c.token.kind.idle = true) : c.argument? d = .ok (c.here none) := by
  have hne (kind : TokenKind) (hkind : kind.idle = false) : c.token.kind ≠ kind := by
    rintro rfl
    rw [h] at hkind
    cases hkind
  have hreference : c.reference? = .ok (c.here none) := by
    unfold reference?
    rw [skip_eq_false (hne _ rfl), ok_bind]
    dsimp only [here]
    rw [eat_eq_none (hne _ rfl), ok_bind]
    dsimp only
    rw [climb, eat_eq_none (hne _ rfl), ok_bind]
    change (c.referenceNames false 0 false >>= _) = _
    unfold referenceNames
    rw [names?_eq_none (hne _ rfl)]
    rfl
  rw [argument?, names?_eq_none (hne _ rfl), ok_bind]
  dsimp only [here]
  rw [operand?, hreference, ok_bind]
  dsimp only [here]
  rw [value?_of_idle h]
  dsimp only
  rw [eat_eq_none (hne _ rfl)]
  rfl

/-- What is passed by a call that is read again is a bare reference. -/
theorem bare_of_call {fallback : Option Helper} {a : c.Ahead (Call Expr)}
    (hcall : c.call d fallback = .ok a) (hbare : a.result.isBare = true)
    {b : c.Ahead (Option Reference)} (hreference : c.reference? = .ok b) {ts : List Token}
    (hpasses : c.Passes ts b.cursor) (hspells : ∀ t ∈ ts, t.kind.spells = true) : Bare d ts := by
  refine ⟨hspells, ?_⟩
  rintro t rfl hident
  obtain ⟨hn, rfl⟩ : b.cursor.At c.rest ∧ t = c.token := by
    cases hpasses with
    | next hclose hn h =>
      cases h
      exact ⟨hn, rfl⟩
  obtain ⟨⟨head, e, he⟩, ⟨args, f, hf⟩, _, hhead, -, rfl⟩ := exists_of_call hcall
  unfold Cursor.head at hhead
  obtain ⟨⟨path, e', he'⟩, hnames, hhead⟩ := bind_eq_ok.1 hhead
  cases path with
  | none => exact absurd hident (names?_always _ hnames rfl).2
  | some path =>
    rw [reference?_of_names? hident hnames] at hreference
    cases hreference
    obtain rfl : path = [("", c.token.name)] := by
      unfold names? at hnames
      rw [if_pos hident, steps, if_pos hident, next_eq hn, ok_bind] at hnames
      dsimp only at hnames
      split at hnames
      · obtain ⟨⟨later, g, hg⟩, hsteps, hnames⟩ := bind_eq_ok.1 hnames
        obtain ⟨⟨i, hi⟩, -, hsteps⟩ := bind_eq_ok.1 hsteps
        obtain ⟨⟨_, j, hj⟩, -, hsteps⟩ := bind_eq_ok.1 hsteps
        have hgj : j = g := congrArg Ahead.cursor (Except.ok.inj hsteps)
        have hge : g = e' := congrArg Ahead.cursor (Except.ok.inj hnames)
        exact absurd (Nat.lt_of_le_of_lt hj hi) (by rw [hgj, hge]; exact Nat.lt_irrefl _)
      · exact (Option.some.inj (congrArg Ahead.result (Except.ok.inj hnames))).symm
    cases hget : d.helpers.get? c.token.name with
    | none => rfl
    | some h =>
      simp only [List.map_cons, List.map_nil, hget] at hhead
      cases hhead
      cases hbare

variable (P) in
structure FollowsBelow (n : Nat) : Prop where
  call : ∀ {trail : List Token} {c c' : Cursor} (fallback : Option Helper), P.Met trail c c' →
    3 * c.rest.length + 1 < n →
    Follows False trail c c' P.Rests (c.call d fallback) (c'.call d fallback)
  expression : ∀ {trail : List Token} {c c' : Cursor}, P.Met trail c c' →
    3 * c.rest.length + 2 < n →
    Follows False trail c c' (P.Stays trail) (c.expression d) (c'.expression d)
  operand : ∀ {trail : List Token} {c c' : Cursor}, P.Met trail c c' → 3 * c.rest.length < n →
    Follows False trail c c' (P.Settles fun us e e' => P.Rested trail c c' → P.Rested us e e')
      (c.operand? d) (c'.operand? d)
  argument : ∀ {trail : List Token} {c c' : Cursor}, P.Met trail c c' →
    3 * c.rest.length + 1 < n →
    Follows False trail c c' (P.Settles fun us e e' => P.Rested trail c c' → P.Rested us e e')
      (c.argument? d) (c'.argument? d)
  arguments : ∀ {trail : List Token} {c c' : Cursor}, P.Met trail c c' → 3 * c.rest.length < n →
    Follows False trail c c' P.Rests (c.arguments d) (c'.arguments d)

section
variable {n : Nat} (ih : FollowsBelow P n) (hc : P.Met trail c c')
include ih hc

theorem call_follows (hn : 3 * c.rest.length + 1 < n + 1) (fallback : Option Helper) :
    Follows False trail c c' P.Rests (c.call d fallback) (c'.call d fallback) := by
  rw [call, call]
  refine Follows.bind (head_follows hc fallback) False.elim ?_
  rintro ⟨head, e, he⟩ ⟨_, e', he'⟩ ts - hpassage ⟨rfl, hee⟩
  dsimp only at hee ⊢
  refine Follows.bind (ih.arguments hee (by omega)) id ?_
  rintro ⟨args, f, hf⟩ ⟨_, f', hf'⟩ us - - ⟨rfl, hff⟩
  refine .done ⟨?_, hff⟩
  dsimp only at hpassage ⊢
  rw [hpassage.upTo]

theorem expression_follows (hn : 3 * c.rest.length + 2 < n + 1) :
    Follows False trail c c' (P.Stays trail) (c.expression d) (c'.expression d) := by
  have hcalls := ih.call d.callFallback hc (by omega)
  rw [expression, expression]
  cases hcall : c.call d d.callFallback with
  | error e => exact .error
  | ok a =>
    by_cases hbare : a.result.isBare = true
    · obtain ⟨⟨call, e', he'⟩, -, hcall', -, hresult, -⟩ := hcalls a hcall
      obtain ⟨_, e, he⟩ := a
      obtain rfl : _ = call := hresult
      rw [hcall', ok_bind, ok_bind]
      dsimp only at hbare ⊢
      rw [if_pos hbare, if_pos hbare]
      refine Follows.bind (reference?_follows (Z := fun _ _ _ => True) hc trivial
        fun _ _ _ _ _ _ => trivial) (fun _ => trivial) ?_
      rintro ⟨r, f, hf⟩ ⟨_, f', hf'⟩ ts hreference hpassage ⟨rfl, hff, -⟩
      cases r with
      | none => exact .error
      | some r =>
        refine .done ⟨rfl, .inr ⟨hff, ts, ?_, rfl⟩⟩
        exact bare_of_call hcall hbare hreference hpassage.passes (hpassage.spelled trivial).1
    · rw [← hcall]
      refine Follows.bind hcalls id ?_
      rintro ⟨call, e, he⟩ ⟨_, e', he'⟩ ts hcall' - ⟨rfl, hee⟩
      rw [hcall] at hcall'
      cases hcall'
      dsimp only at hbare ⊢
      rw [if_neg hbare, if_neg hbare]
      exact .check_bind call d e e' (.done ⟨rfl, .inl hee⟩)

theorem operand?_follows (hn : 3 * c.rest.length < n + 1) :
    Follows False trail c c' (P.Settles fun us e e' => P.Rested trail c c' → P.Rested us e e')
      (c.operand? d) (c'.operand? d) := by
  rw [operand?, operand?]
  refine Follows.bind (reference?_follows (Z := fun us e e' => P.Rested trail c c' → P.Rested us e e')
    hc id fun t us e e' hee hat _ => .inr ⟨hee, t, us, hat, rfl⟩) False.elim ?_
  rintro ⟨r, e, he⟩ ⟨_, e', he'⟩ ts - - ⟨rfl, hee, hnone⟩
  cases r with
  | some r => exact .done ⟨rfl, hee, fun h => by cases h⟩
  | none =>
    dsimp only at hee hnone ⊢
    rw [value?_met hee]
    cases hvalue : e.token.value? with
    | some v =>
      have hidle : e.token.kind.idle = false := by
        cases hidle : e.token.kind.idle with
        | false => rfl
        | true => cases (value?_of_idle hidle).symm.trans hvalue
      have hparen : e.token.kind ≠ .leftParen := by
        intro hparen
        unfold Token.value? at hvalue
        rw [hparen] at hvalue
        cases hvalue
      refine Follows.next_bind hee hidle hparen False.elim fun f f' hff => ?_
      exact .done ⟨rfl, hff, fun h => by cases h⟩
    | none =>
      refine Follows.eat_aligned_bind (fun h => hee.aligned_of (by rw [h]; rfl)) rfl (fun h => ?_) ?_
      · rw [eat_eq_none (mt (hee.kind rfl).1 h)]
        exact .done ⟨rfl, hee, fun _ => hnone rfl⟩
      · rintro ⟨f, hf⟩ ⟨f', hf'⟩ hff hparen
        refine Follows.bind (skip_space_follows hff) id ?_
        rintro ⟨_, g, hg⟩ ⟨_, g', hg'⟩ us - - ⟨hgg, hus, -⟩
        have hopens : Opens (us.reverse ++ e.token :: (ts.reverse ++ trail)) := by
          rcases hus with hus | ⟨s, hs, hus⟩
          · rw [hus]
            exact .paren hparen
          · rw [hus]
            exact .space hs hparen
        dsimp only at hf hg hgg ⊢
        refine Follows.bind (ih.expression (.aligned hgg) (by omega)) id ?_
        rintro ⟨inner, i, hi⟩ ⟨_, i', hi'⟩ ws - - ⟨rfl, hii⟩
        have hclosing := Pairing.Stays.aligned (e := inner) ⟨rfl, hii⟩ hopens
        exact .expect_paren_bind hclosing fun j j' hjj => .done ⟨rfl, hjj, fun h => by cases h⟩

theorem argument?_follows (hn : 3 * c.rest.length + 1 < n + 1) :
    Follows False trail c c' (P.Settles fun us e e' => P.Rested trail c c' → P.Rested us e e')
      (c.argument? d) (c'.argument? d) := by
  rw [argument?, argument?]
  refine Follows.bind (names?_follows (Z := fun us e e' => us = trail ∧ e = c ∧ e' = c') hc
    ⟨rfl, rfl, rfl⟩) False.elim ?_
  rintro ⟨path, e, he⟩ ⟨_, e', he'⟩ ts - - ⟨rfl, hee, hnone⟩
  dsimp only at hee hnone ⊢
  split
  · refine Follows.eat_bind hee rfl (by decide) False.elim (fun _ => ?_) fun f f' _ hff => ?_
    · exact .done ⟨rfl, hee, nofun⟩
    · have hf := f.2
      refine Follows.bind (ih.operand hff (by omega)) id ?_
      rintro ⟨value, g, hg⟩ ⟨_, g', hg'⟩ us - - ⟨rfl, hgg, -⟩
      cases value with
      | some value => exact .done ⟨rfl, hgg, nofun⟩
      | none => exact .error
  · exact .done ⟨rfl, hee, nofun⟩
  · refine Follows.bind (ih.operand hee (by omega)) id ?_
    rintro ⟨value, f, hf⟩ ⟨_, f', hf'⟩ us - - ⟨rfl, hff, hZ⟩
    obtain ⟨htrail, rfl, rfl⟩ := hnone rfl
    refine .done ⟨rfl, hff, fun hvalue hrested => hZ (Option.map_eq_none_iff.1 hvalue) ?_⟩
    rw [htrail]
    exact hrested

theorem arguments_follows (hn : 3 * c.rest.length < n + 1) :
    Follows False trail c c' P.Rests (c.arguments d) (c'.arguments d) := by
  rw [arguments, arguments]
  by_cases hspace : c.token.kind = .space
  · have halign : P.aligned trail c c' := by
      cases hc with
      | aligned h => exact h
      | extra h => exact absurd hspace h.solid
    refine Follows.eat_aligned_bind (fun _ => halign) rfl (fun h => absurd hspace h) ?_
    rintro ⟨e, he⟩ ⟨e', he'⟩ hbeside -
    have hee : P.aligned (c.token :: trail) e e' :=
      hbeside.resolve_right fun h => h.behind c.token rfl hspace
    dsimp only
    refine Follows.bind (ih.argument (.aligned hee) (by omega)) id ?_
    rintro ⟨arg, f, hf⟩ ⟨_, f', hf'⟩ ts - - ⟨rfl, hff, hnone⟩
    cases arg with
    | none => exact .done ⟨rfl, hnone rfl (.inl hee)⟩
    | some arg =>
      dsimp only at hff ⊢
      refine Follows.bind (ih.arguments hff (by omega)) id ?_
      rintro ⟨args, g, hg⟩ ⟨_, g', hg'⟩ us - - ⟨rfl, hgg⟩
      exact .done ⟨rfl, hgg⟩
  · rw [eat_eq_none hspace, ok_bind]
    cases hc with
    | aligned h =>
      rw [eat_eq_none (mt (P.like h).space_iff.1 hspace)]
      exact .done ⟨rfl, .inl h⟩
    | extra h hover =>
      obtain ⟨m, hm, halign⟩ := h.passed
      rw [eat_eq_some h.space hm, ok_bind]
      dsimp only
      rw [argument?_idle ((P.like halign).idle hover.idle)]
      intro a ha
      cases ha
      exact ⟨_, [], rfl, ⟨.here c, False.elim⟩, rfl, .inl halign⟩

end

theorem followsBelow (n : Nat) : FollowsBelow P n := by
  induction n with
  | zero => constructor <;> (intros; omega)
  | succ n ih =>
    exact {
      call := fun fallback hc hn => call_follows ih hc hn fallback
      expression := fun hc hn => expression_follows ih hc hn
      operand := fun hc hn => operand?_follows ih hc hn
      argument := fun hc hn => argument?_follows ih hc hn
      arguments := fun hc hn => arguments_follows ih hc hn }

end Cursor
end Stencil
