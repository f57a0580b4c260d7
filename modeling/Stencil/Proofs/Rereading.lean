import Stencil.Proofs.Locality

set_option autoImplicit false

/-!
# What is read twice

A call that turns out to be a reference is read again from its beginning, and the second reading
may stop in front of white space that the first one passed. That is all it stops in front of, so
the readers of expressions are local too.
-/
namespace Stencil
namespace Cursor
variable {tail more : List Char} {c c' d d' : Cursor}

/-- Behind white space and behind an `@` a token is inside, or it is a constant or a name. -/
theorem Inside.next {kind : TokenKind} (h : c.Inside tail) (hkind : c.token.kind = kind)
    (hk : kind = .space ∨ kind = .atSign) {p : c.Past} (hp : c.next = .ok p)
    (hconst : p.1.token.kind ≠ .const) (hident : p.1.token.kind ≠ .ident) : p.1.Inside tail := by
  obtain ⟨e, he, rfl⟩ := h
  rcases next_cases he hp with ⟨d, hd, hpd, -⟩ | ⟨-, hend | hp | hp⟩
  · exact ⟨d, hd, hpd⟩
  · have hlast := he.last
    unfold chars at hlast
    rw [hend, List.append_nil] at hlast
    rcases hk with rfl | rfl
    · have hblank := Token.blank_of_space he.at_chars hkind _ (List.mem_of_getLast? hlast)
      exact absurd hblank (by decide)
    · have htext := Token.text_of_symbol he.at_chars (c := '@') (hkind ▸ rfl)
      rw [htext] at hlast
      cases hlast
  · exact absurd hp hconst
  · exact absurd hp hident

theorem names?_always :
    Always (fun a => a.result = none → a.cursor = c ∧ c.token.kind ≠ .ident) c.names? := by
  unfold names?
  split
  · exact .bind .trivial fun _ _ => .ok nofun
  · next hident => exact .ok fun _ => ⟨rfl, hident⟩

theorem referenceNames_always (data : Bool) (up : Nat) (required : Bool) :
    Always (fun a => a.result = none → required = false ∧ a.cursor = c ∧ c.token.kind ≠ .ident)
      (c.referenceNames data up required) := by
  unfold referenceNames
  refine .bind names?_always fun a hnames => ?_
  obtain ⟨path, d, hd⟩ := a
  cases path with
  | some path => exact .ok nofun
  | none =>
    cases required with
    | true => exact .error
    | false => exact .ok fun _ => ⟨rfl, hnames rfl⟩

/-- If names may be left out behind steps out, there were no steps. -/
theorem climb_always (up : Nat) (here : Bool) :
    Always (fun a => a.result.2 = some false → up = 0 ∧ here = false ∧ a.cursor = c)
      (c.climb up here) := by
  induction hn : c.rest.length using Nat.strongRecOn generalizing c up here with
  | ind n ih =>
    subst hn
    rw [climb]
    refine .bind .trivial fun past _ => ?_
    cases past with
    | none =>
      refine .ok fun hrequired => ?_
      obtain ⟨rfl, hup⟩ := Bool.or_eq_false_iff.1 (Option.some.inj hrequired)
      exact ⟨Nat.eq_zero_of_not_pos (of_decide_eq_false hup), rfl, rfl⟩
    | some past =>
      obtain ⟨d, hd⟩ := past
      refine .bind .trivial fun past _ => ?_
      cases past with
      | some past =>
        obtain ⟨e, he⟩ := past
        refine .bind .trivial fun past _ => ?_
        cases past with
        | none =>
          refine .ok fun hrequired => ?_
          cases hrequired
        | some past =>
          obtain ⟨f, hf⟩ := past
          have hlt := Nat.lt_trans hf (Nat.lt_trans he hd)
          exact .bind (ih f.rest.length hlt (up + 1) here rfl) fun a hclimb =>
            .ok fun hrequired => absurd (hclimb hrequired).1 (Nat.succ_ne_zero up)
      | none =>
        refine .bind .trivial fun past _ => ?_
        cases past with
        | none =>
          refine .ok fun hrequired => ?_
          cases hrequired
        | some past =>
          obtain ⟨e, he⟩ := past
          exact .bind (ih e.rest.length (Nat.lt_trans he hd) up true rfl) fun a hclimb =>
            .ok fun hrequired => absurd (hclimb hrequired).2.1 (by decide)

def PastAt (c d : Cursor) : Prop := d = c ∨ c.token.kind = .atSign ∧ ∃ hd, c.next = .ok ⟨d, hd⟩

theorem eat_always (kind : TokenKind) :
    Always (fun past => ∀ p, past = some p → c.token.kind = kind ∧ c.next = .ok p)
      (c.eat kind) := by
  unfold eat
  split
  · next hkind =>
    refine .map (p := fun p => c.next = .ok p) (fun _ => id) fun p hp q hq => ?_
    cases hq
    exact ⟨hkind, hp⟩
  · exact .ok nofun

theorem skip_atSign_always : Always (fun a => c.PastAt a.cursor) (c.skip .atSign) := by
  unfold skip
  refine .bind (eat_always .atSign) fun past hpast => ?_
  cases past with
  | none => exact .ok (.inl rfl)
  | some p =>
    obtain ⟨hkind, hnext⟩ := hpast p rfl
    exact .ok (.inr ⟨hkind, p.2, hnext⟩)

/-- Where no reference is read, no name is next. -/
theorem reference?_always :
    Always (fun a => a.result = none → a.cursor.token.kind ≠ .ident ∧ c.PastAt a.cursor)
      c.reference? := by
  unfold reference?
  refine .bind skip_atSign_always fun a hat => ?_
  obtain ⟨data, d, hd⟩ := a
  refine .bind .trivial fun past _ => ?_
  cases past with
  | some past =>
    refine .bind .trivial fun dotted _ => ?_
    obtain ⟨dotted, f, hf⟩ := dotted
    cases dotted with
    | true =>
      exact .bind (referenceNames_always data 0 true) fun a hnames =>
        .ok fun hnone => nomatch (hnames hnone).1
    | false => exact .ok nofun
  | none =>
    refine .bind (climb_always 0 false) fun a hclimb => ?_
    obtain ⟨⟨up, required⟩, e, he⟩ := a
    cases required with
    | none => exact .ok nofun
    | some required =>
      refine .bind (referenceNames_always data up required) fun a hnames => .ok fun hnone => ?_
      obtain ⟨rfl, hcursor, hident⟩ := hnames hnone
      have hed : e = d := (hclimb rfl).2.2
      rw [hcursor]
      exact ⟨hident, hed ▸ hat⟩

theorem reference?_of_ident (hident : c.token.kind = .ident) :
    c.reference? = c.referenceNames false 0 false := by
  have hne : ∀ kind, kind ≠ .ident → c.token.kind ≠ kind := by
    intro kind hkind heq
    exact hkind (heq.symm.trans hident)
  unfold reference?
  rw [skip_eq_false (hne .atSign (by decide)), ok_bind]
  dsimp only [here]
  rw [eat_eq_none (hne .thisWord (by decide)), ok_bind]
  dsimp only
  rw [climb, eat_eq_none (hne .dot (by decide)), ok_bind]
  change (c.referenceNames false 0 false >>= _) = _
  cases c.referenceNames false 0 false <;> rfl

theorem reference?_of_names? {path : List (String × String)} {hd : d.rest.length ≤ c.rest.length}
    (hident : c.token.kind = .ident) (hnames : c.names? = .ok ⟨some path, d, hd⟩) :
    c.reference? = .ok ⟨some ⟨false, 0, path.map Prod.snd⟩, d, hd⟩ := by
  rw [reference?_of_ident hident]
  unfold referenceNames
  rw [hnames]
  rfl

/-- Where a name is next, a reference ends where the names do. -/
theorem names?_of_reference? {a : c.Ahead (Option Reference)} (hident : c.token.kind = .ident)
    (h : c.reference? = .ok a) : ∃ b, c.names? = .ok b ∧ b.cursor = a.cursor := by
  rw [reference?_of_ident hident] at h
  obtain ⟨⟨path, d, hd⟩, hnames, h⟩ := bind_eq_ok.1 h
  cases path <;> cases h <;> exact ⟨_, hnames, rfl⟩

/-- A reference that is read in place of a head ends where the head does. It is the head unless that is
a helper. -/
theorem head_always (dialect : Dialect) (fallback : Option Helper) :
    Always (fun a => ∃ b r, c.reference? = .ok b ∧ b.result = some r ∧ b.cursor = a.cursor ∧
      ((∃ h, a.result = .helper h) ∨ a.result = .value r fallback)) (c.head dialect fallback) := by
  unfold head
  refine .bind (p := fun a => c.names? = .ok a) (fun _ => id) fun a hnames => ?_
  obtain ⟨path, d, hd⟩ := a
  by_cases hident : c.token.kind = .ident
  · cases path with
    | none => exact absurd hident (names?_always _ hnames rfl).2
    | some path =>
      have hreference := reference?_of_names? hident hnames
      dsimp only
      split
      · exact .ok ⟨_, _, hreference, rfl, rfl, .inl ⟨_, rfl⟩⟩
      · exact .ok ⟨_, _, hreference, rfl, rfl, .inr rfl⟩
  · rw [names?_eq_none hident] at hnames
    cases hnames
    refine .bind (p := fun a => c.reference? = .ok a) (fun _ => id) fun a hreference => ?_
    obtain ⟨r, e, he⟩ := a
    cases r with
    | some r => exact .ok ⟨_, r, hreference, rfl, rfl, .inr rfl⟩
    | none => exact .error

theorem kind_of_value?_eq_none {t : Token} (h : t.value? = none) : t.kind ≠ .const := by
  intro hkind
  unfold Token.value? at h
  rw [hkind] at h
  split at h <;> simp_all

/-- Where no operand is read, no constant is next, and the cursor is where a reference was tried. -/
theorem operand?_always (dialect : Dialect) :
    Always (fun a => a.result = none → a.cursor.token.kind ≠ .const ∧
      a.cursor.token.kind ≠ .ident ∧ c.PastAt a.cursor) (c.operand? dialect) := by
  rw [operand?]
  refine .bind reference?_always fun a hreference => ?_
  obtain ⟨r, d, hd⟩ := a
  cases r with
  | some r => exact .ok nofun
  | none =>
    dsimp only
    cases hvalue : d.token.value? with
    | some v => exact .bind .trivial fun _ _ => .ok nofun
    | none =>
      refine .bind .trivial fun past _ => ?_
      cases past with
      | none => exact .ok fun _ => ⟨kind_of_value?_eq_none hvalue, hreference rfl⟩
      | some past =>
        exact .bind .trivial fun _ _ => .bind .trivial fun _ _ => .bind .trivial fun _ _ => .ok nofun

theorem argument?_always (dialect : Dialect) :
    Always (fun a => a.result = none → c.token.kind ≠ .ident ∧ a.cursor.token.kind ≠ .const ∧
      a.cursor.token.kind ≠ .ident ∧ c.PastAt a.cursor) (c.argument? dialect) := by
  rw [argument?]
  refine .bind names?_always fun a hnames => ?_
  obtain ⟨path, d, hd⟩ := a
  dsimp only
  split
  · refine .bind .trivial fun past _ => ?_
    cases past with
    | none =>
      refine .ok fun hnone => ?_
      cases hnone
    | some past =>
      refine .bind .trivial fun value _ => ?_
      obtain ⟨value, f, hf⟩ := value
      cases value with
      | some value =>
        refine .ok fun hnone => ?_
        cases hnone
      | none => exact .error
  · refine .ok fun hnone => ?_
    cases hnone
  · obtain ⟨hdc, hident⟩ := hnames rfl
    change d = c at hdc
    subst hdc
    refine .bind (operand?_always dialect) fun a hoperand => .ok fun hnone => ?_
    exact ⟨hident, hoperand (Option.map_eq_none_iff.1 hnone)⟩

/-- White space with no argument behind it is passed, and no more than that. -/
theorem arguments_always (dialect : Dialect) (hc : c.Inside tail) :
    Always (fun a => a.result = [] → a.cursor.Inside tail) (c.arguments dialect) := by
  rw [arguments]
  refine .bind (eat_always .space) fun past hpast => ?_
  cases past with
  | none => exact .ok fun _ => hc
  | some p =>
    obtain ⟨d, hd⟩ := p
    obtain ⟨hspace, hnext⟩ := hpast _ rfl
    refine .bind (argument?_always dialect) fun a hargument => ?_
    obtain ⟨arg, e, he⟩ := a
    cases arg with
    | some arg => exact .bind .trivial fun _ _ => .ok nofun
    | none =>
      refine .ok fun _ => ?_
      obtain ⟨hident, hconst', hident', hat⟩ := hargument rfl
      rcases hat with hed | ⟨hat, he, hnext'⟩
      · change e = d at hed
        subst hed
        exact hc.next hspace (.inl rfl) hnext hconst' hident'
      · have hconst : d.token.kind ≠ .const := by
          rw [hat]
          decide
        have hinside := hc.next hspace (.inl rfl) hnext hconst hident
        exact hinside.next hat (.inr rfl) hnext' hconst' hident'

theorem eq_nil_of_filterMap {args : List Argument}
    (h : args.filterMap Argument.positional? = []) (h' : args.filterMap Argument.named? = []) :
    args = [] := by
  cases args with
  | nil => rfl
  | cons arg args => cases arg <;> simp [Argument.positional?, Argument.named?] at h h'

theorem isBare_args {ε : Type} {call : Call ε} (h : call.isBare = true) :
    call.args = [] ∧ call.hash = [] := by
  unfold Call.isBare at h
  split at h
  · cases h
  · simpa using h

theorem isBare_of_value {ε : Type} {call : Call ε} {r : Reference} {fallback : Option Helper}
    (hhead : call.head = .value r fallback) (hargs : call.args = []) (hhash : call.hash = []) :
    call.isBare = true := by
  unfold Call.isBare
  rw [hhead, hargs, hhash]
  rfl

theorem exists_of_call {dialect : Dialect} {fallback : Option Helper} {a : c.Ahead (Call Expr)}
    (h : c.call dialect fallback = .ok a) :
    ∃ (head : c.Ahead Head) (args : head.cursor.Ahead (List Argument))
      (hle : args.cursor.rest.length ≤ c.rest.length), c.head dialect fallback = .ok head ∧
        head.cursor.arguments dialect = .ok args ∧
        a = ⟨⟨c.upTo head.cursor, head.result, args.result.filterMap Argument.positional?,
          args.result.filterMap Argument.named?⟩, args.cursor, hle⟩ := by
  rw [call] at h
  obtain ⟨head, hhead, h⟩ := bind_eq_ok.1 h
  obtain ⟨args, hargs, h⟩ := bind_eq_ok.1 h
  cases h
  exact ⟨head, args, _, hhead, hargs, rfl⟩

/-- A bare call ends inside if the reference does that is read in its place. -/
theorem call_always (dialect : Dialect) (fallback : Option Helper) :
    Always (fun a => a.result.isBare = true → ∃ b, c.reference? = .ok b ∧
      ∀ tail, b.cursor.Inside tail → a.cursor.Inside tail) (c.call dialect fallback) := by
  rintro _ hcall hbare
  obtain ⟨head, args, _, hhead, hargs, rfl⟩ := exists_of_call hcall
  obtain ⟨b, r, hreference, -, hcursor, -⟩ := head_always dialect fallback head hhead
  refine ⟨b, hreference, fun tail hinside => ?_⟩
  rw [hcursor] at hinside
  obtain ⟨hargs', hhash⟩ := isBare_args hbare
  exact arguments_always dialect hinside _ hargs (eq_nil_of_filterMap hargs' hhash)

structure LocalBelow (dialect : Dialect) (tail more : List Char) (n : Nat) : Prop where
  call : ∀ {c c' : Cursor} (fallback : Option Helper), Alike tail more c c' →
    3 * c.rest.length + 1 < n →
    Carries tail more c Eq (c.call dialect fallback) (c'.call dialect fallback)
  expression : ∀ {c c' : Cursor}, Alike tail more c c' → 3 * c.rest.length + 2 < n →
    Carries tail more c Eq (c.expression dialect) (c'.expression dialect)
  operand : ∀ {c c' : Cursor}, Alike tail more c c' → 3 * c.rest.length < n →
    Carries tail more c Eq (c.operand? dialect) (c'.operand? dialect)
  argument : ∀ {c c' : Cursor}, Alike tail more c c' → 3 * c.rest.length + 1 < n →
    Carries tail more c Eq (c.argument? dialect) (c'.argument? dialect)
  arguments : ∀ {c c' : Cursor}, Alike tail more c c' → 3 * c.rest.length < n →
    Carries tail more c Eq (c.arguments dialect) (c'.arguments dialect)

section
variable {dialect : Dialect} {n : Nat} (ih : LocalBelow dialect tail more n)
  (hc : Alike tail more c c')
include ih hc

theorem call_carries (hn : 3 * c.rest.length + 1 < n + 1) (fallback : Option Helper) :
    Carries tail more c Eq (c.call dialect fallback) (c'.call dialect fallback) := by
  rw [call, call]
  apply Carries.bind hc (head_carries hc dialect fallback)
  intro head d d' hd _ hdd
  apply Carries.bind hdd (ih.arguments hdd (by omega))
  intro args e e' he _ hee
  refine .done hee fun hle => ?_
  rw [hc.upTo hdd (Nat.le_trans hle he) hd]

theorem expression_carries (hn : 3 * c.rest.length + 2 < n + 1) :
    Carries tail more c Eq (c.expression dialect) (c'.expression dialect) := by
  have hlocal := ih.call dialect.callFallback hc (by omega)
  rw [expression, expression]
  cases hcall : c.call dialect dialect.callFallback with
  | error e => exact .error
  | ok a =>
    obtain ⟨call, d, hd⟩ := a
    by_cases hbare : call.isBare = true
    · obtain ⟨b, hreference, hinside⟩ := call_always _ _ _ hcall hbare
      obtain ⟨hreaches, hread⟩ := reference?_carries hc b hreference
      obtain ⟨r, e, he⟩ := b
      rw [ok_bind]
      dsimp only
      rw [if_pos hbare, hreference, ok_bind]
      cases r with
      | none => exact .error
      | some r =>
        intro a ha
        cases ha
        refine ⟨hreaches, fun hle => ?_⟩
        obtain ⟨⟨_, e', he'⟩, hreference', hr, hee⟩ := hread hle
        cases hr
        obtain ⟨⟨_, d', hd'⟩, hcall', heq, -⟩ := (hlocal _ hcall).2 (hinside tail (hee.inside hle)).le
        cases heq
        rw [hcall', ok_bind]
        dsimp only
        rw [if_pos hbare, hreference', ok_bind]
        exact ⟨_, rfl, rfl, hee⟩
    · rw [← hcall]
      apply Carries.bind_rel hc (fun _ => rfl) hlocal
      rintro call' _ d d' _ _ hcall' rfl hdd
      rw [hcall] at hcall'
      cases hcall'
      dsimp only
      rw [if_neg hbare, if_neg hbare]
      exact .check_bind call dialect d d' (.done hdd fun _ => rfl)

theorem operand?_carries (hn : 3 * c.rest.length < n + 1) :
    Carries tail more c Eq (c.operand? dialect) (c'.operand? dialect) := by
  rw [operand?, operand?]
  apply Carries.bind hc (reference?_carries hc)
  intro r d d' hd _ hdd
  cases r with
  | some r => exact .done hdd fun _ => rfl
  | none =>
    dsimp only
    rw [hdd.token]
    cases d.token.value? with
    | some v =>
      apply Carries.next_bind hdd
      intro e e' _ _ hee
      exact .done hee fun _ => rfl
    | none =>
      apply Carries.eat_bind hdd
      · exact .done hdd fun _ => rfl
      · intro e e' he _ hee
        apply Carries.bind hee (skip_carries hee .space)
        intro _ f f' hf _ hff
        apply Carries.bind hff (ih.expression hff (by omega))
        intro inner g g' _ _ hgg
        apply Carries.expect_bind hgg
        intro i i' _ _ hii
        exact .done hii fun _ => rfl

theorem argument?_carries (hn : 3 * c.rest.length + 1 < n + 1) :
    Carries tail more c Eq (c.argument? dialect) (c'.argument? dialect) := by
  rw [argument?, argument?]
  apply Carries.bind hc (names?_carries hc)
  intro path d d' hd _ hdd
  dsimp only
  split
  · apply Carries.eat_bind hdd
    · exact .done hdd fun _ => rfl
    · intro e e' he _ hee
      apply Carries.bind hee (ih.operand hee (by omega))
      intro value f f' _ _ hff
      cases value with
      | some value => exact .done hff fun _ => rfl
      | none => exact .error
  · exact .done hdd fun _ => rfl
  · apply Carries.bind hdd (ih.operand hdd (by omega))
    intro value e e' _ _ hee
    exact .done hee fun _ => rfl

theorem arguments_carries (hn : 3 * c.rest.length < n + 1) :
    Carries tail more c Eq (c.arguments dialect) (c'.arguments dialect) := by
  rw [arguments, arguments]
  apply Carries.eat_bind hc
  · exact .done hc fun _ => rfl
  · intro d d' hd _ hdd
    apply Carries.bind hdd (ih.argument hdd (by omega))
    intro arg e e' he _ hee
    cases arg with
    | none => exact .done hee fun _ => rfl
    | some arg =>
      apply Carries.bind hee (ih.arguments hee (by omega))
      intro args f f' _ _ hff
      exact .done hff fun _ => rfl

end

theorem localBelow (dialect : Dialect) (tail more : List Char) (n : Nat) :
    LocalBelow dialect tail more n := by
  induction n with
  | zero => constructor <;> (intros; omega)
  | succ n ih =>
    exact {
      call := fun fallback hc hn => call_carries ih hc hn fallback
      expression := fun hc hn => expression_carries ih hc hn
      operand := fun hc hn => operand?_carries ih hc hn
      argument := fun hc hn => argument?_carries ih hc hn
      arguments := fun hc hn => arguments_carries ih hc hn }

end Cursor
end Stencil
